import PropzaAmlak.Ejar.TaskRules

/-! The tasks that submit a contract, for protocols that mind what the attempt does and
little of what is done around it. -/

namespace Ejar

open Tx

variable {τ α β : Type} {P : ContractProtocol τ} {y : Local Contract τ} {env : Env}

/-- The task keeps to the protocol from here, wherever it ends. -/
abbrev keepsTo (P : ContractProtocol τ) (p : TaskProg α) (y : Local Contract τ) : Prop :=
  follows P p (fun _ _ => True) (fun _ _ => True) y

theorem keepsTo_ret (a : α) : keepsTo P (pure a) y := follows_ret trivial

theorem keepsTo_throw (e : TaskExc) : keepsTo P (throw e : TaskProg α) y := follows_raise trivial

theorem keepsTo_userError (message : String) : keepsTo P (userError message : TaskProg α) y := follows_raise trivial

theorem keepsTo_bind {p : TaskProg α} {f : α → TaskProg β} (hp : keepsTo P p y) (hf : ∀ a z, keepsTo P (f a) z) :
    keepsTo P (p >>= f) y :=
  follows_bind (follows_mono (fun a z _ => hf a z) (fun _ _ _ => trivial) hp)

theorem keepsTo_onContract {I : τ → Prop} {p : Pipeline α} (hp : Neutral.keeps P I p) (hy : I y.phase) :
    keepsTo P (onContract p) y :=
  follows_onContract (Prog.obeys_mono (fun _ _ _ => trivial) (fun _ _ _ => trivial) (hp y hy))

/-- The contract may be read and committed at any time, and the values `Ok` written. -/
structure Lenient (P : ContractProtocol τ) (Ok : ContractVals → Prop) : Prop where
  read : ∀ {t c}, P.allows t (.read c)
  commit : ∀ {t c}, P.allows t (.commit c)
  write : ∀ {t c vals}, Ok vals → P.allows t (.write c (.contract vals))
  activity : ∀ {t c note}, P.allows t (.write c (.activity note))

/-- What is written around an attempt: no remote id, and no status but 'ready'. -/
def ContractVals.aside (vals : ContractVals) : Prop :=
  vals.ejarContractId = none ∧ (vals.ejarStatus = none ∨ vals.ejarStatus = some .ready)

namespace Lenient

variable {Ok : ContractVals → Prop} {vals : ContractVals}

theorem get (hP : Lenient P Ok) {f : World → TaskProg β}
    (hf : ∀ w, y.reads w.contract → keepsTo P (f w) ⟨some w.contract, P.next y.phase (.read w.contract)⟩) :
    keepsTo P (Prog.get >>= f) y :=
  follows_bind (follows_get fun w hw => ⟨hP.read, hf w hw⟩)

theorem writeRecord (hP : Lenient P Ok) (hvals : Ok vals) : keepsTo P (Ejar.writeRecord vals) y :=
  follows_writeRecord fun _ _ => ⟨hP.write hvals, hP.read, trivial⟩

theorem markDeadLetter (hP : Lenient P Ok) (haside : ∀ {vals}, vals.aside → Ok vals) {reason : String} :
    keepsTo P (Ejar.markDeadLetter reason) y := by
  refine keepsTo_bind (hP.writeRecord (haside ⟨rfl, .inr rfl⟩)) fun _ _ => hP.get fun w _ => ?_
  exact follows_put_record fun c _ => ⟨hP.activity, trivial⟩

theorem withDelay (hP : Lenient P Ok) {kind : JobKind} {maxRetries : Nat} {uuid : String} :
    keepsTo P (Ejar.withDelay kind maxRetries uuid) y := by
  refine hP.get fun w _ => ?_
  split
  · exact keepsTo_ret _
  · refine keepsTo_bind ?_ fun _ _ => keepsTo_ret _
    exact follows_put_job (fun _ => rfl) (fun _ => by simp) fun _ _ => trivial

theorem validateReadyState (c : Contract) : keepsTo P (Ejar.validateReadyState c) y := by
  unfold Ejar.validateReadyState
  split
  · exact keepsTo_ret _
  · exact keepsTo_userError _

theorem submitAsync (hP : Lenient P Ok) (hok : ∀ {vals}, vals.ejarContractId = none →
      vals.ejarStatus = none ∨ vals.ejarStatus = some .submitting → Ok vals)
    {inst : Installation} {now : Datetime} {uuid : String} : keepsTo P (actionSubmitAsync inst now uuid) y := by
  refine hP.get fun w _ => keepsTo_bind (validateReadyState w.contract) fun _ z => ?_
  split
  · exact keepsTo_userError _
  split
  · exact keepsTo_userError _
  have hcommit : ∀ z, keepsTo P Prog.commitNow z := fun _ _ _ _ _ => ⟨hP.commit, trivial⟩
  refine keepsTo_bind (hP.writeRecord (hok rfl (.inr rfl))) fun _ z => keepsTo_bind (hcommit z) fun _ z => ?_
  exact keepsTo_bind hP.withDelay fun _ z => hP.writeRecord (hok rfl (.inl rfl))

theorem handleSubmissionExc (hP : Lenient P Ok) (haside : ∀ {vals}, vals.aside → Ok vals) {exc : Exc} :
    keepsTo P (Ejar.handleSubmissionExc exc) y := by
  refine keepsTo_bind (hP.writeRecord (haside ⟨rfl, .inl rfl⟩)) fun _ z => ?_
  split
  · exact keepsTo_bind (hP.markDeadLetter haside) fun _ _ => keepsTo_throw _
  · exact keepsTo_throw _

/-- The job, where the attempt may be made on what it has read. -/
theorem submissionJob (hP : Lenient P Ok) (haside : ∀ {vals}, vals.aside → Ok vals)
    (hattempt : ∀ w : World, ¬(w.contract.ejarStatus = .submitted ∨ w.contract.ejarStatus = .approved) →
      keepsTo P (onContract (executeFullSubmission env)) ⟨some w.contract, P.next y.phase (.read w.contract)⟩) :
    keepsTo P (jobExecuteFullSubmission env) y := by
  refine hP.get fun w _ => ?_
  split
  · exact keepsTo_ret _
  rename_i hguard
  refine keepsTo_bind (hattempt w hguard) fun result z => ?_
  cases result with
  | ok _ => exact hP.writeRecord (haside ⟨rfl, .inl rfl⟩)
  | error exc =>
    dsimp only
    split
    · exact hP.handleSubmissionExc haside
    · exact keepsTo_throw _

/-- The wizard, where it makes the attempt itself and where it enqueues one. -/
theorem submitWizard (hP : Lenient P Ok) {inst : Installation} {confirmed : Bool} {uuid : String}
    (hattempt : ∀ w : World, (missingItems w.contract).isEmpty → confirmed → inst.queueJobInstalled = false →
      keepsTo P (onContract (executeFullSubmission env)) ⟨some w.contract, P.next y.phase (.read w.contract)⟩)
    (hasync : ∀ z, inst.queueJobInstalled → keepsTo P (actionSubmitAsync inst env.now uuid) z) :
    keepsTo P (actionConfirmSubmit inst env confirmed uuid) y := by
  refine hP.get fun w _ => ?_
  split
  · exact keepsTo_userError _
  rename_i hcomplete
  split
  · exact keepsTo_userError _
  rename_i hconfirmed
  split
  · rename_i hinstalled
    exact hasync _ hinstalled
  rename_i hmissing
  refine keepsTo_bind (hattempt w (by simpa using hcomplete) (by simpa using hconfirmed) (by simpa using hmissing))
    fun result z => ?_
  cases result with
  | ok _ => exact keepsTo_ret _
  | error exc => exact keepsTo_userError _

end Lenient

end Ejar
