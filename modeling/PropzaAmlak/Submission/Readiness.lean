import PropzaAmlak.Submission.Stranded
import PropzaAmlak.Ejar.Edits

/-! Which contracts an attempt may start from: what the tasks write leaves a complete
contract complete, and who calls `submit_contract` looks at the contract first. -/

namespace Ejar

open Tx

/-- What a caller that has read nothing knows of the contract, and one that has: the
contract as it was at first. -/
abbrev Opening := Option Contract

/-- The tasks that take new values of the form from outside. -/
def Task.takesData : Task → Bool
  | write .. | uploadJob .. => true
  | _ => false

/-- The write empties neither the signed document nor the profile. -/
def RecordWrite.fills : RecordWrite → Prop
  | .contract vals => (∀ doc, vals.signedDoc = some doc → BinaryField.truthy doc) ∧ vals.brokerageProfileId ≠ some none
  | _ => True

/-- A caller that calls `submit_contract` is the attempt of a job, or has found the
contract complete. -/
def Task.mayStart (t : Task) (c : Contract) : Prop := t.submits ∨ c.isReadyToSubmit

def ApiCall.submits : ApiCall → Bool
  | .submitContract _ => true
  | _ => false

/-- For what the tasks do with the contract. -/
def fillingRule (t : Task) : ContractProtocol Opening where
  init := none
  allows opening
    | .write _ u => t.takesData ∨ u.fills
    | .call q _ => q.call.submits → ∃ c, opening = some c ∧ t.mayStart c
    | _ => True
  next opening
    | .read c => opening.or (some c)
    | _ => opening

/-- With what they do with the queue. -/
def startingRule (t : Task) : Protocol World WorldWrite Request Reply Opening where
  init := none
  allows opening
    | .write _ (.record u) => t.takesData ∨ u.fills
    | .write _ (.enqueue job) => job.state = .pending
    | .write v (.setJobState uuid state) => state = .cancelled ∧ ∃ row ∈ v.jobs, row.uuid = uuid ∧ row.waits
    | .call q _ => q.call.submits → ∃ c, opening = some c ∧ t.mayStart c
    | _ => True
  next opening
    | .read v => opening.or (some v.contract)
    | _ => opening

namespace Readiness

variable {t : Task} {env : Env} {α β : Type}

theorem fills_of_plain {u : RecordWrite} (hu : u.plain) : u.fills := by
  cases u with
  | contract vals =>
    obtain ⟨-, -, -, -, hdoc, hprofile⟩ := hu
    exact ⟨by simp [hdoc], hprofile⟩
  | _ => trivial

theorem fills_of_quiet {vals : ContractVals} (hquiet : vals.quiet) : (RecordWrite.contract vals).fills := by
  obtain ⟨-, -, hdoc, hprofile⟩ := hquiet
  exact ⟨by simp [hdoc], hprofile⟩

theorem fillingRule_neutral : Neutral (fillingRule t) (fun opening => ∃ c, opening = some c ∧ t.mayStart c)
    fun _ => True where
  read := by
    rintro opening c ⟨c', rfl, hstart⟩
    exact ⟨trivial, c', rfl, hstart⟩
  commit hopening := ⟨trivial, hopening⟩
  call hopening _ := ⟨fun _ => hopening, hopening⟩
  write hopening hu := ⟨.inr (fills_of_plain hu), hopening⟩

theorem fillingRule_calls : Neutral (fillingRule t) (fun _ => True) fun call => call.submits = false where
  read _ := ⟨trivial, trivial⟩
  commit _ := ⟨trivial, trivial⟩
  call _ hcall := ⟨fun hsubmits => by simp [hcall] at hsubmits, trivial⟩
  write _ hu := ⟨.inr (fills_of_plain hu), trivial⟩

theorem writeContract_fills {I : Opening → Prop} {vals : ContractVals} (hvals : (RecordWrite.contract vals).fills)
    (hread : ∀ opening c, I opening → I (opening.or (some c))) :
    Neutral.keeps (fillingRule t) I (writeContract vals) :=
  fun _ hx => obeys_writeContract fun _ _ => ⟨.inr hvals, trivial, hread _ _ hx⟩

/-- The task keeps to the rule from here, and ends in the phases `I`. -/
abbrev starts (t : Task) (p : TaskProg α) (x : Local World Opening) : Prop :=
  p.obeys WorldWrite.apply (startingRule t) (fun _ _ => True) (fun _ _ => True) x

section

variable {x : Local World Opening}

theorem starts_ret (a : α) : starts t (pure a) x := trivial

theorem starts_userError (message : String) : starts t (userError message : TaskProg α) x := trivial

theorem starts_throw (e : TaskExc) : starts t (throw e : TaskProg α) x := trivial

theorem starts_bind {p : TaskProg α} {f : α → TaskProg β} (hp : starts t p x) (hf : ∀ a y, starts t (f a) y) :
    starts t (p >>= f) x := by
  rw [starts, Prog.obeys_bind]
  exact Prog.obeys_mono (fun a y _ => hf a y) (fun _ _ _ => trivial) hp

theorem starts_get {f : World → TaskProg β}
    (hf : ∀ w, x.reads w → starts t (f w) ⟨some w, x.phase.or (some w.contract)⟩) :
    starts t (Prog.get >>= f) x := by
  rw [starts, Prog.obeys_bind, Prog.obeys_get]
  exact fun w hw => ⟨trivial, hf w hw⟩

theorem starts_writeRecord {vals : ContractVals} (hvals : t.takesData ∨ (RecordWrite.contract vals).fills) :
    starts t (writeRecord vals) x :=
  obeys_writeRecord fun _ _ => ⟨hvals, trivial, trivial⟩

theorem starts_onContract {p : Pipeline α} (hp : p.obeys RecordWrite.apply (fillingRule t) (fun _ _ => True)
    (fun _ _ => True) (x.part World.contract)) : starts t (onContract p) x := by
  have happ : ∀ (u : RecordWrite) (w : World),
      ((WorldWrite.record u).apply w).contract = u.apply w.contract := fun _ _ => rfl
  rw [starts, onContract, Prog.obeys_attempt]
  refine Prog.obeys_zoom (P := fillingRule t) happ ?_ ?_ hp
  · intro opening e e' he hallows
    cases he <;> exact hallows
  · intro opening e e' he
    cases he <;> rfl

theorem starts_within {p : Pipeline α} (hp : Neutral.keeps (fillingRule t) (fun _ => True) p) :
    starts t (onContract p) x :=
  starts_onContract (Prog.obeys_mono (fun _ _ _ => trivial) (fun _ _ _ => trivial) (hp _ trivial))

theorem starts_withDelay {kind : JobKind} {maxRetries : Nat} {uuid : String} :
    starts t (withDelay kind maxRetries uuid) x := by
  refine starts_get fun w _ => ?_
  split
  · exact starts_ret _
  · exact fun v _ => ⟨rfl, trivial⟩

theorem fills_status {vals : ContractVals} (hdoc : vals.signedDoc = none) (hprofile : vals.brokerageProfileId = none) :
    (RecordWrite.contract vals).fills :=
  ⟨by simp [hdoc], by simp [hprofile]⟩

theorem setStatus_starts {new : EjarStatus} : starts t (setStatus new) x :=
  starts_writeRecord (.inr (fills_status rfl rfl))

theorem submitAsync_starts {inst : Installation} {now : Datetime} {uuid : String} :
    starts t (actionSubmitAsync inst now uuid) x := by
  refine starts_get fun w _ => ?_
  unfold validateReadyState
  split
  · change starts t (if (!inst.queueJobAvailable) = true then _ else if hasActiveJob inst w = true then _ else _) _
    split
    · exact starts_userError _
    split
    · exact starts_userError _
    refine starts_bind (starts_writeRecord (.inr (fills_status rfl rfl))) fun _ y => ?_
    rw [starts, Prog.obeys_bind, Prog.obeys_commitNow]
    refine fun v _ => ⟨trivial, ?_⟩
    exact starts_bind starts_withDelay fun _ _ => starts_writeRecord (.inr (fills_status rfl rfl))
  · exact starts_userError _

theorem pollEjarStatus_starts : starts t (onContract (pollEjarStatus env)) x :=
  starts_within (fillingRule_calls.pollEjarStatus (fun _ => rfl) fun _ _ _ hquiet =>
    writeContract_fills (fills_of_quiet hquiet) fun _ _ _ => trivial)

theorem markDeadLetter_starts {reason : String} : starts t (markDeadLetter reason) x :=
  starts_bind (starts_writeRecord (.inr (fills_status rfl rfl))) fun _ _ => starts_get fun _ _ =>
    fun _ _ => ⟨.inr trivial, trivial⟩

theorem executeFullSubmission_starts {c : Contract} (hphase : x.phase = some c) (hstart : t.mayStart c) :
    starts t (onContract (executeFullSubmission env)) x := by
  have hI : Neutral (fillingRule t) (fun opening => ∃ c, opening = some c ∧ t.mayStart c) fun _ => True :=
    fillingRule_neutral
  have hwrite : ∀ {vals : ContractVals}, vals.quiet → Neutral.keeps (fillingRule t)
      (fun opening => ∃ c, opening = some c ∧ t.mayStart c) (writeContract vals) := fun hquiet =>
    writeContract_fills (fills_of_quiet hquiet) fun _ _ ⟨c, hc, hstart⟩ => ⟨c, by simp [hc], hstart⟩
  have hwhole : Neutral.keeps (fillingRule t) (fun opening => ∃ c, opening = some c ∧ t.mayStart c)
      (executeFullSubmission env) := by
    refine Prog.within_bind hI.get fun contract => Prog.within_bind (hwrite ⟨rfl, rfl, rfl, by simp⟩) fun _ => ?_
    exact Prog.within_bind hI.commitNow fun _ =>
      hI.rest (fun _ _ => (hI.weaken fun _ _ => trivial).stepCreateContract fun _ hquiet => hwrite hquiet)
      (fun _ _ hquiet => hwrite hquiet) fun _ _ hquiet => hwrite hquiet
  exact starts_onContract (Prog.obeys_mono (fun _ _ _ => trivial) (fun _ _ _ => trivial)
    (hwhole _ ⟨c, hphase, hstart⟩))

theorem starts_assertNotTerminal {c : Contract} {f : Unit → TaskProg Unit} (hf : starts t (f ()) x) :
    starts t (assertNotTerminal c >>= f) x := by
  unfold assertNotTerminal
  split
  · exact starts_userError _
  · exact hf

theorem starts_validateReadyState {c : Contract} {f : Unit → TaskProg Unit} (hf : starts t (f ()) x) :
    starts t (validateReadyState c >>= f) x := by
  unfold validateReadyState
  split
  · exact hf
  · exact starts_userError _

theorem actions_start : starts t actionStartBuilding x ∧ starts t actionMarkReady x ∧ starts t actionSubmitToEjar x ∧
    starts t actionResetToDraft x ∧ starts t actionCancel x := by
  refine ⟨?_, ?_, ?_, ?_, ?_⟩
  · refine starts_get fun w _ => starts_assertNotTerminal ?_
    split
    · exact starts_userError _
    · exact setStatus_starts
  · refine starts_get fun w _ => starts_assertNotTerminal ?_
    split
    · exact starts_userError _
    · exact starts_validateReadyState setStatus_starts
  · refine starts_get fun w _ => starts_assertNotTerminal ?_
    split
    · exact starts_userError _
    · split
      · exact setStatus_starts
      · exact starts_ret _
  · refine starts_get fun w _ => ?_
    split
    · exact starts_userError _
    · exact setStatus_starts
  · refine starts_get fun w _ => ?_
    split
    · exact starts_userError _
    · exact setStatus_starts

theorem uploadDocWizard_starts {doc : BinaryField} {filename : CharField} :
    starts t (uploadDocWizard doc filename) x := by
  unfold uploadDocWizard
  split
  · exact starts_userError _
  rename_i hdoc
  have hfills : ∀ filename, (RecordWrite.contract { signedDoc := some doc, signedDocFilename := filename }).fills :=
    fun _ => ⟨fun _ h => by simpa [← Option.some.inj h] using hdoc, by simp⟩
  refine starts_get fun w _ => starts_bind (starts_writeRecord (.inr (hfills _))) fun _ y => starts_get fun w _ => ?_
  split
  · exact setStatus_starts
  · exact starts_ret _

theorem isReadyToSubmit_iff {c : Contract} : c.isReadyToSubmit ↔ (missingItems c).isEmpty := by
  simp only [missingItems, Contract.isReadyToSubmit, List.isEmpty_iff, List.append_eq_nil_iff, ite_eq_left_iff,
    List.cons_ne_nil, imp_false, not_not, Bool.and_eq_true, decide_eq_true_iff]
  tauto

theorem submitWizard_starts {inst : Installation} {confirmed : Bool} {uuid : String} (hphase : x.phase = none) :
    starts t (actionConfirmSubmit inst env confirmed uuid) x := by
  refine starts_get fun w _ => ?_
  split
  · exact starts_userError _
  rename_i hmissing
  split
  · exact starts_userError _
  split
  · exact submitAsync_starts
  have hready : w.contract.isReadyToSubmit := isReadyToSubmit_iff.mpr (by simpa using hmissing)
  refine starts_bind (executeFullSubmission_starts (c := w.contract) (by simp [hphase]) (.inr hready))
    fun result y => ?_
  cases result with
  | ok a => exact starts_ret _
  | error e => exact starts_userError _

theorem cancelPendingJob_starts {inst : Installation} : starts t (actionCancelPendingJob inst) x := by
  refine starts_get fun w _ => ?_
  split
  · exact starts_userError _
  split
  · exact starts_userError _
  split
  · exact starts_userError _
  rename_i row hrow
  have hfound := List.find?_some hrow
  simp only [Bool.and_eq_true, decide_eq_true_iff] at hfound
  intro v hv
  obtain rfl : w = v := hv w rfl
  exact ⟨⟨rfl, row, List.mem_of_find?_eq_some hrow, rfl, hfound.2⟩, starts_writeRecord (.inr (fills_status rfl rfl))⟩

theorem checkEjarStatus_starts {inst : Installation} {uuid : String} :
    starts t (actionCheckEjarStatus inst env uuid) x := by
  refine starts_get fun w _ => ?_
  split
  · exact starts_userError _
  split
  · refine starts_bind pollEjarStatus_starts fun result y => ?_
    cases result with
    | ok a => exact starts_ret _
    | error e => exact starts_throw _
  · exact starts_bind starts_withDelay fun _ _ => starts_writeRecord (.inr (fills_status rfl rfl))

theorem cronPoll_starts {inst : Installation} {uuid : String} :
    starts t (cronPollSubmittedContract inst env uuid) x := by
  refine starts_get fun w _ => ?_
  split
  · exact starts_ret _
  split
  · refine starts_bind pollEjarStatus_starts fun result y => ?_
    cases result with
    | ok a => exact starts_writeRecord (.inr (fills_status rfl rfl))
    | error e => exact starts_ret _
  · exact starts_bind starts_withDelay fun _ _ => starts_writeRecord (.inr (fills_status rfl rfl))

theorem cronCleanup_starts {inst : Installation} {excInfo : String} :
    starts t (cronCleanupDeadLetterJob inst excInfo) x := by
  refine starts_get fun w _ => ?_
  split
  · exact starts_ret _
  split
  · exact starts_ret _
  split
  · exact starts_ret _
  · exact markDeadLetter_starts

theorem pollJob_starts : starts t (jobPollEjarStatus env) x := by
  refine starts_get fun w _ => ?_
  split
  · exact starts_ret _
  split
  · exact starts_ret _
  refine starts_bind pollEjarStatus_starts fun result y => ?_
  cases result with
  | ok a => exact starts_writeRecord (.inr (fills_status rfl rfl))
  | error e =>
    dsimp only
    split
    · exact starts_throw _
    · exact starts_throw _

theorem submissionJob_starts (hsubmits : t.submits) (hphase : x.phase = none) :
    starts t (jobExecuteFullSubmission env) x := by
  refine starts_get fun w _ => ?_
  split
  · exact starts_ret _
  refine starts_bind (executeFullSubmission_starts (c := w.contract) (by simp [hphase]) (.inl hsubmits))
    fun result y => ?_
  cases result with
  | ok a => exact starts_writeRecord (.inr (fills_status rfl rfl))
  | error e =>
    dsimp only
    split
    · refine starts_bind (starts_writeRecord (.inr (fills_status rfl rfl))) fun _ y => ?_
      split
      · exact starts_bind markDeadLetter_starts fun _ _ => starts_throw _
      · exact starts_throw _
    · exact starts_throw _

theorem uploadJob_starts {inst : Installation} {doc : List UInt8} {filename uuid : String} {triggerSubmission : Bool}
    (hdata : t.takesData) :
    starts t (jobUploadSignedDocument inst env doc filename triggerSubmission uuid) x := by
  refine starts_get fun w _ => ?_
  split
  · exact starts_throw _
  refine starts_bind (starts_within (Prog.within_bind fillingRule_calls.buildClient fun _ =>
    fillingRule_calls.makeRequest rfl)) fun result y => ?_
  cases result with
  | error e =>
    dsimp only
    split
    · exact starts_throw _
    · exact starts_throw _
  | ok a =>
    refine starts_bind (starts_writeRecord (.inl hdata)) fun _ y => starts_get fun w _ => ?_
    split
    · exact submitAsync_starts
    · exact starts_ret _

theorem webhook_starts {data : WebhookData} {correlationId : String} {now : Datetime} :
    starts t (webhookDelivery data correlationId now) x :=
  starts_bind (starts_within (fillingRule_calls.processEvent fun _ _ _ hquiet =>
    writeContract_fills (fills_of_quiet hquiet) fun _ _ _ => trivial)) fun _ _ => starts_ret _

end

theorem body_starts (inst : Installation) (t : Task) : starts t (t.body inst) ⟨none, none⟩ := by
  cases t with
  | startBuilding => exact actions_start.1
  | markReady => exact actions_start.2.1
  | submitToEjar => exact actions_start.2.2.1
  | resetToDraft => exact actions_start.2.2.2.1
  | cancel => exact actions_start.2.2.2.2
  | uploadDocWizard doc filename => exact uploadDocWizard_starts
  | submitWizard env confirmed uuid => exact submitWizard_starts rfl
  | submitAsync now uuid => exact submitAsync_starts
  | cancelPendingJob => exact cancelPendingJob_starts
  | checkEjarStatus env uuid => exact checkEjarStatus_starts
  | cronPoll env uuid => exact cronPoll_starts
  | cronCleanup excInfo => exact cronCleanup_starts
  | submissionJob job env => exact submissionJob_starts rfl rfl
  | pollJob job env => exact pollJob_starts
  | uploadJob job env doc filename triggerSubmission uuid => exact uploadJob_starts rfl
  | webhook data correlationId now => exact webhook_starts
  | write vals => exact starts_writeRecord (.inl rfl)

end Readiness

end Ejar
