import PropzaAmlak.Ejar.Actions

/-! Protocols for tasks are stated on the contract; what a task does to the queue
is no part of them. The pipeline keeps to every protocol that cares for status
writes and calls only. -/

namespace Ejar

open Tx

variable {τ α β : Type}

abbrev ContractProtocol (τ : Type) := Protocol Contract RecordWrite Request Reply τ

/-- The protocol for tasks that a protocol for the contract is. -/
def onWorld (P : ContractProtocol τ) : Protocol World WorldWrite Request Reply τ where
  init := P.init
  allows phase
    | .read w => P.allows phase (.read w.contract)
    | .write w (.record u) => P.allows phase (.write w.contract u)
    | .write _ _ => True
    | .commit w => P.allows phase (.commit w.contract)
    | .call q r => P.allows phase (.call q r)
  next phase
    | .read w => P.next phase (.read w.contract)
    | .write w (.record u) => P.next phase (.write w.contract u)
    | .write _ _ => phase
    | .commit w => P.next phase (.commit w.contract)
    | .call q r => P.next phase (.call q r)

/-- A task keeps to a protocol for the contract; where it ends is told by the
contract, too. -/
def follows (P : ContractProtocol τ) (p : TaskProg α) (N : α → Local Contract τ → Prop)
    (E : TaskExc → Local Contract τ → Prop) (y : Local Contract τ) : Prop :=
  ∀ x : Local World τ, x.part World.contract = y → p.obeys WorldWrite.apply (onWorld P)
    (fun a z => N a (z.part World.contract)) (fun e z => E e (z.part World.contract)) x

section

variable {P : ContractProtocol τ} {y : Local Contract τ} {E : TaskExc → Local Contract τ → Prop}

theorem follows_ret {a : α} {N : α → Local Contract τ → Prop} (hN : N a y) :
    follows P (.ret a) N E y := by
  rintro x rfl
  exact hN

theorem follows_raise {e : TaskExc} {N : α → Local Contract τ → Prop} (hE : E e y) :
    follows P (.raise e) N E y := by
  rintro x rfl
  exact hE

theorem follows_bind {p : TaskProg α} {f : α → TaskProg β} {N : β → Local Contract τ → Prop}
    (hp : follows P p (fun a z => follows P (f a) N E z) E y) : follows P (p >>= f) N E y := by
  intro x hx
  rw [Prog.obeys_bind]
  exact Prog.obeys_mono (fun a z hz => hz z rfl) (fun _ _ h => h) (hp x hx)

theorem follows_mono {p : TaskProg α} {N N' : α → Local Contract τ → Prop}
    {E' : TaskExc → Local Contract τ → Prop} (hN : ∀ a z, N a z → N' a z)
    (hE : ∀ e z, E e z → E' e z) (hp : follows P p N E y) : follows P p N' E' y :=
  fun x hx => Prog.obeys_mono (fun a _ h => hN a _ h) (fun e _ h => hE e _ h) (hp x hx)

theorem follows_get {N : World → Local Contract τ → Prop}
    (hN : ∀ w : World, y.reads w.contract → P.allows y.phase (.read w.contract) ∧
      N w ⟨some w.contract, P.next y.phase (.read w.contract)⟩) : follows P Prog.get N E y := by
  rintro x rfl w hw
  exact hN w (Local.reads_part hw)

theorem follows_put_job {u : WorldWrite} {N : Unit → Local Contract τ → Prop}
    (hu : ∀ w, (u.apply w).contract = w.contract) (hjob : ∀ v, u ≠ .record v)
    (hN : ∀ c, y.reads c → N () ⟨some c, y.phase⟩) : follows P (Prog.put u) N E y := by
  rintro x rfl w hw
  cases u with
  | record v => exact absurd rfl (hjob v)
  | enqueue job => exact ⟨trivial, hN w.contract (Local.reads_part hw)⟩
  | setJobState uuid state => exact ⟨trivial, hN w.contract (Local.reads_part hw)⟩

theorem follows_put_record {u : RecordWrite} {N : Unit → Local Contract τ → Prop}
    (hN : ∀ c, y.reads c → P.allows y.phase (.write c u) ∧
      N () ⟨some (u.apply c), P.next y.phase (.write c u)⟩) :
    follows P (Prog.put (.record u)) N E y := by
  rintro x rfl w hw
  exact hN w.contract (Local.reads_part hw)

theorem follows_onContract {p : Pipeline α} {N : Except Exc α → Local Contract τ → Prop}
    (hp : p.obeys RecordWrite.apply P (fun a z => N (.ok a) z) (fun e z => N (.error e) z) y) :
    follows P (onContract p) N E y := by
  rintro x rfl
  rw [onContract, Prog.obeys_attempt]
  have happ : ∀ (u : RecordWrite) (w : World),
      ((WorldWrite.record u).apply w).contract = u.apply w.contract := fun _ _ => rfl
  refine Prog.obeys_zoom (P := P) happ ?_ ?_ hp
  · intro t e e' he hallows
    cases he <;> exact hallows
  · intro t e e' he
    cases he <;> rfl

theorem obeys_writeContract {vals : ContractVals} {N : Unit → Local Contract τ → Prop}
    {E : Exc → Local Contract τ → Prop}
    (hwrite : ∀ c, y.reads c → P.allows y.phase (.write c (.contract vals)) ∧
      P.allows (P.next y.phase (.write c (.contract vals))) (.read (c.set vals)) ∧
      N () ⟨some (c.set vals), P.next (P.next y.phase (.write c (.contract vals))) (.read (c.set vals))⟩) :
    (writeContract vals).obeys RecordWrite.apply P N E y := by
  rw [writeContract, Prog.obeys_bind, Prog.obeys_put]
  intro c hc
  obtain ⟨hallows, hread, hN⟩ := hwrite c hc
  refine ⟨hallows, ?_⟩
  rw [Prog.obeys_bind, Prog.obeys_get]
  intro c' hc'
  obtain rfl : c.set vals = c' := hc' _ rfl
  refine ⟨hread, ?_⟩
  simpa only [checkStateTransition_ok, ite_self, Prog.ofExcept, Prog.obeys_ret] using hN

theorem follows_writeRecord {vals : ContractVals} {N : Unit → Local Contract τ → Prop}
    (hwrite : ∀ c, y.reads c → P.allows y.phase (.write c (.contract vals)) ∧
      P.allows (P.next y.phase (.write c (.contract vals))) (.read (c.set vals)) ∧
      N () ⟨some (c.set vals), P.next (P.next y.phase (.write c (.contract vals))) (.read (c.set vals))⟩) :
    follows P (writeRecord vals) N E y := by
  refine follows_bind (follows_onContract (obeys_writeContract fun c hc => ?_))
  obtain ⟨hallows, hread, hN⟩ := hwrite c hc
  exact ⟨hallows, hread, follows_ret hN⟩

end

section

variable {Q : Protocol World WorldWrite Request Reply τ} {x : Local World τ}

/-- The write of a task with its reading back, for protocols that look at the whole
world. -/
theorem obeys_writeRecord {vals : ContractVals} {N : Unit → Local World τ → Prop}
    {E : TaskExc → Local World τ → Prop}
    (hwrite : ∀ w, x.reads w → Q.allows x.phase (.write w (.record (.contract vals))) ∧
      Q.allows (Q.next x.phase (.write w (.record (.contract vals))))
        (.read { w with contract := w.contract.set vals }) ∧
      N () ⟨some { w with contract := w.contract.set vals },
        Q.next (Q.next x.phase (.write w (.record (.contract vals))))
          (.read { w with contract := w.contract.set vals })⟩) :
    (writeRecord vals).obeys WorldWrite.apply Q N E x := by
  intro w hw
  obtain ⟨hallows, hread, hN⟩ := hwrite w hw
  refine ⟨hallows, fun w' hw' => ?_⟩
  obtain rfl : { w with contract := w.contract.set vals } = w' := hw' _ rfl
  refine ⟨hread, ?_⟩
  simp only [checkStateTransition_ok, ite_self, Prog.ofExcept, Prog.zoom, Prog.attempt, Prog.bind, orRaise]
  exact hN

end

/-- What only actions and the methods around a job write is not among the values, and
the profile is not emptied. -/
def ContractVals.quiet (vals : ContractVals) : Prop :=
  vals.activeJobUuid = none ∧ vals.jobLastError = none ∧ vals.signedDoc = none ∧
    vals.brokerageProfileId ≠ some none

/-- The write sets neither the status of the contract nor its remote id, and is
quiet. -/
def RecordWrite.plain : RecordWrite → Prop
  | .contract vals => vals.ejarStatus = none ∧ vals.ejarContractId = none ∧ vals.quiet
  | .activity _ => False
  | _ => True

/-- A call of the steps before the financial information. -/
def ApiCall.registers : ApiCall → Prop
  | .addFinancialInformation _ _ => False
  | .addRentalFee _ _ => False
  | .submitContract _ => False
  | .getContract _ => False
  | _ => True

theorem entityCall_registers {party : Party} {call : ApiCall} (h : entityCall party = .ok call) : call.registers := by
  rcases entityCall_cases h with ⟨attrs, rfl⟩ | ⟨attrs, rfl⟩
  · trivial
  · trivial

/-- In the phases `I` the protocol lets a caller do all plain writes, and make the
calls `C`. -/
structure Neutral (P : ContractProtocol τ) (I : τ → Prop) (C : ApiCall → Prop) : Prop where
  read : ∀ {t c}, I t → P.allows t (.read c) ∧ I (P.next t (.read c))
  write : ∀ {t c u}, I t → RecordWrite.plain u →
    P.allows t (.write c u) ∧ I (P.next t (.write c u))
  commit : ∀ {t c}, I t → P.allows t (.commit c) ∧ I (P.next t (.commit c))
  call : ∀ {t q r}, I t → C q.call → P.allows t (.call q r) ∧ I (P.next t (.call q r))

namespace Neutral

variable {P : ContractProtocol τ} {I : τ → Prop} {C : ApiCall → Prop} {client : Nat} {id : String} {i : Nat} {env : Env}

theorem weaken {C' : ApiCall → Prop} (hI : Neutral P I C) (hC : ∀ call, C' call → C call) :
    Neutral P I C' :=
  ⟨hI.read, hI.write, hI.commit, fun ht hcall => hI.call ht (hC _ hcall)⟩

/-- `p` is allowed from any phase in `I`, and ends in one. -/
abbrev keeps (P : ContractProtocol τ) (I : τ → Prop) (p : Pipeline α) : Prop :=
  p.within RecordWrite.apply P I

theorem get (hI : Neutral P I C) : keeps P I Prog.get := fun _ hx _ _ => hI.read hx

theorem put (hI : Neutral P I C) {u : RecordWrite} (hu : u.plain) : keeps P I (Prog.put u) :=
  fun _ hx _ _ => hI.write hx hu

theorem commitNow (hI : Neutral P I C) : keeps P I Prog.commitNow := fun _ hx _ _ => hI.commit hx

theorem pure (a : α) : keeps P I (Pure.pure a : Pipeline α) := fun _ hx => hx

theorem raise (e : Exc) : keeps P I (throw e : Pipeline α) := fun _ hx => hx

theorem writeContract (hI : Neutral P I C) {vals : ContractVals} (hstatus : vals.ejarStatus = none)
    (hid : vals.ejarContractId = none) (hquiet : vals.quiet) : keeps P I (Ejar.writeContract vals) :=
  Prog.within_bind (hI.put ⟨hstatus, hid, hquiet⟩) fun _ => Prog.within_bind hI.get fun _ => Prog.within_ofExcept _

theorem makeRequest (hI : Neutral P I C) {call : ApiCall} (hcall : C call) :
    keeps P I (Ejar.makeRequest client call) := by
  have hrequest : keeps P I (Prog.request ⟨client, call⟩) := fun x hx =>
    ⟨(hI.call hx hcall).1, fun _ => hI.call hx hcall⟩
  exact Prog.within_bind hrequest fun _ => Prog.within_ofExcept _

theorem exceptConflict {p : Pipeline α} {handler : Exc → Pipeline α} (hp : keeps P I p)
    (hhandler : ∀ e, keeps P I (handler e)) : keeps P I (Ejar.exceptConflict p handler) := by
  refine Prog.within_tryCatch hp fun e => ?_
  split
  · exact hhandler e
  · exact raise e

theorem resolveProfile (hI : Neutral P I C) : keeps P I (Ejar.resolveProfile env) := by
  have hfind : keeps P I (findProfile env) := by
    refine Prog.within_bind hI.get fun contract => ?_
    split
    · exact pure _
    · exact Prog.within_bind (hI.writeContract rfl rfl ⟨rfl, rfl, rfl, by simp⟩) fun _ => pure _
    · exact pure _
  refine Prog.within_bind hfind fun profile => Prog.within_bind hI.get fun contract => ?_
  cases profile with
  | none => exact raise _
  | some profile => exact Prog.within_bind (Prog.within_ofExcept _) fun _ => pure _

theorem buildClient (hI : Neutral P I C) : keeps P I (Ejar.buildClient env) :=
  Prog.within_bind hI.get fun _ => Prog.within_bind (Prog.within_ofExcept _) fun _ => pure _

theorem stepCreateEntity (hI : Neutral P I ApiCall.registers) : keeps P I (Ejar.stepCreateEntity client i) := by
  refine Prog.within_bind hI.get fun contract => ?_
  cases hcall : entityCall (contract.partyIds.row i) with
  | error e => exact raise e
  | ok call =>
    simp only [Prog.ofExcept, Prog.ret_bind]
    refine Prog.within_bind (exceptConflict (hI.makeRequest (entityCall_registers hcall)) fun e => ?_) fun resp => ?_
    · refine Prog.within_bind (Prog.within_ofExcept (existingId e)) fun entityId => ?_
      split
      · exact pure _
      · exact raise e
    · exact Prog.within_bind (Prog.within_ofExcept (respId resp)) fun entityId => hI.put trivial

theorem resolvePartyEntities (hI : Neutral P I ApiCall.registers) : keeps P I (Ejar.resolvePartyEntities client) := by
  refine Prog.within_bind hI.get fun contract => Prog.within_forEach (fun i => ?_) _
  refine Prog.within_bind hI.get fun contract => ?_
  split
  · exact pure _
  · exact hI.stepCreateEntity

theorem stepCreateContract (hI : Neutral P I ApiCall.registers) {profile : BrokerageProfile}
    (hid : ∀ {vals}, vals.ejarStatus = none → vals.quiet → keeps P I (Ejar.writeContract vals)) :
    keeps P I (Ejar.stepCreateContract client profile) := by
  refine Prog.within_bind hI.get fun contract => ?_
  split
  · exact pure _
  refine Prog.within_bind (Prog.within_ofExcept _) fun attrs => ?_
  refine Prog.within_bind (exceptConflict (hI.makeRequest trivial) fun e => ?_) fun resp => ?_
  · refine Prog.within_bind (Prog.within_ofExcept _) fun ejarId => ?_
    split
    · exact pure _
    · exact raise e
  refine Prog.within_bind (Prog.within_ofExcept _) fun ejarId => ?_
  refine Prog.within_bind (Prog.within_ofExcept _) fun data => ?_
  refine Prog.within_bind (Prog.within_ofExcept _) fun attrsResp => ?_
  refine Prog.within_bind (Prog.within_ofExcept _) fun ejarNumber => ?_
  exact Prog.within_bind (hid rfl ⟨rfl, rfl, rfl, by simp⟩) fun _ => pure _

theorem returnedId (hI : Neutral P I C) {call : ApiCall} (hcall : C call) : keeps P I (do
    let resp ← Ejar.makeRequest client call
    Pure.pure (respId resp)) :=
  Prog.within_bind (hI.makeRequest hcall) fun _ => pure _

theorem attachUnits (hI : Neutral P I ApiCall.registers) : keeps P I (Ejar.attachUnits client id) := by
  refine Prog.within_bind hI.get fun contract => Prog.within_forEach (fun i => ?_) _
  refine Prog.within_bind hI.get fun contract => ?_
  dsimp only
  split
  · exact pure _
  split
  · exact raise _
  refine Prog.within_bind (exceptConflict (hI.returnedId trivial) fun e => pure _) fun linked => ?_
  exact Prog.within_bind (Prog.within_ofExcept _) fun linkedId => hI.put trivial

theorem addParties (hI : Neutral P I ApiCall.registers) : keeps P I (Ejar.addParties client id) := by
  refine Prog.within_bind hI.get fun contract => Prog.within_forEach (fun i => ?_) _
  refine Prog.within_bind hI.get fun contract => ?_
  dsimp only
  split
  · exact pure _
  split
  · exact raise _
  refine Prog.within_bind (Prog.within_ofExcept _) fun attrs => ?_
  refine Prog.within_bind (exceptConflict (hI.returnedId trivial) fun e => pure _) fun linked => ?_
  exact Prog.within_bind (Prog.within_ofExcept _) fun linkedId => hI.put trivial

theorem uploadProxyDocs (hI : Neutral P I ApiCall.registers) : keeps P I (Ejar.uploadProxyDocs client id) := by
  refine Prog.within_bind hI.get fun contract => Prog.within_forEach (fun i => ?_) _
  refine Prog.within_bind hI.get fun contract => ?_
  split
  · refine Prog.within_bind hI.get fun contract => ?_
    dsimp only
    split
    · exact pure _
    split
    · exact pure _
    refine Prog.within_bind (hI.makeRequest trivial) fun resp => ?_
    exact Prog.within_bind (Prog.within_ofExcept _) fun docId => hI.put trivial
  · exact pure _

theorem stepUploadSignedDoc (hI : Neutral P I ApiCall.registers) : keeps P I (Ejar.stepUploadSignedDoc client id) := by
  refine Prog.within_bind hI.get fun contract => ?_
  split
  · exact raise _
  · exact Prog.within_bind (hI.makeRequest trivial) fun _ => pure _

theorem ignoredConflict (hI : Neutral P I fun _ => True) {call : ApiCall} : keeps P I (Ejar.exceptConflict
    (do
      let _ ← Ejar.makeRequest client call
      Pure.pure ())
    fun _ => Pure.pure ()) :=
  exceptConflict (Prog.within_bind (hI.makeRequest trivial) fun _ => pure _) fun _ => pure _

theorem stepAddFinancialInfo (hI : Neutral P I fun _ => True) : keeps P I (Ejar.stepAddFinancialInfo client id) :=
  Prog.within_bind hI.get fun _ => Prog.within_bind (Prog.within_ofExcept _) fun _ => hI.ignoredConflict

theorem stepAddRentalFee (hI : Neutral P I fun _ => True) {profile : BrokerageProfile} :
    keeps P I (Ejar.stepAddRentalFee client profile id) := by
  refine Prog.within_bind hI.get fun contract => ?_
  split
  · exact pure _
  · exact hI.ignoredConflict

theorem stepSubmit (hI : Neutral P I fun _ => True) : keeps P I (Ejar.stepSubmit client id) :=
  Prog.within_bind (hI.makeRequest trivial) fun _ => Prog.within_bind (Prog.within_ofExcept _) fun _ => pure _

theorem then_ {p : Pipeline α} {f : α → Pipeline β} {N : β → Local Contract τ → Prop}
    {E : Exc → Local Contract τ → Prop} {x : Local Contract τ} (hp : keeps P I p) (hx : I x.phase)
    (hE : ∀ e y, I y.phase → E e y)
    (hf : ∀ a y, I y.phase → (f a).obeys RecordWrite.apply P N E y) :
    (p >>= f).obeys RecordWrite.apply P N E x := by
  rw [Prog.obeys_bind]
  exact Prog.obeys_mono hf hE (hp x hx)

theorem runPipeline (hI : Neutral P I fun _ => True)
    (hcreate : ∀ client profile, keeps P I (Ejar.stepCreateContract client profile))
    {N : SubmissionResult → Local Contract τ → Prop}
    {E : Exc → Local Contract τ → Prop} {x : Local Contract τ} (hx : I x.phase)
    (hE : ∀ e y, I y.phase → E e y)
    (hfinalize : ∀ id y, I y.phase → (finalize env id).obeys RecordWrite.apply P N E y) :
    (Ejar.runPipeline env).obeys RecordWrite.apply P N E x := by
  have hregisters : Neutral P I ApiCall.registers := hI.weaken fun _ _ => trivial
  refine then_ hI.resolveProfile hx hE fun profile y hy => ?_
  refine then_ hI.buildClient hy hE fun client y hy => ?_
  refine then_ hregisters.resolvePartyEntities hy hE fun _ y hy => ?_
  refine then_ hI.commitNow hy hE fun _ y hy => ?_
  refine then_ (hcreate client profile) hy hE fun id y hy => ?_
  refine then_ hI.commitNow hy hE fun _ y hy => ?_
  refine then_ hregisters.attachUnits hy hE fun _ y hy => ?_
  refine then_ hI.commitNow hy hE fun _ y hy => ?_
  refine then_ hregisters.addParties hy hE fun _ y hy => ?_
  refine then_ hI.commitNow hy hE fun _ y hy => ?_
  refine then_ hregisters.uploadProxyDocs hy hE fun _ y hy => ?_
  refine then_ hI.commitNow hy hE fun _ y hy => ?_
  refine then_ hregisters.stepUploadSignedDoc hy hE fun _ y hy => ?_
  refine then_ hI.commitNow hy hE fun _ y hy => ?_
  refine then_ hI.stepAddFinancialInfo hy hE fun _ y hy => ?_
  refine then_ hI.commitNow hy hE fun _ y hy => ?_
  refine then_ hI.stepAddRentalFee hy hE fun _ y hy => ?_
  refine then_ hI.commitNow hy hE fun _ y hy => ?_
  exact then_ hI.stepSubmit hy hE fun _ y hy => hfinalize id y hy

theorem rest (hI : Neutral P I fun _ => True)
    (hcreate : ∀ client profile, keeps P I (Ejar.stepCreateContract client profile)) (hsubmitted : ∀ {vals},
      vals.ejarStatus = some .submitted → vals.ejarContractId = none → vals.quiet →
      keeps P I (Ejar.writeContract vals)) (hready : ∀ {vals}, vals.ejarStatus = some .ready →
      vals.ejarContractId = none → vals.quiet → keeps P I (Ejar.writeContract vals)) :
    keeps P I ((Ejar.runPipeline env).tryCatch fun exc => do
      Ejar.writeContract { ejarStatus := some .ready, submitError := some (some (exc.cut 2048)) }
      Prog.commitNow
      throw exc) := by
  have hfinalize : ∀ id, keeps P I (finalize env id) := fun id =>
    Prog.within_bind (hsubmitted rfl rfl ⟨rfl, rfl, rfl, by simp⟩) fun _ => Prog.within_bind hI.commitNow
      fun _ => Prog.within_bind hI.get fun _ => pure _
  have hpipeline : keeps P I (Ejar.runPipeline env) := fun x hx =>
    hI.runPipeline hcreate hx (fun _ _ hy => hy) fun id z hz => hfinalize id z hz
  refine Prog.within_tryCatch hpipeline fun exc => ?_
  refine Prog.within_bind (hready rfl rfl ⟨rfl, rfl, rfl, by simp⟩) fun _ => ?_
  exact Prog.within_bind hI.commitNow fun _ => raise exc

theorem stateMap_ok {v : Json} {new : EjarStatus} (h : stateMap v = .ok (some new)) :
    new = .approved ∨ new = .expired ∨ new = .cancelled ∨ new = .rejected := by
  unfold stateMap at h
  split at h <;> simp_all

theorem pollContractStatus (hI : Neutral P I C) (hcall : ∀ id, C (.getContract id)) :
    keeps P I (Ejar.pollContractStatus env) := by
  refine Prog.within_bind hI.get fun contract => ?_
  split
  · exact pure _
  refine Prog.within_bind hI.buildClient fun client => ?_
  refine Prog.within_bind (hI.makeRequest (hcall _)) fun response => ?_
  refine Prog.within_bind (Prog.within_ofExcept _) fun data => ?_
  refine Prog.within_bind (Prog.within_ofExcept _) fun attrs => ?_
  refine Prog.within_bind (Prog.within_ofExcept _) fun ejarState => ?_
  refine Prog.within_bind (Prog.within_ofExcept _) fun ejarNumber => ?_
  exact Prog.within_bind (Prog.within_ofExcept _) fun rejectionReason => pure _

theorem pollDetails (hI : Neutral P I C) {new : EjarStatus} {result : PollResult} :
    keeps P I (Ejar.pollDetails new result) := by
  unfold Ejar.pollDetails
  split
  · exact hI.writeContract rfl rfl ⟨rfl, rfl, rfl, by simp⟩
  · split
    · exact hI.writeContract rfl rfl ⟨rfl, rfl, rfl, by simp⟩
    · exact pure _
  · exact pure _

/-- A poll, where the statuses that Ejar may report can be written. -/
theorem pollEjarStatus (hI : Neutral P I C) (hcall : ∀ id, C (.getContract id)) (hstatus : ∀ {vals new},
      vals.ejarStatus = some new → (new = .approved ∨ new = .expired ∨ new = .cancelled ∨ new = .rejected) →
      vals.ejarContractId = none → vals.quiet → keeps P I (Ejar.writeContract vals)) :
    keeps P I (Ejar.pollEjarStatus env) := by
  refine Prog.within_bind (hI.pollContractStatus hcall) fun result => ?_
  refine Prog.within_bind hI.get fun contract => ?_
  refine Prog.within_bind (hI.writeContract rfl rfl ⟨rfl, rfl, rfl, by simp⟩) fun _ => ?_
  cases hmap : stateMap result.ejarState with
  | error e => exact raise e
  | ok newStatus =>
    cases newStatus with
    | none => exact pure _
    | some newStatus =>
      simp only [Prog.ofExcept, Prog.ret_bind]
      split
      · exact pure _
      · exact Prog.within_bind hI.pollDetails fun _ => hstatus rfl (stateMap_ok hmap) rfl ⟨rfl, rfl, rfl, by simp⟩

/-- A webhook, where the statuses that it may report can be written. -/
theorem processEvent (hI : Neutral P I C) {data : WebhookData} {correlationId : String} {now : Datetime}
    (hstatus : ∀ {vals new}, vals.ejarStatus = some new → (new = .approved ∨ new = .rejected) →
      vals.ejarContractId = none → vals.quiet → keeps P I (Ejar.writeContract vals)) :
    keeps P I (Ejar.processEvent data correlationId now) := by
  have hparty : ∀ partyData, keeps P I (acknowledgeParty partyData) := fun partyData =>
    Prog.within_bind (Prog.within_ofExcept _) fun _ => Prog.within_bind hI.get fun _ =>
      Prog.within_forEach (fun _ => hI.put (by exact trivial)) _
  have hhandler : ∀ {handler}, webhookHandler data = .ok handler → keeps P I handler := by
    intro handler hhandler
    unfold webhookHandler at hhandler
    split at hhandler
    all_goals cases hhandler
    · exact hstatus rfl (.inl rfl) rfl ⟨rfl, rfl, rfl, by simp⟩
    · exact hstatus rfl (.inr rfl) rfl ⟨rfl, rfl, rfl, by simp⟩
    · exact Prog.within_bind (Prog.within_ofExcept _) fun _ => Prog.within_forEach hparty _
    · exact pure _
    · exact pure _
  rw [Ejar.processEvent]
  cases hlookup : webhookHandler data with
  | error e => exact raise e
  | ok handler =>
    simp only [Prog.ofExcept, Prog.ret_bind]
    exact Prog.within_bind (hhandler hlookup) fun _ => hI.writeContract rfl rfl ⟨rfl, rfl, rfl, by simp⟩

end Neutral

end Ejar
