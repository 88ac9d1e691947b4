import PropzaAmlak.Ejar.SubmitRules

/-! Which writers of `ejar_status` keep to the table that the constraint is to
enforce. -/

namespace Ejar

open Tx

abbrev TaskMove := Move World WorldWrite Request Reply TaskExc Unit Task

/-- The step is a `write(vals)` to the contract as it is then, `c`. -/
def writesTo (mv : TaskMove) (c : Contract) (vals : ContractVals) : Prop :=
  ∃ w : World, w.contract = c ∧ mv.label = .effect (.write w (.record (.contract vals)))

def InTable (c : Contract) (vals : ContractVals) : Prop :=
  ∀ new, vals.ejarStatus = some new → new = c.ejarStatus ∨ new ∈ allowed c.ejarStatus

/-- A write outside the table is refused. -/
def Enforced (c : Contract) (vals : ContractVals) : Prop :=
  ¬ InTable c vals → ∃ e, c.write vals = .error e ∧ e.cls = .validationError

theorem enforced_iff (c : Contract) (vals : ContractVals) : Enforced c vals ↔ InTable c vals := by
  simp [Enforced]

/-- The changes that a task's own checks let it write. -/
def Task.mayWrite : Task → EjarStatus → EjarStatus → Prop
  | startBuilding, old, new => old = .draft ∧ new = .building
  | markReady, old, new => old = .building ∧ new = .ready
  | submitToEjar, old, new => old = .building ∧ new = .ready
  | resetToDraft, old, new => old = .rejected ∧ new = .draft
  | cancel, old, new => old.terminal = false ∧ new = .cancelled
  | uploadDocWizard .., old, new => old = .building ∧ new = .ready
  | submitWizard .., _, new => new = .submitting ∨ new = .submitted ∨ new = .ready
  | submissionJob .., _, new => new = .submitting ∨ new = .submitted ∨ new = .ready
  | submitAsync .., _, new => new = .submitting
  | uploadJob .., _, new => new = .submitting
  | cancelPendingJob, _, new => new = .ready
  | checkEjarStatus .., _, new => new = .approved ∨ new = .expired ∨ new = .cancelled ∨ new = .rejected
  | cronPoll .., _, new => new = .approved ∨ new = .expired ∨ new = .cancelled ∨ new = .rejected
  | pollJob .., _, new => new = .approved ∨ new = .expired ∨ new = .cancelled ∨ new = .rejected
  | cronCleanup .., old, new => old = .submitting ∧ new = .ready
  | webhook .., _, new => new = .approved ∨ new = .rejected
  | write .., _, _ => True

/-- The calls a task may make. -/
def Task.mayCall : Task → ApiCall → Prop
  | submitWizard .., _ => True
  | submissionJob .., _ => True
  | checkEjarStatus .., .getContract _ => True
  | cronPoll .., .getContract _ => True
  | pollJob .., .getContract _ => True
  | uploadJob .., .uploadSignedDocument .. => True
  | _, _ => False

/-- The tasks that may store a remote id. -/
def Task.mayLink : Task → Prop
  | submitWizard .. => True
  | submissionJob .. => True
  | write vals => vals.ejarContractId.isSome
  | _ => False

/-- The changes of status and the calls that are allowed, and whether a remote id may
be stored. -/
structure Limits where
  status : EjarStatus → EjarStatus → Prop
  call : ApiCall → Prop
  link : Prop

def Task.limits (t : Task) : Limits := ⟨t.mayWrite, t.mayCall, t.mayLink⟩

/-- What may be written over any status. -/
def Limits.anywhere (ok : Limits) (vals : ContractVals) : Prop :=
  (∀ old new, vals.ejarStatus = some new → ok.status old new) ∧ vals.ejarContractId = none

/-- The status a submission, a poll, a cancellation or a webhook has to find for
what it writes to be in the table. The other writers of the addon look before
they write. -/
def Task.fits : Task → EjarStatus → EjarStatus → Prop
  | cancel, old, _ => old ≠ .submitting
  | submitWizard .., old, .submitting => old = .ready ∨ old = .submitting
  | submitWizard .., old, .submitted => old = .submitting ∨ old = .submitted
  | submitWizard .., old, _ => old = .building ∨ old = .ready ∨ old = .submitting
  | submissionJob .., old, .submitting => old = .ready ∨ old = .submitting
  | submissionJob .., old, .submitted => old = .submitting ∨ old = .submitted
  | submissionJob .., old, _ => old = .building ∨ old = .ready ∨ old = .submitting
  | submitAsync .., old, _ => old = .ready ∨ old = .submitting
  | uploadJob .., old, _ => old = .ready ∨ old = .submitting
  | cancelPendingJob, old, _ => old = .building ∨ old = .ready ∨ old = .submitting
  | checkEjarStatus .., old, new => reported old new
  | cronPoll .., old, new => reported old new
  | pollJob .., old, new => reported old new
  | webhook .., old, .approved => old = .submitted ∨ old = .approved
  | webhook .., old, _ => old = .submitted ∨ old = .rejected
  | write .., old, new => new = old ∨ new ∈ allowed old
  | _, _, _ => True
where
  /-- Ejar reports `new` for a contract in the status `old`. -/
  reported : EjarStatus → EjarStatus → Prop
    | old, .approved => old = .submitted ∨ old = .approved
    | old, .rejected => old = .submitted ∨ old = .rejected
    | old, .expired => old = .approved ∨ old = .expired
    | old, _ => old ≠ .submitting ∧ old ≠ .expired

namespace Transition

theorem mem_allowed_iff_fits {t : Task} {old new : EjarStatus} (h : t.mayWrite old new) :
    (new = old ∨ new ∈ allowed old) ↔ t.fits old new := by
  cases t
  case write => exact Iff.rfl
  case startBuilding | markReady | submitToEjar | resetToDraft | uploadDocWizard | cronCleanup =>
    obtain ⟨rfl, rfl⟩ := h
    simp [allowed, Task.fits]
  case cancel =>
    obtain ⟨hold, rfl⟩ := h
    cases old <;> simp_all [allowed, Task.fits, EjarStatus.terminal]
  case submitAsync | uploadJob | cancelPendingJob =>
    obtain rfl := h
    cases old <;> simp [allowed, Task.fits]
  case submitWizard | submissionJob | checkEjarStatus | cronPoll | pollJob | webhook =>
    cases new <;> simp [Task.mayWrite] at h <;>
      cases old <;> simp [allowed, Task.fits, Task.fits.reported]

/-- Every status write and every call is one of `ok`. -/
def limitProtocol (ok : Limits) : ContractProtocol Unit where
  init := ()
  allows _
    | .write c (.contract vals) =>
      (∀ new, vals.ejarStatus = some new → ok.status c.ejarStatus new) ∧
        (vals.ejarContractId.isSome → ok.link)
    | .call q _ => ok.call q.call
    | _ => True
  next _ _ := ()

variable {ok : Limits} {y : Local Contract Unit} {env : Env}

theorem limitProtocol_neutral : Neutral (limitProtocol ok) (fun _ => True) ok.call where
  read _ := ⟨trivial, trivial⟩
  write {t c u} _ hu := by
    refine ⟨?_, trivial⟩
    cases u with
    | contract vals => exact ⟨by simp [hu.1], by simp [hu.2.1]⟩
    | _ => trivial
  commit _ := ⟨trivial, trivial⟩
  call _ hcall := ⟨hcall, trivial⟩

theorem limitProtocol_lenient : Lenient (limitProtocol ok) ok.anywhere where
  read := trivial
  commit := trivial
  write hvals := ⟨hvals.1 _, by simp [hvals.2]⟩
  activity := trivial

theorem anywhere_of_status {vals : ContractVals} {new : EjarStatus} (hvals : vals.ejarStatus = some new)
    (hid : vals.ejarContractId = none) (hok : ∀ old, ok.status old new) : ok.anywhere vals := by
  refine ⟨fun old new' hnew' => ?_, hid⟩
  obtain rfl := Option.some.inj (hvals.symm.trans hnew')
  exact hok old

theorem anywhere_of_none {vals : ContractVals} (hvals : vals.ejarStatus = none)
    (hid : vals.ejarContractId = none) : ok.anywhere vals :=
  ⟨fun old new hnew => by simp [hvals] at hnew, hid⟩

theorem anywhere_of_aside (hready : ∀ old, ok.status old .ready) {vals : ContractVals} (haside : vals.aside) :
    ok.anywhere vals := by
  obtain ⟨hid, hvals | hvals⟩ := haside
  · exact anywhere_of_none hvals hid
  · exact anywhere_of_status hvals hid hready

/-- The status writes and the calls that `p` makes from here are of `ok`. -/
abbrev safe {α : Type} (ok : Limits) (p : TaskProg α) (y : Local Contract Unit) : Prop :=
  keepsTo (limitProtocol ok) p y

section

variable {α β : Type}

theorem safe_get {f : World → TaskProg β}
    (hf : ∀ w : World, y.reads w.contract → safe ok (f w) ⟨some w.contract, ()⟩) :
    safe ok (Prog.get >>= f) y :=
  limitProtocol_lenient.get hf

theorem safe_writeRecord {vals : ContractVals} (hlink : vals.ejarContractId.isSome → ok.link)
    (hvals : ∀ c, y.reads c → ∀ new, vals.ejarStatus = some new → ok.status c.ejarStatus new) :
    safe ok (writeRecord vals) y :=
  follows_writeRecord fun c hc => ⟨⟨hvals c hc, hlink⟩, trivial, trivial⟩

theorem safe_writeRecord_free {vals : ContractVals} (hvals : vals.ejarStatus = none)
    (hid : vals.ejarContractId = none) : safe ok (writeRecord vals) y :=
  limitProtocol_lenient.writeRecord (anywhere_of_none hvals hid)

theorem safe_orRaise (v : Except Exc α) : safe ok (orRaise v) y := by
  cases v with
  | ok a => exact keepsTo_ret a
  | error e => exact keepsTo_throw _

end

theorem safe_setStatus {c : Contract} {new : EjarStatus} (hok : ok.status c.ejarStatus new) :
    safe ok (setStatus new) ⟨some c, ()⟩ := by
  refine safe_writeRecord (by simp) fun d hd new' hnew => ?_
  obtain rfl : c = d := hd c rfl
  obtain rfl := Option.some.inj hnew
  exact hok

/-- A program on the contract all of whose status writes and calls are of `ok`. -/
abbrev keepsOk {α : Type} (ok : Limits) (p : Pipeline α) : Prop :=
  Neutral.keeps (limitProtocol ok) (fun _ => True) p

theorem safe_within {α : Type} {p : Pipeline α} (hp : keepsOk ok p) : safe ok (onContract p) y :=
  keepsTo_onContract hp trivial

theorem writeContract_ok {vals : ContractVals} {new : EjarStatus} (hvals : vals.ejarStatus = some new)
    (hid : vals.ejarContractId = none) (hok : ∀ old, ok.status old new) :
    keepsOk ok (writeContract vals) := by
  intro x _
  refine obeys_writeContract fun c _ => ⟨⟨fun new' hnew' => ?_, by simp [hid]⟩, trivial, trivial⟩
  obtain rfl := Option.some.inj (hvals.symm.trans hnew')
  exact hok _

theorem writeContract_free {vals : ContractVals} (hlink : ok.link) (hvals : vals.ejarStatus = none) :
    keepsOk ok (writeContract vals) := by
  intro x _
  exact obeys_writeContract fun c _ => ⟨⟨by simp [hvals], fun _ => hlink⟩, trivial, trivial⟩

theorem executeFullSubmission_ok (hlink : ok.link) (hcall : ∀ call, ok.call call)
    (hsubmitting : ∀ old, ok.status old .submitting) (hsubmitted : ∀ old, ok.status old .submitted)
    (hready : ∀ old, ok.status old .ready) :
    keepsOk ok (executeFullSubmission env) := by
  have hneutral : Neutral (limitProtocol ok) (fun _ => True) (fun _ => True) :=
    limitProtocol_neutral.weaken fun call _ => hcall call
  refine Prog.within_bind hneutral.get fun contract => ?_
  refine Prog.within_bind (writeContract_ok rfl rfl hsubmitting) fun _ => ?_
  refine Prog.within_bind hneutral.commitNow fun _ => ?_
  exact hneutral.rest (fun _ _ => (hneutral.weaken fun _ _ => trivial).stepCreateContract fun hvals _ =>
    writeContract_free hlink hvals)
    (fun hvals hid _ => writeContract_ok hvals hid hsubmitted) fun hvals hid _ => writeContract_ok hvals hid hready

theorem pollEjarStatus_ok (hcall : ∀ id, ok.call (.getContract id)) (hok : ∀ old new,
    new = .approved ∨ new = .expired ∨ new = .cancelled ∨ new = .rejected → ok.status old new) :
    keepsOk ok (pollEjarStatus env) :=
  limitProtocol_neutral.pollEjarStatus hcall fun hvals hnew hid _ =>
    writeContract_ok hvals hid fun old => hok old _ hnew

theorem processEvent_ok {data : WebhookData} {correlationId : String} {now : Datetime}
    (happroved : ∀ old, ok.status old .approved) (hrejected : ∀ old, ok.status old .rejected) :
    keepsOk ok (processEvent data correlationId now) := by
  refine limitProtocol_neutral.processEvent fun hvals hnew hid _ => ?_
  obtain rfl | rfl := hnew
  · exact writeContract_ok hvals hid happroved
  · exact writeContract_ok hvals hid hrejected

theorem safe_check {c : Contract} {f : Unit → TaskProg Unit} (hf : safe ok (f ()) y) :
    safe ok (assertNotTerminal c >>= f) y ∧ safe ok (validateReadyState c >>= f) y := by
  unfold assertNotTerminal validateReadyState
  constructor
  · split
    · exact keepsTo_userError _
    · exact hf
  · split
    · exact hf
    · exact keepsTo_userError _

theorem safe_submitAsync {inst : Installation} {now : Datetime} {uuid : String}
    (hok : ∀ old, ok.status old .submitting) : safe ok (actionSubmitAsync inst now uuid) y := by
  refine limitProtocol_lenient.submitAsync fun hid hvals => ?_
  obtain hvals | hvals := hvals
  · exact anywhere_of_none hvals hid
  · exact anywhere_of_status hvals hid hok

theorem safe_classified {α : Type} (exc : Exc) : safe ok (if exc.cls.isEjarAPIError then
    (throw (classifyEjarException exc) : TaskProg α) else throw (.retryableJobError exc.message)) y := by
  split
  · exact keepsTo_throw _
  · exact keepsTo_throw _

theorem safe_markDeadLetter {reason : String} (hok : ∀ c, y.reads c → ok.status c.ejarStatus .ready) :
    safe ok (markDeadLetter reason) y := by
  refine keepsTo_bind (safe_writeRecord (by simp) fun c hc new hnew => ?_) fun _ z => ?_
  · obtain rfl := Option.some.inj hnew
    exact hok c hc
  · exact safe_get fun w _ => follows_put_record fun c _ => ⟨trivial, trivial⟩

theorem safe_attempt (hlink : ok.link) (hcall : ∀ call, ok.call call)
    (hstatus : ∀ old new, new = .submitting ∨ new = .submitted ∨ new = .ready → ok.status old new) :
    safe ok (onContract (executeFullSubmission env)) y :=
  safe_within (executeFullSubmission_ok hlink hcall (fun old => hstatus old _ (.inl rfl))
    (fun old => hstatus old _ (.inr (.inl rfl))) fun old => hstatus old _ (.inr (.inr rfl)))

theorem safe_submissionJob {job : String} :
    safe (Task.submissionJob job env).limits (jobExecuteFullSubmission env) y := by
  have hready : ∀ old, (Task.submissionJob job env).limits.status old .ready := fun _ => .inr (.inr rfl)
  exact limitProtocol_lenient.submissionJob (anywhere_of_aside hready)
    fun _ _ => safe_attempt trivial (fun _ => trivial) fun _ _ h => h

theorem safe_submitWizard {inst : Installation} {confirmed : Bool} {uuid : String} :
    safe (Task.submitWizard env confirmed uuid).limits
      (actionConfirmSubmit inst env confirmed uuid) y :=
  limitProtocol_lenient.submitWizard
    (fun _ _ _ _ => safe_attempt trivial (fun _ => trivial) fun _ _ h => h)
    fun _ _ => safe_submitAsync fun _ => .inl rfl

theorem safe_cronCleanup {inst : Installation} {excInfo : String} :
    safe (Task.cronCleanup excInfo).limits (cronCleanupDeadLetterJob inst excInfo) y := by
  refine safe_get fun w _ => ?_
  split
  · exact keepsTo_ret _
  split
  · exact keepsTo_ret _
  rename_i hstatus
  have hsubmitting : w.contract.ejarStatus = .submitting := by
    by_contra hne
    exact hstatus (.inl hne)
  split
  · exact keepsTo_ret _
  · refine safe_markDeadLetter fun c hc => ?_
    obtain rfl : w.contract = c := hc _ rfl
    exact ⟨hsubmitting, rfl⟩

theorem safe_checkEjarStatus {inst : Installation} {uuid : String} :
    safe (Task.checkEjarStatus env uuid).limits ((Task.checkEjarStatus env uuid).body inst) y := by
  refine safe_get fun w _ => ?_
  split
  · exact keepsTo_userError _
  split
  · exact keepsTo_bind (safe_within (pollEjarStatus_ok (fun _ => trivial) fun _ _ h => h)) fun _ _ => safe_orRaise _
  · exact keepsTo_bind limitProtocol_lenient.withDelay fun _ _ => safe_writeRecord_free rfl rfl

theorem safe_cronPoll {inst : Installation} {uuid : String} :
    safe (Task.cronPoll env uuid).limits ((Task.cronPoll env uuid).body inst) y := by
  refine safe_get fun w _ => ?_
  split
  · exact keepsTo_ret _
  split
  · refine keepsTo_bind (safe_within (pollEjarStatus_ok (fun _ => trivial) fun _ _ h => h)) fun result z => ?_
    cases result with
    | ok _ => exact safe_writeRecord_free rfl rfl
    | error _ => exact keepsTo_ret _
  · exact keepsTo_bind limitProtocol_lenient.withDelay fun _ _ => safe_writeRecord_free rfl rfl

theorem safe_pollJob {inst : Installation} {job : String} :
    safe (Task.pollJob job env).limits ((Task.pollJob job env).body inst) y := by
  refine safe_get fun w _ => ?_
  split
  · exact keepsTo_ret _
  split
  · exact keepsTo_ret _
  refine keepsTo_bind (safe_within (pollEjarStatus_ok (fun _ => trivial) fun _ _ h => h)) fun result z => ?_
  cases result with
  | ok _ => exact safe_writeRecord_free rfl rfl
  | error exc => exact safe_classified exc

theorem safe_uploadJob {inst : Installation} {job : String} {doc : List UInt8} {filename : String}
    {triggerSubmission : Bool} {uuid : String} :
    safe (Task.uploadJob job env doc filename triggerSubmission uuid).limits
      ((Task.uploadJob job env doc filename triggerSubmission uuid).body inst) y := by
  have hneutral : Neutral (limitProtocol
      (Task.uploadJob job env doc filename triggerSubmission uuid).limits) (fun _ => True)
      (Task.uploadJob job env doc filename triggerSubmission uuid).mayCall := limitProtocol_neutral
  refine safe_get fun w _ => ?_
  split
  · exact keepsTo_throw _
  refine keepsTo_bind (safe_within (Prog.within_bind hneutral.buildClient fun _ =>
    hneutral.makeRequest trivial)) fun result z => ?_
  cases result with
  | error exc => exact safe_classified exc
  | ok _ =>
    refine keepsTo_bind (safe_writeRecord_free rfl rfl) fun _ z => safe_get fun w _ => ?_
    split
    · exact safe_submitAsync fun _ => rfl
    · exact keepsTo_ret _

theorem body_safe (inst : Installation) (t : Task) : safe t.limits (t.body inst) ⟨none, ()⟩ := by
  cases t with
  | startBuilding =>
    refine safe_get fun w _ => (safe_check ?_).1
    split
    · exact keepsTo_userError _
    · rename_i hstatus
      exact safe_setStatus ⟨not_not.mp hstatus, rfl⟩
  | markReady =>
    refine safe_get fun w _ => (safe_check ?_).1
    split
    · exact keepsTo_userError _
    · rename_i hstatus
      refine (safe_check ?_).2
      exact safe_setStatus ⟨not_not.mp hstatus, rfl⟩
  | submitToEjar =>
    refine safe_get fun w _ => (safe_check ?_).1
    split
    · exact keepsTo_userError _
    split
    · rename_i hbuilding
      exact safe_setStatus ⟨hbuilding.1, rfl⟩
    · exact keepsTo_ret _
  | resetToDraft =>
    refine safe_get fun w _ => ?_
    split
    · exact keepsTo_userError _
    · rename_i hstatus
      exact safe_setStatus ⟨not_not.mp hstatus, rfl⟩
  | cancel =>
    refine safe_get fun w _ => ?_
    split
    · exact keepsTo_userError _
    · rename_i hterminal
      exact safe_setStatus ⟨by simpa using hterminal, rfl⟩
  | uploadDocWizard signedDoc signedDocFilename =>
    change safe _ (Ejar.uploadDocWizard signedDoc signedDocFilename) _
    unfold Ejar.uploadDocWizard
    split
    · exact keepsTo_userError _
    refine safe_get fun w _ => keepsTo_bind (safe_writeRecord_free rfl rfl) fun _ z => safe_get fun w _ => ?_
    split
    · rename_i hbuilding
      exact safe_setStatus ⟨hbuilding.1, rfl⟩
    · exact keepsTo_ret _
  | submitWizard env confirmed uuid => exact safe_submitWizard
  | submitAsync now uuid => exact safe_submitAsync fun _ => rfl
  | cancelPendingJob =>
    refine safe_get fun w _ => ?_
    split
    · exact keepsTo_userError _
    split
    · exact keepsTo_userError _
    split
    · exact keepsTo_userError _
    refine keepsTo_bind (follows_put_job (fun _ => rfl) (fun _ => by simp) fun _ _ => trivial) fun _ z => ?_
    exact safe_writeRecord (by simp) fun c _ new hnew => (Option.some.inj hnew).symm
  | checkEjarStatus env uuid => exact safe_checkEjarStatus
  | cronPoll env uuid => exact safe_cronPoll
  | cronCleanup excInfo => exact safe_cronCleanup
  | submissionJob job env => exact safe_submissionJob
  | pollJob job env => exact safe_pollJob
  | uploadJob job env doc filename triggerSubmission uuid => exact safe_uploadJob
  | webhook data correlationId now =>
    exact keepsTo_bind (safe_within (processEvent_ok (fun _ => .inl rfl) fun _ => .inr rfl))
      fun _ _ => keepsTo_ret _
  | write vals => exact safe_writeRecord id fun _ _ _ _ => trivial

theorem obeys_body (inst : Installation) (t : Task) :
    ((system inst).body t).obeys (system inst).app (onWorld (limitProtocol t.limits))
      (fun _ _ => True) (fun _ _ => True) ⟨none, ()⟩ :=
  body_safe inst t ⟨none, ()⟩ rfl

theorem run_mayWrite {inst : Installation} {w : World} {h : List TaskMove} {m}
    (hrun : Run (system inst) w h m) {mv : TaskMove} (hmv : mv ∈ h) {c : Contract} {vals : ContractVals}
    (hwrite : writesTo mv c vals) {new : EjarStatus} (hnew : vals.ejarStatus = some new) :
    mv.task.mayWrite c.ejarStatus new := by
  obtain ⟨before, after, hsplit⟩ := List.append_of_mem hmv
  obtain ⟨w', rfl, hlabel⟩ := hwrite
  have hallows := (hrun.obeying (P := fun t => onWorld (limitProtocol t.limits))
    (obeys_body inst)).2 before mv after _ hsplit hlabel
  exact hallows.1 new hnew

theorem run_mayLink {inst : Installation} {w : World} {h : List TaskMove} {m}
    (hrun : Run (system inst) w h m) {mv : TaskMove} (hmv : mv ∈ h) {c : Contract} {vals : ContractVals}
    (hwrite : writesTo mv c vals) (hid : vals.ejarContractId.isSome) : mv.task.mayLink := by
  obtain ⟨before, after, hsplit⟩ := List.append_of_mem hmv
  obtain ⟨w', rfl, hlabel⟩ := hwrite
  have hallows := (hrun.obeying (P := fun t => onWorld (limitProtocol t.limits))
    (obeys_body inst)).2 before mv after _ hsplit hlabel
  exact hallows.2 hid

theorem run_mayCall {inst : Installation} {w : World} {h : List TaskMove} {m}
    (hrun : Run (system inst) w h m) {mv : TaskMove} (hmv : mv ∈ h) {q : Request} {r : Option Reply}
    (hcall : mv.label = .effect (.call q r)) : mv.task.mayCall q.call := by
  obtain ⟨before, after, hsplit⟩ := List.append_of_mem hmv
  exact (hrun.obeying (P := fun t => onWorld (limitProtocol t.limits)) (obeys_body inst)).2
    before mv after _ hsplit hcall

end Transition

/-- In any run, the writes outside the table are all refused exactly if each
writer of a status finds the contract in a status that fits. -/
theorem transitions_enforced_iff {inst : Installation} {w : World} {h : List TaskMove} {m}
    (hrun : Run (system inst) w h m) :
    (∀ mv ∈ h, ∀ c vals, writesTo mv c vals → Enforced c vals) ↔
      ∀ mv ∈ h, ∀ c vals new, writesTo mv c vals → vals.ejarStatus = some new →
        mv.task.fits c.ejarStatus new := by
  constructor
  · intro henforced mv hmv c vals new hwrite hnew
    have htable := (enforced_iff c vals).mp (henforced mv hmv c vals hwrite)
    have hmay := Transition.run_mayWrite hrun hmv hwrite hnew
    exact (Transition.mem_allowed_iff_fits hmay).mp (htable new hnew)
  · intro hfits mv hmv c vals hwrite
    rw [enforced_iff]
    intro new hnew
    have hmay := Transition.run_mayWrite hrun hmv hwrite hnew
    exact (Transition.mem_allowed_iff_fits hmay).mpr (hfits mv hmv c vals new hwrite hnew)

/-- A draft is written to 'submitted'. -/
def jumpRun : List TaskMove × Machine World WorldWrite Request Reply TaskExc Unit Task :=
  Machine.exec (system ⟨true, true, true⟩)
    (.start 0 (.write { ejarStatus := some .submitted }) :: List.replicate 3 (.go 0 .timeout))
    ([], .initial ⟨{ sampleContract "EJ/1" with ejarStatus := .draft }, []⟩)

theorem jumpRun_run : Run (system ⟨true, true, true⟩) ⟨{ sampleContract "EJ/1" with ejarStatus := .draft }, []⟩
    jumpRun.1 jumpRun.2 :=
  Machine.exec_run .nil

theorem transitions_enforced_iff_jumpRun :
    (∀ mv ∈ jumpRun.1, ∀ c vals, writesTo mv c vals → Enforced c vals) ↔
      ∀ mv ∈ jumpRun.1, ∀ c vals new, writesTo mv c vals → vals.ejarStatus = some new →
        mv.task.fits c.ejarStatus new :=
  transitions_enforced_iff jumpRun_run

theorem transitions_not_enforced : ¬ ∀ inst w h m, Run (system inst) w h m →
    ∀ mv ∈ h, ∀ c vals, writesTo mv c vals → Enforced c vals := by
  intro henforced
  have hwrite : (⟨0, .write { ejarStatus := some .submitted },
      .effect (.write ⟨{ sampleContract "EJ/1" with ejarStatus := .draft }, []⟩
        (.record (.contract { ejarStatus := some .submitted })))⟩ : TaskMove) ∈ jumpRun.1 :=
    List.mem_cons_of_mem _ (List.mem_cons_self ..)
  have hdraft := henforced _ _ _ _ jumpRun_run _ hwrite _ _ ⟨_, rfl, rfl⟩
  rw [enforced_iff] at hdraft
  have htable := hdraft .submitted rfl
  simp [allowed] at htable

end Ejar
