import PropzaAmlak.Submission.Occupied

/-! No contract is stranded in 'submitting': what each of the tasks that enqueue, run,
cancel or clean up jobs may write, and the runs in which that is enough. -/

namespace Ejar

open Tx

/-- The tasks that deal with the jobs of a contract. -/
def Task.dealsWithJobs : Task → Bool
  | submitAsync .. | cancelPendingJob | checkEjarStatus .. | cronPoll .. | cronCleanup .. => true
  | submissionJob .. | pollJob .. | uploadJob .. => true
  | _ => false

def Task.polls : Task → Bool
  | checkEjarStatus .. | cronPoll .. => true
  | _ => false

/-- Whether the open transaction has still to name a submission that it enqueued, or
cannot be committed at all; and whether the status as the caller sees it is known not to
be 'submitting'. -/
structure Watch where
  asking : Bool
  settled : Bool

namespace Watch

def read (phase : Watch) (c : Contract) : Watch :=
  { phase with settled := phase.settled || c.ejarStatus ≠ .submitting }

def write (submits : Bool) (phase : Watch) : RecordWrite → Watch
  | .contract vals =>
    { asking := match vals.activeJobUuid with
        | none => phase.asking
        | some none => submits || phase.asking
        | some (some _) => false
      settled := match vals.ejarStatus with
        | some new => new ≠ .submitting
        | none => phase.settled }
  | _ => phase

end Watch

namespace Stranded

/-- What the steps of the pipeline and of a poll write. -/
def calmRule (t : Task) : ContractProtocol Watch where
  init := ⟨false, false⟩
  allows phase
    | .write _ u => u.calm ∨ (phase.asking = false ∧ u.keepsJob ∧ t.submits)
    | .commit _ => phase.asking = false
    | _ => True
  next phase
    | .read c => phase.read c
    | .write _ u => phase.write t.submits u
    | _ => phase

/-- A write that the task may make where it sees `v`. -/
def mayWrite (inst : Installation) (t : Task) (phase : Watch) (v : World) : WorldWrite → Prop
  | .record u => u.calm ∨ (phase.asking = false ∧ u.keepsJob ∧ (t.submits ∨ hasActiveJob inst v = false)) ∨
      (∃ row ∈ v.jobs, row.kind = .submission ∧ row.waits ∧ u.names row.uuid) ∨
      (phase.asking = false ∧ t.polls ∧ ∃ uuid, u.names uuid) ∨
      (phase.asking = false ∧ NamesEnded v ∧ u.releases) ∨ (t.submits ∧ u.releases)
  | .enqueue job => phase.asking = false ∧ job.state = .pending ∧
      (job.kind = .submission → ∀ row ∈ v.jobs, row.kind = .submission → ¬ row.waits)
  | .setJobState uuid state => phase.asking = false ∧ state = .cancelled ∧
      ∃ row ∈ v.jobs, row.uuid = uuid ∧ row.waits

def watchRule (inst : Installation) (t : Task) : Protocol World WorldWrite Request Reply Watch where
  init := ⟨false, false⟩
  allows phase
    | .write v u => t.dealsWithJobs → mayWrite inst t phase v u
    | .commit _ => t.dealsWithJobs → phase.asking = false
    | _ => True
  next phase
    | .read v => phase.read v.contract
    | .write _ (.record u) => phase.write t.submits u
    | .write _ (.enqueue job) => { phase with asking := phase.asking || job.kind = .submission }
    | _ => phase

variable {inst : Installation} {t : Task} {env : Env} {α β : Type}

theorem write_asking {submits : Bool} {phase : Watch} (hphase : phase.asking = false) {u : RecordWrite}
    (hu : u.keepsJob) : (phase.write submits u).asking = false := by
  cases u with
  | contract vals =>
    have hnone : vals.activeJobUuid = none := hu
    simp [Watch.write, hphase, hnone]
  | _ => exact hphase

theorem calmRule_neutral : Neutral (calmRule t) (fun phase => phase.asking = false) fun _ => True where
  read hphase := ⟨trivial, hphase⟩
  commit hphase := ⟨hphase, hphase⟩
  call hphase _ := ⟨trivial, hphase⟩
  write {phase c u} hphase hu := by
    have hcalm : u.calm := by
      cases u with
      | contract vals => exact ⟨hu.2.2.1, by simp [hu.1]⟩
      | _ => trivial
    exact ⟨.inl hcalm, write_asking hphase (keepsJob_of_calm hcalm)⟩

theorem writeContract_calm {vals : ContractVals} (hstatus : vals.ejarStatus ≠ some .submitting)
    (hquiet : vals.quiet) : Neutral.keeps (calmRule t) (fun phase => phase.asking = false) (writeContract vals) := by
  intro x hx
  exact obeys_writeContract fun c _ => ⟨.inl ⟨hquiet.1, hstatus⟩, trivial, write_asking hx hquiet.1⟩

theorem settled_read {phase : Watch} (h : phase.settled = true) (c : Contract) : (phase.read c).settled = true := by
  simp [Watch.read, h]

theorem finalize_settles {id : String} {N : SubmissionResult → Watch → Prop} {E : Exc → Local Contract Watch → Prop}
    (hN : ∀ a phase, phase.asking = false → phase.settled = true → N a phase) {y : Local Contract Watch}
    (hy : y.phase.asking = false) :
    (finalize env id).obeys RecordWrite.apply (calmRule t) (fun a z => N a z.phase) E y := by
  rw [finalize, Prog.obeys_bind]
  refine obeys_writeContract fun c _ => ⟨.inl ⟨rfl, by simp⟩, trivial, ?_⟩
  rw [Prog.obeys_bind, Prog.obeys_commitNow]
  refine fun c _ => ⟨write_asking hy rfl, ?_⟩
  rw [Prog.obeys_bind, Prog.obeys_get]
  refine fun c _ => ⟨trivial, hN _ _ (write_asking hy rfl) ?_⟩
  exact settled_read (settled_read rfl _) _

theorem executeFullSubmission_settles (hsubmits : t.submits) {N : SubmissionResult → Watch → Prop}
    {E : Exc → Watch → Prop} (hN : ∀ a phase, phase.asking = false → phase.settled = true → N a phase)
    (hE : ∀ e phase, phase.asking = false → E e phase) {y : Local Contract Watch} (hy : y.phase.asking = false) :
    (executeFullSubmission env).obeys RecordWrite.apply (calmRule t) (fun a z => N a z.phase) (fun e z => E e z.phase)
      y := by
  rw [executeFullSubmission, Prog.obeys_bind, Prog.obeys_get]
  refine fun contract _ => ⟨trivial, ?_⟩
  have hread : (y.phase.read contract).asking = false := hy
  rw [Prog.obeys_bind]
  refine obeys_writeContract fun c _ => ⟨.inr ⟨hread, rfl, hsubmits⟩, trivial, ?_⟩
  rw [Prog.obeys_bind, Prog.obeys_commitNow]
  refine fun c _ => ⟨write_asking hread rfl, ?_⟩
  rw [Prog.obeys_tryCatch]
  refine calmRule_neutral.runPipeline (fun _ _ => (calmRule_neutral.weaken fun _ _ => trivial).stepCreateContract
    fun hstatus hquiet =>
    writeContract_calm (by simp [hstatus]) hquiet) (write_asking hread rfl) (fun exc z hz => ?_)
    fun id z hz => finalize_settles hN hz
  rw [Prog.obeys_bind]
  refine obeys_writeContract fun c _ => ⟨.inl ⟨rfl, by simp⟩, trivial, ?_⟩
  rw [Prog.obeys_bind, Prog.obeys_commitNow]
  exact fun c _ => ⟨write_asking hz rfl, hE _ _ (write_asking hz rfl)⟩

/-- The task keeps to the rule from here, and where it returns the phase is as `N`
says. -/
abbrev watches (inst : Installation) (t : Task) (p : TaskProg α) (N : α → Watch → Prop) (x : Local World Watch) :
    Prop :=
  p.obeys WorldWrite.apply (watchRule inst t) (fun a z => N a z.phase) (fun _ _ => True) x

section

variable {x : Local World Watch}

theorem watches_bind {p : TaskProg α} {f : α → TaskProg β} {M : α → Watch → Prop} {N : β → Watch → Prop}
    (hp : watches inst t p M x) (hf : ∀ a z, M a z.phase → watches inst t (f a) N z) :
    watches inst t (p >>= f) N x := by
  rw [watches, Prog.obeys_bind]
  exact Prog.obeys_mono (fun a z hz => hf a z hz) (fun _ _ _ => trivial) hp

theorem watches_get {f : World → TaskProg β} {N : β → Watch → Prop}
    (hf : ∀ w, x.reads w → watches inst t (f w) N ⟨some w, x.phase.read w.contract⟩) :
    watches inst t (Prog.get >>= f) N x := by
  rw [watches, Prog.obeys_bind, Prog.obeys_get]
  exact fun w hw => ⟨trivial, hf w hw⟩

theorem watches_writeRecord {vals : ContractVals} {N : Unit → Watch → Prop}
    (hvals : ∀ w, x.reads w → t.dealsWithJobs → mayWrite inst t x.phase w (.record (.contract vals)))
    (hN : ∀ c, N () ((x.phase.write t.submits (.contract vals)).read c)) : watches inst t (writeRecord vals) N x :=
  obeys_writeRecord fun w hw => ⟨hvals w hw, trivial, hN _⟩

theorem watches_onContract {p : Pipeline α} {N : Except Exc α → Watch → Prop}
    (hp : p.obeys RecordWrite.apply (calmRule t) (fun a z => N (.ok a) z.phase) (fun e z => N (.error e) z.phase)
      (x.part World.contract)) : watches inst t (onContract p) N x := by
  have happ : ∀ (u : RecordWrite) (w : World),
      ((WorldWrite.record u).apply w).contract = u.apply w.contract := fun _ _ => rfl
  rw [watches, onContract, Prog.obeys_attempt]
  refine Prog.obeys_zoom (P := calmRule t) happ ?_ ?_ hp
  · intro phase e e' he hallows
    cases he with
    | write v u =>
      intro _
      obtain hcalm | ⟨hasking, hkeeps, hsubmits⟩ := hallows
      · exact .inl hcalm
      · exact .inr (.inl ⟨hasking, hkeeps, .inl hsubmits⟩)
    | commit v => exact fun _ => hallows
    | _ => trivial
  · intro phase e e' he
    cases he <;> rfl

theorem watches_calm {p : Pipeline α} (hp : Neutral.keeps (calmRule t) (fun phase => phase.asking = false) p)
    (hx : x.phase.asking = false) : watches inst t (onContract p) (fun _ phase => phase.asking = false) x :=
  watches_onContract (hp _ hx)

theorem watches_writeRecord_calm {vals : ContractVals} (hjob : vals.activeJobUuid = none)
    (hstatus : vals.ejarStatus ≠ some .submitting) (hx : x.phase.asking = false) :
    watches inst t (writeRecord vals) (fun _ phase => phase.asking = false) x :=
  watches_writeRecord (fun _ _ _ => .inl ⟨hjob, hstatus⟩) fun _ => write_asking hx hjob

/-- `with_delay` of a kind of job, and naming the job that it returns. -/
theorem watches_withDelay {kind : JobKind} {maxRetries : Nat} {uuid : String} {f : String → TaskProg Unit}
    {N : Unit → Watch → Prop} (hx : x.phase.asking = false)
    (hold : ∀ w row, row ∈ w.jobs → row.kind = kind → row.waits →
      watches inst t (f row.uuid) N ⟨some w, x.phase.read w.contract⟩)
    (hnew : ∀ w row, row ∈ w.jobs → row.kind = kind → row.waits → row.uuid = uuid →
      watches inst t (f uuid) N ⟨some w, { (x.phase.read w.contract) with asking := kind = .submission }⟩) :
    watches inst t (withDelay kind maxRetries uuid >>= f) N x := by
  rw [withDelay]
  refine watches_get fun w hw => ?_
  simp only [Prog.bind]
  split
  · rename_i row hrow
    have hfound := List.find?_some hrow
    simp only [Bool.and_eq_true, decide_eq_true_iff] at hfound
    exact hold w row (List.mem_of_find?_eq_some hrow) hfound.1 hfound.2
  · rename_i hnone
    have hnowait : ∀ row ∈ w.jobs, row.kind = kind → ¬ row.waits := by
      intro row hrow hkind hwaits
      have hrest := List.find?_eq_none.mp hnone row hrow
      simp only [hkind, decide_true, Bool.true_and, Bool.not_eq_true] at hrest
      rw [Job.waits, hrest] at hwaits
      cases hwaits
    intro v hv
    obtain rfl : w = v := hv w rfl
    refine ⟨fun _ => ⟨hx, rfl, fun hkind row hrow hsub => hnowait row hrow (hsub.trans hkind.symm)⟩, ?_⟩
    have hafter := hnew ((WorldWrite.enqueue { uuid, kind, maxRetries }).apply w) { uuid, kind, maxRetries }
      (List.mem_append_right _ (List.mem_singleton_self _)) rfl rfl rfl
    have hphase : (watchRule inst t).next (x.phase.read w.contract) (.write w (.enqueue { uuid, kind, maxRetries })) =
        { x.phase.read w.contract with asking := kind = .submission } := by
      simp [watchRule, Watch.read, hx]
    change watches inst t (f uuid) N ⟨some ((WorldWrite.enqueue { uuid, kind, maxRetries }).apply w),
      (watchRule inst t).next (x.phase.read w.contract) (.write w (.enqueue { uuid, kind, maxRetries }))⟩
    rw [hphase]
    exact hafter

theorem watches_ret {a : α} {N : α → Watch → Prop} (hN : N a x.phase) : watches inst t (pure a) N x := hN

theorem watches_userError {message : String} {N : α → Watch → Prop} : watches inst t (userError message) N x := trivial

theorem watches_throw {e : TaskExc} {N : α → Watch → Prop} : watches inst t (throw e) N x := trivial

theorem submission_named {uuid : String} {y : Local World Watch} {w : World} {row : Job} (hview : y.view = some w)
    (hrow : row ∈ w.jobs) (hkind : row.kind = .submission) (hwaits : row.waits) (huuid : row.uuid = uuid) :
    watches inst t (writeRecord { activeJobUuid := some (some uuid) }) (fun _ phase => phase.asking = false) y := by
  refine watches_writeRecord (fun v hv _ => ?_) fun _ => by simp [Watch.read, Watch.write]
  obtain rfl : w = v := hv w hview
  exact .inr (.inr (.inl ⟨row, hrow, hkind, hwaits, by rw [huuid], rfl⟩))

theorem submitAsync_watches {now : Datetime} {uuid : String} (hx : x.phase.asking = false) :
    watches inst t (actionSubmitAsync inst now uuid) (fun _ phase => phase.asking = false) x := by
  refine watches_get fun w hw => ?_
  unfold validateReadyState
  split
  · change watches inst t
      (if (!inst.queueJobAvailable) = true then _ else if hasActiveJob inst w = true then _ else _) _ _
    split
    · exact watches_userError
    split
    · exact watches_userError
    rename_i hactive
    have hread : (x.phase.read w.contract).asking = false := hx
    refine watches_bind (M := fun _ phase => phase.asking = false) (watches_writeRecord (fun v hv _ => ?_)
      fun _ => write_asking hread rfl) fun _ z hz => ?_
    · obtain rfl : w = v := hv w rfl
      exact .inr (.inl ⟨hread, rfl, .inr (by simpa using hactive)⟩)
    rw [watches, Prog.obeys_bind, Prog.obeys_commitNow]
    refine fun v _ => ⟨fun _ => hz, ?_⟩
    change watches inst t (withDelay .submission maxSubmissionRetries uuid >>= fun jobUuid =>
      writeRecord { activeJobUuid := some (some jobUuid) }) (fun _ phase => phase.asking = false) ⟨none, z.phase⟩
    refine watches_withDelay hz (fun w row hrow hkind hwaits => ?_) fun w row hrow hkind hwaits huuid => ?_
    · exact submission_named rfl hrow hkind hwaits rfl
    · exact submission_named rfl hrow hkind hwaits huuid
  · exact watches_userError

theorem poll_named (hpolls : t.polls) {vals : ContractVals} {uuid : String}
    (hjob : vals.activeJobUuid = some (some uuid))
    (hstatus : vals.ejarStatus = none) (hx : x.phase.asking = false) :
    watches inst t (writeRecord vals) (fun _ phase => phase.asking = false) x :=
  watches_writeRecord (fun _ _ _ => .inr (.inr (.inr (.inl ⟨hx, hpolls, uuid, hjob, hstatus⟩)))) fun _ => by
    simp [Watch.read, Watch.write, hjob]

theorem polled_named (hpolls : t.polls) {uuid : String} {vals : String → ContractVals}
    (hjob : ∀ jobUuid, (vals jobUuid).activeJobUuid = some (some jobUuid))
    (hstatus : ∀ jobUuid, (vals jobUuid).ejarStatus = none) (hx : x.phase.asking = false) :
    watches inst t (withDelay .poll maxPollRetries uuid >>= fun jobUuid => writeRecord (vals jobUuid))
      (fun _ phase => phase.asking = false) x :=
  watches_withDelay hx (fun _ _ _ _ _ => poll_named hpolls (hjob _) (hstatus _) hx) fun _ _ _ _ _ _ =>
    poll_named hpolls (hjob _) (hstatus _) rfl

theorem pollEjarStatus_watches (hx : x.phase.asking = false) :
    watches inst t (onContract (pollEjarStatus env)) (fun _ phase => phase.asking = false) x := by
  refine watches_calm (calmRule_neutral.pollEjarStatus (fun _ => trivial) fun hvals hnew _ hquiet =>
    writeContract_calm ?_ hquiet) hx
  rw [hvals]
  obtain rfl | rfl | rfl | rfl := hnew <;> simp

theorem checkEjarStatus_watches {uuid : String} (hpolls : t.polls) (hx : x.phase.asking = false) :
    watches inst t (actionCheckEjarStatus inst env uuid) (fun _ phase => phase.asking = false) x := by
  refine watches_get fun w hw => ?_
  split
  · exact watches_userError
  split
  · refine watches_bind (pollEjarStatus_watches hx) fun result z hz => ?_
    cases result with
    | ok a => exact watches_ret hz
    | error e => exact watches_throw
  · exact polled_named hpolls (fun _ => rfl) (fun _ => rfl) hx

theorem cronPoll_watches {uuid : String} (hpolls : t.polls) (hx : x.phase.asking = false) :
    watches inst t (cronPollSubmittedContract inst env uuid) (fun _ phase => phase.asking = false) x := by
  refine watches_get fun w hw => ?_
  split
  · exact watches_ret hx
  split
  · refine watches_bind (pollEjarStatus_watches hx) fun result z hz => ?_
    cases result with
    | ok a => exact watches_writeRecord_calm rfl (by simp) hz
    | error e => exact watches_ret hz
  · exact polled_named hpolls (fun _ => rfl) (fun _ => rfl) hx

theorem pollJob_watches (hx : x.phase.asking = false) :
    watches inst t (jobPollEjarStatus env) (fun _ phase => phase.asking = false) x := by
  refine watches_get fun w hw => ?_
  split
  · exact watches_ret hx
  split
  · exact watches_ret hx
  refine watches_bind (pollEjarStatus_watches hx) fun result z hz => ?_
  cases result with
  | ok a => exact watches_writeRecord_calm rfl (by simp) hz
  | error e =>
    dsimp only
    split
    · exact watches_throw
    · exact watches_throw

theorem uploadJob_watches {doc : List UInt8} {filename uuid : String} {triggerSubmission : Bool}
    (hx : x.phase.asking = false) :
    watches inst t (jobUploadSignedDocument inst env doc filename triggerSubmission uuid)
      (fun _ phase => phase.asking = false) x := by
  refine watches_get fun w hw => ?_
  split
  · exact watches_throw
  refine watches_bind (M := fun _ phase => phase.asking = false) (watches_calm (Prog.within_bind
    calmRule_neutral.buildClient fun _ => calmRule_neutral.makeRequest trivial) hx) fun result z hz => ?_
  cases result with
  | error e =>
    dsimp only
    split
    · exact watches_throw
    · exact watches_throw
  | ok a =>
    refine watches_bind (watches_writeRecord_calm rfl (by simp) hz) fun _ z hz => watches_get fun w hw => ?_
    split
    · exact submitAsync_watches hz
    · exact watches_ret hz

theorem cancelPendingJob_watches (ht : t.submits = false) (hx : x.phase.asking = false) :
    watches inst t (actionCancelPendingJob inst) (fun _ phase => phase.asking = false) x := by
  refine watches_get fun w hw => ?_
  split
  · exact watches_userError
  split
  · exact watches_userError
  split
  · exact watches_userError
  rename_i row hrow
  have hfound := List.find?_some hrow
  simp only [Bool.and_eq_true, decide_eq_true_iff] at hfound
  have hmem := List.mem_of_find?_eq_some hrow
  intro v hv
  obtain rfl : w = v := hv w rfl
  refine ⟨fun _ => ⟨hx, rfl, row, hmem, rfl, hfound.2⟩, ?_⟩
  change watches inst t (writeRecord { ejarStatus := some .ready, activeJobUuid := some none, jobChannel := some none })
    (fun _ phase => phase.asking = false)
    ⟨some ((WorldWrite.setJobState row.uuid .cancelled).apply w), x.phase.read w.contract⟩
  have hended : NamesEnded ((WorldWrite.setJobState row.uuid .cancelled).apply w) :=
    ⟨_, mem_updateJob_self hmem rfl, hfound.1.symm, rfl⟩
  refine watches_writeRecord (fun v hv _ => ?_) fun _ => ?_
  · obtain rfl := hv _ rfl
    exact .inr (.inr (.inr (.inr (.inl ⟨hx, hended, rfl, rfl⟩))))
  · simp [Watch.read, Watch.write, ht, hx]

theorem markDeadLetter_watches (ht : t.submits = false) {reason : String} {y : Local World Watch} {w : World}
    (hview : y.view = some w) (hended : NamesEnded w) (hy : y.phase.asking = false) :
    watches inst t (markDeadLetter reason) (fun _ phase => phase.asking = false) y := by
  refine watches_bind (M := fun _ phase => phase.asking = false) (watches_writeRecord (fun v hv _ => ?_)
    fun _ => by simp [Watch.read, Watch.write, ht, hy]) fun _ z hz => watches_get fun v hv => ?_
  · obtain rfl : w = v := hv w hview
    exact .inr (.inr (.inr (.inr (.inl ⟨hy, hended, rfl, rfl⟩))))
  · exact fun u hu => ⟨fun _ => .inl trivial, hz⟩

theorem cronCleanup_watches (ht : t.submits = false) {excInfo : String} (hx : x.phase.asking = false) :
    watches inst t (cronCleanupDeadLetterJob inst excInfo) (fun _ phase => phase.asking = false) x := by
  refine watches_get fun w hw => ?_
  split
  · exact watches_ret hx
  split
  · exact watches_ret hx
  split
  · exact watches_ret hx
  · rename_i job hjob
    have hfound := List.find?_some hjob
    simp only [Bool.and_eq_true, decide_eq_true_iff] at hfound
    exact markDeadLetter_watches ht rfl ⟨job, List.mem_of_find?_eq_some hjob, hfound.1.symm, hfound.2⟩ hx

/-- The dead letter of a job, in the transaction that is rolled back. -/
theorem submissionExc_watches (hsubmits : t.submits) (exc : Exc) {y : Local World Watch} {N : Unit → Watch → Prop}
    (hy : y.phase.asking = false) :
    watches inst t (handleSubmissionExc exc) N y := by
  refine watches_bind (watches_writeRecord_calm rfl (by simp) hy) fun _ z hz => ?_
  split
  · refine watches_bind (M := fun _ _ => True) (watches_bind (M := fun _ _ => True) (watches_writeRecord
      (fun _ _ _ => .inr (.inr (.inr (.inr (.inr ⟨hsubmits, rfl, rfl⟩))))) fun _ => trivial) fun _ z _ => ?_)
      fun _ _ _ => watches_throw
    exact watches_get fun w _ => fun v _ => ⟨fun _ => .inl trivial, trivial⟩
  · exact watches_throw

theorem submissionJob_watches (hsubmits : t.submits) (hx : x.phase.asking = false) :
    watches inst t (jobExecuteFullSubmission env) (fun _ phase => phase.asking = false ∧ phase.settled = true) x := by
  refine watches_get fun w hw => ?_
  split
  · rename_i hstatus
    refine watches_ret ⟨hx, ?_⟩
    obtain h | h := hstatus <;> simp [Watch.read, h]
  refine watches_bind (M := fun result phase => phase.asking = false ∧ ((∃ a, result = .ok a) → phase.settled = true))
    (watches_onContract ?_) fun result z hz => ?_
  · exact executeFullSubmission_settles hsubmits (N := fun _ phase => phase.asking = false ∧ (_ → phase.settled = true))
      (E := fun _ phase => phase.asking = false ∧ (_ → phase.settled = true))
      (fun a phase hasking hsettled => ⟨hasking, fun _ => hsettled⟩)
      (fun e phase hasking => ⟨hasking, fun ⟨a, ha⟩ => by cases ha⟩) hx
  · cases result with
    | ok a =>
      refine watches_writeRecord (fun _ _ _ => .inl ⟨rfl, by simp⟩) fun c => ⟨write_asking hz.1 rfl, ?_⟩
      exact settled_read (hz.2 ⟨a, rfl⟩) _
    | error e =>
      dsimp only
      split
      · exact submissionExc_watches hsubmits e hz.1
      · exact watches_throw

end

/-- Where a task that deals with jobs returns, its transaction can be committed. -/
abbrev Returned (t : Task) (x : Local World Watch) : Prop :=
  t.dealsWithJobs → x.phase.asking = false ∧ (t.submits → x.phase.settled = true)

theorem obeys_body (inst : Installation) (t : Task) : ((system inst).body t).obeys (system inst).app (watchRule inst t)
    (fun _ x => Returned t x) (fun _ _ => True) ⟨none, (watchRule inst t).init⟩ := by
  have hidle : t.submits = false →
      watches inst t (t.body inst) (fun _ phase => phase.asking = false) ⟨none, ⟨false, false⟩⟩ →
      ((system inst).body t).obeys (system inst).app (watchRule inst t) (fun _ x => Returned t x) (fun _ _ => True)
        ⟨none, (watchRule inst t).init⟩ := fun ht hbody =>
    Prog.obeys_mono (fun _ z hz _ => ⟨hz, fun h => by rw [ht] at h; cases h⟩) (fun _ _ _ => trivial) hbody
  have hfree : t.dealsWithJobs = false → ((system inst).body t).obeys (system inst).app (watchRule inst t)
      (fun _ x => Returned t x) (fun _ _ => True) ⟨none, (watchRule inst t).init⟩ := by
    intro hother
    have hnot : ¬ t.dealsWithJobs = true := by simp [hother]
    refine Prog.obeys_mono (fun _ _ _ h => absurd h hnot) (fun _ _ _ => trivial)
      (Prog.obeys_free (I := fun _ => True) (fun phase e _ => ⟨?_, trivial⟩) trivial)
    cases e with
    | write v u => exact fun h => absurd h hnot
    | commit v => exact fun h => absurd h hnot
    | _ => trivial
  cases t with
  | submitAsync now uuid => exact hidle rfl (submitAsync_watches rfl)
  | cancelPendingJob => exact hidle rfl (cancelPendingJob_watches rfl rfl)
  | checkEjarStatus env uuid => exact hidle rfl (checkEjarStatus_watches rfl rfl)
  | cronPoll env uuid => exact hidle rfl (cronPoll_watches rfl rfl)
  | cronCleanup excInfo => exact hidle rfl (cronCleanup_watches rfl rfl)
  | pollJob job env => exact hidle rfl (pollJob_watches rfl)
  | uploadJob job env doc filename triggerSubmission uuid => exact hidle rfl (uploadJob_watches rfl)
  | submissionJob job env =>
    have hbody : watches inst (.submissionJob job env) (jobExecuteFullSubmission env)
        (fun _ phase => phase.asking = false ∧ phase.settled = true) ⟨none, ⟨false, false⟩⟩ :=
      submissionJob_watches rfl rfl
    exact Prog.obeys_mono (fun _ z hz _ => ⟨hz.1, fun _ => hz.2⟩) (fun _ _ _ => trivial) hbody
  | _ => exact hfree rfl

/-- The jobs as a caller sees them, in a transaction that may still have to name one. -/
structure Viewed (asking : Bool) (v : World) : Prop where
  rows : Rows v.jobs
  single : Single v
  tended : asking = false → Tended v

theorem viewed_of_tended {v : World} (hrows : Rows v.jobs) (hv : Tended v) {asking : Bool} : Viewed asking v :=
  ⟨hrows, hv.single, fun _ => hv⟩

end Stranded

/-- The run does nothing but these tasks, and gives no job a uuid that is taken. -/
structure DealsWithJobs (h : List TaskMove) : Prop where
  tasks : ∀ mv ∈ h, mv.task.dealsWithJobs
  fresh : ∀ mv ∈ h, ∀ v job, mv.label = .effect (.write v (.enqueue job)) →
    job.uuid ≠ "" ∧ ∀ row ∈ v.jobs, row.uuid ≠ job.uuid

/-- What makes a run of these tasks from `w` keep submissions from being stranded. Where the
rows of `queue.job` are found, 'submitting' is written only if the contract names a job that
has ended, and a submission is enqueued only if none runs; where they are not, only a
submission writes 'submitting', none is enqueued, and no row is started at first. A poll is
named only if no submission is live or under way. -/
structure Careful (inst : Installation) (w : World) (h : List TaskMove) : Prop extends DealsWithJobs h where
  rests : inst.queueJobFound = false → ∀ row ∈ w.jobs, row.state ≠ .started
  resubmits : ∀ mv ∈ h, ∀ v u, mv.label = .effect (.write v (.record u)) → mv.task.submits = false →
    u.sets .submitting → inst.queueJobFound = true ∧ NamesEnded v
  enqueues : ∀ mv ∈ h, ∀ v job, mv.label = .effect (.write v (.enqueue job)) → job.kind = .submission →
    inst.queueJobFound = true ∧ ∀ row ∈ v.jobs, row.kind = .submission → row.state ≠ .started
  polls : ∀ mv ∈ h, ∀ v u, mv.label = .effect (.write v (.record u)) → mv.task.polls → (∃ uuid, u.names uuid) →
    v.contract.ejarStatus ≠ .submitting ∧ ∀ row ∈ v.jobs, ¬ row.live

namespace Stranded

variable {inst : Installation} {t : Task} {phase : Watch} {v : World} {h : List TaskMove} {mv : TaskMove}

theorem calm_of_not_sets {u : RecordWrite} (hu : u.keepsJob) (hsets : ¬ u.sets .submitting) : u.calm := by
  cases u with
  | contract vals => exact ⟨hu, by simpa [RecordWrite.sets] using hsets⟩
  | _ => trivial

theorem write_asking_eq {submits : Bool} {u : RecordWrite} (hu : u.keepsJob) :
    (phase.write submits u).asking = phase.asking := by
  cases u with
  | contract vals =>
    have hnone : vals.activeJobUuid = none := hu
    simp [Watch.write, hnone]
  | _ => rfl

theorem write_asking_releases {submits : Bool} {u : RecordWrite} (hu : u.releases) :
    (phase.write submits u).asking = (submits || phase.asking) := by
  cases u with
  | contract vals => simp [Watch.write, hu.1]
  | _ => exact hu.elim

theorem Viewed.write {w : World} (hv : Viewed phase.asking v) (hcareful : Careful inst w h) (hmv : mv ∈ h)
    {u : WorldWrite} (hlabel : mv.label = .effect (.write v u)) (hallowed : mayWrite inst mv.task phase v u)
    (hown : mv.task.submits → ∃ uuid, runs uuid .submission v) :
    Viewed ((watchRule inst mv.task).next phase (.write v u)).asking (u.apply v) := by
  cases u with
  | record u =>
    have hrows : Rows ((WorldWrite.record u).apply v).jobs := hv.rows
    obtain hcalm | ⟨hasking, hkeeps, hwho⟩ | ⟨row, hrow, hkind, hwaits, hnames⟩ | ⟨hasking, hpolls, uuid, hnames⟩ |
      ⟨hasking, hended, hreleases⟩ | ⟨hsubmits, hreleases⟩ := hallowed
    · refine ⟨hv.rows, hv.single, fun hasking => (hv.tended ?_).calm hcalm⟩
      exact (write_asking_eq (keepsJob_of_calm hcalm)).symm.trans hasking
    · refine viewed_of_tended hrows ?_
      by_cases hsets : u.sets .submitting = true
      · refine (hv.tended hasking).keepsJob hkeeps fun _ => ?_
        cases hsubmits : mv.task.submits with
        | true =>
          obtain ⟨uuid, row, hrow, -, hkind, hstate⟩ := hown hsubmits
          exact .inl ⟨row, hrow, live_of_started hkind hstate⟩
        | false => exact .inr (hcareful.resubmits mv hmv v u hlabel hsubmits hsets).2
      · exact (hv.tended hasking).calm (calm_of_not_sets hkeeps hsets)
    · have hlive : row.live := by simp [Job.live, hkind, hwaits]
      exact viewed_of_tended hrows (hv.single.names hrow hlive hnames)
    · obtain ⟨hstatus, hnone⟩ := hcareful.polls mv hmv v u hlabel hpolls ⟨uuid, hnames⟩
      exact viewed_of_tended hrows (tended_of_names hnone hstatus hnames)
    · exact viewed_of_tended hrows ((hv.tended hasking).releases hv.rows hended hreleases)
    · refine ⟨hv.rows, hv.single, fun hasking => ?_⟩
      have htrue : ((watchRule inst mv.task).next phase (.write v (.record u))).asking = true := by
        refine (write_asking_releases hreleases).trans ?_
        rw [hsubmits, Bool.true_or]
      rw [htrue] at hasking
      cases hasking
  | enqueue job =>
    obtain ⟨hasking, -, hnowait⟩ := hallowed
    obtain ⟨hne, hfresh⟩ := hcareful.fresh mv hmv v job hlabel
    by_cases hkind : job.kind = .submission
    · refine ⟨hv.rows.append hne hfresh, single_enqueue fun row hrow hlive => ?_, fun hfalse => ?_⟩
      · simp only [Job.live, Bool.and_eq_true, decide_eq_true_iff, Bool.or_eq_true] at hlive
        obtain hwaits | hstarted := hlive.2
        · exact hnowait hkind row hrow hlive.1 hwaits
        · exact (hcareful.enqueues mv hmv v job hlabel hkind).2 row hrow hlive.1 hstarted
      · simp [watchRule, hkind] at hfalse
    · have hrows : Rows ((WorldWrite.enqueue job).apply v).jobs := hv.rows.append hne hfresh
      exact viewed_of_tended hrows ((hv.tended hasking).enqueue hkind)
  | setJobState uuid state =>
    obtain ⟨hasking, rfl, row, hrow, rfl, -⟩ := hallowed
    have hrows : Rows ((WorldWrite.setJobState row.uuid .cancelled).apply v).jobs := hv.rows.update fun _ => rfl
    exact viewed_of_tended hrows ((hv.tended hasking).cancel hv.rows hrow)

/-- After an attempt that does not return, a job waits again or has ended. -/
theorem after_waits {o : Outcome TaskExc Unit} (ho : ∀ a, o ≠ .ret a) (job : Job) :
    (job.after o).waits ∨ (job.after o).ended := by
  cases o with
  | ret a => exact absurd rfl (ho a)
  | cut => exact .inl rfl
  | raise e =>
    cases e with
    | retryableJobError message =>
      simp only [Job.after]
      split
      · exact .inr rfl
      · exact .inl rfl
    | _ => exact .inr rfl

theorem Viewed.finish (hv : Viewed false v) {o : Outcome TaskExc Unit}
    (hruns : ∀ uuid kind, t.job = some (uuid, kind) → runs uuid kind v)
    (hret : ∀ a, o = .ret a → t.submits → v.contract.ejarStatus ≠ .submitting) : Viewed false (t.finish o v) := by
  cases ht : t.job with
  | none =>
    have hsame : t.finish o v = v := by simp [Task.finish, ht]
    rwa [hsame]
  | some job =>
    obtain ⟨uuid, kind⟩ := job
    obtain ⟨row, hrow, huuid, hkind, hstate⟩ := hruns uuid kind ht
    have hrows : Rows (updateJob uuid (fun job => job.after o) v.jobs) := hv.rows.update fun job => (after_same o job).1
    rw [finish_eq ht]
    refine viewed_of_tended hrows ((hv.tended rfl).update hv.rows (fun job => (after_same o job).1) hrow huuid
      (fun hlive => ?_) (fun hstatus hlive => ?_) fun hended => ?_)
    · simp only [Job.live, Bool.and_eq_true, decide_eq_true_iff] at hlive
      exact live_of_started ((after_same o row).2.symm.trans hlive.1) hstate
    · have hsubmission : row.kind = .submission := by
        simp only [Job.live, Bool.and_eq_true, decide_eq_true_iff] at hlive
        exact hlive.1
      have hsubmits : t.submits := submits_of_job (hkind.symm.trans hsubmission ▸ ht)
      obtain hwaits | hended := after_waits (fun a ha => hret a ha hsubmits hstatus) row
      · exact .inl (by simp [Job.live, hwaits, (after_same o row).2, hsubmission])
      · exact .inr hended
    · simp [Job.ended, hstate] at hended

theorem Viewed.start (hv : Viewed false v) {w : World} (hs : t.start v = some w) : Viewed false w := by
  refine viewed_of_tended (start_rows hv.rows hs) ?_
  obtain ⟨-, rfl⟩ | ⟨uuid, kind, row, -, hrow, huuid, -, hwaits, rfl⟩ := start_cases hs
  · exact hv.tended rfl
  refine (hv.tended rfl).update hv.rows (fun _ => rfl) hrow huuid (fun hlive => ?_) (fun _ hlive => .inl ?_)
    fun hended => ?_
  · simp only [Job.live, Bool.and_eq_true, decide_eq_true_iff] at hlive ⊢
    exact ⟨hlive.1, by simp [hwaits]⟩
  · simp only [Job.live, Bool.and_eq_true, decide_eq_true_iff] at hlive
    exact live_of_started hlive.1 rfl
  · simp only [Job.ended, Job.waits, Bool.or_eq_true, decide_eq_true_iff] at hended hwaits
    obtain h | h := hended <;> simp [h] at hwaits

/-- What is known after each step of a careful run. -/
structure Guarded (inst : Installation) (h : List TaskMove) (m : DeadLetter.TaskMachine) : Prop where
  store : Viewed false m.store
  holder : ∀ j v, m.holder = some (j, v) → ∃ t p, m.proc j = .live t p ∧
    Viewed ((watchRule inst t).phaseOf j h).asking v
  occupied : Occupied Task.job m
  settled : ∀ i t p, m.proc i = .live t p → t.submits → ((watchRule inst t).phaseOf i h).settled = true →
    (∀ v, m.view i = some v → v.contract.ejarStatus ≠ .submitting) ∧
      (m.view i = none → m.store.contract.ejarStatus ≠ .submitting ∧
        ∀ j v, m.holder = some (j, v) → v.contract.ejarStatus ≠ .submitting)

section

variable {m m' : DeadLetter.TaskMachine} {i : Nat} {p : TaskProg Unit}

theorem Guarded.sees_viewed (hm : Guarded inst h m) (hv : m.sees i = some v) (hlive : m.proc i = .live t p) :
    Viewed ((watchRule inst t).phaseOf i h).asking v := by
  obtain ⟨-, rfl⟩ | hholder := sees_cases hv
  · exact viewed_of_tended hm.store.rows (hm.store.tended rfl)
  · obtain ⟨t', p', hlive', hviewed⟩ := hm.holder i v hholder
    rw [hlive] at hlive'
    cases hlive'
    exact hviewed

theorem Guarded.sees_settled (hm : Guarded inst h m) (hv : m.sees i = some v) {j : Nat} (hlive : m.proc j = .live t p)
    (hsubmits : t.submits) (hsettled : ((watchRule inst t).phaseOf j h).settled = true) :
    v.contract.ejarStatus ≠ .submitting := by
  obtain ⟨hown, hstore⟩ := hm.settled j t p hlive hsubmits hsettled
  obtain ⟨hnone, rfl⟩ | hopen := sees_cases hv
  · exact (hstore (by simp [Machine.view, hnone])).1
  · by_cases hj : i = j
    · exact hown v (by simp [Machine.view, hopen, hj])
    · exact (hstore (by simp [Machine.view, hopen, hj])).2 i v hopen

theorem Guarded.goes (hm : Guarded inst h m) {k : TaskProg Unit} {w : World} (hlive : m.proc mv.who = .live mv.task p)
    (hv : m.sees mv.who = some v) (hw : Viewed ((watchRule inst mv.task).phaseOf mv.who (h ++ [mv])).asking w)
    (hruns : ∀ uuid kind, runs uuid kind v → runs uuid kind w)
    (hstatus : ∀ j t p, m.proc j = .live t p → t.submits →
      ((watchRule inst t).phaseOf j (h ++ [mv])).settled = true → w.contract.ejarStatus ≠ .submitting) :
    Guarded inst (h ++ [mv]) (m.set mv.who (.live mv.task k) m.store (some (mv.who, w))) where
  store := hm.store
  holder j u hj := by
    cases hj
    exact ⟨mv.task, k, Machine.set_proc_self, hw⟩
  occupied := hm.occupied.goes hlive hv hruns
  settled j t q hj hsubmits hsettled := by
    obtain ⟨q', hj'⟩ := set_goes hlive hj
    have hstatus' := hstatus j t q' hj' hsubmits hsettled
    refine ⟨fun u hu => ?_, fun hnone => ⟨?_, fun j' u hu => ?_⟩⟩
    · by_cases hwho : j = mv.who
      · subst hwho
        rw [Machine.view_set_self] at hu
        cases hu
        exact hstatus'
      · rw [Machine.view_set_of_ne hwho] at hu
        cases hu
    · have hwho : mv.who ≠ j := by
        rintro rfl
        rw [Machine.view_set_self] at hnone
        cases hnone
      rw [Protocol.phaseOf_other hwho] at hsettled
      exact ((hm.settled j t q' hj' hsubmits hsettled).2 (Machine.view_of_sees_ne hv (Ne.symm hwho))).1
    · cases hu
      exact hstatus'

theorem guarded_of_closed {pr : Proc World WorldWrite Request Reply TaskExc Unit Task} {w : World} (hw : Viewed false w)
    (hoccupied : Occupied Task.job (m.set i pr w none))
    (hstatus : ∀ j t q, (m.set i pr w none).proc j = .live t q → t.submits →
      ((watchRule inst t).phaseOf j h).settled = true → w.contract.ejarStatus ≠ .submitting) :
    Guarded inst h (m.set i pr w none) where
  store := hw
  holder j v hj := by cases hj
  occupied := hoccupied
  settled j t q hj hsubmits hsettled := by
    refine ⟨fun v hv => ?_, fun _ => ⟨hstatus j t q hj hsubmits hsettled, fun j' v hv => ?_⟩⟩
    · cases hv
    · cases hv

theorem Guarded.ends (hm : Guarded inst h m) {o : Outcome TaskExc Unit} (hlive : m.proc mv.who = .live mv.task p)
    (hv : Viewed false v)
    (hruns : ∀ j t q uuid kind, m.proc j = .live t q → t.job = some (uuid, kind) → runs uuid kind v)
    (hret : ∀ a, o = .ret a → mv.task.submits → v.contract.ejarStatus ≠ .submitting)
    (hstatus : ∀ j t q, j ≠ mv.who → m.proc j = .live t q → t.submits →
      ((watchRule inst t).phaseOf j h).settled = true → v.contract.ejarStatus ≠ .submitting) :
    Guarded inst (h ++ [mv]) (m.set mv.who (.ended mv.task o) (mv.task.finish o v) none) := by
  refine guarded_of_closed (hv.finish (hruns mv.who mv.task p · · hlive) hret)
    (hm.occupied.ends hlive hruns fun uuid kind => runs_finish) fun j t q hj hsubmits hsettled => ?_
  obtain ⟨hne, hj⟩ := set_ended hj
  rw [Protocol.phaseOf_other (Ne.symm hne)] at hsettled
  rw [DeadLetter.finish_contract]
  exact hstatus j t q hne hj hsubmits hsettled

theorem write_settled {submits : Bool} {u : RecordWrite} {c : Contract}
    (hc : phase.settled = true → c.ejarStatus ≠ .submitting) (hsettled : (phase.write submits u).settled = true) :
    (u.apply c).ejarStatus ≠ .submitting := by
  cases u with
  | contract vals =>
    cases hvals : vals.ejarStatus with
    | none =>
      have hbefore : phase.settled = true := by simpa [Watch.write, hvals] using hsettled
      simpa [RecordWrite.apply, Contract.set, hvals] using hc hbefore
    | some new => simpa [RecordWrite.apply, Contract.set, Watch.write, hvals] using hsettled
  | _ => exact hc hsettled

/-- 'submitting' is written by a submission, or where no job is active. -/
theorem writes_submitting {u : RecordWrite} (hallowed : mayWrite inst t phase v (.record u))
    (hv : v.contract.ejarStatus ≠ .submitting) (hu : (u.apply v.contract).ejarStatus = .submitting) :
    phase.asking = false ∧ (t.submits ∨ hasActiveJob inst v = false) := by
  obtain hcalm | ⟨hasking, -, hwho⟩ | ⟨row, -, -, -, hnames⟩ | ⟨-, -, uuid, hnames⟩ | ⟨-, -, hreleases⟩ |
    ⟨-, hreleases⟩ := hallowed
  · exact absurd (submitting_apply hcalm hu) hv
  · exact ⟨hasking, hwho⟩
  · exact absurd ((names_apply hnames _).2.symm.trans hu) hv
  · exact absurd ((names_apply hnames _).2.symm.trans hu) hv
  · rw [releases_apply hreleases] at hu
    cases hu
  · rw [releases_apply hreleases] at hu
    cases hu

theorem Guarded.other_status (hm : Guarded inst h m) (hfound : inst.queueJobFound = true)
    (hlive : m.proc i = .live t p) (hv : m.sees i = some v) {j : Nat} (hne : j ≠ i) {t' : Task} {q : TaskProg Unit}
    (hj : m.proc j = .live t' q) (hsubmits : t'.submits) (hstatus : v.contract.ejarStatus ≠ .submitting)
    {u : RecordWrite} (hallowed : mayWrite inst t ((watchRule inst t).phaseOf i h) v (.record u)) :
    (u.apply v.contract).ejarStatus ≠ .submitting := by
  intro hu
  obtain ⟨hasking, hwho⟩ := writes_submitting hallowed hstatus hu
  have hviewed := hm.sees_viewed hv hlive
  have htended := hviewed.tended hasking
  obtain ⟨uuid, hjob⟩ := job_of_submits hsubmits
  obtain ⟨row, hrow, huuid, hkind, hstate⟩ := hm.occupied.sees_runs hv hj hjob
  have hrowlive := live_of_started hkind hstate
  obtain hown | hinactive := hwho
  · obtain ⟨uuid', hjob'⟩ := job_of_submits hown
    obtain ⟨row', hrow', huuid', hkind', hstate'⟩ := hm.occupied.sees_runs hv hlive hjob'
    have hsame : uuid = uuid' := by
      rw [← huuid, ← huuid']
      exact htended.single row hrow row' hrow' hrowlive (live_of_started hkind' hstate')
    exact hm.occupied.distinct j i t' t q p uuid .submission .submission hne hj hlive hjob (by rw [hsame, hjob'])
  · have hactive := hasActiveJob_of_live hfound hviewed.rows hrow hrowlive (htended.named row hrow hrowlive)
    rw [hinactive] at hactive
    cases hactive

end

end Stranded

end Ejar
