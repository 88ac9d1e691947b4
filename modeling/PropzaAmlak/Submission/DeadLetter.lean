import Mathlib.Data.List.Induction
import PropzaAmlak.Submission.Exclusion

/-! Submission jobs that end failed: what their last attempt leaves committed, and
what the cleanup cron makes of it. -/

namespace Ejar

open Tx

/-- The error, the job and the activities are as a dead letter has them. -/
structure Marked (c : Contract) : Prop where
  error : c.jobLastError.truthy = true
  released : c.activeJobUuid.truthy = false
  review : c.activities ≠ []

/-- The contract is back at 'ready' for review, with its error and without a job. -/
structure DeadLettered (c : Contract) : Prop extends Marked c where
  ready : c.ejarStatus = .ready

/-- A part of a run: caller `i` reads the contract and fails at the job, and later
caller `k` reads it and returns from the cleanup. -/
structure Episode where
  i : Nat
  k : Nat
  job : String
  env : Env
  excInfo : String
  before : List TaskMove
  found : World
  during : List TaskMove
  error : TaskExc
  left : World
  between : List TaskMove
  looked : World
  cleaning : List TaskMove
  cleaned : World

namespace Episode

variable (ep : Episode)

def attempt : List TaskMove :=
  ep.before ++ ⟨ep.i, .submissionJob ep.job ep.env, .effect (.read ep.found)⟩ :: (ep.during ++
    [⟨ep.i, .submissionJob ep.job ep.env, .finish (.raise ep.error) ep.left⟩])

def history : List TaskMove :=
  ep.attempt ++ ep.between ++ ⟨ep.k, .cronCleanup ep.excInfo, .effect (.read ep.looked)⟩ ::
    (ep.cleaning ++ [⟨ep.k, .cronCleanup ep.excInfo, .finish (.ret ()) ep.cleaned⟩])

/-- In a run from `w` to `m` the attempt is the last one of the job, and the cleanup
follows. -/
structure Happens (inst : Installation) (w : World)
    (m : Machine World WorldWrite Request Reply TaskExc Unit Task) : Prop where
  run : Run (system inst) w ep.history m
  starts : effectsOf ep.i ep.before = []
  fails : ∃ row ∈ ((Task.submissionJob ep.job ep.env).finish (.raise ep.error) ep.left).jobs,
    row.uuid = ep.job ∧ row.state = .failed
  looks : effectsOf ep.k (ep.attempt ++ ep.between) = []

end Episode

def RecordWrite.keepsMark : RecordWrite → Prop
  | .contract vals => vals.jobLastError = none ∧ vals.activeJobUuid = none
  | .activity _ => False
  | _ => True

/-- The write leaves alone all that tells whether the contract is dead-lettered. -/
def RecordWrite.leaves : RecordWrite → Prop
  | .contract vals => vals.ejarStatus = none ∧ vals.jobLastError = none ∧ vals.activeJobUuid = none
  | .activity _ => False
  | _ => True

/-- Nobody but the attempt itself writes the status, the error, the job or the
activities from its first read to that of the cleanup. -/
def Episode.undisturbed (ep : Episode) : Prop :=
  ∀ mv ∈ ep.during ++ ep.between, mv.who ≠ ep.i → ∀ v u, mv.label = .effect (.write v (.record u)) → u.leaves

/-- The cleanup does something to the contract. -/
structure Stuck (inst : Installation) (w : World) : Prop where
  found : inst.queueJobFound = true
  submitting : w.contract.ejarStatus = .submitting
  named : w.contract.activeJobUuid.truthy = true
  ended : ∃ job ∈ w.jobs, some job.uuid = w.contract.activeJobUuid ∧
    (job.state = .failed ∨ job.state = .cancelled)

def Task.submits : Task → Bool
  | submissionJob .. => true
  | _ => false

namespace DeadLetter

/-- A caller with a submission job commits nothing of the dead letter, and writes it
only after its last commit. -/
def attemptRule (t : Task) : ContractProtocol Stage where
  init := .fresh
  allows stage
    | .write _ u => t.submits →
      stage = .past ∨ stage = .succeeded ∨ (u.keepsMark ∧ (stage = .failing → u.leaves))
    | .commit _ => t.submits →
      stage = .entering ∨ stage = .inside ∨ stage = .failing ∨ stage = .finishing
    | _ => True
  next := Stage.next

variable {t : Task} {env : Env}

theorem attemptRule_neutral : Neutral (attemptRule t) (· = .inside) fun _ => True where
  read := by
    rintro stage c rfl
    exact ⟨trivial, rfl⟩
  commit := by
    rintro stage c rfl
    exact ⟨fun _ => by simp, rfl⟩
  call := by
    rintro stage q r rfl -
    exact ⟨trivial, rfl⟩
  write := by
    rintro stage c u rfl hu
    cases u with
    | contract vals =>
      obtain ⟨hstatus, -, hjob, herror, -⟩ := hu
      exact ⟨fun _ => .inr (.inr ⟨⟨herror, hjob⟩, by simp⟩), by simp [attemptRule, Stage.next, RecordWrite.sets,
        hstatus]⟩
    | activity note => exact hu.elim
    | party id v => exact ⟨fun _ => .inr (.inr ⟨trivial, by simp⟩), rfl⟩
    | unit id v => exact ⟨fun _ => .inr (.inr ⟨trivial, by simp⟩), rfl⟩

theorem stepCreateContract_inside {client : Nat} {profile : BrokerageProfile} :
    Neutral.keeps (attemptRule t) (· = .inside) (stepCreateContract client profile) := by
  refine (attemptRule_neutral.weaken fun _ _ => trivial).stepCreateContract fun {vals} hstatus hquiet => ?_
  rintro ⟨view, stage⟩ rfl
  have hnext : ∀ c, Stage.next .inside (.write c (.contract vals)) = .inside := fun c => by
    simp [Stage.next, RecordWrite.sets, hstatus]
  refine obeys_writeContract fun c _ => ⟨fun _ => .inr (.inr ⟨⟨hquiet.2.1, hquiet.1⟩, by simp⟩), trivial, ?_⟩
  show Stage.next (Stage.next .inside (.write c (.contract vals))) _ = .inside
  rw [hnext]
  rfl

theorem finalize_succeeds {id : String} {N : SubmissionResult → Local Contract Stage → Prop}
    {E : Exc → Local Contract Stage → Prop} (hN : ∀ a y, y.phase = .succeeded → N a y)
    {y : Local Contract Stage} (hy : y.phase = .inside) :
    (finalize env id).obeys RecordWrite.apply (attemptRule t) N E y := by
  obtain ⟨view, stage⟩ := y
  obtain rfl : stage = .inside := hy
  rw [finalize, Prog.obeys_bind]
  refine obeys_writeContract fun c _ => ⟨fun _ => .inr (.inr ⟨⟨rfl, rfl⟩, by simp⟩), trivial, ?_⟩
  rw [Prog.obeys_bind, Prog.obeys_commitNow]
  refine fun c _ => ⟨fun _ => by simp [attemptRule, Stage.next, RecordWrite.sets], ?_⟩
  rw [Prog.obeys_bind, Prog.obeys_get]
  exact fun c _ => ⟨trivial, hN _ _ rfl⟩

theorem executeFullSubmission_ends {c : Contract} {N : SubmissionResult → Local Contract Stage → Prop}
    {E : Exc → Local Contract Stage → Prop} (hN : ∀ a y, y.phase = .succeeded → N a y)
    (hE : ∀ e y, y.phase = .past → E e y) :
    (executeFullSubmission env).obeys RecordWrite.apply (attemptRule t) N E ⟨some c, .opened c⟩ := by
  rw [executeFullSubmission, Prog.obeys_bind, Prog.obeys_get]
  refine fun d _ => ⟨trivial, ?_⟩
  rw [Prog.obeys_bind]
  refine obeys_writeContract fun d _ => ⟨fun _ => .inr (.inr ⟨⟨rfl, rfl⟩, by simp [attemptRule, Stage.next]⟩),
    trivial, ?_⟩
  rw [Prog.obeys_bind, Prog.obeys_commitNow]
  refine fun d _ => ⟨fun _ => by simp [attemptRule, Stage.next, RecordWrite.sets], ?_⟩
  rw [Prog.obeys_tryCatch]
  refine attemptRule_neutral.runPipeline (fun _ _ => stepCreateContract_inside) rfl (fun exc y hy => ?_)
    fun id y hy => finalize_succeeds hN hy
  obtain ⟨view, stage⟩ := y
  obtain rfl : stage = .inside := hy
  rw [Prog.obeys_bind]
  refine obeys_writeContract fun d _ => ⟨fun _ => .inr (.inr ⟨⟨rfl, rfl⟩, by simp⟩), trivial, ?_⟩
  rw [Prog.obeys_bind, Prog.obeys_commitNow]
  refine fun d _ => ⟨fun _ => by simp [attemptRule, Stage.next, RecordWrite.sets], ?_⟩
  exact hE _ _ rfl

section

variable {y : Local Contract Stage}

theorem follows_writeRecord_ended {vals : ContractVals} {stage : Stage} (hy : y.phase = stage)
    (hended : stage = .past ∨ stage = .succeeded) {E : TaskExc → Local Contract Stage → Prop} :
    follows (attemptRule t) (writeRecord vals) (fun _ z => z.phase = stage) E y := by
  obtain ⟨view, phase⟩ := y
  obtain rfl : phase = stage := hy
  refine follows_writeRecord fun c _ => ⟨fun _ => hended.imp_right .inl, trivial, ?_⟩
  obtain rfl | rfl := hended <;> rfl

theorem follows_markDeadLetter (reason : String) (hy : y.phase = .past) {E : TaskExc → Local Contract Stage → Prop} :
    follows (attemptRule t) (markDeadLetter reason) (fun _ z => z.phase = .past) E y := by
  refine follows_bind (follows_mono (fun _ z hz => ?_) (fun _ _ h => h) (follows_writeRecord_ended hy (.inl rfl)))
  obtain ⟨view, phase⟩ := z
  obtain rfl : phase = .past := hz
  exact follows_bind (follows_get fun w _ => ⟨trivial, follows_put_record fun c _ => ⟨fun _ => .inl rfl, rfl⟩⟩)

end

theorem submissionJob_follows {job : String} : follows (attemptRule (.submissionJob job env))
    (jobExecuteFullSubmission env) (fun _ y => y.phase ≠ .past) (fun _ y => y.phase = .past) ⟨none, .fresh⟩ := by
  refine follows_bind (follows_get fun w hw => ⟨trivial, ?_⟩)
  split
  · exact follows_ret (by simp [attemptRule, Stage.next])
  refine follows_bind (follows_onContract (executeFullSubmission_ends (fun a z hz => ?_) fun exc z hz => ?_))
  · exact follows_mono (fun _ _ h => by simp [h]) (fun _ _ h => h) (follows_writeRecord_ended hz (.inr rfl))
  · dsimp only
    split
    · refine follows_bind (follows_mono (fun _ z hz => ?_) (fun _ _ h => h) (follows_writeRecord_ended hz (.inl rfl)))
      split
      · exact follows_bind (follows_mono (fun _ _ hz => follows_raise hz) (fun _ _ h => h)
          (follows_markDeadLetter _ hz))
      · exact follows_raise hz
    · exact follows_raise hz

variable {inst : Installation}

theorem obeys_body (inst : Installation) (t : Task) : ((system inst).body t).obeys (system inst).app
    (onWorld (attemptRule t)) (fun _ x => t.submits → x.phase ≠ .past) (fun _ x => t.submits → x.phase = .past)
    ⟨none, .fresh⟩ := by
  have hfree : t.submits = false → ((system inst).body t).obeys (system inst).app (onWorld (attemptRule t))
      (fun _ x => t.submits → x.phase ≠ .past) (fun _ x => t.submits → x.phase = .past) ⟨none, .fresh⟩ := by
    intro hother
    have hnot : ¬ t.submits = true := by simp [hother]
    refine Prog.obeys_mono (fun _ _ _ h => absurd h hnot) (fun _ _ _ h => absurd h hnot)
      (Prog.obeys_free (I := fun _ => True) (fun stage e _ => ⟨?_, trivial⟩) trivial)
    cases e with
    | write v u =>
      cases u with
      | record u => exact fun h => absurd h hnot
      | _ => trivial
    | commit v => exact fun h => absurd h hnot
    | _ => trivial
  cases t with
  | submissionJob job env =>
    exact Prog.obeys_mono (fun _ _ h _ => h) (fun _ _ h _ => h) (submissionJob_follows ⟨none, .fresh⟩ rfl)
  | _ => exact hfree rfl

/-- The fields of a dead letter. -/
def mark (c : Contract) : CharField × CharField × List String :=
  (c.jobLastError, c.activeJobUuid, c.activities)

theorem marked_congr {c d : Contract} (h : mark c = mark d) : Marked c ↔ Marked d := by
  simp only [mark, Prod.mk.injEq] at h
  obtain ⟨herror, huuid, hactivities⟩ := h
  constructor
  · rintro ⟨he, hu, ha⟩
    exact ⟨herror ▸ he, huuid ▸ hu, hactivities ▸ ha⟩
  · rintro ⟨he, hu, ha⟩
    exact ⟨herror ▸ he, huuid ▸ hu, hactivities ▸ ha⟩

theorem mark_apply {u : RecordWrite} (hu : u.keepsMark) (c : Contract) : mark (u.apply c) = mark c := by
  cases u with
  | contract vals => simp [mark, RecordWrite.apply, Contract.set, hu.1, hu.2]
  | activity note => exact hu.elim
  | _ => rfl

theorem keepsMark_of_leaves {u : RecordWrite} (hu : u.leaves) : u.keepsMark := by
  cases u with
  | contract vals => exact hu.2
  | _ => exact hu

theorem status_apply {u : RecordWrite} (hu : u.leaves) (c : Contract) :
    (u.apply c).ejarStatus = c.ejarStatus := by
  cases u with
  | contract vals => simp [RecordWrite.apply, Contract.set, hu.1]
  | activity note => exact hu.elim
  | _ => rfl

theorem status_of_sets {u : RecordWrite} {new : EjarStatus} (hu : u.sets new) (c : Contract) :
    (u.apply c).ejarStatus = new := by
  cases u with
  | contract vals =>
    have hstatus : vals.ejarStatus = some new := by simpa [RecordWrite.sets] using hu
    simp [RecordWrite.apply, Contract.set, hstatus]
  | _ => cases hu

theorem start_contract {t : Task} {w w' : World} (h : t.start w = some w') : w'.contract = w.contract := by
  unfold Task.start at h
  split at h
  · rw [Option.some.inj h]
  · split at h
    · cases h
    · rw [← Option.some.inj h]

theorem finish_contract (t : Task) (o : Outcome TaskExc Unit) (w : World) :
    (t.finish o w).contract = w.contract := by
  unfold Task.finish
  split <;> rfl

abbrev TaskMachine := Machine World WorldWrite Request Reply TaskExc Unit Task

theorem failing_write {stage : Stage} {c : Contract} {u : RecordWrite}
    (h : stage.next (.write c u) = .failing) : stage = .failing ∨ u.sets .ready := by
  cases stage with
  | failing => exact .inl rfl
  | inside =>
    by_cases hready : u.sets .ready = true
    · exact .inr hready
    · rw [Stage.next, if_neg hready] at h
      split at h <;> cases h
  | finishing =>
    by_cases hready : u.sets .ready = true
    · exact .inr hready
    · rw [Stage.next, if_neg hready] at h
      cases h
  | opened d =>
    simp only [Stage.next] at h
    split at h <;> cases h
  | _ => cases h

theorem over_write {stage : Stage} {c : Contract} {u : RecordWrite} (hfresh : stage ≠ .fresh)
    (h : stage.next (.write c u) = .past) : stage = .past := by
  cases stage with
  | fresh => exact absurd rfl hfresh
  | past => rfl
  | inside =>
    simp only [Stage.next] at h
    split at h
    · cases h
    · split at h <;> cases h
  | opened d | finishing =>
    simp only [Stage.next] at h
    split at h <;> cases h
  | _ => cases h

/-- What is known from the first read of caller `i`, which found `c`, while it has not
succeeded. -/
structure Holding (c : Contract) (i : Nat) (stage : Stage) (m : TaskMachine) : Prop where
  store : mark m.store.contract = mark c
  opened : ∀ j v, m.holder = some (j, v) → (j = i → stage ≠ .past) → mark v.contract = mark c
  failing : stage = .failing → ∀ t p, m.proc i = .live t p →
    ∃ v, m.holder = some (i, v) ∧ v.contract.ejarStatus = .ready
  ready : stage = .past → m.store.contract.ejarStatus = .ready ∧
    ∀ j v, m.holder = some (j, v) → j ≠ i → v.contract.ejarStatus = .ready

namespace Holding

variable {c : Contract} {i j : Nat} {stage : Stage} {m m' : TaskMachine} {mv : TaskMove} {v : World}

theorem sees (hm : Holding c i stage m) (hv : m.sees j = some v) (hj : j = i → stage ≠ .past) :
    mark v.contract = mark c := by
  cases hh : m.holder with
  | none =>
    simp only [Machine.sees, hh, Option.some.injEq] at hv
    exact hv ▸ hm.store
  | some a =>
    obtain ⟨k, u⟩ := a
    by_cases hk : k = j
    · simp only [Machine.sees, hh, hk, if_true, Option.some.injEq] at hv
      exact hv ▸ hm.opened k u hh (fun h => hj (hk ▸ h))
    · simp [Machine.sees, hh, hk] at hv

theorem sees_ready (hm : Holding c i stage m) (hv : m.sees j = some v) (hstage : stage = .past) (hj : j ≠ i) :
    v.contract.ejarStatus = .ready := by
  obtain ⟨hstore, hopened⟩ := hm.ready hstage
  cases hh : m.holder with
  | none =>
    simp only [Machine.sees, hh, Option.some.injEq] at hv
    exact hv ▸ hstore
  | some a =>
    obtain ⟨k, u⟩ := a
    by_cases hk : k = j
    · simp only [Machine.sees, hh, hk, if_true, Option.some.injEq] at hv
      exact hv ▸ hopened k u hh (hk ▸ hj)
    · simp [Machine.sees, hh, hk] at hv

theorem sees_failing (hm : Holding c i stage m) (hv : m.sees i = some v) (hstage : stage = .failing)
    {t : Task} {p : TaskProg Unit} (hlive : m.proc i = .live t p) : v.contract.ejarStatus = .ready := by
  obtain ⟨u, hu, hready⟩ := hm.failing hstage t p hlive
  simp only [Machine.sees, hu, if_true, Option.some.injEq] at hv
  rwa [← hv]

theorem alone (hm : Holding c i stage m) (hstage : stage = .failing) {t : Task} {p : TaskProg Unit}
    (hlive : m.proc i = .live t p) (hj : j ≠ i) : m.sees j = none ∧ m.holder ≠ none := by
  obtain ⟨u, hu, -⟩ := hm.failing hstage t p hlive
  exact ⟨by simp [Machine.sees, hu, Ne.symm hj], by simp [hu]⟩

/-- A store written by another caller that leaves the dead letter alone. -/
theorem other (hm : Holding c i stage m) (hstep : Step (system inst) m mv m') (hi : mv.who ≠ i)
    (hleaves : ∀ v u, mv.label = .effect (.write v (.record u)) → u.leaves) : Holding c i stage m' := by
  have hsame : m'.proc i = m.proc i := hstep.task_after.2 i (Ne.symm hi)
  have hblocked : ∀ {v t p}, m.sees mv.who = some v → stage = .failing → m'.proc i = .live t p → False := by
    intro v t p hv hstage hlive
    rw [(hm.alone hstage (hsame ▸ hlive) hi).1] at hv
    cases hv
  -- The transaction of the other caller ends, with `s` as the store.
  have hends : ∀ {pr s v}, m.sees mv.who = some v → m' = m.set mv.who pr s none →
      mark s.contract = mark c → (stage = .past → s.contract.ejarStatus = .ready) → Holding c i stage m' := by
    rintro pr s v hv rfl hmark hready
    refine ⟨hmark, by simp [Machine.set], fun hstage t p hlive => (hblocked hv hstage hlive).elim,
      fun hstage => ⟨hready hstage, by simp [Machine.set]⟩⟩
  -- It goes on and sees `u`.
  have hgoes : ∀ {pr u v}, m.sees mv.who = some v → m' = m.set mv.who pr m.store (some (mv.who, u)) →
      mark u.contract = mark c → (stage = .past → u.contract.ejarStatus = .ready) → Holding c i stage m' := by
    rintro pr u v hv rfl hmark hready
    refine ⟨hm.store, fun j v hj _ => ?_, fun hstage t p hlive => (hblocked hv hstage hlive).elim,
      fun hstage => ⟨(hm.ready hstage).1, fun j v hj _ => ?_⟩⟩
    · simp only [Machine.set, Option.some.injEq, Prod.mk.injEq] at hj
      rwa [← hj.2]
    · simp only [Machine.set, Option.some.injEq, Prod.mk.injEq] at hj
      rw [← hj.2]
      exact hready hstage
  have hseen : ∀ {v}, m.sees mv.who = some v → mark v.contract = mark c ∧
      (stage = .past → v.contract.ejarStatus = .ready) := fun hv =>
    ⟨hm.sees hv fun h => absurd h hi, fun hstage => hm.sees_ready hv hstage hi⟩
  cases hstep with
  | start hidle hnone hs =>
    have hcontract := start_contract hs
    refine ⟨by rw [← hm.store]; exact congrArg mark hcontract, by simp [Machine.set],
      fun hstage t p hlive => absurd hnone (hm.alone hstage (hsame ▸ hlive) hi).2,
      fun hstage => ⟨?_, by simp [Machine.set]⟩⟩
    rw [← (hm.ready hstage).1]
    exact congrArg Contract.ejarStatus hcontract
  | read hlive hv => exact hgoes hv rfl (hseen hv).1 (hseen hv).2
  | @write k t u p v hlive hv =>
    cases u with
    | record u =>
      have hu := hleaves v u rfl
      refine hgoes hv rfl ((mark_apply (keepsMark_of_leaves hu) _).trans (hseen hv).1) fun hstage => ?_
      exact (status_apply hu _).trans ((hseen hv).2 hstage)
    | enqueue job => exact hgoes hv rfl (hseen hv).1 (hseen hv).2
    | setJobState uuid state => exact hgoes hv rfl (hseen hv).1 (hseen hv).2
  | commit hlive hv => exact hends hv rfl (hseen hv).1 (hseen hv).2
  | call r hlive => exact ⟨hm.store, hm.opened, fun hstage t p hi => hm.failing hstage t p (hsame ▸ hi), hm.ready⟩
  | lost hlive hv =>
    refine hends hv rfl ?_ fun hstage => ?_ <;> rw [show (system inst).finish = Task.finish from rfl, finish_contract]
    · exact hm.store
    · exact (hm.ready hstage).1
  | ret hlive hv =>
    refine hends hv rfl ?_ fun hstage => ?_ <;> rw [show (system inst).finish = Task.finish from rfl, finish_contract]
    · exact (hseen hv).1
    · exact (hseen hv).2 hstage
  | raise hlive hv =>
    refine hends hv rfl ?_ fun hstage => ?_ <;> rw [show (system inst).finish = Task.finish from rfl, finish_contract]
    · exact hm.store
    · exact (hm.ready hstage).1
  | cut hlive hv =>
    refine hends hv rfl ?_ fun hstage => ?_ <;> rw [show (system inst).finish = Task.finish from rfl, finish_contract]
    · exact hm.store
    · exact (hm.ready hstage).1

/-- The caller ends, with `s` as the store. -/
theorem ends {t : Task} {o : Outcome TaskExc Unit} {s : World} (hm : Holding c i stage m)
    (hs : s.contract = m.store.contract) : Holding c i stage (m.set i (.ended t o) s none) := by
  refine ⟨(congrArg mark hs).trans hm.store, by simp [Machine.set], fun _ t p hlive => ?_,
    fun hpast => ⟨?_, by simp [Machine.set]⟩⟩
  · rw [Machine.set_proc_self] at hlive
    cases hlive
  · exact (congrArg Contract.ejarStatus hs).trans (hm.ready hpast).1

/-- The caller goes on and sees `u`. -/
theorem goes {pr : Proc World WorldWrite Request Reply TaskExc Unit Task} {u : World} {next : Stage}
    (hm : Holding c i stage m)
    (hmark : next ≠ .past → mark u.contract = mark c) (hready : next = .failing → u.contract.ejarStatus = .ready)
    (hpast : next = .past → stage = .past) : Holding c i next (m.set i pr m.store (some (i, u))) := by
  refine ⟨hm.store, fun j v hj hne => ?_, fun hfailing t p _ => ⟨u, rfl, hready hfailing⟩,
    fun h => ⟨(hm.ready (hpast h)).1, fun j v hj hne => ?_⟩⟩
  · simp only [Machine.set, Option.some.injEq, Prod.mk.injEq] at hj
    rw [← hj.2]
    exact hmark (hne hj.1.symm)
  · simp only [Machine.set, Option.some.injEq, Prod.mk.injEq] at hj
    exact absurd hj.1.symm hne

/-- The caller goes on and writes `u`, as the rule allows. -/
theorem writes {pr : Proc World WorldWrite Request Reply TaskExc Unit Task} {v : World} {u : RecordWrite}
    (hm : Holding c i stage m) (hfresh : stage ≠ .fresh) (hseen : stage ≠ .past → mark v.contract = mark c)
    (hready : stage = .failing → v.contract.ejarStatus = .ready)
    (hrule : stage = .past ∨ stage = .succeeded ∨ (u.keepsMark ∧ (stage = .failing → u.leaves)))
    (hnext : stage.next (.write v.contract u) ≠ .succeeded) :
    Holding c i (stage.next (.write v.contract u))
      (m.set i pr m.store (some (i, (WorldWrite.record u).apply v))) := by
  have hsucceeded : stage ≠ .succeeded := by
    rintro rfl
    exact hnext rfl
  have hpast : stage.next (.write v.contract u) ≠ .past → stage ≠ .past := by
    rintro hne rfl
    exact hne rfl
  refine hm.goes (fun hne => ?_) (fun hfailing => ?_) (over_write hfresh)
  · obtain h | h | ⟨hu, -⟩ := hrule
    · exact absurd h (hpast hne)
    · exact absurd h hsucceeded
    · exact (mark_apply hu _).trans (hseen (hpast hne))
  · obtain rfl | hsets := failing_write hfailing
    · obtain h | h | ⟨-, hu⟩ := hrule
      · cases h
      · cases h
      · exact (status_apply (hu rfl) _).trans (hready rfl)
    · exact status_of_sets hsets _

theorem self {h : List TaskMove} (hm : Holding c mv.who stage m) (hstep : Step (system inst) m mv m')
    (hobeying : Obeying (system inst) (fun t => onWorld (attemptRule t))
      (fun t _ x => t.submits → x.phase ≠ .past) (fun t _ x => t.submits → x.phase = .past) h m)
    (hstage : (onWorld (attemptRule mv.task)).phaseOf mv.who h = stage) (hsubmits : mv.task.submits)
    (hstart : mv.label ≠ .start) (hfresh : stage ≠ .fresh)
    (hnext : (onWorld (attemptRule mv.task)).phaseOf mv.who (h ++ [mv]) ≠ .succeeded) :
    Holding c mv.who ((onWorld (attemptRule mv.task)).phaseOf mv.who (h ++ [mv])) m' := by
  have hallows := fun e he => (hobeying.step (obeys_body inst) hstep).2 e he
  rw [hstage] at hallows
  cases hstep with
  | start hidle hnone hs => exact absurd rfl hstart
  | @read i t k v hlive hv =>
    rw [Protocol.phaseOf_of_effect rfl, hstage] at hnext ⊢
    have hsame : (onWorld (attemptRule t)).next stage (.read v) = stage := by
      cases stage <;> first | rfl | exact absurd rfl hfresh
    rw [hsame]
    exact hm.goes (fun hne => hm.sees hv fun _ => hne) (fun hfailing => hm.sees_failing hv hfailing hlive) id
  | @write i t u k v hlive hv =>
    rw [Protocol.phaseOf_of_effect rfl, hstage] at hnext ⊢
    have hrule := hallows _ rfl
    have hseen : stage ≠ .past → mark v.contract = mark c := fun hne => hm.sees hv fun _ => hne
    have hready : stage = .failing → v.contract.ejarStatus = .ready := fun h => hm.sees_failing hv h hlive
    cases u with
    | record u => exact hm.writes hfresh hseen hready (hrule hsubmits) hnext
    | enqueue job => exact hm.goes hseen hready id
    | setJobState uuid state => exact hm.goes hseen hready id
  | @commit i t k v hlive hv =>
    have hseen : stage ≠ .past → mark v.contract = mark c := fun hne => hm.sees hv fun _ => hne
    rw [Protocol.phaseOf_of_effect rfl, hstage] at hnext ⊢
    obtain rfl | rfl | rfl | rfl := hallows _ rfl hsubmits
    · refine ⟨hseen (by simp), by simp [Machine.set], fun h => ?_, fun h => ?_⟩ <;> cases h
    · refine ⟨hseen (by simp), by simp [Machine.set], fun h => ?_, fun h => ?_⟩ <;> cases h
    · refine ⟨hseen (by simp), by simp [Machine.set], fun h => ?_, fun _ => ⟨?_, by simp [Machine.set]⟩⟩
      · cases h
      · exact hm.sees_failing hv rfl hlive
    · exact absurd rfl hnext
  | @call i t q k r hlive =>
    rw [Protocol.phaseOf_of_effect rfl, hstage] at hnext ⊢
    have hsame : (onWorld (attemptRule t)).next stage (.call q (some r)) = stage := by
      cases stage <;> first | rfl | exact absurd rfl hfresh
    rw [hsame]
    exact ⟨hm.store, hm.opened, fun hfailing t p _ => hm.failing hfailing _ _ hlive, hm.ready⟩
  | @lost i t q k v hlive hv =>
    have hsame : (onWorld (attemptRule t)).next stage (.call q none) = stage := by
      cases stage <;> first | rfl | exact absurd rfl hfresh
    rw [Protocol.phaseOf_of_effect rfl, hstage, hsame]
    exact hm.ends (finish_contract _ _ _)
  | @ret i t a v hlive hv =>
    have hpast : stage ≠ .past := by
      rw [← hstage]
      exact hobeying.live i t _ hlive hsubmits
    rw [Protocol.phaseOf_of_finish rfl, hstage]
    refine ⟨?_, by simp [Machine.set], fun _ t p hended => ?_, fun h => absurd h hpast⟩
    · exact (congrArg mark (finish_contract _ _ _)).trans (hm.sees hv fun _ => hpast)
    · rw [Machine.set_proc_self] at hended
      cases hended
  | raise hlive hv =>
    rw [Protocol.phaseOf_of_finish rfl, hstage]
    exact hm.ends (finish_contract _ _ _)
  | cut hlive hv =>
    rw [Protocol.phaseOf_of_finish rfl, hstage]
    exact hm.ends (finish_contract _ _ _)

end Holding

/-- A stage that a caller does not leave. -/
def final (stage : Stage) : Prop := stage = .past ∨ stage = .succeeded

theorem final_next {t : Task} {stage : Stage} (h : final stage) (e : Effect World WorldWrite Request Reply) :
    (onWorld (attemptRule t)).next stage e = stage := by
  obtain ⟨d, hd⟩ | hsame := (Exclusion.stages_next e).symm
  · obtain ⟨-, hnext⟩ := hd
    obtain rfl | rfl := h <;> exact (hnext _).trans (by cases d <;> rfl)
  · exact hsame stage

theorem final_after {t : Task} {i : Nat} {h h' : List TaskMove}
    (hfinal : final ((onWorld (attemptRule t)).phaseOf i h)) :
    (onWorld (attemptRule t)).phaseOf i (h ++ h') = (onWorld (attemptRule t)).phaseOf i h := by
  rw [Protocol.phaseOf, effectsOf_append, List.foldl_append]
  change (effectsOf i h').foldl _ ((onWorld (attemptRule t)).phaseOf i h) = _
  induction effectsOf i h' with
  | nil => rfl
  | cons e es ih => rw [List.foldl_cons, final_next hfinal, ih]

theorem fresh_next {t : Task} {stage : Stage} (h : stage ≠ .fresh) (e : Effect World WorldWrite Request Reply) :
    (onWorld (attemptRule t)).next stage e ≠ .fresh := by
  intro hnext
  obtain hsame | ⟨d, -, hd⟩ := Exclusion.stages_next e
  · exact h ((hsame stage).symm.trans hnext)
  · have hfresh : stage.next d = .fresh := (hd stage).symm.trans hnext
    unfold Stage.next at hfresh
    split at hfresh
    all_goals first
      | exact h hfresh
      | cases hfresh
      | (split at hfresh <;> first | cases hfresh | (split at hfresh <;> cases hfresh))

section

variable {w found : World} {i : Nat} {job : String} {before rest : List TaskMove} {m : TaskMachine}

theorem first_read (hrun : Run (system inst) w (before ++ [⟨i, .submissionJob job env, .effect (.read found)⟩]) m)
    (hnone : effectsOf i before = []) : (onWorld (attemptRule (.submissionJob job env))).phaseOf i
        (before ++ [⟨i, .submissionJob job env, .effect (.read found)⟩]) = .opened found.contract ∧
      Holding found.contract i (.opened found.contract) m := by
  obtain ⟨m₁, hbefore, hstep⟩ := hrun.init
  refine ⟨?_, ?_⟩
  · rw [Protocol.phaseOf_effect, Protocol.phaseOf, hnone]
    rfl
  cases hstep with
  | read hlive hv =>
    obtain ⟨-, rfl⟩ := Machine.sees_store (hbefore.view_none hnone) hv
    refine ⟨rfl, fun j v hj _ => ?_, fun h => ?_, fun h => ?_⟩
    · simp only [Machine.set, Option.some.injEq, Prod.mk.injEq] at hj
      rw [← hj.2]
    · cases h
    · cases h

/-- What is known after more steps, if the others leave the dead letter alone. -/
theorem run_holding (hnone : effectsOf i before = []) (hothers : ∀ mv ∈ rest, mv.who ≠ i → ∀ v u,
      mv.label = .effect (.write v (.record u)) → u.leaves)
    (hrun : Run (system inst) w (before ++ ⟨i, .submissionJob job env, .effect (.read found)⟩ :: rest) m) :
    (onWorld (attemptRule (.submissionJob job env))).phaseOf i
        (before ++ ⟨i, .submissionJob job env, .effect (.read found)⟩ :: rest) ≠ .fresh ∧
      ((onWorld (attemptRule (.submissionJob job env))).phaseOf i
          (before ++ ⟨i, .submissionJob job env, .effect (.read found)⟩ :: rest) ≠ .succeeded →
        Holding found.contract i ((onWorld (attemptRule (.submissionJob job env))).phaseOf i
          (before ++ ⟨i, .submissionJob job env, .effect (.read found)⟩ :: rest)) m) := by
  induction rest using List.reverseRecOn generalizing m with
  | nil =>
    obtain ⟨hstage, hholding⟩ := first_read hrun hnone
    rw [hstage]
    exact ⟨by simp, fun _ => hholding⟩
  | append_singleton rest mv ih =>
    have hsplit : before ++ ⟨i, .submissionJob job env, .effect (.read found)⟩ :: (rest ++ [mv]) =
        (before ++ ⟨i, .submissionJob job env, .effect (.read found)⟩ :: rest) ++ [mv] := by simp
    rw [hsplit] at hrun ⊢
    obtain ⟨m₁, hinit, hstep⟩ := hrun.init
    obtain ⟨hfresh, hholding⟩ := ih (fun mv' hmv' => hothers mv' (List.mem_append_left _ hmv')) hinit
    by_cases hi : mv.who = i
    · subst hi
      have hlook : (⟨mv.who, .submissionJob job env, .effect (.read found)⟩ : TaskMove) ∈
          before ++ ⟨mv.who, .submissionJob job env, .effect (.read found)⟩ :: rest := by simp
      have htask : mv.task = .submissionJob job env :=
        hrun.task_eq (List.mem_append_right _ (List.mem_singleton_self mv)) (List.mem_append_left _ hlook) rfl
      have hstart : mv.label ≠ .start := fun hlabel => hrun.before_start hlabel _ hlook rfl
      rw [← htask] at hfresh hholding hinit ⊢
      have hobeying := (hinit.obeying (obeys_body inst)).1
      constructor
      · cases hlabel : mv.label with
        | start => exact absurd hlabel hstart
        | effect e =>
          rw [Protocol.phaseOf_of_effect hlabel]
          exact fresh_next hfresh e
        | finish o v =>
          rw [Protocol.phaseOf_of_finish hlabel]
          exact hfresh
      · intro hsucceeded
        have hbefore : (onWorld (attemptRule mv.task)).phaseOf mv.who
            (before ++ ⟨mv.who, mv.task, .effect (.read found)⟩ :: rest) ≠ .succeeded := fun h =>
          hsucceeded ((final_after (.inr h)).trans h)
        exact (hholding hbefore).self hstep hobeying rfl (by rw [htask]; rfl) hstart hfresh hsucceeded
    · rw [Protocol.phaseOf_other hi]
      refine ⟨hfresh, fun hsucceeded => (hholding hsucceeded).other hstep hi ?_⟩
      exact hothers mv (List.mem_append_right _ (List.mem_singleton_self mv)) hi

end

/-- What the cleanup found first. -/
def cleanupRule (_ : Task) : Protocol World WorldWrite Request Reply (Option World) where
  init := none
  allows _ _ := True
  next
    | none, .read w => some w
    | phase, _ => phase

/-- How the cleanup leaves the contract, by what it found. -/
def cleanedUp (inst : Installation) (t : Task) (x : Local World (Option World)) : Prop :=
  (∃ excInfo, t = .cronCleanup excInfo) → ∃ w v, x.phase = some w ∧ x.view = some v ∧
    (DeadLettered v.contract ↔ DeadLettered w.contract ∨ Stuck inst w)

theorem cleanedUp_same {t : Task} {w : World} (h : ¬ Stuck inst w) : cleanedUp inst t ⟨some w, some w⟩ :=
  fun _ => ⟨w, w, rfl, rfl, by simp [h]⟩

theorem take_ne_empty {s : String} (hs : s ≠ "") : String.ofList (s.toList.take 2048) ≠ "" := by
  have hlist : s.toList ≠ [] := by simpa using hs
  intro hcut
  have htake : s.toList.take 2048 = [] := by simpa using congrArg String.toList hcut
  simp only [List.take_eq_nil_iff] at htake
  simp_all

theorem markDeadLetter_obeys {reason : String} (hreason : reason ≠ "") {t : Task} {w v : World} {E}
    (hstuck : Stuck inst w) : (markDeadLetter reason).obeys WorldWrite.apply (cleanupRule t)
      (fun _ => cleanedUp inst t) E ⟨some v, some w⟩ := by
  rw [markDeadLetter, Prog.obeys_bind]
  refine obeys_writeRecord fun v' hv' => ⟨trivial, trivial, ?_⟩
  rw [Prog.obeys_bind, Prog.obeys_get]
  refine fun v'' hv'' => ⟨trivial, fun u hu => ⟨trivial, fun _ => ⟨w, _, rfl, rfl, ?_⟩⟩⟩
  obtain rfl := hv'' _ rfl
  obtain rfl := hu _ rfl
  refine iff_of_true ⟨⟨?_, rfl, by simp [WorldWrite.apply, RecordWrite.apply]⟩, rfl⟩ (.inr hstuck)
  simpa [WorldWrite.apply, RecordWrite.apply, Contract.set] using take_ne_empty hreason

theorem cleanup_obeys {excInfo : String} {t : Task} {E} : (cronCleanupDeadLetterJob inst excInfo).obeys
    WorldWrite.apply (cleanupRule t) (fun _ => cleanedUp inst t) E ⟨none, none⟩ := by
  rw [cronCleanupDeadLetterJob, Prog.obeys_bind, Prog.obeys_get]
  refine fun w _ => ⟨trivial, ?_⟩
  split
  · rename_i hfound
    exact cleanedUp_same fun h => by simp [h.found] at hfound
  split
  · rename_i hstatus
    exact cleanedUp_same fun h => by simp [h.submitting, h.named] at hstatus
  split
  · rename_i hjobs
    refine cleanedUp_same fun h => ?_
    obtain ⟨job, hjob, huuid, hended⟩ := h.ended
    have hnone := List.find?_eq_none.mp hjobs job hjob
    simp_all
  · rename_i hfound hstatus _ job hjob
    have hended := List.find?_some hjob
    have hmem := List.mem_of_find?_eq_some hjob
    simp only [Bool.and_eq_true, decide_eq_true_iff, Bool.or_eq_true] at hended
    refine markDeadLetter_obeys ?_ ⟨by simpa using hfound, ?_, ?_, job, hmem, hended.1, hended.2⟩
    · split
      · assumption
      · decide
    · by_contra hne
      exact hstatus (.inl hne)
    · by_contra hne
      exact hstatus (.inr (by simpa using hne))

section

variable {w : World} {ep : Episode} {m : TaskMachine}

theorem history_split : ep.history = (ep.attempt ++ ep.between) ++
    ⟨ep.k, .cronCleanup ep.excInfo, .effect (.read ep.looked)⟩ ::
      (ep.cleaning ++ [⟨ep.k, .cronCleanup ep.excInfo, .finish (.ret ()) ep.cleaned⟩]) := by
  simp [Episode.history]

theorem cleanup_leaves (hep : ep.Happens inst w m) :
    DeadLettered m.store.contract ↔ DeadLettered ep.looked.contract ∨ Stuck inst ep.looked := by
  have hbody : ∀ t, ((system inst).body t).obeys (system inst).app (cleanupRule t)
      (fun _ => cleanedUp inst t) (fun _ _ => True) ⟨none, (cleanupRule t).init⟩ := by
    intro t
    have hfree : (∀ excInfo, t ≠ .cronCleanup excInfo) → ((system inst).body t).obeys (system inst).app
        (cleanupRule t) (fun _ => cleanedUp inst t) (fun _ _ => True) ⟨none, (cleanupRule t).init⟩ := fun hother =>
      Prog.obeys_mono (fun _ _ _ ⟨excInfo, h⟩ => absurd h (hother excInfo)) (fun _ _ _ => trivial)
        (Prog.obeys_free (I := fun _ => True) (fun _ _ _ => ⟨trivial, trivial⟩) trivial)
    cases t with
    | cronCleanup excInfo => exact cleanup_obeys
    | _ => exact hfree fun _ => by simp
  have hrun := hep.run
  rw [history_split, ← List.cons_append, ← List.append_assoc] at hrun
  obtain ⟨m₁, hbefore, hstep⟩ := hrun.init
  have hobeying := (hbefore.obeying (P := cleanupRule) hbody).1
  have hphase : ∀ rest, (cleanupRule (.cronCleanup ep.excInfo)).phaseOf ep.k ((ep.attempt ++ ep.between) ++
      ⟨ep.k, .cronCleanup ep.excInfo, .effect (.read ep.looked)⟩ :: rest) = some ep.looked := by
    intro rest
    have hkept : ∀ es : List (Effect World WorldWrite Request Reply),
        es.foldl (cleanupRule (.cronCleanup ep.excInfo)).next (some ep.looked) = some ep.looked := by
      intro es
      induction es with
      | nil => rfl
      | cons e es ih => exact ih
    have hfirst : effectsOf ep.k (⟨ep.k, .cronCleanup ep.excInfo, .effect (.read ep.looked)⟩ :: rest) =
        .read ep.looked :: effectsOf ep.k rest := by simp [effectsOf]
    rw [Protocol.phaseOf, effectsOf_append, hep.looks, List.nil_append, hfirst]
    exact hkept _
  cases hstep with
  | ret hlive hv =>
    obtain ⟨u, v, hu, hview, hiff⟩ := hobeying.live _ _ _ hlive ⟨_, rfl⟩
    rw [hphase] at hu
    obtain rfl := Option.some.inj hu
    have hsame := Machine.view_of_sees hv v hview
    subst hsame
    exact hiff

/-- Where nobody else writes to the dead letter, the cleanup finds the contract at
'ready' and the rest of it as the attempt did. -/
theorem attempt_leaves (hep : ep.Happens inst w m) (hothers : ep.undisturbed) :
    ep.looked.contract.ejarStatus = .ready ∧ mark ep.looked.contract = mark ep.found.contract := by
  have hrun := hep.run
  rw [history_split] at hrun
  obtain ⟨m₂, m₃, hlook, hstep⟩ := hrun.split
  have hseen : ep.looked = m₂.store := by
    cases hstep with
    | read hlive hv => exact (Machine.sees_store (hlook.view_none hep.looks) hv).2
  -- The attempt raises after its last commit.
  have hpast : (onWorld (attemptRule (.submissionJob ep.job ep.env))).phaseOf ep.i ep.attempt = .past := by
    obtain ⟨m₁, hattempt⟩ := hlook.upTo
    rw [Episode.attempt, ← List.cons_append, ← List.append_assoc] at hattempt ⊢
    obtain ⟨m₀, hbefore, hfail⟩ := hattempt.init
    have hobeying := (hbefore.obeying (obeys_body inst)).1
    have hlast : (⟨ep.i, .submissionJob ep.job ep.env, .finish (.raise ep.error) ep.left⟩ : TaskMove).label =
        .finish (.raise ep.error) ep.left := rfl
    refine (Protocol.phaseOf_of_finish hlast).trans ?_
    exact hobeying.live _ _ _ (hfail.raise_live rfl).1 rfl
  have hphase :
      (onWorld (attemptRule (.submissionJob ep.job ep.env))).phaseOf ep.i (ep.attempt ++ ep.between) = .past :=
    (final_after (.inl hpast)).trans hpast
  have hsplit : ep.attempt ++ ep.between = ep.before ++
      ⟨ep.i, .submissionJob ep.job ep.env, .effect (.read ep.found)⟩ :: (ep.during ++
        [⟨ep.i, .submissionJob ep.job ep.env, .finish (.raise ep.error) ep.left⟩] ++ ep.between) := by
    simp [Episode.attempt]
  rw [hsplit] at hlook hphase
  have hmoves : ∀ mv ∈ ep.during ++ [⟨ep.i, .submissionJob ep.job ep.env, .finish (.raise ep.error) ep.left⟩] ++
      ep.between, mv.who ≠ ep.i → ∀ v u, mv.label = .effect (.write v (.record u)) → u.leaves := by
    intro mv hmv hi
    simp only [List.mem_append, List.mem_singleton] at hmv
    obtain (hmv | rfl) | hmv := hmv
    · exact hothers mv (List.mem_append_left _ hmv) hi
    · exact absurd rfl hi
    · exact hothers mv (List.mem_append_right _ hmv) hi
  obtain ⟨-, hholding⟩ := run_holding hep.starts hmoves hlook
  rw [hphase] at hholding
  have hfound := hholding (by simp)
  rw [hseen]
  exact ⟨(hfound.ready rfl).1, hfound.store⟩

end

end DeadLetter

/-- What the last attempt writes of the dead letter is lost. If nobody else writes it,
the contract is dead-lettered after the cleanup exactly if it was before the attempt;
in general, if it is when the cleanup looks, or stuck in 'submitting' then. -/
theorem dead_letter_iff {inst : Installation} {w : World} {ep : Episode} {m : DeadLetter.TaskMachine}
    (hep : ep.Happens inst w m) :
    (DeadLettered m.store.contract ↔ DeadLettered ep.looked.contract ∨ Stuck inst ep.looked) ∧
      (ep.undisturbed → (DeadLettered m.store.contract ↔ Marked ep.found.contract)) := by
  have hcleanup := DeadLetter.cleanup_leaves hep
  refine ⟨hcleanup, fun hothers => ?_⟩
  obtain ⟨hready, hmark⟩ := DeadLetter.attempt_leaves hep hothers
  have hstuck : ¬ Stuck inst ep.looked := fun h => by
    have hstatus := h.submitting
    rw [hready] at hstatus
    cases hstatus
  rw [hcleanup, or_iff_left hstuck, ← DeadLetter.marked_congr hmark]
  exact ⟨fun h => h.toMarked, fun h => ⟨h, hready⟩⟩

/-- The credentials of the company are missing. -/
def unconfiguredEnv : Env :=
  { sampleEnv with credentials := .error { cls := .ejarConfigurationError, message := "no credentials" } }

/-- A submission is enqueued, its job fails, and the cron runs, in parts. -/
def lostChoices : Nat → List (Choice Reply Task)
  | 0 => .start 0 (.submitAsync 0 "job-1") :: List.replicate 9 (.go 0 .timeout) ++
      [.start 1 (.submissionJob "job-1" unconfiguredEnv)]
  | 2 => List.replicate 16 (.go 1 .timeout)
  | 4 => [.start 2 (.cronCleanup "")]
  | 5 => [.go 2 .timeout]
  | 6 => [.go 2 .timeout]
  | _ => [.go 1 .timeout]

def lostMachine : Nat → DeadLetter.TaskMachine
  | 0 => .initial ⟨sampleContract "EJ/1", []⟩
  | n + 1 => (Machine.exec (system ⟨true, true, true⟩) (lostChoices n) ([], lostMachine n)).2

def lostMoves (n : Nat) : List TaskMove :=
  (Machine.exec (system ⟨true, true, true⟩) (lostChoices n) ([], lostMachine n)).1

/-- The failed submission of the run, and the cleanup after it. -/
def lostLetter : Episode where
  i := 1
  k := 2
  job := "job-1"
  env := unconfiguredEnv
  excInfo := ""
  before := lostMoves 0
  found := (lostMachine 1).store
  during := lostMoves 2
  error := .failedJobError "no credentials"
  left := (lostMachine 3).store
  between := lostMoves 4
  looked := (lostMachine 5).store
  cleaning := []
  cleaned := (lostMachine 5).store

theorem lostLetter_happens : lostLetter.Happens ⟨true, true, true⟩ ⟨sampleContract "EJ/1", []⟩ (lostMachine 7) where
  run := by
    have hrun : ∀ n, Run (system ⟨true, true, true⟩) ⟨sampleContract "EJ/1", []⟩
        ((List.range n).map lostMoves).flatten (lostMachine n) := by
      intro n
      induction n with
      | zero => exact .nil
      | succ n ih =>
        have hflat : ((List.range (n + 1)).map lostMoves).flatten =
            ((List.range n).map lostMoves).flatten ++ lostMoves n := by simp [List.range_succ]
        rw [hflat]
        exact ih.exec (lostChoices n)
    have hfound : lostMoves 1 = [⟨1, .submissionJob "job-1" unconfiguredEnv, .effect (.read (lostMachine 1).store)⟩] :=
      rfl
    have hleft : lostMoves 3 = [⟨1, .submissionJob "job-1" unconfiguredEnv,
        .finish (.raise (.failedJobError "no credentials")) (lostMachine 3).store⟩] := rfl
    have hlooked : lostMoves 5 = [⟨2, .cronCleanup "", .effect (.read (lostMachine 5).store)⟩] := rfl
    have hcleaned : lostMoves 6 = [⟨2, .cronCleanup "", .finish (.ret ()) (lostMachine 5).store⟩] := rfl
    have hhistory : ((List.range 7).map lostMoves).flatten = lostLetter.history := by
      simp [List.range_succ, hfound, hleft, hlooked, hcleaned, Episode.history, Episode.attempt, lostLetter]
    exact hhistory ▸ hrun 7
  starts := List.isEmpty_iff.mp (by decide +kernel)
  fails := by decide +kernel
  looks := List.isEmpty_iff.mp (by decide +kernel)

theorem dead_letter_iff_lostLetter : (DeadLettered (lostMachine 7).store.contract ↔
      DeadLettered lostLetter.looked.contract ∨ Stuck ⟨true, true, true⟩ lostLetter.looked) ∧
    (lostLetter.undisturbed → (DeadLettered (lostMachine 7).store.contract ↔ Marked lostLetter.found.contract)) :=
  dead_letter_iff lostLetter_happens

/-- The error is empty, and the contract still names the failed job. -/
theorem not_dead_lettered : ¬ ∀ inst w (ep : Episode) m, ep.Happens inst w m → DeadLettered m.store.contract := by
  intro hletters
  have hletter := hletters _ _ _ _ lostLetter_happens
  have hempty : (lostMachine 7).store.contract.jobLastError.truthy = false := by decide +kernel
  rw [hletter.error] at hempty
  cases hempty

end Ejar
