import PropzaAmlak.Status.Transitions

/-! A cancelled or expired contract, and the callers that may still submit it. -/

namespace Ejar

open Tx

abbrev TaskEffect := Effect World WorldWrite Request Reply

/-- The contract was committed as `v` in the run that began in `w`. -/
def committedIn (w : World) (h : List TaskMove) (v : World) : Prop :=
  v = w ∨ ∃ mv ∈ h, mv.label = .effect (.commit v) ∨ ∃ o, mv.label = .finish o v

def closedIn (w : World) (h : List TaskMove) : Prop :=
  ∃ v, committedIn w h v ∧ v.contract.ejarStatus.terminal

/-- `submit_contract`, or a write of a status in which the contract is on its way to
Ejar. -/
def advances : TaskEffect → Bool
  | .call ⟨_, .submitContract _⟩ _ => true
  | .write _ (.record (.contract vals)) =>
    vals.ejarStatus = some .submitting || vals.ejarStatus = some .submitted
  | _ => false

/-- The tasks that contend for a cancelled contract. -/
def Task.contends : Task → Bool
  | cancel | cancelPendingJob | submitAsync .. | submissionJob .. => true
  | checkEjarStatus .. | cronPoll .. | pollJob .. => true
  | _ => false

/-- No task that starts on a cancelled or expired contract submits it. -/
def CancellationFinal (w : World) (h : List TaskMove) : Prop :=
  ∀ before i t after, h = before ++ ⟨i, t, .start⟩ :: after → closedIn w before → t.contends →
    ∀ mv ∈ after, mv.who = i → ∀ e, mv.label = .effect e → ¬ advances e

/-- The checks at the entry turn the task away if it finds `v`. -/
def Task.turnedAway (inst : Installation) : Task → World → Prop
  | submissionJob .., v => v.contract.ejarStatus = .submitted ∨ v.contract.ejarStatus = .approved
  | submitAsync .., v => (readyStateErrors v.contract).isEmpty = false ∨
    inst.queueJobAvailable = false ∨ hasActiveJob inst v = true
  | _, _ => True

/-- What a task that starts on a cancelled or expired contract finds turns it away. -/
def EntriesClosed (inst : Installation) (w : World) (h : List TaskMove) : Prop :=
  ∀ before i t after v, h = before ++ ⟨i, t, .start⟩ :: after → closedIn w before → t.contends →
    (effectsOf i after).head? = some (.read v) → t.turnedAway inst v

namespace Cancellation

/-- A caller that was not turned away by what it read first may do anything. The
phase is the first effect. -/
def entryProtocol (inst : Installation) (t : Task) :
    Protocol World WorldWrite Request Reply (Option TaskEffect) where
  init := none
  allows phase e := advances e → ∃ v, phase = some (.read v) ∧ ¬ t.turnedAway inst v
  next phase e := some (phase.getD e)

variable {inst : Installation} {t : Task} {w : World} {h : List TaskMove}

theorem phase_eq_head (es : List TaskEffect) (phase : Option TaskEffect) :
    es.foldl (entryProtocol inst t).next phase = phase.or es.head? := by
  induction es generalizing phase with
  | nil => cases phase <;> rfl
  | cons e es ih =>
    rw [List.foldl_cons, ih]
    cases phase <;> rfl

/-- A program that reads first and, where that turns it away, does nothing that
submits. -/
theorem obeys_entry {f : World → TaskProg Unit}
    (hf : ∀ v, t.turnedAway inst v → (∃ a, f v = .ret a) ∨ ∃ e, f v = .raise e) :
    (Prog.get >>= f).obeys WorldWrite.apply (entryProtocol inst t)
      (fun _ _ => True) (fun _ _ => True) ⟨none, none⟩ := by
  rw [Prog.obeys_bind, Prog.obeys_get]
  intro v _
  refine ⟨fun hadvances => absurd hadvances Bool.false_ne_true, ?_⟩
  by_cases haway : t.turnedAway inst v
  · obtain ⟨a, hfv⟩ | ⟨e, hfv⟩ := hf v haway
    · rw [hfv]
      trivial
    · rw [hfv]
      trivial
  · refine Prog.obeys_free (I := fun phase => phase = some (.read v)) (fun phase e hphase => ?_) rfl
    rw [hphase]
    exact ⟨fun _ => ⟨v, rfl, haway⟩, rfl⟩

theorem submissionJob_entry {job : String} {env : Env} :
    (jobExecuteFullSubmission env).obeys WorldWrite.apply
      (entryProtocol inst (.submissionJob job env)) (fun _ _ => True) (fun _ _ => True) ⟨none, none⟩ := by
  refine obeys_entry fun v haway => .inl ⟨(), ?_⟩
  have hguard : v.contract.ejarStatus = .submitted ∨ v.contract.ejarStatus = .approved := haway
  simp only [hguard, if_true, Prog.pure_eq]

theorem submitAsync_entry {now : Datetime} {uuid : String} :
    (actionSubmitAsync inst now uuid).obeys WorldWrite.apply
      (entryProtocol inst (.submitAsync now uuid)) (fun _ _ => True) (fun _ _ => True) ⟨none, none⟩ := by
  refine obeys_entry fun v haway => .inr ?_
  cases hready : (readyStateErrors v.contract).isEmpty with
  | false => exact ⟨_, by simp only [validateReadyState, hready]; rfl⟩
  | true =>
    cases havailable : inst.queueJobAvailable with
    | false => exact ⟨_, by simp only [validateReadyState, hready]; rfl⟩
    | true =>
      have hactive : hasActiveJob inst v = true := by
        rcases haway with hincomplete | hmissing | hactive
        · rw [hready] at hincomplete
          cases hincomplete
        · rw [havailable] at hmissing
          cases hmissing
        · exact hactive
      exact ⟨_, by simp only [validateReadyState, hready, hactive]; rfl⟩

/-- Only the two entries need a check; of the other tasks the status writes and
calls are known. -/
def protocol (inst : Installation) (t : Task) :
    Protocol World WorldWrite Request Reply (Option TaskEffect) :=
  match t with
  | .submissionJob .. | .submitAsync .. => entryProtocol inst t
  | _ => { entryProtocol inst t with allows := fun _ _ => True }

theorem obeys_body (t : Task) : ((system inst).body t).obeys (system inst).app (protocol inst t)
    (fun _ _ => True) (fun _ _ => True) ⟨none, (protocol inst t).init⟩ := by
  cases t with
  | submissionJob job env => exact submissionJob_entry
  | submitAsync now uuid => exact submitAsync_entry
  | _ => exact Prog.obeys_free (I := fun _ => True) (fun _ _ _ => ⟨trivial, trivial⟩) trivial

theorem run_advances {m} (hrun : Run (system inst) w h m) {mv : TaskMove} (hmv : mv ∈ h) {e : TaskEffect}
    (hlabel : mv.label = .effect e) (hadvances : advances e) (hcontends : mv.task.contends) :
    (∃ job env, mv.task = .submissionJob job env) ∨ ∃ now uuid, mv.task = .submitAsync now uuid := by
  have hwrite : ∀ {c vals new}, writesTo mv c vals → vals.ejarStatus = some new →
      new = .submitting ∨ new = .submitted → (∃ job env, mv.task = .submissionJob job env) ∨
        ∃ now uuid, mv.task = .submitAsync now uuid := by
    intro c vals new hwrite hnew hsubmitting
    have hmay := Transition.run_mayWrite hrun hmv hwrite hnew
    cases htask : mv.task with
    | submissionJob job env => exact .inl ⟨job, env, rfl⟩
    | submitAsync now uuid => exact .inr ⟨now, uuid, rfl⟩
    | _ =>
      rw [htask] at hmay hcontends
      simp only [Task.mayWrite, Task.contends] at hmay hcontends
      rcases hsubmitting with rfl | rfl <;> simp at hmay hcontends
  unfold advances at hadvances
  split at hadvances
  · have hmay := Transition.run_mayCall hrun hmv hlabel
    cases htask : mv.task with
    | submissionJob job env => exact .inl ⟨job, env, rfl⟩
    | submitAsync now uuid => exact .inr ⟨now, uuid, rfl⟩
    | _ =>
      rw [htask] at hmay hcontends
      simp [Task.mayCall, Task.contends] at hmay hcontends
  · rename_i v vals
    rw [Bool.or_eq_true, decide_eq_true_iff, decide_eq_true_iff] at hadvances
    rcases hadvances with hsubmitting | hsubmitted
    · exact hwrite ⟨v, rfl, hlabel⟩ hsubmitting (.inl rfl)
    · exact hwrite ⟨v, rfl, hlabel⟩ hsubmitted (.inr rfl)
  · cases hadvances

/-- A contender that submits read something first that did not turn it away. -/
theorem run_entry {m} {before a₁ a₂ : List TaskMove} {i : Nat} {mv : TaskMove} {e : TaskEffect}
    (hrun : Run (system inst) w (before ++ ⟨i, t, .start⟩ :: (a₁ ++ mv :: a₂)) m) (hwho : mv.who = i)
    (hlabel : mv.label = .effect e) (hadvances : advances e) (hcontends : t.contends) :
    ∃ v, (effectsOf i a₁).head? = some (.read v) ∧ ¬ t.turnedAway inst v := by
  have hmem : mv ∈ before ++ ⟨i, t, .start⟩ :: (a₁ ++ mv :: a₂) := by simp
  have hstart : (⟨i, t, .start⟩ : TaskMove) ∈ before ++ ⟨i, t, .start⟩ :: (a₁ ++ mv :: a₂) := by simp
  have htask : mv.task = t := hrun.task_eq hmem hstart hwho
  have hsplit : before ++ ⟨i, t, .start⟩ :: (a₁ ++ mv :: a₂) =
      (before ++ ⟨i, t, .start⟩ :: a₁) ++ mv :: a₂ := by simp
  have hallows := (hrun.obeying obeys_body).2 _ mv a₂ e hsplit hlabel
  have heffects : effectsOf i (before ++ ⟨i, t, .start⟩ :: a₁) = effectsOf i a₁ := by
    rw [effectsOf_append, hrun.effectsOf_start rfl, List.nil_append]
    rfl
  rw [hwho, htask, Protocol.phaseOf, heffects] at hallows
  rw [← htask] at hcontends
  obtain ⟨job, env, hjob⟩ | ⟨now, uuid, hasync⟩ := run_advances hrun hmem hlabel hadvances hcontends
  · obtain rfl := htask.symm.trans hjob
    have hentry : (entryProtocol inst (.submissionJob job env)).allows
        ((effectsOf i a₁).foldl (entryProtocol inst (.submissionJob job env)).next none) e := hallows
    rw [phase_eq_head, Option.none_or] at hentry
    exact hentry hadvances
  · obtain rfl := htask.symm.trans hasync
    have hentry : (entryProtocol inst (.submitAsync now uuid)).allows
        ((effectsOf i a₁).foldl (entryProtocol inst (.submitAsync now uuid)).next none) e := hallows
    rw [phase_eq_head, Option.none_or] at hentry
    exact hentry hadvances

end Cancellation

/-- Cancellation is final in every run in which what a task finds when it starts on
a cancelled or expired contract turns it away. -/
theorem cancellation_final {inst : Installation} {w : World} {h : List TaskMove} {m}
    (hrun : Run (system inst) w h m) (hentries : EntriesClosed inst w h) : CancellationFinal w h := by
  rintro before i t after rfl hclosed hcontends mv hmv hwho e hlabel hadvances
  obtain ⟨a₁, a₂, rfl⟩ := List.append_of_mem hmv
  obtain ⟨v, hfirst, hopen⟩ := Cancellation.run_entry hrun hwho hlabel hadvances hcontends
  have hread : (effectsOf i (a₁ ++ mv :: a₂)).head? = some (.read v) := by
    rw [effectsOf_append, List.head?_append, hfirst, Option.some_or]
  exact hopen (hentries before i t _ v rfl hclosed hcontends hread)

/-- The document is missing when a cancelled contract is to be submitted. -/
def refusedRun : List TaskMove × Machine World WorldWrite Request Reply TaskExc Unit Task :=
  Machine.exec (system ⟨true, true, true⟩)
    [.start 0 (.submitAsync 0 "job-1"), .go 0 .timeout, .go 0 .timeout]
    ([], .initial ⟨{ sampleContract "EJ/1" with ejarStatus := .cancelled, signedDoc := none }, []⟩)

theorem cancellation_final_refusedRun :
    CancellationFinal ⟨{ sampleContract "EJ/1" with ejarStatus := .cancelled, signedDoc := none }, []⟩
      refusedRun.1 := by
  refine cancellation_final (Machine.exec_run .nil) ?_
  intro before i t after v hsplit _ _ hread
  have hhistory : ∃ (l₁ : TaskEffect) (l₂ : Outcome TaskExc Unit × World),
      refusedRun.1 = [⟨0, .submitAsync 0 "job-1", .start⟩,
      ⟨0, .submitAsync 0 "job-1", .effect l₁⟩, ⟨0, .submitAsync 0 "job-1", .finish l₂.1 l₂.2⟩] ∧
      l₁ = .read ⟨{ sampleContract "EJ/1" with ejarStatus := .cancelled, signedDoc := none }, []⟩ :=
    ⟨_, (_, _), rfl, rfl⟩
  obtain ⟨l₁, l₂, hmoves, rfl⟩ := hhistory
  rw [show refusedRun.1 = _ from hmoves] at hsplit
  rcases before with _ | ⟨m₁, _ | ⟨m₂, _ | ⟨m₃, before⟩⟩⟩ <;> simp at hsplit
  obtain ⟨⟨rfl, rfl⟩, rfl⟩ := hsplit
  obtain rfl : _ = v := by simpa [effectsOf] using hread
  exact .inl rfl

/-- The submission job has failed once and waits when the contract is cancelled. -/
def retriedRun : List TaskMove × Machine World WorldWrite Request Reply TaskExc Unit Task :=
  Machine.exec (system ⟨true, true, true⟩)
    ([.start 0 (.submitAsync 0 "job-1")] ++ List.replicate 9 (.go 0 .timeout) ++
      [.start 1 (.submissionJob "job-1" sampleEnv)] ++ List.replicate 18 (.go 1 .timeout) ++
      [.start 2 .cancel] ++ List.replicate 4 (.go 2 .timeout))
    ([], .initial ⟨sampleContract "EJ/1", []⟩)

/-- The next attempt. -/
def retriedAttempt : List TaskMove × Machine World WorldWrite Request Reply TaskExc Unit Task :=
  Machine.exec (system ⟨true, true, true⟩)
    (.start 3 (.submissionJob "job-1" sampleEnv) :: List.replicate 3 (.go 3 .timeout)) ([], retriedRun.2)

/-- The step commits a cancelled or expired contract. -/
def closing (mv : TaskMove) : Bool :=
  match mv.label with
  | .effect (.commit v) => v.contract.ejarStatus.terminal
  | .finish _ v => v.contract.ejarStatus.terminal
  | _ => false

theorem closedIn_of_closing {w : World} {h : List TaskMove} (hclosing : h.any closing) : closedIn w h := by
  obtain ⟨⟨who, t, label⟩, hmv, hterminal⟩ := List.any_eq_true.mp hclosing
  cases label with
  | start => cases hterminal
  | finish o v => exact ⟨v, .inr ⟨_, hmv, .inr ⟨o, rfl⟩⟩, hterminal⟩
  | effect e =>
    cases e with
    | commit v => exact ⟨v, .inr ⟨_, hmv, .inl rfl⟩, hterminal⟩
    | _ => cases hterminal

def TaskMove.advances (mv : TaskMove) : Bool :=
  match mv.label with
  | .effect e => Ejar.advances e
  | _ => false

theorem cancellation_not_final : ¬ ∀ inst w h m, Run (system inst) w h m → CancellationFinal w h := by
  intro hfinal
  have hrun : Run (system ⟨true, true, true⟩) ⟨sampleContract "EJ/1", []⟩
      (retriedRun.1 ++ retriedAttempt.1) retriedAttempt.2 :=
    Run.exec (Machine.exec_run .nil) _
  have hclosed : closedIn ⟨sampleContract "EJ/1", []⟩ retriedRun.1 :=
    closedIn_of_closing (by decide +kernel)
  have hadvances : retriedAttempt.1.tail.any fun mv => mv.who = 3 && mv.advances := by decide +kernel
  obtain ⟨mv, hmv, hwrite⟩ := List.any_eq_true.mp hadvances
  rw [Bool.and_eq_true, decide_eq_true_iff] at hwrite
  have hsplit : retriedRun.1 ++ retriedAttempt.1 =
      retriedRun.1 ++ ⟨3, .submissionJob "job-1" sampleEnv, .start⟩ :: retriedAttempt.1.tail := rfl
  have hnone := hfinal _ _ _ _ hrun _ _ _ _ hsplit hclosed rfl mv hmv hwrite.1
  have hmove := hwrite.2
  cases hlabel : mv.label with
  | effect e =>
    rw [TaskMove.advances, hlabel] at hmove
    exact hnone e hlabel hmove
  | start =>
    rw [TaskMove.advances, hlabel] at hmove
    cases hmove
  | finish o v =>
    rw [TaskMove.advances, hlabel] at hmove
    cases hmove

end Ejar
