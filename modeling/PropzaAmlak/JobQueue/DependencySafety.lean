import PropzaAmlak.JobQueue.DependencyRules

/-! No job is run before those it depends on. -/

namespace JobQueue

namespace Board

open Runner

variable {dependsOn : String → Finset String} {b s : Board} {deeds more : List Deed} {d : Deed} {u c p q : String}
  {e : Event}

/-- The job is done, or its row is gone. -/
def Settled (p : String) (b : Board) : Prop := p ∈ b.created ∧ ∀ row ∈ b.rows.find p, row.state = .done

instance (p : String) (b : Board) : Decidable (b.Settled p) := inferInstanceAs (Decidable (_ ∧ _))

/-- Each of the jobs that `u` depends on was settled at some time. -/
def Cleared (dependsOn : String → Finset String) (b : Board) (deeds : List Deed) (u : String) : Prop :=
  ∀ p ∈ dependsOn u, ∃ before, before <+: deeds ∧ (Tx.after (step dependsOn) b before).Settled p

theorem Cleared.mono (h : Cleared dependsOn b deeds u) (hmore : deeds <+: more) : Cleared dependsOn b more u :=
  fun p hp => (h p hp).imp fun _ hbefore => ⟨hbefore.1.trans hmore, hbefore.2⟩

theorem cleared_of_settled (h : ∀ p ∈ dependsOn u, (Tx.after (step dependsOn) b deeds).Settled p) :
    Cleared dependsOn b deeds u :=
  fun p hp => ⟨deeds, List.prefix_rfl, h p hp⟩

/-- A table without jobs, and a runner that has just been started. -/
structure Blank (b : Board) : Prop where
  runner : b.runner.Start
  rows : b.rows.uuids = ∅
  created : b.created = ∅
  workers : b.workers = []
  finished : b.finished = []

/-- What holds after any deeds. -/
structure Lawful (dependsOn : String → Finset String) (b : Board) (deeds : List Deed) (s : Board) : Prop where
  consistent : s.runner.Consistent
  known : ∀ u ∈ s.rows.uuids, u ∈ s.created
  closed : ∀ u ∈ s.created, dependsOn u ⊆ s.created
  held : ∀ x ∈ s.workers, x.1 ∈ s.created
  loaded : ∀ u, (u, false) ∈ s.workers → Cleared dependsOn b deeds u
  quiet : ∀ u, ¬ Cleared dependsOn b deeds u → Quiet u s.runner

theorem Blank.lawful (h : b.Blank) : Lawful dependsOn b [] b := by
  have hnone : ∀ u, b.rows.find u = none := by
    intro u
    rw [Rows.find, h.rows, if_neg (Finset.notMem_empty u)]
  refine ⟨h.runner.consistent, fun u hu => ?_, fun u hu => ?_, fun x hx => ?_, fun u hu => ?_, fun u _ =>
    ⟨⟨fun hready => ?_, fun r hr => ?_⟩, fun hu => ?_, ?_⟩⟩
  · rw [h.rows] at hu
    exact (Finset.notMem_empty u hu).elim
  · rw [h.created] at hu
    exact (Finset.notMem_empty u hu).elim
  · rw [h.workers] at hx
    cases hx
  · rw [h.workers] at hu
    cases hu
  · rw [h.runner.phase] at hready
    cases hready
  · rw [h.runner.sending] at hr
    cases hr
  · obtain ⟨row, hrow, -⟩ := Rows.mem_active.mp hu
    exact Option.not_mem_none row (hnone u ▸ hrow)
  · rintro ⟨row, hrow, -⟩
    exact Option.not_mem_none row (hnone u ▸ hrow)

/-! ### What is done on the board -/

theorem step_of_not (h : ¬ s.Possible dependsOn d) : s.step dependsOn d = s := if_neg h

theorem step_of_possible (h : s.Possible dependsOn d) : s.step dependsOn d =
    { runner := Tx.after Runner.step s.runner (s.events dependsOn d), created := s.createdAfter d,
      workers := s.workersAfter dependsOn d, finished := s.finishedAfter d } :=
  if_pos h

theorem subset_createdAfter : s.created ⊆ s.createdAfter d := by
  cases d with
  | delay jobs => exact Finset.subset_union_left
  | _ => exact Finset.Subset.refl _

theorem mem_writeAll {writes : List (String × RowAction)} (h : e ∈ writeAll writes) :
    ∃ x ∈ writes, e = .row x.1 x.2 := by
  obtain ⟨x, hx, rfl⟩ := List.mem_map.mp h
  exact ⟨x, hx, rfl⟩

theorem Lists.mem_iff {state : JobState} {rows : Rows} {order : List String}
    (h : Lists dependsOn state u rows order) :
    c ∈ order ↔ c ∈ rows.uuids ∧ u ∈ rows.uuids ∧ u ∈ dependsOn c ∧ (rows.row c).state = .waitDependencies ∧
      rows.AllIn state (dependsOn c) := by
  rw [← List.mem_toFinset, h.2, dependents, Finset.mem_filter]

theorem Lists.waits {state : JobState} {rows : Rows} {order : List String}
    (h : Lists dependsOn state u rows order) (hc : c ∈ order) :
    ∃ row ∈ rows.find c, row.state = .waitDependencies := by
  obtain ⟨hrow, -, -, hwaits, -⟩ := h.mem_iff.mp hc
  exact ⟨rows.row c, Rows.find_of_mem hrow, hwaits⟩

theorem mem_events (h : e ∈ s.events dependsOn d) :
    d = .other e ∨ ∃ x ∈ s.writes dependsOn d, e = .row x.1 x.2 := by
  cases d with
  | other e' => exact Or.inl (congrArg Deed.other (List.mem_singleton.mp h).symm)
  | _ => exact Or.inr (mem_writeAll h)

/-- Only the rows of jobs that were created appear. -/
theorem Lawful.created_of_appears (h : Lawful dependsOn b deeds s) (hd : s.Possible dependsOn d)
    (he : e ∈ s.events dependsOn d) (hu : Appears u e) : u ∈ s.createdAfter d := by
  rcases mem_events he with rfl | ⟨x, hx, rfl⟩
  · exact (hd.not_appears hu).elim
  cases d with
  | delay jobs =>
    obtain ⟨job, hjob, rfl⟩ := List.mem_map.mp hx
    obtain rfl : job.1 = u := hu
    exact Finset.mem_union_right _ (List.mem_toFinset.mpr (List.mem_map_of_mem hjob))
  | postponed v waiting job eta =>
    obtain rfl := List.mem_singleton.mp hx
    obtain rfl : v = u := hu
    exact h.held _ hd
  | failed v waiting job =>
    obtain rfl := List.mem_singleton.mp hx
    obtain rfl : v = u := hu
    exact h.held _ hd
  | enqueueWaiting v order =>
    obtain ⟨c, -, rfl⟩ := List.mem_map.mp hx
    cases hu
  | buttonDone v order =>
    rcases List.mem_cons.mp hx with rfl | hx
    · cases hu
    · obtain ⟨c, -, rfl⟩ := List.mem_map.mp hx
      cases hu
  | buttonCancelled v order =>
    rcases List.mem_cons.mp hx with rfl | hx
    · cases hu
    · obtain ⟨c, -, rfl⟩ := List.mem_map.mp hx
      cases hu
  | runjob v =>
    obtain rfl := List.mem_singleton.mp hx
    cases hu
  | performed v waiting job =>
    obtain rfl := List.mem_singleton.mp hx
    cases hu
  | requeue v =>
    obtain rfl := List.mem_singleton.mp hx
    cases hu
  | died v waiting => cases hx
  | lost v => cases hx
  | other e' => cases hx

theorem Lawful.settled_of_allIn (h : Lawful dependsOn b deeds s) (hu : u ∈ s.created)
    (hall : s.rows.AllIn .done (dependsOn u)) : ∀ p ∈ dependsOn u, s.Settled p :=
  fun p hp => ⟨h.closed u hu hp, hall p hp⟩

/-- The query sees the row that the button has just written as done. -/
theorem allIn_after_buttonDone {order : List String} (hd : s.Possible dependsOn (.buttonDone u order))
    (hc : c ∈ order) : (s.step dependsOn (.buttonDone u order)).rows.AllIn .done (dependsOn c) := by
  obtain ⟨-, -, -, -, hall⟩ := hd.2.mem_iff.mp hc
  intro p hp row hrow
  rw [step_of_possible hd] at hrow
  have hcons : Tx.after Runner.step s.runner (s.events dependsOn (.buttonDone u order)) =
      Tx.after Runner.step (s.runner.step (.row u .buttonDone)) (writeAll (order.map fun c => (c, .enqueueWaiting))) :=
    rfl
  rw [rows, hcons] at hrow
  by_cases hmem : p ∈ order
  · obtain ⟨row', hrow', hwaits⟩ := hd.2.waits hmem
    cases hwaits.symm.trans (hall p hp row' hrow')
  · rw [find_writeAll_of_notMem (by simpa using hmem)] at hrow
    exact hall p hp row hrow

/-- Whoever sets a job to pending has found all that it depends on done. -/
theorem Lawful.cleared_of_readies (h : Lawful dependsOn b deeds s) (hs : Tx.after (step dependsOn) b deeds = s)
    (hd : s.Possible dependsOn d) (he : e ∈ s.events dependsOn d) (hu : Readies u e) :
    Cleared dependsOn b (deeds ++ [d]) u := by
  have hnow : ∀ {v}, v ∈ s.created → s.rows.AllIn .done (dependsOn v) → Cleared dependsOn b (deeds ++ [d]) v := by
    intro v hv hall
    refine (cleared_of_settled ?_).mono (List.prefix_append deeds [d])
    rw [hs]
    exact h.settled_of_allIn hv hall
  rcases mem_events he with rfl | ⟨x, hx, rfl⟩
  · exact (hd.not_readies hu).elim
  cases d with
  | delay jobs =>
    obtain ⟨job, -, rfl⟩ := List.mem_map.mp hx
    by_cases hnone : dependsOn job.1 = ∅
    · simp only [hnone, ne_eq, not_true_eq_false, decide_false] at hu
      obtain rfl : job.1 = u := hu
      intro p hp
      rw [hnone] at hp
      exact (Finset.notMem_empty p hp).elim
    · simp only [hnone, ne_eq, not_false_eq_true, decide_true] at hu
      cases hu
  | postponed v waiting job eta =>
    obtain rfl := List.mem_singleton.mp hx
    cases waiting with
    | true => cases hu
    | false =>
      obtain rfl : v = u := hu
      exact (h.loaded v hd).mono (List.prefix_append deeds _)
  | enqueueWaiting v order =>
    obtain ⟨c, hc, rfl⟩ := List.mem_map.mp hx
    obtain rfl : c = u := hu
    obtain ⟨hrow, -, -, -, hall⟩ := hd.2.mem_iff.mp hc
    exact hnow (h.known c hrow) hall
  | buttonDone v order =>
    rcases List.mem_cons.mp hx with rfl | hx
    · cases hu
    · obtain ⟨c, hc, rfl⟩ := List.mem_map.mp hx
      obtain rfl : c = u := hu
      have hmem : c ∈ s.created := by
        obtain ⟨hrow, -⟩ := hd.2.mem_iff.mp hc
        have hbefore : c ∈ s.rows.uuids ∨ ∃ e ∈ [Event.row v .buttonDone], Appears c e := appears_after hrow
        rcases hbefore with hrow | ⟨e, he, hc⟩
        · exact h.known c hrow
        · obtain rfl := List.mem_singleton.mp he
          cases hc
      refine cleared_of_settled fun p hp => ?_
      rw [Tx.after_concat, hs]
      refine ⟨?_, allIn_after_buttonDone hd hc p hp⟩
      rw [step_of_possible hd]
      exact h.closed c hmem hp
  | buttonCancelled v order =>
    rcases List.mem_cons.mp hx with rfl | hx
    · cases hu
    · obtain ⟨c, -, rfl⟩ := List.mem_map.mp hx
      cases hu
  | requeue v =>
    obtain rfl := List.mem_singleton.mp hx
    by_cases hwaiting : Waiting dependsOn s.rows v
    · simp only [hwaiting, decide_true] at hu
      cases hu
    · simp only [hwaiting, decide_false] at hu
      obtain rfl : v = u := hu
      exact hnow (h.known v hd) (not_not.mp hwaiting)
  | runjob v =>
    obtain rfl := List.mem_singleton.mp hx
    cases hu
  | performed v waiting job =>
    obtain rfl := List.mem_singleton.mp hx
    cases hu
  | failed v waiting job =>
    obtain rfl := List.mem_singleton.mp hx
    cases hu
  | died v waiting => cases hx
  | lost v => cases hx
  | other e' => cases hx

theorem mem_workersAfter {x : String × Bool} (hx : x ∈ s.workersAfter dependsOn d) :
    x ∈ s.workers ∨ ∃ u, d = .runjob u ∧ x = (u, decide (Waiting dependsOn s.rows u)) := by
  cases d with
  | runjob u => exact (List.mem_cons.mp hx).symm.imp_right fun hx => ⟨u, rfl, hx⟩
  | performed u waiting job => exact Or.inl (List.mem_of_mem_erase hx)
  | postponed u waiting job eta => exact Or.inl (List.mem_of_mem_erase hx)
  | failed u waiting job => exact Or.inl (List.mem_of_mem_erase hx)
  | died u waiting => exact Or.inl (List.mem_of_mem_erase hx)
  | _ => exact Or.inl hx

theorem mem_uuids_of_runjob (hd : s.Possible dependsOn (.runjob u)) : u ∈ s.rows.uuids := by
  obtain ⟨row, hrow, -⟩ := hd
  exact Rows.isSome_find.mp (Option.isSome_of_mem hrow)

theorem Lawful.step (h : Lawful dependsOn b deeds s) (hs : Tx.after (step dependsOn) b deeds = s) (d : Deed) :
    Lawful dependsOn b (deeds ++ [d]) (s.step dependsOn d) := by
  have hlater : deeds <+: deeds ++ [d] := List.prefix_append deeds [d]
  by_cases hd : s.Possible dependsOn d
  · have hstep := step_of_possible hd
    refine ⟨?_, fun u hu => ?_, fun u hu => ?_, fun x hx => ?_, fun u hu => ?_, fun u hu => ?_⟩
    · rw [hstep]
      exact consistent_after h.consistent
    · rw [hstep] at hu ⊢
      rcases appears_after hu with hu | ⟨e, he, hc⟩
      · exact subset_createdAfter (h.known u hu)
      · exact h.created_of_appears hd he hc
    · rw [hstep] at hu ⊢
      cases d with
      | delay jobs =>
        rcases Finset.mem_union.mp hu with hu | hu
        · exact (h.closed u hu).trans subset_createdAfter
        · obtain ⟨job, hjob, rfl⟩ := List.mem_map.mp (List.mem_toFinset.mp hu)
          exact fun p hp => Finset.mem_union_right _ (List.mem_toFinset.mpr ((hd.2 job hjob).2 p hp))
      | _ => exact h.closed u hu
    · rw [hstep] at hx ⊢
      rcases mem_workersAfter hx with hx | ⟨u, rfl, rfl⟩
      · exact subset_createdAfter (h.held x hx)
      · exact h.known u (mem_uuids_of_runjob hd)
    · rw [hstep] at hu
      rcases mem_workersAfter hu with hu | ⟨v, rfl, heq⟩
      · exact (h.loaded u hu).mono hlater
      · obtain ⟨rfl, hwaiting⟩ := Prod.mk.inj heq
        have hall : s.rows.AllIn .done (dependsOn u) := not_not.mp (of_decide_eq_false hwaiting.symm)
        refine (cleared_of_settled ?_).mono hlater
        rw [hs]
        exact h.settled_of_allIn (h.known u (mem_uuids_of_runjob hd)) hall
    · rw [hstep]
      refine (h.quiet u fun hc => hu (hc.mono hlater)).after h.consistent fun e he hready => hu ?_
      exact h.cleared_of_readies hs hd he hready
  · rw [step_of_not hd]
    exact ⟨h.consistent, h.known, h.closed, h.held, fun u hu => (h.loaded u hu).mono hlater,
      fun u hu => h.quiet u fun hc => hu (hc.mono hlater)⟩

theorem Blank.always_lawful (h : b.Blank) (deeds : List Deed) :
    Lawful dependsOn b deeds (Tx.after (Board.step dependsOn) b deeds) := by
  induction deeds using List.reverseRecOn with
  | nil => exact h.lawful
  | append_singleton deeds d ih =>
    rw [Tx.after_concat]
    exact ih.step rfl d

theorem Lawful.cleared_of_active (h : Lawful dependsOn b deeds s) (hu : u ∈ s.rows.active) :
    Cleared dependsOn b deeds u := by
  by_contra hnot
  exact (h.quiet u hnot).inactive hu

/-- Whatever the workers, the users and the runner do, a job is not enqueued before
each of those it depends on was found done, or was deleted. -/
theorem active_after_dependencies (h : b.Blank)
    (hu : u ∈ (Tx.after (Board.step dependsOn) b deeds).rows.active) (hp : p ∈ dependsOn u) :
    ∃ before, before <+: deeds ∧ (Tx.after (Board.step dependsOn) b before).Settled p :=
  (h.always_lawful deeds).cleared_of_active hu p hp

/-- `b` depends on `a`. -/
def bAfterA (u : String) : Finset String := if u = "b" then {"a"} else ∅

def emptyBoard : Board := ⟨{ oneAtATime with rows := ⟨∅, twoJobs.row⟩ }, ∅, [], []⟩

theorem blank_emptyBoard : emptyBoard.Blank := ⟨⟨Manager.idle_init, rfl, rfl⟩, rfl, rfl, rfl, rfl⟩

def bothStored : Deed := .delay [("a", twoJobs.row "a"), ("b", twoJobs.row "b")]

/-- `a` is run, and what waits for it is looked for. -/
def firstRun : List Deed :=
  [bothStored, .other .listen, .other (.initializeDatabases ["a", "b"]), .other (.getJobsToRun 0), .other .send,
    .runjob "a", .performed "a" false (twoJobs.row "a"), .enqueueWaiting "a" ["b"], .other (.processNotification "a"),
    .other (.processNotification "b"), .other (.getJobsToRun 1), .other .send]

theorem b_active_after_a :
    ∃ before, before <+: firstRun ∧ (Tx.after (Board.step bAfterA) emptyBoard before).Settled "a" :=
  active_after_dependencies (u := "b") blank_emptyBoard (by decide +kernel) (by decide)

end Board

end JobQueue
