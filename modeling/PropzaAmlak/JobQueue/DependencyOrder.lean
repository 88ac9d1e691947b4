import PropzaAmlak.JobQueue.DelayedGraph
import PropzaAmlak.JobQueue.DependencyProgress

/-! Jobs that depend on others by way of yet others, and so what follows a chain or a
group, are not run before these are done. -/

namespace JobQueue

theorem RowAction.not_done_of_new {a : RowAction} {row : Row} (h : row ∈ a.written none) : row.state ≠ .done := by
  intro hdone
  rcases state_written h with ⟨row, hrow, -⟩ | htarget
  · cases hrow
  · rw [hdone] at htarget
    cases a with
    | performed job => cases h
    | buttonDone => cases h
    | delay job waiting => cases waiting <;> cases htarget
    | postponed job eta waiting => cases waiting <;> cases htarget
    | requeue waiting => cases h
    | _ => cases htarget

/-- No one sets a job to done by hand, and no one deletes one. -/
def Deed.Undisturbed : Deed → Prop
  | .buttonDone _ _ | .other (.row _ .unlink) => False
  | _ => True

instance : DecidablePred Deed.Undisturbed
  | .buttonDone _ _ | .other (.row _ .unlink) => isFalse id
  | .delay _ | .runjob _ | .performed _ _ _ | .postponed _ _ _ _ | .failed _ _ _ | .died _ _ => isTrue trivial
  | .enqueueWaiting _ _ | .lost _ | .buttonCancelled _ _ | .requeue _ => isTrue trivial
  | .other (.row _ (.delay _ _)) | .other (.row _ .runjob) | .other (.row _ (.performed _)) => isTrue trivial
  | .other (.row _ (.postponed _ _ _)) | .other (.row _ (.failed _)) | .other (.row _ .buttonDone) => isTrue trivial
  | .other (.row _ .buttonCancelled) | .other (.row _ (.requeue _)) | .other (.row _ .enqueueWaiting) => isTrue trivial
  | .other (.row _ .cancelDependent) | .other (.row _ (.edit _ _ _ _)) | .other (.requeueDead _) => isTrue trivial
  | .other (.processNotification _) | .other (.getJobsToRun _) | .other .send | .other .getWakeupTime => isTrue trivial
  | .other (.collect _) | .other .closeDatabases | .other .listen | .other (.initializeDatabases _) => isTrue trivial

namespace Board

open Runner

variable {dependsOn : String → Finset String} {b s : Board} {deeds : List Deed} {d : Deed} {u c p : String}

/-- Jobs that are done were run, after those they depend on. -/
structure Earned (dependsOn : String → Finset String) (b : Board) (deeds : List Deed) (s : Board) : Prop where
  kept : s.created ⊆ s.rows.uuids
  earned : ∀ p, ∀ row ∈ s.rows.find p, row.state = .done → Cleared dependsOn b deeds p

theorem Blank.earned (h : b.Blank) : Earned dependsOn b [] b := by
  have hnone : ∀ u, b.rows.find u = none := by
    intro u
    rw [Rows.find, h.rows, if_neg (Finset.notMem_empty u)]
  refine ⟨by rw [h.created]; exact Finset.empty_subset _, fun p row hrow => ?_⟩
  rw [hnone] at hrow
  cases hrow

theorem mem_uuids_delay {jobs : List (String × Row)} (hd : s.Possible dependsOn (.delay jobs))
    (hu : u ∈ jobs.map Prod.fst) : u ∈ (s.step dependsOn (.delay jobs)).rows.uuids := by
  obtain ⟨⟨u', job⟩, hjob, rfl⟩ := List.mem_map.mp hu
  have hwrite : (u', .delay job (decide (dependsOn u' ≠ ∅))) ∈ s.writes dependsOn (.delay jobs) :=
    List.mem_map.mpr ⟨_, hjob, rfl⟩
  rw [← Rows.isSome_find, step_of_possible hd, rows]
  have hfind := find_writeAll_of_mem (w := s.runner) (nodup_writes hd) hwrite
  refine (congrArg Option.isSome hfind).trans ?_
  cases s.runner.rows.find u' <;> rfl

/-- A row is new, or was there before. -/
theorem not_done_of_appears (hd : s.Possible dependsOn d) (hnone : s.rows.find p = none) {row : Row}
    (hrow : row ∈ (s.step dependsOn d).rows.find p) : row.state ≠ .done := by
  have hfound := found_step hd p
  generalize (s.step dependsOn d).rows.find p = after at hfound hrow
  have hnone' : s.runner.rows.find p = none := hnone
  cases hfound with
  | same => exact (Option.not_mem_none row (hnone ▸ hrow)).elim
  | written a => exact RowAction.not_done_of_new (hnone ▸ hrow)
  | other e after hother hstep =>
    cases hstep with
    | same => exact (Option.not_mem_none row (hnone' ▸ hrow)).elim
    | row a => exact RowAction.not_done_of_new (hnone' ▸ hrow)
    | requeueDead row' h => exact (Option.not_mem_none row' (hnone'.symm.trans h ▸ rfl)).elim
    | send r rest row' hsending huuid h => exact (Option.not_mem_none row' (hnone'.symm.trans h ▸ rfl)).elim

theorem Earned.step (h : Earned dependsOn b deeds s) (hlawful : Lawful dependsOn b deeds s)
    (hundisturbed : d.Undisturbed) : Earned dependsOn b (deeds ++ [d]) (s.step dependsOn d) := by
  have hlater : deeds <+: deeds ++ [d] := List.prefix_append deeds [d]
  by_cases hd : s.Possible dependsOn d
  · have hunlink : ∀ p, d ≠ .other (.row p .unlink) := by
      rintro p rfl
      exact hundisturbed
    refine ⟨fun u hu => ?_, fun p row hrow hdone => ?_⟩
    · have hcreated : (s.step dependsOn d).created = s.createdAfter d := by rw [step_of_possible hd]
      rw [hcreated] at hu
      have hold : u ∈ s.created → u ∈ (s.step dependsOn d).rows.uuids := fun hu =>
        (mem_uuids_step hd (h.kept hu)).resolve_right (hunlink u)
      cases d with
      | delay jobs =>
        rcases Finset.mem_union.mp hu with hu | hu
        · exact hold hu
        · exact mem_uuids_delay hd (List.mem_toFinset.mp hu)
      | _ => exact hold hu
    · by_cases hbefore : s.Undone p
      · -- the job has just been performed
        rcases hbefore.step hd (hunlink p) with ⟨row', hrow', hundone⟩ | ⟨waiting, job, rfl⟩ | ⟨order, rfl⟩
        · obtain rfl := Option.mem_unique hrow hrow'
          exact (hundone hdone).elim
        · obtain ⟨-, old, hold, hstarted⟩ := hd
          have hactive : p ∈ s.rows.active := Rows.mem_active.mpr ⟨old, hold, Or.inr hstarted⟩
          exact (hlawful.cleared_of_active hactive).mono hlater
        · exact hundisturbed.elim
      · cases hold : s.rows.find p with
        | none => exact (not_done_of_appears hd hold hrow hdone).elim
        | some old =>
          have hstate : old.state = .done := by
            by_contra hundone
            exact hbefore ⟨old, hold, hundone⟩
          exact (h.earned p old hold hstate).mono hlater
  · rw [step_of_not hd]
    exact ⟨h.kept, fun p row hrow hdone => (h.earned p row hrow hdone).mono hlater⟩

theorem Blank.always_earned (h : b.Blank) (hd : ∀ d ∈ deeds, d.Undisturbed) :
    Earned dependsOn b deeds (Tx.after (Board.step dependsOn) b deeds) := by
  induction deeds using List.reverseRecOn with
  | nil => exact h.earned
  | append_singleton deeds d ih =>
    rw [Tx.after_concat]
    exact (ih fun d hmem => hd d (List.mem_append_left _ hmem)).step (h.always_lawful deeds) (hd d (by simp))

/-- Where no job is deleted, what is settled is done. -/
theorem Earned.done (h : Earned dependsOn b deeds s) (hp : s.Settled p) :
    ∃ row ∈ s.rows.find p, row.state = .done := by
  obtain ⟨row, hrow⟩ := Option.isSome_iff_exists.mp (Rows.isSome_find.mpr (h.kept hp.1))
  exact ⟨row, hrow, hp.2 row hrow⟩

theorem Earned.cleared (h : Earned dependsOn b deeds s) (hp : s.Settled p) : Cleared dependsOn b deeds p := by
  obtain ⟨row, hrow, hdone⟩ := h.done hp
  exact h.earned p row hrow hdone

theorem settled_of_cleared (h : b.Blank) (hd : ∀ d ∈ deeds, d.Undisturbed) (hu : Cleared dependsOn b deeds u)
    (hp : Relation.TransGen (fun p c => p ∈ dependsOn c) p u) :
    ∃ before, before <+: deeds ∧ (Tx.after (Board.step dependsOn) b before).Settled p := by
  induction hp using Relation.TransGen.head_induction_on with
  | single hp => exact hu _ hp
  | head hp _ ih =>
    obtain ⟨later, hlater, hc⟩ := ih
    have hearned : Earned dependsOn b later _ := h.always_earned fun d hmem => hd d (hlater.subset hmem)
    obtain ⟨before, hbefore, hsettled⟩ := hearned.cleared hc _ hp
    exact ⟨before, hbefore.trans hlater, hsettled⟩

/-- A graph of delayables is delayed, its jobs get these uuids, and on the board they
depend on each other as in the graph. As long as no one sets jobs to done by hand or
deletes some, no job of what is connected to a chain, a group or a job by `on_done` is
enqueued before all the jobs of this were done. -/
theorem on_done_runs_later {h : Delayables} {start r n j k : Nat} {uuid : Nat → String} (hs : start < h.size)
    (hdelayed : ∀ l ∈ h.connectGraphs start, ∀ j k, l.Edge j k → uuid j ∈ dependsOn (uuid k))
    (hr : h.Reaches start r) (hsound : h.Sound r) (hn : h.Sound n)
    (hc : ∀ p ∈ (h.kind r).connected r, (h.graph r).Edge p n) (hj : h.Has r j) (hk : h.Has n k)
    (hb : b.Blank) (hd : ∀ d ∈ deeds, d.Undisturbed)
    (hactive : uuid k ∈ (Tx.after (Board.step dependsOn) b deeds).rows.active) :
    ∃ before, before <+: deeds ∧
      ∃ row ∈ (Tx.after (Board.step dependsOn) b before).rows.find (uuid j), row.state = .done := by
  obtain ⟨l, hl, -⟩ := Delayables.exists_connectGraphs hs
  have hjk : Relation.TransGen l.Edge j k := hsound.precedes hs hl hr hn hc j k hj hk
  have hdepends : Relation.TransGen (fun p c => p ∈ dependsOn c) (uuid j) (uuid k) :=
    hjk.lift uuid (hdelayed l hl)
  obtain ⟨before, hbefore, hsettled⟩ :=
    settled_of_cleared hb hd ((hb.always_lawful deeds).cleared_of_active hactive) hdepends
  have hearned : Earned dependsOn b before _ := hb.always_earned fun d hmem => hd d (hbefore.subset hmem)
  exact ⟨before, hbefore, hearned.done hsettled⟩

/-- One job, and another one by `on_done`. -/
def twoInTurn : Delayables :=
  [Delayables.Call.make .delayable, .make .delayable, .onDone 0 [1]].foldl Delayables.call Delayables.empty

def namesInTurn (j : Nat) : String := if j = 0 then "a" else "b"

theorem twoInTurn_delayed :
    ∀ l ∈ twoInTurn.connectGraphs 0, ∀ j k, l.Edge j k → namesInTurn j ∈ bAfterA (namesInTurn k) := by
  intro l hl j k hjk
  have hs : 0 < twoInTurn.size := by decide
  obtain ⟨r, v, n, hr, hedge, hj, hk⟩ := (Delayables.edge_iff_before hs hl).mp hjk
  obtain ⟨hv, hn⟩ := (twoInTurn.graph r).closed v n hedge
  have hall : ∀ r < 2, ∀ v < 2, ∀ n < 2, (twoInTurn.graph r).Edge v n → v = 0 ∧ n = 1 := by decide
  obtain ⟨rfl, rfl⟩ := hall r (hr.lt hs) v (twoInTurn.within r v hv) n (twoInTurn.within r n hn) hedge
  have htail : twoInTurn.tail 0 = [0] := by decide
  have hhead : twoInTurn.head 1 = [1] := by decide
  rw [htail] at hj
  rw [hhead] at hk
  obtain rfl := List.mem_singleton.mp hj
  obtain rfl := List.mem_singleton.mp hk
  decide

theorem b_runs_after_a : ∃ before, before <+: firstRun ∧
    ∃ row ∈ (Tx.after (Board.step bAfterA) emptyBoard before).rows.find (namesInTurn 0), row.state = .done :=
  on_done_runs_later (r := 0) (n := 1) (k := 1) (by decide : 0 < twoInTurn.size) twoInTurn_delayed .refl
    (.delayable (by decide)) (.delayable (by decide)) (by decide) (.self (by decide)) (.self (by decide))
    blank_emptyBoard (by decide) (by decide +kernel)

end Board

end JobQueue
