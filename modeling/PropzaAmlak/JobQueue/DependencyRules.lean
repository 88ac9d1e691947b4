import PropzaAmlak.JobQueue.Dependencies

/-! What each deed makes of the rows. -/

namespace JobQueue

namespace Rows

variable {rows : Rows} {u : String}

theorem isSome_find : (rows.find u).isSome ↔ u ∈ rows.uuids := by
  rw [find]
  split <;> simp_all

theorem find_of_mem (h : u ∈ rows.uuids) : rows.find u = some (rows.row u) := if_pos h

theorem eq_of_mem_find {row : Row} (h : row ∈ rows.find u) : u ∈ rows.uuids ∧ rows.row u = row := by
  have hmem : u ∈ rows.uuids := isSome_find.mp (Option.isSome_of_mem h)
  rw [find_of_mem hmem] at h
  exact ⟨hmem, Option.some.inj h⟩

end Rows

namespace RowAction

variable {a : RowAction} {old : Option Row} {row' : Row}

/-- What is in the row afterwards. -/
def written (a : RowAction) (old : Option Row) : Option Row := (a.writes old).getD old

/-- The state that an action sets. -/
def target : RowAction → Option JobState
  | .delay _ true | .postponed _ _ true | .requeue true => some .waitDependencies
  | .delay _ false | .postponed _ _ false | .requeue false | .enqueueWaiting => some .pending
  | .runjob => some .started
  | .performed _ | .buttonDone => some .done
  | .failed _ => some .failed
  | .buttonCancelled | .cancelDependent => some .cancelled
  | .edit _ _ _ _ | .unlink => none

theorem state_written (h : row' ∈ a.written old) :
    (∃ row ∈ old, row.state = row'.state) ∨ some row'.state = a.target := by
  have hkept : a.writes old = none → ∃ row ∈ old, row.state = row'.state := by
    intro hnone
    rw [written, hnone] at h
    exact ⟨row', h, rfl⟩
  cases hwrites : a.writes old with
  | none => exact Or.inl (hkept hwrites)
  | some row =>
    rw [written, hwrites] at h
    obtain rfl : row = some row' := h
    clear hkept
    cases a with
    | delay job waiting =>
      cases old with
      | none => cases waiting <;> (cases hwrites; exact Or.inr rfl)
      | some row => cases hwrites
    | postponed job eta waiting => cases waiting <;> cases old <;> (cases hwrites; exact Or.inr rfl)
    | failed job => cases old <;> (cases hwrites; exact Or.inr rfl)
    | buttonDone | buttonCancelled =>
      cases old with
      | none => cases hwrites
      | some row =>
        cases hwrites
        exact Or.inr rfl
    | edit channel priority eta maxRetries =>
      cases old with
      | none => cases hwrites
      | some row =>
        cases hwrites
        exact Or.inl ⟨row, rfl, rfl⟩
    | unlink => cases old <;> cases hwrites
    | requeue waiting =>
      cases old with
      | none => cases hwrites
      | some row =>
        rw [writes] at hwrites
        split at hwrites
        · cases hwrites
        · cases waiting <;> (cases hwrites; exact Or.inr rfl)
    | runjob | performed _ | enqueueWaiting | cancelDependent =>
      cases old with
      | none => cases hwrites
      | some row =>
        rw [writes] at hwrites
        split at hwrites
        · cases hwrites
          exact Or.inr rfl
        · cases hwrites

end RowAction

namespace Runner

variable {w : Runner} {u v : String} {e : Event} {a : RowAction} {es : List Event}
  {writes : List (String × RowAction)}

/-! ### One event -/

theorem find_writeRow_self : (w.writeRow u a).rows.find u = a.written (w.rows.find u) := by
  rw [writeRow, RowAction.written]
  split
  · rename_i h
    rw [h]
    rfl
  · rename_i row h
    rw [h, rows_write, Rows.find_put_self]
    rfl

theorem find_writeRow_of_ne (h : v ≠ u) : (w.writeRow u a).rows.find v = w.rows.find v := by
  rw [writeRow]
  split
  · rfl
  · rw [rows_write, Rows.find_put_of_ne h]

/-- All that an event can do to the row of a job. -/
inductive RowStep (w : Runner) (v : String) : Event → Option Row → Prop where
  | same (e : Event) : RowStep w v e (w.rows.find v)
  | row (a : RowAction) : RowStep w v (.row v a) (a.written (w.rows.find v))
  | requeueDead (row : Row) (h : w.rows.find v = some row) (hactive : row.Active) :
      RowStep w v (.requeueDead v) (some row.requeueDead)
  | send (r : Ref) (rest : List Ref) (row : Row) (hsending : w.sending = r :: rest) (huuid : w.uuid r = v)
      (h : w.rows.find v = some row) : RowStep w v .send (some { row with state := .enqueued })

theorem rowStep_of_eq (h : (w.step e).rows.find v = w.rows.find v) : RowStep w v e ((w.step e).rows.find v) :=
  h ▸ RowStep.same e

theorem rowStep_step (w : Runner) (v : String) (e : Event) : RowStep w v e ((w.step e).rows.find v) := by
  cases e with
  | row u a =>
    by_cases h : v = u
    · subst h
      rw [step, find_writeRow_self]
      exact .row a
    · exact rowStep_of_eq (find_writeRow_of_ne h)
  | requeueDead u =>
    by_cases h : v = u
    · subst h
      rw [step]
      split
      · rename_i row hrow
        split
        · rename_i hactive
          rw [rows_write, Rows.find_put_self]
          exact .requeueDead row hrow hactive.2
        · exact .same _
      · exact .same _
    · refine rowStep_of_eq ?_
      rw [step]
      split
      · split
        · rw [rows_write, Rows.find_put_of_ne h]
        · rfl
      · rfl
  | send =>
    rw [step]
    split
    · rw [send]
      cases hsending : w.sending with
      | nil => exact .same _
      | cons r rest =>
        dsimp only
        split
        · exact .same _
        · rename_i row hrow
          by_cases h : v = w.uuid r
          · rw [rows_write, h, Rows.find_put_self]
            exact .send r rest row hsending rfl hrow
          · rw [rows_write, Rows.find_put_of_ne h]
            exact .same _
    · exact .same _
  | processNotification u =>
    refine rowStep_of_eq ?_
    rw [step]
    split
    · rw [processNotification]
      dsimp only
      split
      · rename_i row _
        cases w.manager.notify w.dbName (row.data u) <;> rfl
      · rfl
    · rfl
  | initializeDatabases order =>
    refine rowStep_of_eq ?_
    rw [step]
    split
    · cases notifyAll w.dbName w.rows order w.manager <;> rfl
    · rfl
  | getJobsToRun now =>
    refine rowStep_of_eq ?_
    rw [step]
    split <;> rfl
  | getWakeupTime =>
    refine rowStep_of_eq ?_
    rw [step]
    split <;> rfl
  | listen =>
    refine rowStep_of_eq ?_
    rw [step]
    split <;> rfl
  | collect u => exact .same _
  | closeDatabases => exact .same _

/-! ### Several rows -/

theorem find_writeAll_of_notMem (h : u ∉ writes.map Prod.fst) :
    (Tx.after Runner.step w (writeAll writes)).rows.find u = w.rows.find u := by
  induction writes generalizing w with
  | nil => rfl
  | cons x writes ih =>
    rw [List.map_cons, List.mem_cons, not_or] at h
    have hcons : Tx.after Runner.step w (writeAll (x :: writes)) =
        Tx.after Runner.step (w.writeRow x.1 x.2) (writeAll writes) := rfl
    rw [hcons, ih h.2, find_writeRow_of_ne h.1]

theorem find_writeAll_of_mem (hnodup : (writes.map Prod.fst).Nodup) (h : (u, a) ∈ writes) :
    (Tx.after Runner.step w (writeAll writes)).rows.find u = a.written (w.rows.find u) := by
  induction writes generalizing w with
  | nil => cases h
  | cons x writes ih =>
    rw [List.map_cons, List.nodup_cons] at hnodup
    have hcons : Tx.after Runner.step w (writeAll (x :: writes)) =
        Tx.after Runner.step (w.writeRow x.1 x.2) (writeAll writes) := rfl
    rw [hcons]
    rcases List.mem_cons.mp h with rfl | h
    · rw [find_writeAll_of_notMem hnodup.1, find_writeRow_self]
    · have hne : u ≠ x.1 := by
        rintro rfl
        exact hnodup.1 (List.mem_map.mpr ⟨_, h, rfl⟩)
      rw [ih hnodup.2 h, find_writeRow_of_ne hne]

theorem consistent_after (h : w.Consistent) : (Tx.after Runner.step w es).Consistent :=
  Tx.always_of_step h (fun _ e hw => hw.step e) es List.prefix_rfl

/-! ### Who sets a job to pending -/

/-- Of the events on a job that is not active these may set it to pending. -/
def Readies (u : String) : Event → Prop
  | .row v (.delay _ false) | .row v (.postponed _ _ false) | .row v (.requeue false) | .row v .enqueueWaiting => v = u
  | _ => False

theorem Event.Plain.not_readies (h : e.Plain) : ¬ Readies u e := by
  cases e with
  | row v a => cases a <;> first | exact False.elim h | exact False.elim
  | _ => exact False.elim

theorem readies_of_pending {old : Option Row} {row' : Row} (h : row' ∈ a.written old) (hp : row'.state = .pending)
    (hold : ∀ row ∈ old, row.state ≠ .pending) : Readies u (.row u a) := by
  rcases RowAction.state_written h with ⟨row, hrow, hstate⟩ | htarget
  · exact (hold row hrow (hstate.trans hp)).elim
  · rw [hp] at htarget
    cases a with
    | delay job waiting =>
      cases waiting with
      | false => rfl
      | true => cases htarget
    | postponed job eta waiting =>
      cases waiting with
      | false => rfl
      | true => cases htarget
    | requeue waiting =>
      cases waiting with
      | false => rfl
      | true => cases htarget
    | enqueueWaiting => rfl
    | _ => cases htarget

/-- The job is not active, nor on its way to be. -/
structure Quiet (u : String) (w : Runner) : Prop where
  unqueued : Unqueued u w
  inactive : u ∉ w.rows.active
  notPending : ¬ w.Pending u

theorem Quiet.step (hc : w.Consistent) (h : Quiet u w) (he : ¬ Readies u e) : Quiet u (w.step e) := by
  refine ⟨h.unqueued.step hc h.notPending e, h.unqueued.notMem_step h.inactive e, ?_⟩
  rintro ⟨row', hrow', hp⟩
  have hstep := rowStep_step w u e
  generalize (w.step e).rows.find u = after at hstep hrow'
  cases hstep with
  | same => exact h.notPending ⟨row', hrow', hp⟩
  | row a => exact he (readies_of_pending hrow' hp fun row hrow hstate => h.notPending ⟨row, hrow, hstate⟩)
  | requeueDead row hrow hactive => exact h.inactive (Rows.mem_active.mpr ⟨row, hrow, hactive⟩)
  | send r rest row hsending huuid hrow =>
    obtain rfl := Option.some.inj hrow'
    cases hp

theorem Quiet.after (hc : w.Consistent) (h : Quiet u w) (he : ∀ e ∈ es, ¬ Readies u e) :
    Quiet u (Tx.after Runner.step w es) := by
  induction es using List.reverseRecOn with
  | nil => exact h
  | append_singleton es e ih =>
    rw [Tx.after_concat]
    have hquiet := ih fun e' he' => he e' (List.mem_append_left _ he')
    exact hquiet.step (consistent_after hc) (he e (by simp))

/-! ### Which rows there are -/

/-- The row of a job may appear. -/
def Appears (u : String) : Event → Prop
  | .row v (.delay _ _) | .row v (.postponed _ _ _) | .row v (.failed _) => v = u
  | _ => False

theorem Event.Plain.not_appears (h : e.Plain) : ¬ Appears u e := by
  cases e with
  | row v a => cases a <;> first | exact False.elim h | exact False.elim
  | _ => exact False.elim

theorem appears_of_isSome (h : (w.rows.find u).isSome = false) (hafter : ((w.step e).rows.find u).isSome) :
    Appears u e := by
  rw [Option.isSome_eq_false_iff, Option.isNone_iff_eq_none] at h
  have hstep := rowStep_step w u e
  generalize (w.step e).rows.find u = after at hstep hafter
  cases hstep with
  | same =>
    rw [h] at hafter
    cases hafter
  | row a =>
    rw [h] at hafter
    cases a <;> first | rfl | cases hafter
  | requeueDead row hrow hactive =>
    rw [h] at hrow
    cases hrow
  | send r rest row hsending huuid hrow =>
    rw [h] at hrow
    cases hrow

theorem appears_after (hafter : u ∈ (Tx.after Runner.step w es).rows.uuids) :
    u ∈ w.rows.uuids ∨ ∃ e ∈ es, Appears u e := by
  induction es using List.reverseRecOn with
  | nil => exact Or.inl hafter
  | append_singleton es e ih =>
    rw [Tx.after_concat, ← Rows.isSome_find] at hafter
    cases hbefore : ((Tx.after Runner.step w es).rows.find u).isSome with
    | true =>
      exact (ih (Rows.isSome_find.mp hbefore)).imp_right fun ⟨e', he', hc⟩ => ⟨e', List.mem_append_left _ he', hc⟩
    | false => exact Or.inr ⟨e, by simp, appears_of_isSome hbefore hafter⟩

end Runner

end JobQueue
