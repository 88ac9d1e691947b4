import Mathlib.Logic.Relation
import PropzaAmlak.JobQueue.DependencySafety

/-! No job waits for nothing. -/

namespace JobQueue

/-! ### Rows that are written -/

namespace RowAction

variable {a : RowAction} {old : Option Row} {row row' : Row}

/-- A job that is not done stays so unless it is performed, set to done or deleted. -/
theorem written_undone (hrow : row.state ≠ .done) (hperformed : ∀ job, a ≠ .performed job) (hdone : a ≠ .buttonDone)
    (hunlink : a ≠ .unlink) : ∃ row' ∈ a.written (some row), row'.state ≠ .done := by
  cases a with
  | delay job waiting => exact ⟨row, rfl, hrow⟩
  | performed job => exact (hperformed job rfl).elim
  | buttonDone => exact (hdone rfl).elim
  | unlink => exact (hunlink rfl).elim
  | postponed job eta waiting => exact ⟨_, rfl, by cases waiting <;> exact fun h => by cases h⟩
  | failed job => exact ⟨_, rfl, fun h => by cases h⟩
  | buttonCancelled => exact ⟨_, rfl, fun h => by cases h⟩
  | edit channel priority eta maxRetries => exact ⟨_, rfl, hrow⟩
  | runjob =>
    rw [written, writes]
    split
    · exact ⟨_, rfl, fun h => by cases h⟩
    · exact ⟨row, rfl, hrow⟩
  | requeue waiting =>
    rw [written, writes]
    split
    · exact ⟨row, rfl, hrow⟩
    · exact ⟨_, rfl, by cases waiting <;> exact fun h => by cases h⟩
  | enqueueWaiting =>
    rw [written, writes]
    split
    · exact ⟨_, rfl, fun h => by cases h⟩
    · exact ⟨row, rfl, hrow⟩
  | cancelDependent =>
    rw [written, writes]
    split
    · exact ⟨_, rfl, fun h => by cases h⟩
    · exact ⟨row, rfl, hrow⟩

theorem isSome_written (ha : a ≠ .unlink) : (a.written (some row)).isSome := by
  cases a with
  | unlink => exact (ha rfl).elim
  | runjob | performed _ | requeue _ | enqueueWaiting | cancelDependent =>
    rw [written, writes]
    split <;> rfl
  | _ => rfl

/-- The query writes no job that is done. -/
theorem written_done (ha : a = .enqueueWaiting ∨ a = .cancelDependent ∨ a = .buttonDone)
    (hold : ∀ row ∈ old, row.state = .done) (h : row' ∈ a.written old) : row'.state = .done := by
  cases old with
  | none => rcases ha with rfl | rfl | rfl <;> cases h
  | some row =>
    have hrow := hold row rfl
    have hwaits : row.state ≠ .waitDependencies := by rw [hrow]; decide
    rcases ha with rfl | rfl | rfl
    · rw [written, writes, if_neg hwaits] at h
      obtain rfl := Option.some.inj h
      exact hrow
    · rw [written, writes, if_neg hwaits] at h
      obtain rfl := Option.some.inj h
      exact hrow
    · obtain rfl := Option.some.inj h
      rfl

theorem not_waits_of_written (ha : a = .enqueueWaiting ∨ a = .cancelDependent ∨ a = .buttonDone ∨ a = .buttonCancelled)
    (h : row' ∈ a.written old) : row'.state ≠ .waitDependencies := by
  cases old with
  | none => rcases ha with rfl | rfl | rfl | rfl <;> cases h
  | some row =>
    rcases ha with rfl | rfl | rfl | rfl
    · rw [written, writes] at h
      split at h
      · obtain rfl := Option.some.inj h
        exact fun hwaits => by cases hwaits
      · rename_i hnot
        obtain rfl := Option.some.inj h
        exact hnot
    · rw [written, writes] at h
      split at h
      · obtain rfl := Option.some.inj h
        exact fun hwaits => by cases hwaits
      · rename_i hnot
        obtain rfl := Option.some.inj h
        exact hnot
    · obtain rfl := Option.some.inj h
      exact fun hwaits => by cases hwaits
    · obtain rfl := Option.some.inj h
      exact fun hwaits => by cases hwaits

/-- Who makes a job wait. -/
theorem waits_of_written (h : row' ∈ a.written old) (hwaits : row'.state = .waitDependencies) :
    (∃ row ∈ old, row.state = .waitDependencies) ∧ a ≠ .enqueueWaiting ∧ a ≠ .cancelDependent ∧ a ≠ .buttonDone ∧
        a ≠ .buttonCancelled ∨
      (∃ job, a = .delay job true) ∨ (∃ job eta, a = .postponed job eta true) ∨ a = .requeue true := by
  rcases state_written h with ⟨row, hrow, hstate⟩ | htarget
  · have hnot := fun ha => not_waits_of_written ha h hwaits
    simp only [imp_false, not_or] at hnot
    exact Or.inl ⟨⟨row, hrow, hstate.trans hwaits⟩, hnot⟩
  · rw [hwaits] at htarget
    cases a with
    | delay job waiting =>
      cases waiting with
      | true => exact Or.inr (Or.inl ⟨job, rfl⟩)
      | false => cases htarget
    | postponed job eta waiting =>
      cases waiting with
      | true => exact Or.inr (Or.inr (Or.inl ⟨job, eta, rfl⟩))
      | false => cases htarget
    | requeue waiting =>
      cases waiting with
      | true => exact Or.inr (Or.inr (Or.inr rfl))
      | false => cases htarget
    | _ => cases htarget

end RowAction

namespace Board

open Runner

variable {dependsOn : String → Finset String} {b s : Board} {deeds : List Deed} {d : Deed} {u c p q : String}

def Undone (p : String) (b : Board) : Prop := ∃ row ∈ b.rows.find p, row.state ≠ .done

def Waits (c : String) (b : Board) : Prop := ∃ row ∈ b.rows.find c, row.state = .waitDependencies

instance (p : String) (b : Board) : Decidable (b.Undone p) :=
  inferInstanceAs (Decidable (∃ row ∈ b.rows.find p, row.state ≠ .done))

instance (c : String) (b : Board) : Decidable (b.Waits c) :=
  inferInstanceAs (Decidable (∃ row ∈ b.rows.find c, row.state = .waitDependencies))

/-- No job that is done is taken back, and no one who is done with a job is lost
before the jobs that wait for it are looked for. -/
def Lasting (b : Board) : Deed → Prop
  | .postponed u _ _ _ | .failed u _ _ | .buttonCancelled u _ | .requeue u => b.Undone u
  | .other (.row u .unlink) => ¬ b.Undone u ∧ u ∉ b.finished
  | .other .send => ∀ r ∈ b.runner.sending.head?, b.Undone (b.runner.uuid r)
  | .lost _ => False
  | _ => True

/-- A job that `c` depends on is not done, or those that wait for it are still to be
looked for. -/
def Awaits (dependsOn : String → Finset String) (c : String) (b : Board) : Prop :=
  ∃ p ∈ dependsOn c, b.Undone p ∨ p ∈ b.finished

/-! ### What a deed makes of the rows -/

theorem nodup_button {a a' : RowAction} {state : JobState} {order : List String}
    (h : Lists dependsOn state u (s.runner.step (.row u a)).rows order)
    (hstate : ∀ row ∈ a.written (s.rows.find u), row.state ≠ .waitDependencies) :
    (((u, a) :: order.map fun c => (c, a')).map Prod.fst).Nodup := by
  have hfst : (order.map fun c => (c, a')).map Prod.fst = order := by rw [List.map_map]; exact List.map_id order
  rw [List.map_cons, hfst, List.nodup_cons]
  refine ⟨fun hmem => ?_, h.1⟩
  obtain ⟨row, hrow, hwaits⟩ := h.waits hmem
  rw [Runner.step, find_writeRow_self] at hrow
  exact hstate row hrow hwaits

theorem nodup_writes (hd : s.Possible dependsOn d) : ((s.writes dependsOn d).map Prod.fst).Nodup := by
  cases d with
  | delay jobs =>
    have hfst : (s.writes dependsOn (.delay jobs)).map Prod.fst = jobs.map Prod.fst := List.map_map
    rw [hfst]
    exact hd.1
  | enqueueWaiting v order =>
    have hfst : (s.writes dependsOn (.enqueueWaiting v order)).map Prod.fst = order :=
      List.map_map.trans (List.map_id order)
    rw [hfst]
    exact hd.2.1
  | buttonDone v order =>
    refine nodup_button hd.2 fun row hrow hwaits => ?_
    rcases RowAction.waits_of_written hrow hwaits with ⟨-, -, -, hc, -⟩ | ⟨_, hc⟩ | ⟨_, _, hc⟩ | hc
    · exact hc rfl
    · cases hc
    · cases hc
    · cases hc
  | buttonCancelled v order =>
    refine nodup_button hd.2 fun row hrow hwaits => ?_
    rcases RowAction.waits_of_written hrow hwaits with ⟨-, -, -, -, hc⟩ | ⟨_, hc⟩ | ⟨_, _, hc⟩ | hc
    · exact hc rfl
    · cases hc
    · cases hc
    · cases hc
  | died v waiting => exact List.nodup_nil
  | lost v => exact List.nodup_nil
  | other e => exact List.nodup_nil
  | _ => exact List.nodup_singleton _

/-- What is in the row of `q` after a deed. -/
inductive Found (dependsOn : String → Finset String) (s : Board) (q : String) (d : Deed) : Option Row → Prop where
  | same (h : ∀ a, (q, a) ∉ s.writes dependsOn d) : Found dependsOn s q d (s.rows.find q)
  | written (a : RowAction) (h : (q, a) ∈ s.writes dependsOn d) : Found dependsOn s q d (a.written (s.rows.find q))
  | other (e : Event) (row : Option Row) (hd : d = .other e) (h : RowStep s.runner q e row) : Found dependsOn s q d row

theorem found_step (hd : s.Possible dependsOn d) (q : String) :
    Found dependsOn s q d ((s.step dependsOn d).rows.find q) := by
  rw [step_of_possible hd]
  have hwrites : (∀ e, d ≠ .other e) → Found dependsOn s q d
      ((Tx.after Runner.step s.runner (writeAll (s.writes dependsOn d))).rows.find q) := by
    intro _
    by_cases hq : q ∈ (s.writes dependsOn d).map Prod.fst
    · obtain ⟨⟨q', a⟩, hx, rfl⟩ := List.mem_map.mp hq
      rw [find_writeAll_of_mem (nodup_writes hd) hx]
      exact .written a hx
    · rw [find_writeAll_of_notMem hq]
      exact .same fun a ha => hq (List.mem_map_of_mem ha)
  cases d with
  | other e => exact .other e _ rfl (rowStep_step s.runner q e)
  | _ => exact hwrites fun e => by simp

theorem undone_requeueDead {row : Row} : row.requeueDead.state ≠ .done ∧ row.requeueDead.state ≠ .waitDependencies := by
  rw [Row.requeueDead]
  dsimp only
  split <;> decide

theorem Lasting.not_unlink (hl : s.Lasting d) (h : s.Undone q) : d ≠ .other (.row q .unlink) := by
  rintro rfl
  exact hl.1 h

/-- A job that is not done stays so unless it is performed, set to done or deleted. -/
theorem Undone.step (h : s.Undone q) (hd : s.Possible dependsOn d) (hunlink : d ≠ .other (.row q .unlink)) :
    (s.step dependsOn d).Undone q ∨ (∃ waiting job, d = .performed q waiting job) ∨
      ∃ order, d = .buttonDone q order := by
  obtain ⟨row, hrow, hstate⟩ := h
  have hfound := found_step hd q
  rw [Undone]
  generalize (s.step dependsOn d).rows.find q = after at hfound ⊢
  cases hfound with
  | same => exact Or.inl ⟨row, hrow, hstate⟩
  | written a ha =>
    rw [hrow]
    by_cases hperformed : ∃ job, a = .performed job
    · obtain ⟨job, rfl⟩ := hperformed
      cases d with
      | performed u waiting job' =>
        cases List.mem_singleton.mp ha
        exact Or.inr (Or.inl ⟨waiting, job, rfl⟩)
      | _ => simp [writes] at ha
    · by_cases hdone : a = .buttonDone
      · subst hdone
        cases d with
        | buttonDone u order =>
          rcases List.mem_cons.mp ha with hc | hc
          · cases hc
            exact Or.inr (Or.inr ⟨order, rfl⟩)
          · simp at hc
        | _ => simp [writes] at ha
      · have hunlink : a ≠ .unlink := by
          rintro rfl
          cases d <;> simp [writes] at ha
        exact Or.inl (RowAction.written_undone hstate (fun job hc => hperformed ⟨job, hc⟩) hdone hunlink)
  | other e row' hother hstep =>
    subst hother
    cases hstep with
    | same => exact Or.inl ⟨row, hrow, hstate⟩
    | requeueDead row' h hactive => exact Or.inl ⟨_, rfl, undone_requeueDead.1⟩
    | send r rest row' hsending huuid h => exact Or.inl ⟨_, rfl, by simp⟩
    | row a =>
      have hrow' : s.runner.rows.find q = some row := hrow
      rw [hrow']
      cases a with
      | edit channel priority eta maxRetries => exact Or.inl ⟨_, rfl, hstate⟩
      | unlink => exact (hunlink rfl).elim
      | _ => cases hd

theorem Settled.not_undone (h : s.Settled q) : ¬ s.Undone q := fun ⟨row, hrow, hstate⟩ => hstate (h.2 row hrow)

theorem Settled.of_rowStep {e : Event} {after : Option Row} {row' : Row} (h : s.Settled q)
    (hd : s.Possible dependsOn (.other e)) (hl : s.Lasting (.other e)) (hstep : RowStep s.runner q e after)
    (hrow' : row' ∈ after) : row'.state = .done := by
  cases hstep with
  | same => exact h.2 row' hrow'
  | requeueDead row hrow hactive =>
    have hdone := h.2 row hrow
    rw [Row.Active, hdone] at hactive
    simp at hactive
  | send r rest row hsending huuid hrow =>
    have hundone := hl r (by rw [hsending]; rfl)
    rw [huuid] at hundone
    exact (h.not_undone hundone).elim
  | row a =>
    cases hold : s.runner.rows.find q with
    | none =>
      rw [hold] at hrow'
      cases a with
      | edit channel priority eta maxRetries => cases hrow'
      | unlink => cases hrow'
      | _ => cases hd
    | some row =>
      rw [hold] at hrow'
      cases a with
      | edit channel priority eta maxRetries =>
        obtain rfl := Option.some.inj hrow'
        exact h.2 row hold
      | unlink => cases hrow'
      | _ => cases hd

theorem Settled.of_written {a : RowAction} {row' : Row} (h : s.Settled q) (hd : s.Possible dependsOn d)
    (hl : s.Lasting d) (ha : (q, a) ∈ s.writes dependsOn d) (hrow' : row' ∈ a.written (s.rows.find q)) :
    row'.state = .done := by
  cases d with
  | delay jobs =>
    obtain ⟨job, hjob, heq⟩ := List.mem_map.mp ha
    obtain ⟨rfl, -⟩ := Prod.mk.inj heq
    exact ((hd.2 job hjob).1 h.1).elim
  | runjob u =>
    cases List.mem_singleton.mp ha
    obtain ⟨row, hrow, hstate⟩ := hd
    cases hstate.symm.trans (h.2 row hrow)
  | performed u waiting job =>
    cases List.mem_singleton.mp ha
    obtain ⟨-, row, hrow, hstate⟩ := hd
    cases hstate.symm.trans (h.2 row hrow)
  | postponed u waiting job eta =>
    cases List.mem_singleton.mp ha
    exact (h.not_undone hl).elim
  | failed u waiting job =>
    cases List.mem_singleton.mp ha
    exact (h.not_undone hl).elim
  | requeue u =>
    cases List.mem_singleton.mp ha
    exact (h.not_undone hl).elim
  | enqueueWaiting u order =>
    obtain ⟨c, -, heq⟩ := List.mem_map.mp ha
    obtain ⟨rfl, rfl⟩ := Prod.mk.inj heq
    exact RowAction.written_done (Or.inl rfl) h.2 hrow'
  | buttonDone u order =>
    rcases List.mem_cons.mp ha with heq | ha
    · obtain ⟨rfl, rfl⟩ := Prod.mk.inj heq
      exact RowAction.written_done (Or.inr (Or.inr rfl)) h.2 hrow'
    · obtain ⟨c, -, heq⟩ := List.mem_map.mp ha
      obtain ⟨rfl, rfl⟩ := Prod.mk.inj heq
      exact RowAction.written_done (Or.inl rfl) h.2 hrow'
  | buttonCancelled u order =>
    rcases List.mem_cons.mp ha with heq | ha
    · obtain ⟨rfl, rfl⟩ := Prod.mk.inj heq
      exact (h.not_undone hl).elim
    · obtain ⟨c, -, heq⟩ := List.mem_map.mp ha
      obtain ⟨rfl, rfl⟩ := Prod.mk.inj heq
      exact RowAction.written_done (Or.inr (Or.inl rfl)) h.2 hrow'
  | died u waiting => cases ha
  | lost u => cases ha
  | other e => cases ha

/-- As long as no job that is done is taken back, what is settled stays settled. -/
theorem Settled.step (h : s.Settled q) (hd : s.Possible dependsOn d) (hl : s.Lasting d) :
    (s.step dependsOn d).Settled q := by
  refine ⟨?_, ?_⟩
  · rw [step_of_possible hd]
    exact subset_createdAfter h.1
  have hfound := found_step hd q
  generalize (s.step dependsOn d).rows.find q = after at hfound ⊢
  intro row' hrow'
  cases hfound with
  | same => exact h.2 row' hrow'
  | written a ha => exact h.of_written hd hl ha hrow'
  | other e after hother hstep =>
    subst hother
    exact h.of_rowStep hd hl hstep hrow'

/-- Who makes a job wait on the board. -/
theorem Waits.before (h : (s.step dependsOn d).Waits c) (hd : s.Possible dependsOn d) :
    s.Waits c ∧ (c, .enqueueWaiting) ∉ s.writes dependsOn d ∧ (c, .buttonDone) ∉ s.writes dependsOn d ∨
      (∃ job, (c, .delay job true) ∈ s.writes dependsOn d) ∨
      (∃ job eta, (c, .postponed job eta true) ∈ s.writes dependsOn d) ∨
      (c, .requeue true) ∈ s.writes dependsOn d := by
  obtain ⟨row', hrow', hwaits⟩ := h
  have hfound := found_step hd c
  generalize (s.step dependsOn d).rows.find c = after at hfound hrow'
  cases hfound with
  | same hnot => exact Or.inl ⟨⟨row', hrow', hwaits⟩, hnot _, hnot _⟩
  | written a ha =>
    have hunique : ∀ a', (c, a') ∈ s.writes dependsOn d → a' = a := fun a' ha' =>
      (Prod.mk.inj (List.inj_on_of_nodup_map (nodup_writes hd) ha' ha rfl)).2
    rcases RowAction.waits_of_written hrow' hwaits with
      ⟨hold, henqueue, -, hdone, -⟩ | ⟨job, rfl⟩ | ⟨job, eta, rfl⟩ | rfl
    · exact Or.inl ⟨hold, fun hc => henqueue (hunique _ hc).symm, fun hc => hdone (hunique _ hc).symm⟩
    · exact Or.inr (Or.inl ⟨job, ha⟩)
    · exact Or.inr (Or.inr (Or.inl ⟨job, eta, ha⟩))
    · exact Or.inr (Or.inr (Or.inr ha))
  | other e after hother hstep =>
    subst hother
    refine Or.inl ⟨?_, by simp [writes], by simp [writes]⟩
    cases hstep with
    | same => exact ⟨row', hrow', hwaits⟩
    | requeueDead row hrow hactive =>
      obtain rfl := Option.some.inj hrow'
      exact (undone_requeueDead.2 hwaits).elim
    | send r rest row hsending huuid hrow =>
      obtain rfl := Option.some.inj hrow'
      cases hwaits
    | row a =>
      rcases RowAction.waits_of_written hrow' hwaits with ⟨hold, -⟩ | ⟨job, rfl⟩ | ⟨job, eta, rfl⟩ | rfl
      · exact hold
      · cases hd
      · cases hd
      · cases hd

theorem mem_finishedAfter (h : q ∈ s.finished) (hl : s.Lasting d) :
    q ∈ s.finishedAfter d ∨ ∃ order, d = .enqueueWaiting q order := by
  cases d with
  | performed u waiting job => exact Or.inl (List.mem_cons_of_mem _ h)
  | enqueueWaiting u order =>
    by_cases hu : q = u
    · exact Or.inr ⟨order, by rw [hu]⟩
    · exact Or.inl ((List.mem_erase_of_ne hu).mpr h)
  | lost u => cases hl
  | _ => exact Or.inl h

theorem of_mem_finishedAfter (h : q ∈ s.finishedAfter d) :
    q ∈ s.finished ∨ ∃ waiting job, d = .performed q waiting job := by
  cases d with
  | performed u waiting job =>
    rcases List.mem_cons.mp h with rfl | h
    · exact Or.inr ⟨waiting, job, rfl⟩
    · exact Or.inl h
  | enqueueWaiting u order => exact Or.inl (List.mem_of_mem_erase h)
  | lost u => exact Or.inl (List.mem_of_mem_erase h)
  | _ => exact Or.inl h

/-- What the one who is done with `p` leaves waiting has something else to wait for. -/
theorem undone_of_looked (h : (s.step dependsOn d).Waits c) (hd : s.Possible dependsOn d) (hl : s.Lasting d)
    (hlook : (∃ order, d = .enqueueWaiting p order) ∨ ∃ order, d = .buttonDone p order) (hp : p ∈ dependsOn c)
    (hpresent : p ∈ s.rows.uuids) : ∃ q ∈ dependsOn c, (s.step dependsOn d).Undone q := by
  have hnew : ∀ a, (c, a) ∈ s.writes dependsOn d → a = .enqueueWaiting ∨ a = .buttonDone := by
    intro a ha
    rcases hlook with ⟨order, rfl⟩ | ⟨order, rfl⟩
    · obtain ⟨c', -, heq⟩ := List.mem_map.mp ha
      exact Or.inl (Prod.mk.inj heq).2.symm
    · rcases List.mem_cons.mp ha with heq | ha
      · exact Or.inr (Prod.mk.inj heq).2
      · obtain ⟨c', -, heq⟩ := List.mem_map.mp ha
        exact Or.inl (Prod.mk.inj heq).2.symm
  have hbefore : s.Waits c ∧ (c, .enqueueWaiting) ∉ s.writes dependsOn d ∧ (c, .buttonDone) ∉ s.writes dependsOn d := by
    rcases h.before hd with hb | ⟨job, ha⟩ | ⟨job, eta, ha⟩ | ha
    · exact hb
    · rcases hnew _ ha with hc | hc <;> cases hc
    · rcases hnew _ ha with hc | hc <;> cases hc
    · rcases hnew _ ha with hc | hc <;> cases hc
  obtain ⟨⟨row, hrow, hwaits⟩, hnotEnqueue, hnotDone⟩ := hbefore
  -- the jobs of the query are those of which nothing else is undone
  have hquery : ∀ {rows : Rows} {order : List String}, Lists dependsOn .done p rows order → c ∉ order →
      row ∈ rows.find c → p ∈ rows.uuids → ∃ q ∈ dependsOn c, ∃ row' ∈ rows.find q, row'.state ≠ .done := by
    intro rows order hlists hnot hfind hpresent
    obtain ⟨hmem, rfl⟩ := Rows.eq_of_mem_find hfind
    by_contra hall
    push Not at hall
    exact hnot (hlists.mem_iff.mpr ⟨hmem, hpresent, hp, hwaits, hall⟩)
  rcases hlook with ⟨order, rfl⟩ | ⟨order, rfl⟩
  · have hnot : c ∉ order := fun hc => hnotEnqueue (List.mem_map.mpr ⟨c, hc, rfl⟩)
    obtain ⟨q, hq, hundone⟩ := hquery hd.2 hnot hrow hpresent
    rcases Undone.step hundone hd (hl.not_unlink hundone) with hafter | ⟨waiting, job, hc⟩ | ⟨order', hc⟩
    · exact ⟨q, hq, hafter⟩
    · cases hc
    · cases hc
  · have hnot : c ∉ order := fun hc => hnotEnqueue (List.mem_cons_of_mem _ (List.mem_map.mpr ⟨c, hc, rfl⟩))
    have hcp : c ≠ p := fun heq => hnotDone (heq ▸ List.mem_cons_self)
    have hself : (s.runner.step (.row p .buttonDone)).rows.find p = some (s.rows.row p).setDone := by
      rw [Runner.step, find_writeRow_self]
      have hfind : s.runner.rows.find p = some (s.rows.row p) := Rows.find_of_mem hpresent
      rw [hfind]
      rfl
    obtain ⟨q, hq, row', hrow', hundone⟩ := hquery hd.2 hnot (by rw [Runner.step, find_writeRow_of_ne hcp]; exact hrow)
      (Rows.isSome_find.mp (by rw [hself]; rfl))
    have hqp : q ≠ p := by
      rintro rfl
      rw [hself] at hrow'
      obtain rfl := Option.some.inj hrow'
      exact hundone rfl
    rw [Runner.step, find_writeRow_of_ne hqp] at hrow'
    have hbefore : s.Undone q := ⟨row', hrow', hundone⟩
    rcases hbefore.step hd (hl.not_unlink hbefore) with hafter | ⟨waiting, job, hc⟩ | ⟨order', hc⟩
    · exact ⟨q, hq, hafter⟩
    · cases hc
    · cases hc
      exact (hqp rfl).elim

/-- What holds as long as no job that is done is taken back. -/
structure Lasted (dependsOn : String → Finset String) (b : Board) (deeds : List Deed) (s : Board) : Prop where
  lawful : Lawful dependsOn b deeds s
  settled : ∀ before, before <+: deeds → ∀ p, (Tx.after (step dependsOn) b before).Settled p → s.Settled p
  prompt : ∀ x ∈ s.workers, x.2 = false
  present : ∀ u ∈ s.finished, u ∈ s.rows.uuids
  awaits : ∀ c, s.Waits c → s.Awaits dependsOn c

/-- A job that is loaded is not made to wait again. -/
theorem Lasted.prompt_runjob (h : Lasted dependsOn b deeds s) (hd : s.Possible dependsOn (.runjob u)) :
    ¬ Waiting dependsOn s.rows u := by
  obtain ⟨row, hrow, hstate⟩ := hd
  have hactive : u ∈ s.runner.rows.active := Rows.mem_active.mpr ⟨row, hrow, Or.inl hstate⟩
  refine not_not.mpr fun p hp => ?_
  obtain ⟨before, hbefore, hsettled⟩ := h.lawful.cleared_of_active hactive p hp
  exact (h.settled before hbefore p hsettled).2

theorem mem_uuids_step (hd : s.Possible dependsOn d) (hq : q ∈ s.rows.uuids) :
    q ∈ (s.step dependsOn d).rows.uuids ∨ d = .other (.row q .unlink) := by
  have hfind : s.runner.rows.find q = some (s.rows.row q) := Rows.find_of_mem hq
  have hfound := found_step hd q
  rw [← Rows.isSome_find]
  generalize (s.step dependsOn d).rows.find q = after at hfound ⊢
  cases hfound with
  | same => exact Or.inl (Rows.isSome_find.mpr hq)
  | written a ha =>
    have hunlink : a ≠ .unlink := by
      rintro rfl
      cases d <;> simp [writes] at ha
    rw [rows, hfind]
    exact Or.inl (RowAction.isSome_written hunlink)
  | other e after hother hstep =>
    subst hother
    cases hstep with
    | same => exact Or.inl (Rows.isSome_find.mpr hq)
    | requeueDead row hrow hactive => exact Or.inl rfl
    | send r rest row hsending huuid hrow => exact Or.inl rfl
    | row a =>
      by_cases hunlink : a = .unlink
      · exact Or.inr (by rw [hunlink])
      · rw [hfind]
        exact Or.inl (RowAction.isSome_written hunlink)

theorem Lasted.present_step (h : Lasted dependsOn b deeds s) (hd : s.Possible dependsOn d) (hl : s.Lasting d)
    (hu : u ∈ s.finishedAfter d) : u ∈ (s.step dependsOn d).rows.uuids := by
  rcases of_mem_finishedAfter hu with hu | ⟨waiting, job, rfl⟩
  · rcases mem_uuids_step hd (h.present u hu) with hmem | rfl
    · exact hmem
    · exact (hl.2 hu).elim
  · obtain ⟨row, hrow, -⟩ := hd.2
    rcases mem_uuids_step hd (Rows.eq_of_mem_find hrow).1 with hmem | hc
    · exact hmem
    · cases hc

/-- A new job that has to wait is stored together with a job that it waits for. -/
theorem Lawful.undone_of_delay {jobs : List (String × Row)} {job : Row} (h : Lawful dependsOn b deeds s)
    (hd : s.Possible dependsOn (.delay jobs)) (hc : (c, .delay job true) ∈ s.writes dependsOn (.delay jobs)) :
    ∃ p ∈ dependsOn c, (s.step dependsOn (.delay jobs)).Undone p := by
  obtain ⟨⟨c', job'⟩, hmem, heq⟩ := List.mem_map.mp hc
  obtain ⟨rfl, hdelay⟩ := Prod.mk.inj heq
  have hne : dependsOn c' ≠ ∅ := of_decide_eq_true (RowAction.delay.inj hdelay).2
  obtain ⟨p, hp⟩ := Finset.nonempty_iff_ne_empty.mpr hne
  obtain ⟨⟨p', parent⟩, hparent, rfl⟩ := List.mem_map.mp ((hd.2 _ hmem).2 p hp)
  refine ⟨p', hp, ?_⟩
  have hwrite : (p', .delay parent (decide (dependsOn p' ≠ ∅))) ∈ s.writes dependsOn (.delay jobs) :=
    List.mem_map.mpr ⟨_, hparent, rfl⟩
  have hnone : s.runner.rows.find p' = none := if_neg fun hrow => (hd.2 _ hparent).1 (h.known p' hrow)
  rw [Undone, step_of_possible hd, rows]
  have hfind : (Tx.after Runner.step s.runner (writeAll (s.writes dependsOn (.delay jobs)))).rows.find p' =
      some (parent.setPending (decide (dependsOn p' ≠ ∅)) false) := by
    rw [find_writeAll_of_mem (nodup_writes hd) hwrite, hnone]
    rfl
  refine ⟨_, hfind, ?_⟩
  rw [Row.setPending]
  dsimp only
  split <;> decide

theorem Lasted.awaits_step (h : Lasted dependsOn b deeds s) (hd : s.Possible dependsOn d) (hl : s.Lasting d)
    (hc : (s.step dependsOn d).Waits c) : (s.step dependsOn d).Awaits dependsOn c := by
  have hfinished : (s.step dependsOn d).finished = s.finishedAfter d := by rw [step_of_possible hd]
  rcases hc.before hd with ⟨hbefore, -⟩ | ⟨job, ha⟩ | ⟨job, eta, ha⟩ | ha
  · obtain ⟨p, hp, hundone | hfin⟩ := h.awaits c hbefore
    · rcases hundone.step hd (hl.not_unlink hundone) with hafter | ⟨waiting, job, rfl⟩ | ⟨order, rfl⟩
      · exact ⟨p, hp, Or.inl hafter⟩
      · exact ⟨p, hp, Or.inr (hfinished ▸ List.mem_cons_self)⟩
      · obtain ⟨row, hrow, -⟩ := hundone
        obtain ⟨q, hq, hafter⟩ := undone_of_looked hc hd hl (Or.inr ⟨order, rfl⟩) hp (Rows.eq_of_mem_find hrow).1
        exact ⟨q, hq, Or.inl hafter⟩
    · rcases mem_finishedAfter hfin hl with hafter | ⟨order, rfl⟩
      · exact ⟨p, hp, Or.inr (hfinished ▸ hafter)⟩
      · obtain ⟨q, hq, hafter⟩ := undone_of_looked hc hd hl (Or.inl ⟨order, rfl⟩) hp (h.present p hfin)
        exact ⟨q, hq, Or.inl hafter⟩
  · cases d with
    | delay jobs =>
      obtain ⟨p, hp, hundone⟩ := h.lawful.undone_of_delay hd ha
      exact ⟨p, hp, Or.inl hundone⟩
    | _ => simp [writes] at ha
  · cases d with
    | postponed u waiting job' eta' =>
      cases List.mem_singleton.mp ha
      cases h.prompt _ hd
    | _ => simp [writes] at ha
  · cases d with
    | requeue u =>
      obtain ⟨rfl, hwaiting⟩ := Prod.mk.inj (List.mem_singleton.mp ha)
      have hnot : Waiting dependsOn s.rows c := of_decide_eq_true (RowAction.requeue.inj hwaiting).symm
      rw [Waiting, Rows.AllIn] at hnot
      push Not at hnot
      obtain ⟨q, hq, hundone⟩ := hnot
      rcases Undone.step hundone hd (hl.not_unlink hundone) with hafter | ⟨waiting, job, hcontra⟩ | ⟨order, hcontra⟩
      · exact ⟨q, hq, Or.inl hafter⟩
      · cases hcontra
      · cases hcontra
    | _ => simp [writes] at ha

theorem Lasted.step (h : Lasted dependsOn b deeds s) (hs : Tx.after (Board.step dependsOn) b deeds = s)
    (hl : s.Lasting d) : Lasted dependsOn b (deeds ++ [d]) (s.step dependsOn d) := by
  have hlawful := h.lawful.step hs d
  by_cases hd : s.Possible dependsOn d
  · refine ⟨hlawful, fun before hbefore p hp => ?_, fun x hx => ?_, fun u hu => ?_, fun c => h.awaits_step hd hl⟩
    · rcases List.prefix_concat_iff.mp hbefore with rfl | hbefore
      · rwa [Tx.after_concat, hs] at hp
      · exact (h.settled before hbefore p hp).step hd hl
    · rw [step_of_possible hd] at hx
      rcases mem_workersAfter hx with hx | ⟨u, rfl, rfl⟩
      · exact h.prompt x hx
      · exact decide_eq_false (h.prompt_runjob hd)
    · refine h.present_step hd hl ?_
      rwa [step_of_possible hd] at hu
  · rw [step_of_not hd] at hlawful ⊢
    refine ⟨hlawful, fun before hbefore p hp => ?_, h.prompt, h.present, h.awaits⟩
    rcases List.prefix_concat_iff.mp hbefore with rfl | hbefore
    · rwa [Tx.after_concat, hs, step_of_not hd] at hp
    · exact h.settled before hbefore p hp

theorem Blank.lasted (h : b.Blank) : Lasted dependsOn b [] b := by
  refine ⟨h.lawful, fun before hbefore p hp => ?_, fun x hx => ?_, fun u hu => ?_, fun c hc => ?_⟩
  · obtain rfl := List.prefix_nil.mp hbefore
    exact hp
  · rw [h.workers] at hx
    cases hx
  · rw [h.finished] at hu
    cases hu
  · obtain ⟨row, hrow, -⟩ := hc
    have hmem := (Rows.eq_of_mem_find hrow).1
    rw [h.rows] at hmem
    exact (Finset.notMem_empty c hmem).elim

theorem Blank.always_lasted (h : b.Blank) (hl : Tx.EachStep (Board.step dependsOn) Lasting b deeds) :
    Lasted dependsOn b deeds (Tx.after (Board.step dependsOn) b deeds) := by
  induction deeds using List.reverseRecOn with
  | nil => exact h.lasted
  | append_singleton deeds d ih =>
    obtain ⟨hl, hlast⟩ := Tx.eachStep_concat.mp hl
    rw [Tx.after_concat]
    exact (ih hl).step rfl hlast

/-- Someone has still to do something about the job. -/
def Stirs (p : String) (b : Board) : Prop := b.Undone p ∧ ¬ b.Waits p ∨ p ∈ b.finished

/-- As long as no job that is done is taken back, each job that waits depends on one
that does not wait and is not done, or the jobs that wait for it are still to be
looked for. -/
theorem waits_for_some (h : b.Blank) (hwf : WellFounded fun p c => p ∈ dependsOn c)
    (hl : Tx.EachStep (Board.step dependsOn) Lasting b deeds) :
    Tx.Always (Board.step dependsOn) (fun b => ∀ c, b.Waits c →
      ∃ p, Relation.TransGen (fun p c => p ∈ dependsOn c) p c ∧ b.Stirs p) b deeds := by
  intro before hbefore c
  have hlasted := h.always_lasted fun more d hmore => hl more d (hmore.trans hbefore)
  induction c using hwf.induction with
  | _ c ih =>
    intro hc
    obtain ⟨p, hp, hundone | hfinished⟩ := hlasted.awaits c hc
    · by_cases hwaits : Waits p (Tx.after (Board.step dependsOn) b before)
      · obtain ⟨q, hq, hstirs⟩ := ih p hp hwaits
        exact ⟨q, hq.tail hp, hstirs⟩
      · exact ⟨p, .single hp, Or.inl ⟨hundone, hwaits⟩⟩
    · exact ⟨p, .single hp, Or.inr hfinished⟩

theorem wellFounded_bAfterA : WellFounded fun p c => p ∈ bAfterA c := by
  refine Subrelation.wf (r := InvImage (· < ·) fun u : String => if u = "b" then 1 else 0) ?_
    (InvImage.wf _ Nat.lt_wfRel.wf)
  intro p c hp
  rw [bAfterA] at hp
  split at hp
  · obtain rfl := Finset.mem_singleton.mp hp
    simp [InvImage, *]
  · exact (Finset.notMem_empty p hp).elim

theorem b_waits_for_some : Tx.Always (Board.step bAfterA) (fun b => ∀ c, b.Waits c →
    ∃ p, Relation.TransGen (fun p c => p ∈ bAfterA c) p c ∧ b.Stirs p) emptyBoard
    [bothStored, .buttonDone "a" ["b"]] :=
  waits_for_some blank_emptyBoard wellFounded_bAfterA
    (Tx.eachStep_concat.mpr ⟨Tx.eachStep_concat.mpr ⟨Tx.eachStep_nil, trivial⟩, trivial⟩)

end Board

end JobQueue
