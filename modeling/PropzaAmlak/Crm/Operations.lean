import PropzaAmlak.Crm.Reservation

/-! What an operation on reservations does to the rows. -/

namespace Crm

namespace Db

/-- Nothing is moved to another property, lead or user. -/
structure Keeps (s r : Db) : Prop where
  reservation : ∀ j, (r.reservation j).property = (s.reservation j).property ∧
    (r.reservation j).lead = (s.reservation j).lead
  user : ∀ l, (r.lead l).user = (s.lead l).user

/-- The records of `ks` are in state `state` and the flags of the properties are as before. -/
structure Moved (state : ReservationState) (ks : List Nat) (s r : Db) : Prop extends Keeps s r where
  state : ∀ j, (r.reservation j).state = if j ∈ ks then state else (s.reservation j).state
  property : ∀ p, r.property p = s.property p
  rows : ∀ key, r key ≠ s key → ∃ k ∈ ks, key = .reservation k ∨ key = .lead (s.reservation k).lead

/-- The flags of `p` say what the user sees. -/
def Flagged (ids : List Nat) (viewer : Option Nat) (s : Db) (p : Nat) : Prop :=
  (s.property p).isReserved = !(s.activeOf ids viewer p).isEmpty ∧
    (s.property p).activeReservation = (s.activeOf ids viewer p).head?

/-- The records of `ks` are in state `state`, and the flags of their properties have
been computed for the user. -/
structure Done (ids : List Nat) (viewer : Option Nat) (state : ReservationState) (ks : List Nat) (s r : Db) : Prop
    extends Keeps s r where
  state : ∀ j, (r.reservation j).state = if j ∈ ks then state else (s.reservation j).state
  flags : ∀ k ∈ ks, r.Flagged ids viewer (s.reservation k).property
  untouched : ∀ p, (∀ k ∈ ks, (s.reservation k).property ≠ p) → r.property p = s.property p
  rows : ∀ key, r key ≠ s key → ∃ k ∈ ks, key = .reservation k ∨ key = .lead (s.reservation k).lead ∨
    key = .property (s.reservation k).property

variable {ids : List Nat} {viewer : Option Nat} {state : ReservationState} {ks : List Nat} {s s' r : Db} {k p : Nat}

theorem Keeps.sees (h : s.Keeps r) (k : Nat) : r.sees viewer k = s.sees viewer k := by
  cases viewer with
  | none => rfl
  | some user => rw [Db.sees, Db.sees, (h.reservation k).2, h.user]

theorem Keeps.refl (s : Db) : s.Keeps s := ⟨fun _ => ⟨rfl, rfl⟩, fun _ => rfl⟩

theorem Keeps.trans (h : s.Keeps s') (h' : s'.Keeps r) : s.Keeps r where
  reservation j := ⟨(h'.reservation j).1.trans (h.reservation j).1, (h'.reservation j).2.trans (h.reservation j).2⟩
  user l := (h'.user l).trans (h.user l)

theorem mem_activeOf {j : Nat} : j ∈ s.activeOf ids viewer p ↔
    j ∈ ids ∧ (s.reservation j).property = p ∧ (s.reservation j).state = .active ∧ s.sees viewer j := by
  simp [activeOf]

theorem Keeps.activeOf (h : s.Keeps r)
    (hstate : ∀ j, (s.reservation j).property = p → (r.reservation j).state = (s.reservation j).state) :
    r.activeOf ids viewer p = s.activeOf ids viewer p := by
  apply List.filter_congr
  intro j _
  rw [(h.reservation j).1, h.sees]
  by_cases hp : (s.reservation j).property = p
  · rw [hstate j hp]
  · simp [hp]

@[simp] theorem setState_reservation (s : Db) (k : Nat) (state : ReservationState) (j : Nat) :
    (s.setState k state).reservation j =
      if j = k then { s.reservation k with state := state } else s.reservation j := by
  by_cases hj : j = k
  · subst hj
    simp [setState, reservation]
  · simp [setState, reservation, hj]

theorem setState_moved (s : Db) (k : Nat) (state : ReservationState) : s.Moved state [k] (s.setState k state) where
  reservation j := by
    rw [setState_reservation]
    split
    · rename_i hj
      rw [hj]
      exact ⟨rfl, rfl⟩
    · exact ⟨rfl, rfl⟩
  user _ := rfl
  state j := by
    rw [setState_reservation]
    simp only [List.mem_singleton]
    split <;> rfl
  property _ := rfl
  rows key hkey := by
    refine ⟨k, by simp, .inl ?_⟩
    by_contra hne
    exact hkey (Function.update_of_ne hne _ _)

theorem Moved.writeLead (h : s.Moved state [k] r) {row : LeadRow}
    (hrow : row.user = (s.lead (s.reservation k).lead).user) :
    s.Moved state [k] (Function.update r (.lead (s.reservation k).lead) row) where
  reservation j := by
    have hj := h.reservation j
    exact hj
  user l := by
    by_cases hl : l = (s.reservation k).lead
    · subst hl
      simpa [lead] using hrow
    · have hu := h.user l
      simpa [lead, hl] using hu
  state j := h.state j
  property p := h.property p
  rows key hkey := by
    by_cases hlead : key = .lead (s.reservation k).lead
    · exact ⟨k, by simp, .inr hlead⟩
    · rw [Function.update_of_ne hlead] at hkey
      exact h.rows key hkey

theorem Moved.cons (h : s.Moved state [k] s') (h' : s'.Moved state ks r) : s.Moved state (k :: ks) r where
  toKeeps := h.toKeeps.trans h'.toKeeps
  state j := by
    rw [h'.state, h.state]
    by_cases hj : j = k
    · simp [hj]
    · simp [hj]
  property p := (h'.property p).trans (h.property p)
  rows key hkey := by
    by_cases hstep : r key = s' key
    · obtain ⟨i, hi, hrow⟩ := h.rows key (hstep ▸ hkey)
      obtain rfl : i = k := by simpa using hi
      exact ⟨i, by simp, hrow⟩
    · obtain ⟨i, hi, hrow⟩ := h'.rows key hstep
      rw [(h.reservation i).2] at hrow
      exact ⟨i, by simp [hi], hrow⟩

theorem moved_foldl {step : Db → Nat → Db} (hstep : ∀ s k, Moved state [k] s (step s k)) (ks : List Nat) (s : Db) :
    s.Moved state ks (ks.foldl step s) := by
  induction ks generalizing s with
  | nil => exact ⟨Keeps.refl s, by simp, fun _ => rfl, fun _ h => absurd rfl h⟩
  | cons k ks ih => exact (hstep s k).cons (ih (step s k))

theorem cancelAll_moved (s : Db) (ks : List Nat) : s.Moved .cancelled ks (s.cancelAll ks) :=
  moved_foldl (fun s k => s.setState_moved k _) ks s

theorem expireAll_moved (s : Db) (ks : List Nat) : s.Moved .expired ks (s.expireAll ks) :=
  moved_foldl (fun s k => s.setState_moved k _) ks s

theorem convertAll_moved (s : Db) (wonStage : Option Nat) (ks : List Nat) :
    s.Moved .converted ks (s.convertAll wonStage ks) := by
  have hstep : ∀ (s : Db) k, s.Moved .converted [k]
      ((s.setState k .converted).markWon wonStage (s.reservation k).lead) :=
    fun s k => (s.setState_moved k _).writeLead rfl
  exact moved_foldl hstep ks s

theorem computeIsReserved_keeps (ids : List Nat) (viewer : Option Nat) (s : Db) (p : Nat) :
    (∀ j, (s.computeIsReserved ids viewer p).reservation j = s.reservation j) ∧
      (∀ l, (s.computeIsReserved ids viewer p).lead l = s.lead l) ∧
      (∀ key, key ≠ .property p → s.computeIsReserved ids viewer p key = s key) :=
  ⟨fun _ => rfl, fun _ => rfl, fun _ hkey => Function.update_of_ne hkey _ _⟩

theorem flagged_computeIsReserved (ids : List Nat) (viewer : Option Nat) (s : Db) (p : Nat) :
    (s.computeIsReserved ids viewer p).Flagged ids viewer p := by
  have hactive : (s.computeIsReserved ids viewer p).activeOf ids viewer p = s.activeOf ids viewer p := rfl
  rw [Flagged, hactive]
  simp [computeIsReserved, property]

theorem Flagged.keep (h : s.Flagged ids viewer p) (hkeeps : s.Keeps r)
    (hstate : ∀ j, (s.reservation j).property = p → (r.reservation j).state = (s.reservation j).state)
    (hproperty : r.property p = s.property p) : r.Flagged ids viewer p := by
  rw [Flagged, hkeeps.activeOf hstate, hproperty]
  exact h

/-- The flags of all listed properties, computed one after the other. -/
theorem foldl_computeIsReserved (ids : List Nat) (viewer : Option Nat) (ps : List Nat) (s : Db) :
    let r := ps.foldl (fun s p => s.computeIsReserved ids viewer p) s
    (∀ j, r.reservation j = s.reservation j) ∧ (∀ l, r.lead l = s.lead l) ∧
      (∀ p ∈ ps, r.Flagged ids viewer p) ∧ ∀ key, (∀ p ∈ ps, key ≠ .property p) → r key = s key := by
  induction ps generalizing s with
  | nil => simp
  | cons p ps ih =>
    obtain ⟨hreservation, hlead, hflags, hrest⟩ := ih (s.computeIsReserved ids viewer p)
    obtain ⟨hsame, hsameLead, hother⟩ := computeIsReserved_keeps ids viewer s p
    refine ⟨fun j => (hreservation j).trans (hsame j), fun l => (hlead l).trans (hsameLead l), ?_, ?_⟩
    · intro q hq
      by_cases hmem : q ∈ ps
      · exact hflags q hmem
      · obtain rfl : q = p := (List.mem_cons.mp hq).resolve_right hmem
        have hkeeps : (s.computeIsReserved ids viewer q).Keeps
            (ps.foldl (fun s p => s.computeIsReserved ids viewer p) (s.computeIsReserved ids viewer q)) :=
          ⟨fun j => by rw [hreservation]; exact ⟨rfl, rfl⟩, fun l => by rw [hlead]⟩
        have hrow : ∀ i ∈ ps, Key.property q ≠ .property i := by
          rintro i hi h
          exact hmem (Key.property.inj h ▸ hi)
        exact (flagged_computeIsReserved ids viewer s q).keep hkeeps
          (fun j _ => congrArg Reservation.state (hreservation j)) (hrest _ hrow)
    · intro key hkey
      rw [List.foldl_cons, hrest key fun q hq => hkey q (List.mem_cons_of_mem _ hq)]
      exact hother key (hkey p (by simp))

theorem Moved.recompute (h : s.Moved state ks s') (ids : List Nat) (viewer : Option Nat) :
    s.Done ids viewer state ks (s'.recompute ids viewer ks) := by
  obtain ⟨hreservation, hlead, hflags, hrest⟩ :=
    foldl_computeIsReserved ids viewer (ks.map fun k => (s'.reservation k).property) s'
  have hproperty : ∀ k, (s'.reservation k).property = (s.reservation k).property := fun k => (h.reservation k).1
  refine ⟨⟨fun j => ?_, fun l => ?_⟩, fun j => ?_, fun k hk => ?_, fun p hp => ?_, fun key hkey => ?_⟩
  · rw [Db.recompute, hreservation]
    exact h.reservation j
  · rw [Db.recompute, hlead]
    exact h.user l
  · rw [Db.recompute, hreservation]
    exact h.state j
  · rw [← hproperty]
    exact hflags _ (List.mem_map_of_mem hk)
  · have hnot : ∀ q ∈ ks.map fun k => (s'.reservation k).property, Key.property p ≠ .property q := by
      intro q hq heq
      obtain ⟨k, hk, rfl⟩ := List.mem_map.mp hq
      exact hp k hk ((hproperty k).symm.trans (Key.property.inj heq).symm)
    exact (hrest _ hnot).trans (h.property p)
  · by_cases hcomputed : ∃ q ∈ ks.map fun k => (s'.reservation k).property, key = .property q
    · obtain ⟨q, hq, rfl⟩ := hcomputed
      obtain ⟨k, hk, rfl⟩ := List.mem_map.mp hq
      exact ⟨k, hk, .inr (.inr (by rw [hproperty]))⟩
    · have hnot : ∀ q ∈ ks.map fun k => (s'.reservation k).property, key ≠ .property q :=
        fun q hq heq => hcomputed ⟨q, hq, heq⟩
      rw [Db.recompute, hrest key hnot] at hkey
      obtain ⟨k, hk, hrow | hrow⟩ := h.rows key hkey
      · exact ⟨k, hk, .inl hrow⟩
      · exact ⟨k, hk, .inr (.inl hrow)⟩

/-- Activation also finds no other reservation of a property active. -/
structure Activated (ids : List Nat) (viewer : Option Nat) (ks : List Nat) (s r : Db) : Prop
    extends Done ids viewer .active ks s r where
  alone : ∀ k ∈ ks, ∀ j ∈ r.activeOf ids viewer (s.reservation k).property, j = k

theorem activateOne_activated (h : s.activateOne ids viewer k = .ok r) : s.Activated ids viewer [k] r := by
  unfold activateOne at h
  split at h
  · cases h
  rename_i hnone
  obtain rfl := Except.ok.inj h
  let moved := (s.setState k .active).qualify (s.reservation k).lead
  have hmoved : s.Moved .active [k] moved := (s.setState_moved k _).writeLead rfl
  have hproperty : (moved.reservation k).property = (s.reservation k).property := (hmoved.reservation k).1
  have hdone := hmoved.recompute ids viewer
  have hrecompute : moved.recompute ids viewer [k] = moved.computeIsReserved ids viewer (s.reservation k).property := by
    rw [← hproperty]
    rfl
  rw [hrecompute] at hdone
  refine ⟨hdone, fun i hi j hj => ?_⟩
  obtain rfl : i = k := by simpa using hi
  by_contra hne
  obtain ⟨hids, hj, hactive, hsees⟩ := mem_activeOf.mp hj
  have hsame : (s.reservation j).state = .active := by
    rw [hdone.state, if_neg (by simpa using hne)] at hactive
    exact hactive
  have hbefore : j ∈ s.activeOf ids viewer (s.reservation i).property := by
    refine mem_activeOf.mpr ⟨hids, ?_, hsame, ?_⟩
    · rw [← (hdone.reservation j).1]
      exact hj
    · rw [← hdone.sees]
      exact hsees
  have hfound := List.find?_eq_none.mp hnone j hbefore
  simp [hne] at hfound

theorem Activated.cons (hk : k ∈ ids ∧ s.sees viewer k) (h : s.Activated ids viewer [k] s')
    (h' : s'.Activated ids viewer ks r) : s.Activated ids viewer (k :: ks) r := by
  have hkeeps : s.Keeps r := h.toKeeps.trans h'.toKeeps
  have hproperty : ∀ j, (s'.reservation j).property = (s.reservation j).property := fun j => (h.reservation j).1
  have hstate : ∀ j, (r.reservation j).state = if j ∈ k :: ks then .active else (s.reservation j).state := by
    intro j
    rw [h'.state, h.state]
    by_cases hj : j = k
    · simp [hj]
    · simp [hj]
  -- the flags of the first property stay right unless a later record has it too
  have hlater : (∃ i ∈ ks, (s.reservation i).property = (s.reservation k).property) ∨
      r.Flagged ids viewer (s.reservation k).property ∧
        r.activeOf ids viewer (s.reservation k).property = s'.activeOf ids viewer (s.reservation k).property := by
    by_cases hex : ∃ i ∈ ks, (s.reservation i).property = (s.reservation k).property
    · exact .inl hex
    · have hnot : ∀ i ∈ ks, (s'.reservation i).property ≠ (s.reservation k).property :=
        fun i hi heq => hex ⟨i, hi, (hproperty i).symm.trans heq⟩
      have hsame : ∀ j, (s'.reservation j).property = (s.reservation k).property →
          (r.reservation j).state = (s'.reservation j).state := by
        intro j hj
        rw [h'.state, if_neg fun hmem => hnot j hmem hj]
      exact .inr ⟨(h.flags k (by simp)).keep h'.toKeeps hsame (h'.untouched _ hnot), h'.toKeeps.activeOf hsame⟩
  refine ⟨⟨hkeeps, hstate, ?_, ?_, ?_⟩, ?_⟩
  · intro i hi
    rcases List.mem_cons.mp hi with rfl | hi
    · rcases hlater with ⟨j, hj, heq⟩ | ⟨hflags, -⟩
      · rw [← heq, ← hproperty j]
        exact h'.flags j hj
      · exact hflags
    · rw [← hproperty i]
      exact h'.flags i hi
  · intro p hp
    have hfirst : s'.property p = s.property p := h.untouched p (by simpa using hp k (by simp))
    rw [← hfirst]
    exact h'.untouched p fun i hi => by rw [hproperty]; exact hp i (List.mem_cons_of_mem _ hi)
  · intro key hkey
    by_cases hstep : r key = s' key
    · obtain ⟨i, hi, hrow⟩ := h.rows key (hstep ▸ hkey)
      obtain rfl : i = k := by simpa using hi
      exact ⟨i, by simp, hrow⟩
    · obtain ⟨i, hi, hrow⟩ := h'.rows key hstep
      rw [(h.reservation i).1, (h.reservation i).2] at hrow
      exact ⟨i, by simp [hi], hrow⟩
  · intro i hi j hj
    rcases List.mem_cons.mp hi with rfl | hi
    · rcases hlater with ⟨i', hi', heq⟩ | ⟨-, hsame⟩
      · have halone : ∀ j ∈ r.activeOf ids viewer (s.reservation i).property, j = i' := by
          have h := h'.alone i' hi'
          rwa [hproperty, heq] at h
        have hself : i ∈ r.activeOf ids viewer (s.reservation i).property :=
          mem_activeOf.mpr ⟨hk.1, (hkeeps.reservation i).1, by rw [hstate]; simp, by rw [hkeeps.sees]; exact hk.2⟩
        rw [halone j hj, halone i hself]
      · rw [hsame] at hj
        exact h.alone i (by simp) j hj
    · exact h'.alone i hi j (by rwa [hproperty])

theorem activate_activated (hks : ∀ k ∈ ks, k ∈ ids ∧ s.sees viewer k)
    (h : ks.foldlM (fun s k => s.activateOne ids viewer k) s = .ok r) : s.Activated ids viewer ks r := by
  induction ks generalizing s with
  | nil =>
    obtain rfl : s = r := Except.ok.inj h
    exact ⟨⟨Keeps.refl s, by simp, by simp, fun _ _ => rfl, fun _ h => absurd rfl h⟩, by simp⟩
  | cons k ks ih =>
    rw [List.foldlM_cons] at h
    cases hfirst : s.activateOne ids viewer k with
    | error e =>
      rw [hfirst] at h
      cases h
    | ok s' =>
      rw [hfirst] at h
      have hone := activateOne_activated hfirst
      refine hone.cons (hks k (by simp)) (ih (fun i hi => ?_) h)
      rw [hone.sees]
      exact hks i (by simp [hi])

end Db

/-- Every operation that goes through is seen by its user to be done. -/
theorem Op.run_done {ids : List Nat} {op : Op} {s r : Db} (h : op.run ids s = .ok r) :
    (∀ k ∈ op.records ids s, k ∈ ids ∧ s.sees op.viewer k) ∧
      s.Done ids op.viewer op.target (op.records ids s) r := by
  unfold Op.run at h
  split at h
  · rename_i hks
    refine ⟨hks, ?_⟩
    cases op with
    | activate viewer ks => exact (Db.activate_activated hks h).toDone
    | cancel viewer ks =>
      obtain rfl := Except.ok.inj h
      exact (s.cancelAll_moved ks).recompute ids viewer
    | convertToDeal viewer wonStage ks =>
      obtain rfl := Except.ok.inj h
      exact (s.convertAll_moved wonStage ks).recompute ids viewer
    | expire today =>
      obtain rfl := Except.ok.inj h
      exact (s.expireAll_moved _).recompute ids none
  · cases h

end Crm
