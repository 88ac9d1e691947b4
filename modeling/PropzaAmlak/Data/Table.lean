import Mathlib.Algebra.BigOperators.Group.Finset.Basic
import Mathlib.Algebra.Order.BigOperators.Group.Finset

/-! Tables in which every new row gets an id that no row has had before. -/

/-- The rows of ids that are not listed mean nothing. -/
structure Table (α : Type) where
  ids : Finset Nat
  row : Nat → α
  next : Nat
  lt_next : ∀ i ∈ ids, i < next

namespace Table

variable {α β : Type} {t : Table α} {i j : Nat} {a : α} {l : List α} {f : α → α} {p : α → Bool}

def empty (row : Nat → α) : Table α := ⟨∅, row, 0, by simp⟩

def modify (t : Table α) (i : Nat) (f : α → α) : Table α :=
  { t with row := Function.update t.row i (f (t.row i)) }

def insert (t : Table α) (a : α) : Table α where
  ids := Insert.insert t.next t.ids
  row := Function.update t.row t.next a
  next := t.next + 1
  lt_next := by
    intro i hi
    rcases Finset.mem_insert.mp hi with rfl | hi
    · exact Nat.lt_succ_self _
    · exact Nat.lt_succ_of_lt (t.lt_next i hi)

def insertAll (t : Table α) (l : List α) : Table α := l.foldl insert t

def filter (t : Table α) (p : α → Bool) : Table α where
  ids := t.ids.filter fun i => p (t.row i)
  row := t.row
  next := t.next
  lt_next := fun i hi => t.lt_next i (Finset.mem_filter.mp hi).1

/-- The same rows after `f`, under the same ids. -/
def map (t : Table α) (f : α → β) : Table β := ⟨t.ids, f ∘ t.row, t.next, t.lt_next⟩

section

variable {M : Type} [AddCommMonoid M]

def sum (t : Table α) (f : α → M) : M := ∑ i ∈ t.ids, f (t.row i)

end

@[simp] theorem modify_ids : (t.modify i f).ids = t.ids := rfl

@[simp] theorem modify_row_self : (t.modify i f).row i = f (t.row i) := by simp [modify]

theorem modify_row_of_ne (hji : j ≠ i) : (t.modify i f).row j = t.row j := by simp [modify, hji]

theorem modify_row (t : Table α) (i : Nat) (f : α → α) (j : Nat) :
    (t.modify i f).row j = if j = i then f (t.row i) else t.row j := by
  by_cases hji : j = i
  · simp [hji]
  · rw [modify_row_of_ne hji, if_neg hji]

@[simp] theorem modify_modify {g : α → α} : (t.modify i f).modify i g = t.modify i (g ∘ f) := by simp [modify]

theorem modify_congr {g : α → α} (h : f (t.row i) = g (t.row i)) : t.modify i f = t.modify i g := by
  rw [modify, modify, h]

theorem next_notMem (t : Table α) : t.next ∉ t.ids := fun h => lt_irrefl _ (t.lt_next _ h)

theorem insert_row_of_mem (hi : i ∈ t.ids) : (t.insert a).row i = t.row i := by
  have hne : i ≠ t.next := fun h => t.next_notMem (h ▸ hi)
  simp [insert, hne]

@[simp] theorem insert_row_next : (t.insert a).row t.next = a := by simp [insert]

@[simp] theorem mem_insert : i ∈ (t.insert a).ids ↔ i = t.next ∨ i ∈ t.ids := Finset.mem_insert

@[simp] theorem mem_filter : i ∈ (t.filter p).ids ↔ i ∈ t.ids ∧ p (t.row i) := Finset.mem_filter

@[simp] theorem filter_row : (t.filter p).row = t.row := rfl

@[simp] theorem map_ids {g : α → β} : (t.map g).ids = t.ids := rfl

@[simp] theorem map_row {g : α → β} : (t.map g).row i = g (t.row i) := rfl

theorem insertAll_cons : t.insertAll (a :: l) = (t.insert a).insertAll l := rfl

/-- The rows of a grown table are the old ones and, under other ids, the new ones. -/
theorem insertAll_cases {P : Nat → α → Prop} (hold : ∀ i ∈ t.ids, P i (t.row i)) (hnew : ∀ i ∉ t.ids, ∀ a ∈ l, P i a) :
    ∀ i ∈ (t.insertAll l).ids, P i ((t.insertAll l).row i) := by
  induction l generalizing t with
  | nil => exact hold
  | cons a l ih =>
    rw [insertAll_cons]
    apply ih
    · intro i hi
      rcases mem_insert.mp hi with rfl | hi
      · rw [insert_row_next]
        exact hnew _ t.next_notMem a (by simp)
      · rw [insert_row_of_mem hi]
        exact hold i hi
    · intro i hi b hb
      exact hnew i (fun h => hi (mem_insert.mpr (.inr h))) b (by simp [hb])

theorem insertAll_keeps (hi : i ∈ t.ids) : i ∈ (t.insertAll l).ids ∧ (t.insertAll l).row i = t.row i := by
  induction l generalizing t with
  | nil => exact ⟨hi, rfl⟩
  | cons a l ih =>
    obtain ⟨hmem, hrow⟩ := ih (t := t.insert a) (mem_insert.mpr (.inr hi))
    exact ⟨hmem, hrow.trans (insert_row_of_mem hi)⟩

theorem exists_insertAll (h : a ∈ l) : ∃ i ∈ (t.insertAll l).ids, (t.insertAll l).row i = a := by
  induction l generalizing t with
  | nil => simp at h
  | cons b l ih =>
    rw [insertAll_cons]
    rcases List.mem_cons.mp h with rfl | h
    · obtain ⟨hmem, hrow⟩ := insertAll_keeps (t := t.insert a) (l := l) (mem_insert.mpr (.inl rfl))
      exact ⟨t.next, hmem, hrow.trans insert_row_next⟩
    · exact ih h

section

variable {M : Type} [AddCommMonoid M] {g : α → M}

theorem sum_insert : (t.insert a).sum g = g a + t.sum g := by
  have hrest : ∑ i ∈ t.ids, g ((t.insert a).row i) = t.sum g :=
    Finset.sum_congr rfl fun i hi => by rw [insert_row_of_mem hi]
  have hids : (t.insert a).ids = Insert.insert t.next t.ids := rfl
  rw [sum, hids, Finset.sum_insert t.next_notMem, insert_row_next, hrest]

theorem sum_insertAll : (t.insertAll l).sum g = t.sum g + (l.map g).sum := by
  induction l generalizing t with
  | nil => simp [insertAll]
  | cons a l ih => rw [insertAll_cons, ih, sum_insert, List.map_cons, List.sum_cons, add_comm (g a), add_assoc]

theorem sum_congr {t' : Table α} {g' : α → M} (hids : t'.ids = t.ids) (h : ∀ i ∈ t.ids, g' (t'.row i) = g (t.row i)) :
    t'.sum g' = t.sum g := by
  rw [sum, sum, hids]
  exact Finset.sum_congr rfl h

theorem sum_filter : (t.filter p).sum g = t.sum fun a => if p a then g a else 0 := Finset.sum_filter _ _

end

end Table
