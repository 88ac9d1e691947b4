import Mathlib.Data.List.Basic
import Mathlib.Logic.Function.Basic

/-! Tables of rows addressed by record ids, read in the order of the ids. -/

/-- The rows of ids that are not listed mean nothing. -/
structure Records (α : Type) where
  ids : List Nat
  row : Nat → α

namespace Records

variable {α : Type}

def toList (r : Records α) : List α := r.ids.map r.row

/-- `record.write` on the row of one id. -/
def modify (r : Records α) (i : Nat) (f : α → α) : Records α :=
  ⟨r.ids, Function.update r.row i (f (r.row i))⟩

def ofRows (rows : List α) (default : α) : Records α :=
  ⟨List.range rows.length, fun i => rows.getD i default⟩

@[simp] theorem modify_ids (r : Records α) (i : Nat) (f : α → α) : (r.modify i f).ids = r.ids := rfl

@[simp] theorem modify_row_self (r : Records α) (i : Nat) (f : α → α) :
    (r.modify i f).row i = f (r.row i) := by
  simp [modify]

@[simp] theorem modify_row_of_ne {i j : Nat} (r : Records α) (f : α → α) (hji : j ≠ i) :
    (r.modify i f).row j = r.row j := by
  simp [modify, hji]

theorem mem_toList {r : Records α} {a : α} : a ∈ r.toList ↔ ∃ i ∈ r.ids, r.row i = a := List.mem_map

end Records
