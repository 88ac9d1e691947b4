import PropzaAmlak.Data.Calendar
import Mathlib.Algebra.Order.Ring.Rat
import Mathlib.Tactic.Tauto

/-! Rows created from dictionaries: the fields a model declares with the keys of
its selections, and the dictionaries a creation refuses. -/

namespace Schema

/-- A value under a key; `rows` are the dictionaries of lines created with the row. -/
inductive Value where
  | text (s : Option String)
  | number (q : ℚ)
  | date (d : Option Date)
  | record (id : Option Nat)
  | boolean (b : Bool)
  | rows (lines : List (List (String × Value)))

abbrev Vals := List (String × Value)

structure Model where
  name : String
  fields : List String
  selections : List (String × List String)

inductive Refusal where
  | invalidField (field model : String)
  | wrongValue (model field value : String)
deriving DecidableEq

def Refusal.message : Refusal → String
  | invalidField field model => "Invalid field '" ++ field ++ "' on model '" ++ model ++ "'"
  | wrongValue model field value => "Wrong value for " ++ model ++ "." ++ field ++ ": '" ++ value ++ "'"

/-- The text of an entry that is none of the keys of its selection. -/
def Model.wrongKey (m : Model) (entry : String × Value) : Option String :=
  match entry.2, m.selections.lookup entry.1 with
  | .text (some s), some keys => if s = "" ∨ s ∈ keys then none else some s
  | _, _ => none

/-- A key that is no field is refused before any value is looked at. -/
def Model.check (m : Model) (vals : Vals) : Except Refusal Unit :=
  match vals.find? (·.1 ∉ m.fields) with
  | some entry => .error (.invalidField entry.1 m.name)
  | none =>
    match vals.findSome? fun entry => (m.wrongKey entry).map (entry.1, ·) with
    | some wrong => .error (.wrongValue m.name wrong.1 wrong.2)
    | none => .ok ()

namespace Vals

variable (vals : Vals) (key : String)

def text : Option String :=
  match vals.lookup key with
  | some (.text s) => s
  | _ => none

def number : ℚ :=
  match vals.lookup key with
  | some (.number q) => q
  | _ => 0

def date : Option Date :=
  match vals.lookup key with
  | some (.date d) => d
  | _ => none

def record : Option Nat :=
  match vals.lookup key with
  | some (.record id) => id
  | _ => none

def boolean : Bool :=
  match vals.lookup key with
  | some (.boolean b) => b
  | _ => false

def rows : List Vals :=
  match vals.lookup key with
  | some (.rows lines) => lines
  | _ => []

/-- The text under the key, read as a member of an enumeration; without the key, its default. -/
def select {α : Type} (read : String → Option α) (default : Option α) : Option α :=
  match vals.lookup key with
  | some (.text s) => s.bind read
  | _ => default

end Vals

section Check

variable {m : Model} {vals before after : Vals} {key : String} {value : Value}

theorem Model.check_eq_ok_iff : m.check vals = .ok () ↔
    (∀ entry ∈ vals, entry.1 ∈ m.fields) ∧ ∀ entry ∈ vals, m.wrongKey entry = none := by
  unfold Model.check
  cases hfield : vals.find? (·.1 ∉ m.fields) with
  | some entry =>
    have hmem := List.mem_of_find?_eq_some hfield
    have hundeclared : entry.1 ∉ m.fields := by simpa using List.find?_some hfield
    simp only [reduceCtorEq, false_iff, not_and]
    intro hall
    exact absurd (hall entry hmem) hundeclared
  | none =>
    have hdeclared : ∀ entry ∈ vals, entry.1 ∈ m.fields := by simpa using hfield
    cases hwrong : vals.findSome? fun entry => (m.wrongKey entry).map (entry.1, ·) with
    | some wrong =>
      obtain ⟨entry, hmem, hentry⟩ := List.exists_of_findSome?_eq_some hwrong
      simp only [reduceCtorEq, false_iff, not_and]
      intro _ hnone
      simp [hnone entry hmem] at hentry
    | none =>
      have hnone : ∀ entry ∈ vals, m.wrongKey entry = none := by simpa using hwrong
      simp only [true_iff]
      exact ⟨hdeclared, hnone⟩

@[simp] theorem Model.check_nil : m.check [] = .ok () := rfl

@[simp] theorem Model.check_cons : m.check ((key, value) :: vals) = .ok () ↔
    (key ∈ m.fields ∧ m.wrongKey (key, value) = none) ∧ m.check vals = .ok () := by
  simp only [Model.check_eq_ok_iff, List.forall_mem_cons]
  tauto

@[simp] theorem Model.check_append : m.check (before ++ after) = .ok () ↔
    m.check before = .ok () ∧ m.check after = .ok () := by
  simp only [Model.check_eq_ok_iff, List.forall_mem_append]
  tauto

@[simp] theorem Model.wrongKey_number {q : ℚ} : m.wrongKey (key, .number q) = none := rfl

@[simp] theorem Model.wrongKey_date {d : Option Date} : m.wrongKey (key, .date d) = none := rfl

@[simp] theorem Model.wrongKey_record {id : Option Nat} : m.wrongKey (key, .record id) = none := rfl

@[simp] theorem Model.wrongKey_rows {lines : List Vals} : m.wrongKey (key, .rows lines) = none := rfl

theorem Model.wrongKey_text {s : Option String} (hkey : m.selections.lookup key = none) :
    m.wrongKey (key, .text s) = none := by
  simp [Model.wrongKey, hkey]

/-- The first key that is no field is the one the refusal names. -/
theorem Model.check_of_undeclared (hbefore : ∀ entry ∈ before, entry.1 ∈ m.fields) (hkey : key ∉ m.fields) :
    m.check (before ++ (key, value) :: after) = .error (.invalidField key m.name) := by
  have hfind : (before ++ (key, value) :: after).find? (·.1 ∉ m.fields) = some (key, value) := by
    rw [List.find?_append, List.find?_eq_none.mpr (by simpa using hbefore), Option.none_or,
      List.find?_cons_of_pos (by simpa using hkey)]
  rw [Model.check, hfind]

end Check

end Schema
