import Mathlib.Algebra.Order.Floor.Ring
import Mathlib.Data.Rat.Floor
import PropzaAmlak.Data.Text

/-! Calendar dates as `datetime.date` counts and prints them, and Python's
`round`. -/

def isLeap (year : Nat) : Bool := year % 4 == 0 && (year % 100 != 0 || year % 400 == 0)

def daysInMonth (year month : Nat) : Nat :=
  match month with
  | 2 => if isLeap year then 29 else 28
  | 4 => 30
  | 6 => 30
  | 9 => 30
  | 11 => 30
  | _ => 31

structure Date where
  year : Nat
  month : Nat
  day : Nat
  year_le : 1 ≤ year ∧ year ≤ 9999
  month_le : 1 ≤ month ∧ month ≤ 12
  day_le : 1 ≤ day ∧ day ≤ daysInMonth year month
deriving DecidableEq

namespace Date

def daysBeforeYear (year : Nat) : Nat :=
  let y := year - 1
  y * 365 + y / 4 - y / 100 + y / 400

def daysBeforeMonth (year month : Nat) : Nat :=
  ((List.range (month - 1)).map fun m => daysInMonth year (m + 1)).sum

/-- `date.toordinal()`: 1 January of year 1 is day 1. -/
def toordinal (d : Date) : Nat :=
  daysBeforeYear d.year + daysBeforeMonth d.year d.month + d.day

/-- `str(d)` -/
def isoformat (d : Date) : String :=
  Text.pad 4 d.year ++ "-" ++ Text.pad 2 d.month ++ "-" ++ Text.pad 2 d.day

theorem isoformat_eq_join (d : Date) : d.isoformat = (String.singleton '-').intercalate
    [Text.pad 4 d.year, Text.pad 2 d.month, Text.pad 2 d.day] := by
  simp [isoformat, String.intercalate_cons_cons, String.intercalate_singleton, String.append_assoc]

theorem isoformat_injective {d e : Date} (h : d.isoformat = e.isoformat) : d = e := by
  have hdash : ∀ {width n}, '-' ∉ (Text.pad width n).toList := fun hmem =>
    absurd (Text.digit_of_mem_pad hmem) (by decide)
  rw [isoformat_eq_join, isoformat_eq_join] at h
  have hparts := Text.join_injective (by simp [hdash]) (by simp [hdash]) (by simp) (by simp) h
  simp only [List.cons.injEq, and_true] at hparts
  obtain ⟨hyear, hmonth, hday⟩ := hparts
  cases d
  cases e
  cases Text.pad_injective hyear
  cases Text.pad_injective hmonth
  cases Text.pad_injective hday
  rfl

theorem colon_notMem_isoformat (d : Date) : ':' ∉ d.isoformat.toList := by
  have hcolon : ∀ {width n}, ':' ∉ (Text.pad width n).toList := fun hmem =>
    absurd (Text.digit_of_mem_pad hmem) (by decide)
  simp [isoformat, hcolon]

instance : LT Date := ⟨fun a b => a.toordinal < b.toordinal⟩

instance (a b : Date) : Decidable (a < b) := inferInstanceAs (Decidable (a.toordinal < b.toordinal))

/-! Days in and after 2025 for samples. -/

def january1 : Date := ⟨2025, 1, 1, by omega, by omega, by decide⟩
def january5 : Date := ⟨2025, 1, 5, by omega, by omega, by decide⟩
def january31 : Date := ⟨2025, 1, 31, by omega, by omega, by decide⟩
def december15 : Date := ⟨2025, 12, 15, by omega, by omega, by decide⟩
def december31 : Date := ⟨2025, 12, 31, by omega, by omega, by decide⟩
def nextJanuary1 : Date := ⟨2026, 1, 1, by omega, by omega, by decide⟩
def nextJanuary2 : Date := ⟨2026, 1, 2, by omega, by omega, by decide⟩

end Date

/-- `round(q, digits)`: to the nearest, ties to the even neighbour. -/
def pyRound (q : Rat) (digits : Nat) : Rat :=
  let scaled := q * 10 ^ digits
  let lower := scaled.floor
  let rest := scaled - lower
  let rounded := if rest < 1 / 2 then lower else if 1 / 2 < rest then lower + 1
    else if lower % 2 = 0 then lower else lower + 1
  rounded / 10 ^ digits
