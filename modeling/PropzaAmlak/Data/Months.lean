import PropzaAmlak.Data.Calendar
import Mathlib.Tactic.Ring

/-! Adding months to a date as `relativedelta` does: the day is cut down to the
length of the month it lands in. -/

namespace Date

/-- Months are counted through the years. -/
def monthIndex (d : Date) : Nat := d.year * 12 + (d.month - 1)

def daysIn (i : Nat) : Nat := daysInMonth (i / 12) (i % 12 + 1)

theorem daysInMonth_bounds (year month : Nat) : 28 ≤ daysInMonth year month ∧ daysInMonth year month ≤ 31 := by
  unfold daysInMonth
  split
  · split
    all_goals omega
  all_goals omega

theorem daysIn_bounds (i : Nat) : 28 ≤ daysIn i ∧ daysIn i ≤ 31 := daysInMonth_bounds _ _

theorem monthIndex_div (d : Date) : d.monthIndex / 12 = d.year := by
  have hmonth := d.month_le
  unfold monthIndex
  omega

theorem monthIndex_mod (d : Date) : d.monthIndex % 12 + 1 = d.month := by
  have hmonth := d.month_le
  unfold monthIndex
  omega

theorem monthIndex_bounds (d : Date) : 12 ≤ d.monthIndex ∧ d.monthIndex < 120000 := by
  have hyear := d.year_le
  have hmonth := d.month_le
  unfold monthIndex
  omega

theorem day_le_daysIn (d : Date) : d.day ≤ daysIn d.monthIndex := by
  rw [daysIn, monthIndex_div, monthIndex_mod]
  exact d.day_le.2

theorem ext_index {d e : Date} (hindex : d.monthIndex = e.monthIndex) (hday : d.day = e.day) : d = e := by
  have hyear : d.year = e.year := by rw [← monthIndex_div, hindex, monthIndex_div]
  have hmonth : d.month = e.month := by rw [← monthIndex_mod, hindex, monthIndex_mod]
  cases d
  cases e
  simp only at hyear hmonth hday
  subst hyear hmonth hday
  rfl

/-- The day of the month, or the last one if the month is shorter. -/
def inMonth (i day : Nat) (hi : 12 ≤ i ∧ i < 120000) (hday : 1 ≤ day) : Date where
  year := i / 12
  month := i % 12 + 1
  day := min day (daysIn i)
  year_le := by omega
  month_le := by omega
  day_le := by
    have hbounds := daysIn_bounds i
    exact ⟨by omega, Nat.min_le_right _ _⟩

/-- `d + relativedelta(months=n)`, where the year stays in range. -/
def addMonths (d : Date) (n : Int) : Option Date :=
  let i := d.monthIndex + n
  if hi : 12 ≤ i ∧ i < 120000 then some (inMonth i.toNat d.day (by omega) d.day_le.1) else none

theorem inMonth_monthIndex {i day : Nat} {hi : 12 ≤ i ∧ i < 120000} {hday : 1 ≤ day} :
    (inMonth i day hi hday).monthIndex = i := by
  simp only [inMonth, monthIndex]
  omega

theorem addMonths_eq_some {d e : Date} {n : Int} :
    d.addMonths n = some e ↔ (e.monthIndex : Int) = d.monthIndex + n ∧ e.day = min d.day (daysIn e.monthIndex) := by
  constructor
  · intro he
    simp only [addMonths] at he
    split at he
    · simp only [Option.some.injEq] at he
      subst he
      rw [inMonth_monthIndex]
      exact ⟨by omega, rfl⟩
    · cases he
  · rintro ⟨hindex, hday⟩
    have hbounds := e.monthIndex_bounds
    have hi : 12 ≤ d.monthIndex + n ∧ d.monthIndex + n < 120000 := by omega
    simp only [addMonths, hi, and_self, dif_pos, Option.some.injEq]
    have hnat : (d.monthIndex + n).toNat = e.monthIndex := by omega
    apply ext_index
    · rw [inMonth_monthIndex, hnat]
    · simp only [inMonth, hnat, hday]

theorem addMonths_zero (d : Date) : d.addMonths 0 = some d := by
  rw [addMonths_eq_some]
  have hday := d.day_le_daysIn
  exact ⟨by omega, by omega⟩

theorem addMonths_isSome {d : Date} {n : Int} :
    (d.addMonths n).isSome ↔ 12 ≤ d.monthIndex + n ∧ d.monthIndex + n < 120000 := by
  simp only [addMonths]
  split
  all_goals simp [*]

theorem daysBeforeYear_succ {year : Nat} (hyear : 1 ≤ year) :
    daysBeforeYear (year + 1) = daysBeforeYear year + 365 + if isLeap year then 1 else 0 := by
  have hfour : (year + 1 - 1) / 4 = (year - 1) / 4 + if year % 4 = 0 then 1 else 0 := by
    split
    all_goals omega
  have hhundred : (year + 1 - 1) / 100 = (year - 1) / 100 + if year % 100 = 0 then 1 else 0 := by
    split
    all_goals omega
  have hcycle : (year + 1 - 1) / 400 = (year - 1) / 400 + if year % 400 = 0 then 1 else 0 := by
    split
    all_goals omega
  have hle : (year - 1) / 100 ≤ (year - 1) / 4 := Nat.div_le_div_left (by omega) (by omega)
  have hdays : (year + 1 - 1) * 365 = (year - 1) * 365 + 365 := by omega
  simp only [daysBeforeYear, hfour, hhundred, hcycle, hdays, isLeap]
  by_cases h4 : year % 4 = 0
  · by_cases h100 : year % 100 = 0
    · by_cases h400 : year % 400 = 0
      · simp [h4, h100, h400]
        omega
      · simp [h4, h100, h400]
        omega
    · have h400 : year % 400 ≠ 0 := by omega
      simp [h4, h100, h400]
      omega
  · have h100 : year % 100 ≠ 0 := by omega
    have h400 : year % 400 ≠ 0 := by omega
    simp [h4, h100, h400]
    omega

/-- The days before the first of month `i`. -/
def daysBefore (i : Nat) : Nat := daysBeforeYear (i / 12) + daysBeforeMonth (i / 12) (i % 12 + 1)

theorem toordinal_eq (d : Date) : d.toordinal = daysBefore d.monthIndex + d.day := by
  rw [daysBefore, monthIndex_div, monthIndex_mod, toordinal]

theorem daysBeforeMonth_succ {year month : Nat} (hmonth : 1 ≤ month) :
    daysBeforeMonth year (month + 1) = daysBeforeMonth year month + daysInMonth year month := by
  obtain ⟨m, rfl⟩ : ∃ m, month = m + 1 := ⟨month - 1, by omega⟩
  simp [daysBeforeMonth, List.range_succ]

theorem daysBefore_succ {i : Nat} (hi : 12 ≤ i) : daysBefore (i + 1) = daysBefore i + daysIn i := by
  by_cases hlast : i % 12 = 11
  · have hdiv : (i + 1) / 12 = i / 12 + 1 := by omega
    have hmod : (i + 1) % 12 = 0 := by omega
    have hyear := @daysBeforeYear_succ (i / 12) (by omega)
    have hmonths : daysBeforeMonth (i / 12) 12 = 334 + if isLeap (i / 12) then 1 else 0 := by
      cases hleap : isLeap (i / 12)
      all_goals simp [daysBeforeMonth, List.range_succ, daysInMonth, hleap]
    have hfirst : daysBeforeMonth (i / 12 + 1) 1 = 0 := rfl
    have hdecember : daysInMonth (i / 12) 12 = 31 := rfl
    simp only [daysBefore, daysIn, hdiv, hmod, hlast, Nat.reduceAdd]
    omega
  · have hdiv : (i + 1) / 12 = i / 12 := by omega
    have hmod : (i + 1) % 12 = i % 12 + 1 := by omega
    simp only [daysBefore, daysIn, hdiv, hmod]
    rw [daysBeforeMonth_succ (by omega)]
    omega

theorem daysBefore_add_daysIn_le {i j : Nat} (hi : 12 ≤ i) (hij : i < j) :
    daysBefore i + daysIn i ≤ daysBefore j := by
  induction j, hij using Nat.le_induction with
  | base => exact (daysBefore_succ hi).ge
  | succ j hj ih =>
    have hstep := daysBefore_succ (i := j) (by omega)
    omega

instance : LE Date := ⟨fun a b => a.toordinal ≤ b.toordinal⟩

instance (a b : Date) : Decidable (a ≤ b) := inferInstanceAs (Decidable (a.toordinal ≤ b.toordinal))

theorem lt_of_index_lt {d e : Date} (hindex : d.monthIndex < e.monthIndex) : d.toordinal < e.toordinal := by
  have hstep := daysBefore_add_daysIn_le d.monthIndex_bounds.1 hindex
  have hday := d.day_le_daysIn
  have hpos := e.day_le.1
  rw [toordinal_eq, toordinal_eq]
  omega

/-- Dates are ordered by their month and then by their day. -/
theorem le_iff {d e : Date} :
    d ≤ e ↔ d.monthIndex < e.monthIndex ∨ d.monthIndex = e.monthIndex ∧ d.day ≤ e.day := by
  constructor
  · intro (hle : d.toordinal ≤ e.toordinal)
    by_cases hlt : d.monthIndex < e.monthIndex
    · exact .inl hlt
    · by_cases heq : d.monthIndex = e.monthIndex
      · rw [toordinal_eq, toordinal_eq, heq] at hle
        exact .inr ⟨heq, by omega⟩
      · have hgt := lt_of_index_lt (d := e) (e := d) (by omega)
        omega
  · rintro (hlt | ⟨heq, hday⟩)
    · exact (lt_of_index_lt hlt).le
    · have hsame : d.toordinal ≤ e.toordinal := by
        rw [toordinal_eq, toordinal_eq, heq]
        omega
      exact hsame

theorem toordinal_injective {d e : Date} (h : d.toordinal = e.toordinal) : d = e := by
  have hle : d ≤ e := Nat.le_of_eq h
  have hge : e ≤ d := Nat.le_of_eq h.symm
  rw [le_iff] at hle hge
  exact ext_index (by omega) (by omega)

/-- `d - timedelta(days=1)` -/
def yesterday (d : Date) : Option Date :=
  if hday : 1 < d.day then
    some { d with day := d.day - 1, day_le := ⟨by omega, (Nat.sub_le _ _).trans d.day_le.2⟩ }
  else if hindex : 12 < d.monthIndex then
    some (inMonth (d.monthIndex - 1) 31 (by have := d.monthIndex_bounds; omega) (by omega))
  else none

theorem yesterday_toordinal {d e : Date} (he : d.yesterday = some e) : e.toordinal + 1 = d.toordinal := by
  unfold yesterday at he
  split at he
  · simp only [Option.some.injEq] at he
    subst he
    simp only [toordinal]
    omega
  split at he
  · simp only [Option.some.injEq] at he
    subst he
    have hday := d.day_le
    have hstep := daysBefore_succ (i := d.monthIndex - 1) (by omega)
    have hprev : d.monthIndex - 1 + 1 = d.monthIndex := by omega
    have hbounds := daysIn_bounds (d.monthIndex - 1)
    rw [hprev] at hstep
    rw [toordinal_eq, toordinal_eq, inMonth_monthIndex]
    simp only [inMonth]
    omega
  · cases he

end Date
