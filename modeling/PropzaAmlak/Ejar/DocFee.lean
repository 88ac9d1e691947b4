import PropzaAmlak.Data.LeapDays
import PropzaAmlak.Data.Rounding
import PropzaAmlak.Ejar.Lifecycle
import PropzaAmlak.Rental.Schedule

/-! The documentation fee, which `ejar_contract.py` computes from the days of the
contract and `property_tenancy.py` from the duration of the tenancy. -/

namespace Ejar

open Rental

variable {c : Contract} {start stop : Date} {n days : Nat}

/-- `_compute_doc_fee` -/
def Contract.docFee (c : Contract) : Rat :=
  let years := c.durationYears.ceil
  (if years = 0 then 1 else years) * 125

/-- `_compute_ejar_doc_fee` -/
def ejarDocFee (duration : Int) (intervalType : IntervalType) : Rat :=
  match intervalType with
  | .years => (if duration = 0 then 1 else duration) * 125
  | .months => (((if duration = 0 then 12 else duration : Int) : Rat) / 12).ceil * 125

/-- What the fee of a contract over `n` calendar years should be. -/
structure FeePerYear (c : Contract) (n : Nat) : Prop where
  fee : c.docFee = 125 * n
  years : c.docFee = ejarDocFee n .years
  months : c.docFee = ejarDocFee (12 * n) .months
  later : ∀ c' : Contract, ∀ stop stop', c.endDate = some stop → c'.startDate = c.startDate → c'.endDate = some stop' →
    stop ≤ stop' → c.docFee ≤ c'.docFee

theorem ejarDocFee_years (hn : 1 ≤ n) : ejarDocFee n .years = 125 * n := by
  have hne : (n : Int) ≠ 0 := by omega
  simp only [ejarDocFee, hne, if_false]
  push_cast
  ring

theorem ejarDocFee_months (hn : 1 ≤ n) : ejarDocFee (12 * n) .months = 125 * n := by
  have hne : (12 * n : Int) ≠ 0 := by omega
  have hyears : ((12 * n : Int) : Rat) / 12 = ((n : Int) : Rat) := by
    push_cast
    field_simp
  simp only [ejarDocFee, hne, if_false, hyears, Rat.ceil_intCast]
  push_cast
  ring

theorem durationYears_eq (hstart : c.startDate = some start) (hstop : c.endDate = some stop)
    (hdays : stop.toordinal = start.toordinal + days) : c.durationYears = pyRound ((days : Rat) / 365) 4 := by
  have hsub : ((stop.toordinal : Int) - (start.toordinal : Int)) = days := by omega
  rw [Contract.durationYears, hstart, hstop]
  simp only [hsub, Int.cast_natCast]

theorem durationYears_mono {c' : Contract} {stop' : Date} (hstop : c.endDate = some stop)
    (hstart : c'.startDate = c.startDate) (hstop' : c'.endDate = some stop') (hle : stop ≤ stop') :
    c.durationYears ≤ c'.durationYears := by
  rw [Contract.durationYears, Contract.durationYears, hstart, hstop, hstop']
  cases c.startDate with
  | none => exact le_rfl
  | some start =>
    have hdays : (stop.toordinal : Int) - start.toordinal ≤ stop'.toordinal - start.toordinal := by
      have hordinal : stop.toordinal ≤ stop'.toordinal := hle
      omega
    apply pyRound_mono
    gcongr

theorem docFee_mono {c' : Contract} (h : c.durationYears ≤ c'.durationYears) : c.docFee ≤ c'.docFee := by
  have hceil : c.durationYears.ceil ≤ c'.durationYears.ceil := Rat.ceil_le_iff.mpr (h.trans Rat.le_ceil)
  have hyears : (if c.durationYears.ceil = 0 then 1 else c.durationYears.ceil) ≤
      if c'.durationYears.ceil = 0 then 1 else c'.durationYears.ceil := by
    split <;> split <;> omega
  simp only [Contract.docFee]
  gcongr

theorem docFee_iff (hn : 1 ≤ n) (hstart : c.startDate = some start) (hstop : c.endDate = some stop)
    (hdays : stop.toordinal = start.toordinal + (365 * n + days)) : c.docFee = 125 * n ↔ days = 0 := by
  have hyears := durationYears_eq hstart hstop hdays
  constructor
  · intro hfee
    by_contra hpos
    have hlater : ((n : Int) : Rat) < c.durationYears := by
      have hone : (1 : Rat) ≤ days := by exact_mod_cast Nat.one_le_iff_ne_zero.mpr hpos
      have hround := (roundInt_error (((365 * n + days : Nat) : Rat) / 365 * 10 ^ 4)).1
      rw [hyears, pyRound_eq, lt_div_iff₀ (by norm_num)]
      refine lt_of_lt_of_le ?_ hround
      push_cast
      linarith
    have hceil : (n : Int) < c.durationYears.ceil := Rat.lt_ceil_iff.mpr hlater
    have hne : c.durationYears.ceil ≠ 0 := by omega
    have hmore : (n : Rat) < c.durationYears.ceil := by exact_mod_cast hceil
    simp only [Contract.docFee, hne, if_false] at hfee
    linarith
  · rintro rfl
    have hwhole : ((365 * n + 0 : Nat) : Rat) / 365 = ((n : Int) : Rat) := by
      push_cast
      field_simp
      ring
    have hne : (n : Int) ≠ 0 := by omega
    rw [hwhole, pyRound_intCast] at hyears
    simp only [Contract.docFee, hyears, Rat.ceil_intCast, hne, if_false]
    push_cast
    ring

theorem doc_fee_per_year_iff (hn : 1 ≤ n) (hstart : c.startDate = some start) (hstop : c.endDate = some stop)
    (hterm : onchangeEndDate start n .years = some stop ∨ onchangeEndDate start (12 * n) .months = some stop) :
    FeePerYear c n ↔ ∀ d : Date, d.IsLeapDay → start < d → ¬d ≤ stop := by
  have hmonths : start.addMonths (12 * n) = some stop := by
    rcases hterm with h | h
    · exact h
    · exact h
  have hle : start ≤ stop := by
    have hindex := (Date.addMonths_eq_some.mp hmonths).1
    rw [Date.le_iff]
    omega
  obtain ⟨leaps, hsum, hnone⟩ := Date.leapDays_between hle
  have hcommon := Date.commonOrdinal_addMonths hmonths
  have hleaps : stop.toordinal = start.toordinal + (365 * n + leaps) := by omega
  have hfee := docFee_iff hn hstart hstop hleaps
  rw [← hnone, ← hfee]
  constructor
  · intro h
    exact h.fee
  · intro h
    refine ⟨h, by rw [h, ejarDocFee_years hn], by rw [h, ejarDocFee_months hn], ?_⟩
    intro c' early late hearly hsame hlate hle
    exact docFee_mono (durationYears_mono hearly hsame hlate hle)

theorem doc_fee_per_year_2025 : FeePerYear (sampleContract "EJR/2025/0001") 1 ↔
    ∀ d : Date, d.IsLeapDay → Date.january1 < d → ¬d ≤ Date.nextJanuary1 :=
  doc_fee_per_year_iff (by decide) rfl rfl (.inl (by decide))

/-- The year from 1 January 2024 has 366 days and costs 250. -/
theorem doc_fee_leap_year : ¬∀ (c : Contract) (start stop : Date) (n : Nat), 1 ≤ n → c.startDate = some start →
    c.endDate = some stop → onchangeEndDate start n .years = some stop → FeePerYear c n := by
  intro h
  let start : Date := ⟨2024, 1, 1, by decide, by decide, by decide⟩
  let c : Contract := { sampleContract "EJR/2024/0001" with startDate := some start, endDate := some .january1 }
  have hfee := (h c start .january1 1 (by decide) rfl rfl (by decide)).fee
  have hdays : Date.january1.toordinal = start.toordinal + (365 * 1 + 1) := by decide
  exact absurd ((docFee_iff (c := c) (by decide) rfl rfl hdays).mp hfee) (by decide)

end Ejar
