import PropzaAmlak.Rental.Payments
import Mathlib.Tactic.Linarith
import Mathlib.Tactic.NormNum

/-! When the generated schedule is the one the tenancy's terms call for. -/

namespace Rental

inductive IntervalType where
  | months
  | years
deriving DecidableEq

/-- The end date `_onchange_compute_end_date` writes. -/
def onchangeEndDate (startDate : Date) (duration : Int) (intervalType : IntervalType) : Option Date :=
  match intervalType with
  | .years => startDate.addMonths (12 * duration)
  | .months => startDate.addMonths duration

/-- What a renewal reads of the tenancy and its property. -/
structure RenewalTerms where
  endDate : Option Date
  rentAmount : ℚ
  depositAmount : ℚ
  renewalPeriodMonths : Int
  renewalRentIncreasePct : ℚ
  rentFreezeActive : Bool

structure RenewalVals where
  startDate : Date
  endDate : Date
  duration : Int
  intervalType : IntervalType
  rentAmount : ℚ
  depositAmount : ℚ

def renewalEndDate (startDate : Date) (period : Int) : Option Date :=
  (startDate.addMonths period).bind Date.yesterday

/-- `d + timedelta(days=1)` -/
def tomorrow (d : Date) : Option Date :=
  if hday : d.day + 1 ≤ daysInMonth d.year d.month then
    some { d with day := d.day + 1, day_le := ⟨by omega, hday⟩ }
  else
    if hindex : d.monthIndex + 1 < 120000 then
      some (Date.inMonth (d.monthIndex + 1) 1 (by have := d.monthIndex_bounds; omega) (by omega))
    else none

/-- `period_months or self.renewal_period_months or 12` -/
def renewalPeriod (t : RenewalTerms) (periodMonths : Int) : Int :=
  if periodMonths ≠ 0 then periodMonths
  else if t.renewalPeriodMonths ≠ 0 then t.renewalPeriodMonths else 12

def renewalStartDate (t : RenewalTerms) (today : Date) (newStartDate : Option Date) : Option Date :=
  match t.endDate with
  | some endDate => newStartDate.or (tomorrow endDate)
  | none => some today

/-- `_build_renewal_vals`; there is no result where a date leaves the calendar. -/
def buildRenewalVals (t : RenewalTerms) (today : Date) (newRent : Option ℚ) (periodMonths : Int)
    (newStartDate : Option Date) : Option RenewalVals :=
  let duration := renewalPeriod t periodMonths
  let increase := if t.rentFreezeActive then 0 else t.renewalRentIncreasePct
  let rentAmount := newRent.getD (t.rentAmount * (1 + increase / 100))
  (renewalStartDate t today newStartDate).bind fun startDate =>
    (renewalEndDate startDate duration).map fun endDate =>
      { startDate, endDate, duration, intervalType := .months, rentAmount
        depositAmount := t.depositAmount }

theorem buildRenewalVals_endDate {t : RenewalTerms} {today : Date} {newRent : Option ℚ} {periodMonths : Int}
    {newStartDate : Option Date} {vals : RenewalVals}
    (h : buildRenewalVals t today newRent periodMonths newStartDate = some vals) :
    renewalEndDate vals.startDate vals.duration = some vals.endDate := by
  obtain ⟨startDate, -, h⟩ := Option.bind_eq_some_iff.mp h
  obtain ⟨endDate, hend, rfl⟩ := Option.map_eq_some_iff.mp h
  exact hend

/-- The date after `k` additions of the period, each to the date before. -/
def cumulative (s : Date) (period : Nat) : Nat → Option Date
  | 0 => some s
  | k + 1 => (cumulative s period k).bind fun d => d.addMonths period

theorem cumulative_succ' {s : Date} {period k : Nat} :
    cumulative s period (k + 1) = (s.addMonths period).bind fun d => cumulative d period k := by
  induction k with
  | zero =>
    simp only [cumulative, Option.bind_some]
    cases s.addMonths period
    all_goals rfl
  | succ k ih =>
    rw [cumulative, ih]
    cases s.addMonths period
    all_goals simp [cumulative]

theorem cumulative_index {s d : Date} {period k : Nat} (hd : cumulative s period k = some d) :
    d.monthIndex = s.monthIndex + k * period := by
  induction k generalizing d with
  | zero =>
    simp only [cumulative, Option.some.injEq] at hd
    simp [hd]
  | succ k ih =>
    obtain ⟨c, hc, hd⟩ := Option.bind_eq_some_iff.mp hd
    have hindex := (Date.addMonths_eq_some.mp hd).1
    have hc' := ih hc
    rw [Nat.succ_mul]
    omega

theorem cumulative_day_le {s d : Date} {period k : Nat} (hd : cumulative s period k = some d) :
    d.day ≤ s.day := by
  induction k generalizing d with
  | zero =>
    simp only [cumulative, Option.some.injEq] at hd
    simp [hd]
  | succ k ih =>
    obtain ⟨c, hc, hd⟩ := Option.bind_eq_some_iff.mp hd
    have hday := (Date.addMonths_eq_some.mp hd).2
    have hc' := ih hc
    omega

/-- Additions one by one never come out later than one addition of them all. -/
theorem cumulative_le {s d a : Date} {period k : Nat} (hd : cumulative s period k = some d)
    (ha : s.addMonths (k * period : Nat) = some a) : d ≤ a := by
  obtain ⟨hindex, hday⟩ := Date.addMonths_eq_some.mp ha
  have hd' := cumulative_index hd
  have hsame : d.monthIndex = a.monthIndex := by omega
  have hle := cumulative_day_le hd
  have hmonth := d.day_le_daysIn
  rw [Date.le_iff]
  right
  rw [hsame] at hmonth
  omega

/-- No due month is shorter than the next one allows the start day to be. -/
def NoDrift (s : Date) (period count : Nat) : Prop :=
  ∀ k < count, min s.day (Date.daysIn (s.monthIndex + (k + 1) * period)) ≤
    Date.daysIn (s.monthIndex + k * period)

instance (s : Date) (period count : Nat) : Decidable (NoDrift s period count) :=
  inferInstanceAs (Decidable (∀ k < count, min s.day (Date.daysIn (s.monthIndex + (k + 1) * period)) ≤
    Date.daysIn (s.monthIndex + k * period)))

theorem cumulative_eq_iff {s : Date} {period count : Nat} (hlast : (s.addMonths (count * period : Nat)).isSome) :
    (∀ k ≤ count, cumulative s period k = s.addMonths (k * period : Nat)) ↔ NoDrift s period count := by
  have hsome : ∀ k ≤ count, ∃ a, s.addMonths (k * period : Nat) = some a := by
    intro k hk
    rw [Date.addMonths_isSome] at hlast
    have hmul : k * period ≤ count * period := Nat.mul_le_mul_right period hk
    have hbounds := s.monthIndex_bounds
    rw [← Option.isSome_iff_exists, Date.addMonths_isSome]
    omega
  constructor
  · intro heq k hk
    obtain ⟨a, ha⟩ := hsome k (by omega)
    obtain ⟨b, hb⟩ := hsome (k + 1) hk
    have hstep : a.addMonths period = some b := by
      rw [← hb, ← heq (k + 1) hk, cumulative, heq k (by omega), ha]
      rfl
    obtain ⟨haindex, haday⟩ := Date.addMonths_eq_some.mp ha
    obtain ⟨hbindex, hbday⟩ := Date.addMonths_eq_some.mp hb
    have hcut := (Date.addMonths_eq_some.mp hstep).2
    have ha' : a.monthIndex = s.monthIndex + k * period := by omega
    have hb' : b.monthIndex = s.monthIndex + (k + 1) * period := by omega
    rw [ha'] at haday
    rw [hb'] at hbday hcut
    omega
  · intro hdrift k hk
    induction k with
    | zero =>
      have hzero := s.addMonths_zero
      simpa [cumulative] using hzero.symm
    | succ k ih =>
      obtain ⟨a, ha⟩ := hsome k (by omega)
      obtain ⟨b, hb⟩ := hsome (k + 1) hk
      have hk' := hdrift k hk
      obtain ⟨haindex, haday⟩ := Date.addMonths_eq_some.mp ha
      obtain ⟨hbindex, hbday⟩ := Date.addMonths_eq_some.mp hb
      have ha' : a.monthIndex = s.monthIndex + k * period := by omega
      have hb' : b.monthIndex = s.monthIndex + (k + 1) * period := by omega
      rw [cumulative, ih (by omega), ha, hb, Option.bind_some, Date.addMonths_eq_some, hb']
      rw [ha'] at haday
      rw [hb'] at hbday
      rw [Nat.succ_mul] at *
      constructor
      · omega
      · omega

/-- The dates the loop bills when it starts at `s`. -/
def Billed (period : Nat) (endDate : Date) : Date → List Date → Prop
  | s, [] => ¬ s ≤ endDate
  | s, d :: rest => d = s ∧ s ≤ endDate ∧ ∃ next, s.addMonths period = some next ∧
      Billed period endDate next rest

theorem dueDates_eq_some {period : Nat} {hperiod : 0 < period} {endDate s : Date} {dates : List Date} :
    dueDates period hperiod endDate s = some dates ↔ Billed period endDate s dates := by
  induction dates generalizing s with
  | nil =>
    unfold dueDates
    by_cases hle : s ≤ endDate
    · rw [if_pos hle]
      split
      all_goals simp [Billed, hle]
    · simp [Billed, hle]
  | cons d rest ih =>
    unfold dueDates
    by_cases hle : s ≤ endDate
    · rw [if_pos hle]
      split
      · rename_i hnext
        simp [Billed, hnext]
      · rename_i next hnext
        simp only [Option.map_eq_some_iff, List.cons.injEq, Billed, hle, hnext, true_and, Option.some.injEq,
          exists_eq_left']
        constructor
        · rintro ⟨dates, hdates, rfl, rfl⟩
          exact ⟨rfl, ih.mp hdates⟩
        · rintro ⟨rfl, hrest⟩
          exact ⟨rest, ih.mpr hrest, rfl, rfl⟩
    · simp [Billed, hle]

/-- The loop bills the cumulative dates up to the first one after the end. -/
theorem billed_iff {period : Nat} {endDate s : Date} {dates : List Date} :
    Billed period endDate s dates ↔
      (∀ k < dates.length, ∃ d, cumulative s period k = some d ∧ dates[k]? = some d ∧ d ≤ endDate) ∧
      ∃ d, cumulative s period dates.length = some d ∧ ¬ d ≤ endDate := by
  induction dates generalizing s with
  | nil => simp [Billed, cumulative]
  | cons c rest ih =>
    constructor
    · rintro ⟨rfl, hle, next, hnext, hrest⟩
      obtain ⟨hbefore, d, hd, hafter⟩ := ih.mp hrest
      refine ⟨?_, d, by rw [List.length_cons, cumulative_succ', hnext]; exact hd, hafter⟩
      intro k hk
      cases k with
      | zero => exact ⟨c, rfl, rfl, hle⟩
      | succ k =>
        obtain ⟨d, hd, hget, hle⟩ := hbefore k (by simpa using hk)
        exact ⟨d, by rw [cumulative_succ', hnext]; exact hd, by simpa using hget, hle⟩
    · rintro ⟨hbefore, d, hd, hafter⟩
      obtain ⟨d₀, hd₀, hget₀, hle₀⟩ := hbefore 0 (by simp)
      simp only [cumulative, Option.some.injEq, List.getElem?_cons_zero] at hd₀ hget₀
      rw [List.length_cons, cumulative_succ'] at hd
      obtain ⟨next, hnext, hd⟩ := Option.bind_eq_some_iff.mp hd
      refine ⟨hget₀.trans hd₀.symm, hd₀ ▸ hle₀, next, hnext, ih.mpr ⟨?_, d, hd, hafter⟩⟩
      intro k hk
      obtain ⟨d, hd, hget, hle⟩ := hbefore (k + 1) (by simpa using hk)
      rw [cumulative_succ', hnext] at hd
      exact ⟨d, hd, by simpa using hget, hle⟩

section Ends

variable {s e : Date} {period count : Nat}

theorem lt_of_yesterday {a d : Date} (he : a.yesterday = some e) : d ≤ e ↔ d.toordinal < a.toordinal := by
  have hordinal := Date.yesterday_toordinal he
  change d.toordinal ≤ e.toordinal ↔ _
  omega

theorem billed_yesterday_iff (hperiod : 0 < period)
    (hend : (s.addMonths (count * period : Nat)).bind Date.yesterday = some e) :
    (∃ dates, Billed period e s dates ∧
      dates.map some = (List.range count).map fun k : Nat => s.addMonths (k * period : Nat)) ↔
    NoDrift s period count := by
  obtain ⟨a, ha, he⟩ := Option.bind_eq_some_iff.mp hend
  obtain ⟨haindex, haday⟩ := Date.addMonths_eq_some.mp ha
  rw [← cumulative_eq_iff (Option.isSome_of_mem ha)]
  constructor
  · rintro ⟨dates, hbilled, hdates⟩ k hk
    have hlength : dates.length = count := by simpa using congrArg List.length hdates
    obtain ⟨hbefore, d, hd, hafter⟩ := billed_iff.mp hbilled
    rw [hlength] at hbefore hd
    rcases Nat.lt_or_eq_of_le hk with hk | rfl
    · obtain ⟨c, hc, hget, -⟩ := hbefore k hk
      have hsame := congrArg (fun l => l[k]?) hdates
      simp only [List.getElem?_map, hget, List.getElem?_range hk, Option.map_some, Option.some.injEq] at hsame
      rw [hc, hsame]
    · -- the first date left out is on the anchored date: it is not after it, nor before
      have hle := cumulative_le hd ha
      have hindex := cumulative_index hd
      have heq : d = a := by
        rw [lt_of_yesterday he] at hafter
        have hge : a ≤ d := Nat.le_of_not_lt hafter
        rw [Date.le_iff] at hle hge
        exact Date.ext_index (by omega) (by omega)
      rw [hd, ha, heq]
  · intro heq
    have hsome : ∀ k, ∃ d, k ≤ count → s.addMonths (k * period : Nat) = some d := by
      intro k
      by_cases hk : k ≤ count
      · have hmul : k * period ≤ count * period := Nat.mul_le_mul_right period hk
        have hbounds := s.monthIndex_bounds
        have hrange := a.monthIndex_bounds
        obtain ⟨d, hd⟩ := Option.isSome_iff_exists.mp
          (Date.addMonths_isSome (d := s) (n := (k * period : Nat)) |>.mpr (by omega))
        exact ⟨d, fun _ => hd⟩
      · exact ⟨s, fun hle => absurd hle hk⟩
    choose f hf using hsome
    refine ⟨(List.range count).map f, ?_, ?_⟩
    · rw [billed_iff]
      simp only [List.length_map, List.length_range]
      constructor
      · intro k hk
        refine ⟨f k, (heq k hk.le).trans (hf k hk.le), by simp [hk], ?_⟩
        rw [lt_of_yesterday he]
        have hindex := (Date.addMonths_eq_some.mp (hf k hk.le)).1
        have hmul : (k + 1) * period ≤ count * period := Nat.mul_le_mul_right period hk
        rw [Nat.succ_mul] at hmul
        exact Date.lt_of_index_lt (by omega)
      · refine ⟨a, (heq count le_rfl).trans ha, ?_⟩
        rw [lt_of_yesterday he]
        omega
    · rw [List.map_map]
      apply List.map_congr_left
      intro k hk
      exact (hf k (List.mem_range.mp hk).le).symm

/-- With the end a whole number of periods after the start, one period too many
is billed. -/
theorem not_billed_onchange (hend : s.addMonths (count * period : Nat) = some e) :
    ¬ ∃ dates, Billed period e s dates ∧
      dates.map some = (List.range count).map fun k : Nat => s.addMonths (k * period : Nat) := by
  rintro ⟨dates, hbilled, hdates⟩
  have hlength : dates.length = count := by simpa using congrArg List.length hdates
  obtain ⟨-, d, hd, hafter⟩ := billed_iff.mp hbilled
  rw [hlength] at hd
  exact hafter (cumulative_le hd hend)

theorem totalMonths_onchange {n : Nat} (hend : s.addMonths (n : Nat) = some e) : totalMonths s e = n + 1 := by
  obtain ⟨hindex, hday⟩ := Date.addMonths_eq_some.mp hend
  have hmonths : (e.monthIndex : Int) - s.monthIndex = n := by omega
  have hle : s ≤ e := by
    rw [Date.le_iff]
    have hmonth := s.day_le_daysIn
    by_cases hn : n = 0
    · have hsame : e.monthIndex = s.monthIndex := by omega
      rw [hsame] at hday
      omega
    · left
      omega
  have hnot : ¬ e < e := Nat.lt_irrefl _
  simp [totalMonths, hmonths, hend, hle, hnot]

theorem totalMonths_renewal {n : Nat} (hn : 1 ≤ n) (hend : renewalEndDate s n = some e) : totalMonths s e = n := by
  obtain ⟨a, ha, he⟩ := Option.bind_eq_some_iff.mp hend
  have hordinal := Date.yesterday_toordinal he
  obtain ⟨haindex, haday⟩ := Date.addMonths_eq_some.mp ha
  have hsa := Date.lt_of_index_lt (d := s) (e := a) (by omega)
  have hle : s ≤ e := Nat.le_of_lt_succ (by omega)
  have hea : e < a := by
    change e.toordinal < a.toordinal
    omega
  -- the end is in the last month, or on the last day of the month before it
  have hmonth : e.monthIndex = a.monthIndex ∨ e.monthIndex + 1 = a.monthIndex ∧ s.day = 1 := by
    unfold Date.yesterday at he
    split at he
    · simp only [Option.some.injEq] at he
      left
      rw [← he]
      rfl
    split at he
    · simp only [Option.some.injEq] at he
      right
      have hbounds := Date.daysIn_bounds a.monthIndex
      have hpos := s.day_le.1
      rw [← he, Date.inMonth_monthIndex]
      omega
    · cases he
  simp only [totalMonths, hle, if_true]
  rcases hmonth with hsame | ⟨hprev, hfirst⟩
  · have hmonths : (e.monthIndex : Int) - s.monthIndex = n := by omega
    simp [hmonths, ha, hea]
  · have hmonths : (e.monthIndex : Int) - s.monthIndex = n - 1 := by omega
    obtain ⟨b, hb⟩ := Option.isSome_iff_exists.mp
      (Date.addMonths_isSome (d := s) (n := (n : Int) - 1) |>.mpr
        (by have := e.monthIndex_bounds; have := s.monthIndex_bounds; omega))
    obtain ⟨hbindex, hbday⟩ := Date.addMonths_eq_some.mp hb
    have hnot : ¬ e < b := by
      have hbe : b ≤ e := by
        rw [Date.le_iff]
        have hepos := e.day_le.1
        omega
      exact Nat.not_lt.mpr hbe
    simp [hmonths, hb, hnot]

end Ends

/-- The end date comes from the form, for `n` months. -/
def OnchangeEnd (s : Date) (n : Nat) (e : Date) : Prop :=
  onchangeEndDate s n .months = some e ∨
    ∃ years : Nat, n = 12 * years ∧ onchangeEndDate s years .years = some e

/-- The end date comes from a renewal for `n` months. -/
def RenewalEnd (s : Date) (n : Nat) (e : Date) : Prop := renewalEndDate s n = some e

instance (s : Date) (n : Nat) (e : Date) : Decidable (RenewalEnd s n e) :=
  inferInstanceAs (Decidable (renewalEndDate s n = some e))

theorem OnchangeEnd.addMonths {s e : Date} {n : Nat} (h : OnchangeEnd s n e) : s.addMonths n = some e := by
  rcases h with h | ⟨years, rfl, h⟩
  · exact h
  · exact_mod_cast h

/-- The payments the action adds to those it keeps. -/
def Generates (t : Tenancy) (created : List RentPayment) : Prop :=
  ∃ t', t.generatePaymentSchedule = .ok t' ∧
    t'.payments = t.payments.filter (fun p => !p.unpaid) ++ created

/-- `n` months are billed, in periods that begin at whole multiples of the
period after the start. -/
def ScheduleLaw (t : Tenancy) (s : Date) (n : Nat) : Prop :=
  let period := t.schedule.interval.getD n
  ∃ created, Generates t created ∧
    let rents := created.filter fun p => p.paymentType = .rent
    rents.map (fun p => some p.dueDate) =
      (List.range (n / period)).map (fun k : Nat => s.addMonths (k * period : Nat)) ∧
    (rents.map RentPayment.amount).sum = n * t.rentAmount

theorem generates_iff {t : Tenancy} {s e : Date} (hstart : t.startDate = some s) (hend : t.endDate = some e)
    (hrent : t.rentAmount ≠ 0) {created : List RentPayment} :
    Generates t created ↔ (∀ p ∈ t.payments, p.unpaid → ¬ p.invoiced) ∧
      ∃ rent, rentData t s e = .ok rent ∧ created = (depositData t s ++ rent).mapIdx t.newPayment := by
  simp only [Generates, generatePaymentSchedule_eq_ok, hstart, hend, Option.some.injEq]
  constructor
  · rintro ⟨_, ⟨_, _, rent, rfl, rfl, -, hnone, hdata, rfl⟩, hpayments⟩
    simp only [Tenancy.regenerated, Tenancy.create, List.append_cancel_left_eq] at hpayments
    exact ⟨hnone, rent, hdata, hpayments.symm⟩
  · rintro ⟨hnone, rent, hdata, rfl⟩
    exact ⟨_, ⟨s, e, rent, rfl, rfl, hrent, hnone, hdata, rfl⟩, rfl⟩

theorem filter_rent_mapIdx {t : Tenancy} {vals : List PaymentVals} (hvals : ∀ v ∈ vals, v.paymentType = .rent)
    (n : Nat) : (vals.mapIdx fun i v => t.newPayment (i + n) v).filter (fun p => p.paymentType = .rent) =
      vals.mapIdx fun i v => t.newPayment (i + n) v := by
  rw [List.filter_eq_self]
  intro p hp
  obtain ⟨i, hi, rfl⟩ := List.mem_mapIdx.mp hp
  exact decide_eq_true (hvals _ (List.getElem_mem hi))

theorem rents_of_created {t : Tenancy} {s : Date} {rent : List PaymentVals}
    (hrent : ∀ v ∈ rent, v.paymentType = .rent) :
    (((depositData t s ++ rent).mapIdx t.newPayment).filter fun p => p.paymentType = .rent).map
        (fun p => (p.dueDate, p.amount)) = rent.map fun v => (v.dueDate, v.amount) := by
  unfold depositData
  have hmap : ∀ n, (rent.mapIdx fun i v => t.newPayment (i + n) v).map (fun p => (p.dueDate, p.amount)) =
      rent.map fun v => (v.dueDate, v.amount) := by
    intro n
    apply List.ext_getElem
    · simp
    · simp [Tenancy.newPayment]
  by_cases hdeposit : t.depositAmount = 0
  · simp only [hdeposit, if_true, List.nil_append]
    have hkeep := filter_rent_mapIdx (t := t) hrent 0
    simp only [Nat.add_zero] at hkeep
    rw [hkeep]
    exact hmap 0
  · simp only [hdeposit, if_false, List.singleton_append, List.mapIdx_cons, List.filter_cons]
    have hnot : ¬ (t.newPayment 0 ⟨s, t.depositAmount, .deposit⟩).paymentType = .rent := by
      simp [Tenancy.newPayment]
    simp only [hnot, decide_false, Bool.false_eq_true, if_false]
    rw [filter_rent_mapIdx hrent 1]
    exact hmap 1

theorem rentData_rent {t : Tenancy} {s e : Date} {rent : List PaymentVals} (hdata : rentData t s e = .ok rent) :
    ∀ v ∈ rent, v.paymentType = .rent := by
  unfold rentData at hdata
  split at hdata
  · simp only [Except.ok.injEq] at hdata
    simp [← hdata]
  · split at hdata
    · cases hdata
    · simp only [Except.ok.injEq] at hdata
      intro v hv
      rw [← hdata] at hv
      obtain ⟨due, -, rfl⟩ := List.mem_map.mp hv
      rfl

theorem rentData_oneTime {t : Tenancy} (hschedule : t.schedule.interval = none) (s e : Date) :
    rentData t s e = .ok [⟨s, t.rentAmount * totalMonths s e, .rent⟩] := by
  unfold rentData
  split
  · rfl
  · rename_i period hperiod
    rw [hschedule] at hperiod
    cases hperiod

theorem rentData_periodic {t : Tenancy} {period : Nat} (hschedule : t.schedule.interval = some period) {s e : Date}
    {rent : List PaymentVals} : rentData t s e = .ok rent ↔
      ∃ dates, Billed period e s dates ∧ rent = dates.map fun due => ⟨due, period * t.rentAmount, .rent⟩ := by
  have hamount := PaymentSchedule.periodAmount_eq hschedule t.rentAmount
  unfold rentData
  split
  · rename_i hnone
    rw [hschedule] at hnone
    cases hnone
  · rename_i period' hperiod
    obtain rfl : period' = period := Option.some.inj (hperiod.symm.trans hschedule)
    rw [hamount]
    split
    · rename_i hnone
      have hnot : ∀ dates, ¬ Billed period' e s dates := by
        intro dates hbilled
        rw [dueDates_eq_some.mpr hbilled] at hnone
        cases hnone
      simp [hnot]
    · rename_i dates hdates
      have hbilled := dueDates_eq_some.mp hdates
      simp only [Except.ok.injEq]
      constructor
      · rintro rfl
        exact ⟨dates, hbilled, rfl⟩
      · rintro ⟨dates', hbilled', rfl⟩
        have hsame := hdates.symm.trans (dueDates_eq_some.mpr hbilled')
        rw [Option.some.inj hsame]

theorem not_both_ends {s e : Date} {n : Nat} (honchange : OnchangeEnd s n e) : ¬ RenewalEnd s n e := by
  intro hrenewal
  obtain ⟨a, ha, he⟩ := Option.bind_eq_some_iff.mp hrenewal
  have hsame := Option.some.inj (ha.symm.trans honchange.addMonths)
  have hordinal := Date.yesterday_toordinal he
  rw [hsame] at hordinal
  omega

/-- The law for the values the rent payments are created from. -/
def DataLaw (t : Tenancy) (s e : Date) (n : Nat) : Prop :=
  let period := t.schedule.interval.getD n
  ∃ rent, rentData t s e = .ok rent ∧
    rent.map (fun v => some v.dueDate) =
      (List.range (n / period)).map (fun k : Nat => s.addMonths (k * period : Nat)) ∧
    (rent.map PaymentVals.amount).sum = n * t.rentAmount

theorem scheduleLaw_iff_data {t : Tenancy} {s e : Date} {n : Nat} (hstart : t.startDate = some s)
    (hend : t.endDate = some e) (hrent : t.rentAmount ≠ 0) :
    ScheduleLaw t s n ↔ (∀ p ∈ t.payments, p.unpaid → ¬ p.invoiced) ∧ DataLaw t s e n := by
  have hpairs {rent : List PaymentVals} (hdata : rentData t s e = .ok rent) :=
    rents_of_created (t := t) (s := s) (rentData_rent hdata)
  have hdates {rent : List PaymentVals} (hdata : rentData t s e = .ok rent) :=
    congrArg (List.map fun x => some x.1) (hpairs hdata)
  have hamounts {rent : List PaymentVals} (hdata : rentData t s e = .ok rent) :=
    congrArg (List.map Prod.snd) (hpairs hdata)
  simp only [List.map_map, Function.comp_def] at hdates hamounts
  constructor
  · rintro ⟨created, hgenerates, hlaw, hsum⟩
    obtain ⟨hnone, rent, hdata, rfl⟩ := (generates_iff hstart hend hrent).mp hgenerates
    refine ⟨hnone, rent, hdata, (hdates hdata).symm.trans hlaw, ?_⟩
    rw [← hsum]
    exact congrArg List.sum (hamounts hdata).symm
  · rintro ⟨hnone, rent, hdata, hlaw, hsum⟩
    refine ⟨_, (generates_iff hstart hend hrent).mpr ⟨hnone, rent, hdata, rfl⟩,
      (hdates hdata).trans hlaw, ?_⟩
    rw [← hsum]
    exact congrArg List.sum (hamounts hdata)

theorem dataLaw_oneTime {t : Tenancy} {s e : Date} {n : Nat} (hn : 1 ≤ n)
    (hinterval : t.schedule.interval = none) :
    DataLaw t s e n ↔ t.rentAmount * totalMonths s e = n * t.rentAmount := by
  have hone : n / n = 1 := Nat.div_self hn
  have hzero := s.addMonths_zero
  simp [DataLaw, rentData_oneTime hinterval, hinterval, hone, hzero]

theorem dataLaw_periodic {t : Tenancy} {s e : Date} {period count : Nat}
    (hinterval : t.schedule.interval = some period) :
    DataLaw t s e (period * count) ↔ ∃ dates, Billed period e s dates ∧
      dates.map some = (List.range count).map fun k : Nat => s.addMonths (k * period : Nat) := by
  have hcount : period * count / period = count :=
    Nat.mul_div_cancel_left count (PaymentSchedule.interval_pos hinterval)
  simp only [DataLaw, hinterval, Option.getD_some, hcount, rentData_periodic hinterval]
  constructor
  · rintro ⟨rent, ⟨dates, hbilled, rfl⟩, hdates, -⟩
    exact ⟨dates, hbilled, by simpa [Function.comp_def] using hdates⟩
  · rintro ⟨dates, hbilled, hdates⟩
    have hlength : dates.length = count := by simpa using congrArg List.length hdates
    refine ⟨_, ⟨dates, hbilled, rfl⟩, by simpa [Function.comp_def] using hdates, ?_⟩
    simp only [List.map_map, Function.comp_def, List.map_const', List.sum_replicate, hlength, nsmul_eq_mul]
    push_cast
    ring

theorem schedule_law_iff {t : Tenancy} {s e : Date} {n : Nat} (hstart : t.startDate = some s)
    (hend : t.endDate = some e) (hn : 1 ≤ n) (hrent : 0 < t.rentAmount)
    (hdivides : ∀ period, t.schedule.interval = some period → period ∣ n)
    (hproduced : OnchangeEnd s n e ∨ RenewalEnd s n e) :
    ScheduleLaw t s n ↔
      (∀ p ∈ t.payments, p.unpaid → ¬ p.invoiced) ∧ RenewalEnd s n e ∧
      ∀ period, t.schedule.interval = some period → NoDrift s period (n / period) := by
  rw [scheduleLaw_iff_data hstart hend hrent.ne']
  apply and_congr_right
  intro _
  cases hinterval : t.schedule.interval with
  | none =>
    rw [dataLaw_oneTime hn hinterval]
    rcases hproduced with honchange | hrenewal
    · have hmonths := totalMonths_onchange honchange.addMonths
      have hnot : ¬ t.rentAmount * totalMonths s e = n * t.rentAmount := by
        rw [hmonths]
        push_cast
        intro heq
        have hzero : t.rentAmount = 0 := by linarith
        exact hrent.ne' hzero
      exact iff_of_false hnot (fun h => not_both_ends honchange h.1)
    · have hmonths := totalMonths_renewal hn hrenewal
      refine iff_of_true ?_ ⟨hrenewal, by simp⟩
      rw [hmonths]
      push_cast
      ring
  | some period =>
    obtain ⟨count, rfl⟩ := hdivides period hinterval
    have hpos := PaymentSchedule.interval_pos hinterval
    have hcount : period * count / period = count := Nat.mul_div_cancel_left count hpos
    rw [dataLaw_periodic hinterval]
    rcases hproduced with honchange | hrenewal
    · have hends : s.addMonths (count * period : Nat) = some e := by
        rw [Nat.mul_comm]
        exact honchange.addMonths
      exact iff_of_false (not_billed_onchange hends) (fun h => not_both_ends honchange h.1)
    · have hends : (s.addMonths (count * period : Nat)).bind Date.yesterday = some e := by
        rw [Nat.mul_comm]
        exact hrenewal
      rw [billed_yesterday_iff hpos hends]
      simp [hrenewal, hcount]

def newYear (year : Nat) (hyear : 1 ≤ year ∧ year ≤ 9999) : Date :=
  ⟨year, 1, 1, hyear, by omega, ⟨le_rfl, by simp [daysInMonth]⟩⟩

def newYearsEve (year : Nat) (hyear : 1 ≤ year ∧ year ≤ 9999) : Date :=
  ⟨year, 12, 31, hyear, by omega, ⟨by omega, by simp [daysInMonth]⟩⟩

theorem year_2025 : 1 ≤ 2025 ∧ 2025 ≤ 9999 := by omega

/-- A thousand a month from 1 January 2025. -/
def monthlyTenancy (endDate : Date) : Tenancy where
  startDate := some (newYear 2025 year_2025)
  endDate := some endDate
  rentAmount := 1000
  depositAmount := 2000
  paymentSchedule := some .monthly
  cycleState := .draft
  payments := []
  nextId := 1
  nextNumber := 1
  sequence := fun n => "RENT/" ++ toString n

theorem schedule_law_iff_renewal :
    ScheduleLaw (monthlyTenancy (newYearsEve 2025 year_2025)) (newYear 2025 year_2025) 12 := by
  refine (schedule_law_iff (e := newYearsEve 2025 year_2025) rfl rfl (by omega)
    (by norm_num [monthlyTenancy]) ?_ (.inr (by decide))).mpr ⟨by simp [monthlyTenancy], by decide, ?_⟩
  · intro period _
    simp_all [Tenancy.schedule, monthlyTenancy, PaymentSchedule.interval]
  · intro period hperiod
    simp only [Tenancy.schedule, monthlyTenancy, Option.getD_some, PaymentSchedule.interval,
      Option.some.injEq] at hperiod
    subst hperiod
    decide

/-- Twelve months from 1 January 2025 are billed thirteen times. -/
theorem schedule_law_fails : ¬ ∀ (t : Tenancy) (s e : Date) (n : Nat), t.startDate = some s → t.endDate = some e →
    1 ≤ n → 0 < t.rentAmount → (∀ period, t.schedule.interval = some period → period ∣ n) →
    OnchangeEnd s n e ∨ RenewalEnd s n e → ScheduleLaw t s n := by
  intro hall
  have hends : (newYear 2025 year_2025).addMonths (12 * 1 : Nat) = some (newYear 2026 (by omega)) := by decide
  have honchange : OnchangeEnd (newYear 2025 year_2025) (1 * 12) (newYear 2026 (by omega)) := .inl (by decide)
  have hinterval : (monthlyTenancy (newYear 2026 (by omega))).schedule.interval = some 1 := rfl
  have hlaw := hall (monthlyTenancy (newYear 2026 (by omega))) (newYear 2025 year_2025)
    (newYear 2026 (by omega)) (1 * 12) rfl rfl (by omega) (by norm_num [monthlyTenancy]) (by simp [hinterval])
    (.inl honchange)
  rw [scheduleLaw_iff_data rfl rfl (by norm_num [monthlyTenancy]), dataLaw_periodic hinterval] at hlaw
  exact not_billed_onchange hends hlaw.2

end Rental
