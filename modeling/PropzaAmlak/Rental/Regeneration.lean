import PropzaAmlak.Rental.Schedule
import Mathlib.Data.List.Nodup

/-! Generating the schedule again, over payments that are partly settled. -/

namespace Rental

/-- `d` is a due date under the tenancy's present terms. -/
def Due (t : Tenancy) (d : Date) : Prop :=
  ∃ s e, t.startDate = some s ∧ t.endDate = some e ∧
    match t.schedule.interval with
    | none => d = s
    | some period => ∃ k, cumulative s period k = some d ∧ d ≤ e

def RentPayment.billsRent (p : RentPayment) (d : Date) : Bool :=
  p.state ≠ .cancelled && p.paymentType = .rent && p.dueDate = d

def RentPayment.billsDeposit (p : RentPayment) : Bool :=
  p.state ≠ .cancelled && p.paymentType = .deposit

/-- A payment but for its id and its number. -/
def RentPayment.content (p : RentPayment) : RentPayment := { p with id := 0, name := "" }

/-- What a regeneration that succeeds should leave. -/
structure BillsOnce (t t' : Tenancy) : Prop where
  rent : ∀ d, Due t d → (t'.payments.filter fun p => p.billsRent d).length = 1
  deposit : (t'.payments.filter RentPayment.billsDeposit).length ≤ 1
  money : ∀ p ∈ t.payments, p ∈ t'.payments ∨ p.amountPaid = 0
  again : ∃ t'', t'.generatePaymentSchedule = .ok t'' ∧
    t''.payments.map RentPayment.content = t'.payments.map RentPayment.content

/-- The action does not raise. -/
def Accepted (t : Tenancy) : Prop :=
  t.rentAmount ≠ 0 ∧ (∀ p ∈ t.payments, p.unpaid → ¬ p.invoiced) ∧
    ∃ s e, t.startDate = some s ∧ t.endDate = some e ∧
      ∀ period, t.schedule.interval = some period → ∃ k d, cumulative s period k = some d ∧ ¬ d ≤ e

/-- Nothing settled is billed by the present terms, and nothing unpaid holds money. -/
structure Unsettled (t : Tenancy) : Prop where
  rent : ∀ p ∈ t.payments, ¬ p.unpaid → ∀ d, Due t d → ¬ p.billsRent d
  deposit : (t.payments.filter fun p => !p.unpaid && p.billsDeposit).length +
    (if t.depositAmount = 0 then 0 else 1) ≤ 1
  money : ∀ p ∈ t.payments, p.unpaid → p.amountPaid = 0

theorem billed_mem_iff {s e d : Date} {period : Nat} (hperiod : 0 < period) {dates : List Date}
    (hbilled : Billed period e s dates) : d ∈ dates ↔ ∃ k, cumulative s period k = some d ∧ d ≤ e := by
  obtain ⟨hbefore, last, hlast, hafter⟩ := billed_iff.mp hbilled
  constructor
  · intro hd
    obtain ⟨k, hk⟩ := List.mem_iff_getElem?.mp hd
    obtain ⟨hlt, -⟩ := List.getElem?_eq_some_iff.mp hk
    obtain ⟨c, hc, hget, hle⟩ := hbefore k hlt
    obtain rfl := Option.some.inj (hk.symm.trans hget)
    exact ⟨k, hc, hle⟩
  · rintro ⟨k, hd, hle⟩
    rcases Nat.lt_trichotomy k dates.length with hk | rfl | hk
    · obtain ⟨c, hc, hget, -⟩ := hbefore k hk
      obtain rfl := Option.some.inj (hd.symm.trans hc)
      exact List.mem_of_getElem? hget
    · obtain rfl := Option.some.inj (hd.symm.trans hlast)
      exact absurd hle hafter
    · -- a later date than the first one after the end
      have hdindex := cumulative_index hd
      have hlindex := cumulative_index hlast
      have hmul : (dates.length + 1) * period ≤ k * period := Nat.mul_le_mul_right period hk
      rw [Nat.succ_mul] at hmul
      have hlt := Date.lt_of_index_lt (d := last) (e := d) (by omega)
      exact absurd (hlt.le.trans hle) hafter

theorem billed_exists {s e d : Date} {period k : Nat} (hd : cumulative s period k = some d) (hafter : ¬ d ≤ e) :
    ∃ dates, Billed period e s dates := by
  induction k generalizing s with
  | zero =>
    simp only [cumulative, Option.some.injEq] at hd
    exact ⟨[], by rwa [Billed, hd]⟩
  | succ k ih =>
    by_cases hle : s ≤ e
    · rw [cumulative_succ'] at hd
      obtain ⟨next, hnext, hd⟩ := Option.bind_eq_some_iff.mp hd
      obtain ⟨dates, hbilled⟩ := ih hd
      exact ⟨s :: dates, rfl, hle, next, hnext, hbilled⟩
    · exact ⟨[], hle⟩

theorem billed_nodup {s e : Date} {period : Nat} (hperiod : 0 < period) {dates : List Date}
    (hbilled : Billed period e s dates) : dates.Nodup := by
  obtain ⟨hbefore, -⟩ := billed_iff.mp hbilled
  have hindex : dates.map Date.monthIndex =
      (List.range dates.length).map fun k => s.monthIndex + k * period := by
    apply List.ext_getElem
    · simp
    · intro k hk _
      have hlt : k < dates.length := by simpa using hk
      obtain ⟨d, hd, hget, -⟩ := hbefore k hlt
      rw [List.getElem?_eq_getElem hlt, Option.some.injEq] at hget
      simp [hget, cumulative_index hd]
  have hmap : (dates.map Date.monthIndex).Nodup := by
    rw [hindex]
    apply List.Nodup.map _ List.nodup_range
    intro j k hjk
    have hmul : j * period = k * period := by simpa using hjk
    exact Nat.eq_of_mul_eq_mul_right hperiod hmul
  exact List.Nodup.of_map _ hmap

theorem rentData_dates {t : Tenancy} {s e : Date} {rent : List PaymentVals} (hstart : t.startDate = some s)
    (hend : t.endDate = some e) (hdata : rentData t s e = .ok rent) :
    (rent.map PaymentVals.dueDate).Nodup ∧ ∀ d, d ∈ rent.map PaymentVals.dueDate ↔ Due t d := by
  simp only [Due, hstart, hend, Option.some.injEq, exists_eq_left', exists_and_left]
  cases hinterval : t.schedule.interval with
  | none =>
    rw [rentData_oneTime hinterval, Except.ok.injEq] at hdata
    simp [← hdata]
  | some period =>
    have hpos := PaymentSchedule.interval_pos hinterval
    obtain ⟨dates, hbilled, rfl⟩ := (rentData_periodic hinterval).mp hdata
    have hdates : (dates.map fun due => (⟨due, period * t.rentAmount, .rent⟩ : PaymentVals)).map
        PaymentVals.dueDate = dates := by simp [Function.comp_def]
    rw [hdates]
    exact ⟨billed_nodup hpos hbilled, fun d => billed_mem_iff hpos hbilled⟩

theorem generates_of_accepted {t : Tenancy} :
    Accepted t ↔ ∃ t', t.generatePaymentSchedule = .ok t' := by
  constructor
  · rintro ⟨hrent, hnone, s, e, hstart, hend, hlast⟩
    have hdata : ∃ rent, rentData t s e = .ok rent := by
      cases hinterval : t.schedule.interval with
      | none => exact ⟨_, rentData_oneTime hinterval s e⟩
      | some period =>
        obtain ⟨k, d, hd, hafter⟩ := hlast period hinterval
        obtain ⟨dates, hbilled⟩ := billed_exists hd hafter
        exact ⟨_, (rentData_periodic hinterval).mpr ⟨dates, hbilled, rfl⟩⟩
    obtain ⟨rent, hdata⟩ := hdata
    exact ⟨_, generatePaymentSchedule_eq_ok.mpr ⟨s, e, rent, hstart, hend, hrent, hnone, hdata, rfl⟩⟩
  · rintro ⟨t', h⟩
    obtain ⟨s, e, rent, hstart, hend, hrent, hnone, hdata, -⟩ := generatePaymentSchedule_eq_ok.mp h
    refine ⟨hrent, hnone, s, e, hstart, hend, ?_⟩
    intro period hinterval
    obtain ⟨dates, hbilled, -⟩ := (rentData_periodic hinterval).mp hdata
    obtain ⟨-, d, hd, hafter⟩ := billed_iff.mp hbilled
    exact ⟨_, d, hd, hafter⟩

section Created

variable {t : Tenancy} {s e : Date} {rent : List PaymentVals}

/-- The payments the regeneration adds. -/
def added (t : Tenancy) (s : Date) (rent : List PaymentVals) : List RentPayment :=
  (depositData t s ++ rent).mapIdx t.newPayment

theorem regenerated_payments :
    (t.regenerated s rent).payments = t.payments.filter (fun p => !p.unpaid) ++ added t s rent := rfl

theorem added_fresh {p : RentPayment} (hp : p ∈ added t s rent) :
    p.state = .pending ∧ p.amountPaid = 0 ∧ p.move = none := by
  obtain ⟨i, hi, rfl⟩ := List.mem_mapIdx.mp hp
  exact ⟨rfl, rfl, rfl⟩

theorem count_rent (hstart : t.startDate = some s) (hend : t.endDate = some e)
    (hdata : rentData t s e = .ok rent) {d : Date} (hd : Due t d) :
    ((added t s rent).filter fun p => p.billsRent d).length = 1 := by
  obtain ⟨hnodup, hdue⟩ := rentData_dates hstart hend hdata
  have hbills : (added t s rent).filter (fun p => p.billsRent d) =
      ((added t s rent).filter fun p => p.paymentType = .rent).filter fun p => p.dueDate = d := by
    rw [List.filter_filter]
    apply List.filter_congr
    intro p hp
    have hstate := (added_fresh hp).1
    simp [RentPayment.billsRent, hstate, Bool.and_comm]
  have hpairs := rents_of_created (t := t) (s := s) (rentData_rent hdata)
  have hdates := congrArg (List.map Prod.fst) hpairs
  simp only [List.map_map, Function.comp_def] at hdates
  rw [hbills, ← List.countP_eq_length_filter]
  calc (((added t s rent).filter fun p => p.paymentType = .rent).countP fun p => p.dueDate = d)
      = (((added t s rent).filter fun p => p.paymentType = .rent).map RentPayment.dueDate).count d := by
        rw [List.count, List.countP_map]
        rfl
    _ = (rent.map PaymentVals.dueDate).count d := congrArg (List.count d) hdates
    _ = 1 := List.count_eq_one_of_mem hnodup ((hdue d).mpr hd)

theorem count_deposit (hrent : ∀ v ∈ rent, v.paymentType = .rent) :
    ((added t s rent).filter RentPayment.billsDeposit).length = if t.depositAmount = 0 then 0 else 1 := by
  have hnone (n : Nat) : (rent.mapIdx fun i v => t.newPayment (i + n) v).filter RentPayment.billsDeposit = [] := by
    rw [List.filter_eq_nil_iff]
    intro p hp
    obtain ⟨i, hi, rfl⟩ := List.mem_mapIdx.mp hp
    simp [RentPayment.billsDeposit, Tenancy.newPayment, hrent _ (List.getElem_mem hi)]
  unfold added depositData
  by_cases hdeposit : t.depositAmount = 0
  · have hrest := hnone 0
    simp only [Nat.add_zero] at hrest
    simp only [hdeposit, if_true, List.nil_append]
    rw [hrest]
    rfl
  · have hrest := hnone 1
    simp only [hdeposit, if_false, List.singleton_append, List.mapIdx_cons, List.filter_cons]
    rw [hrest]
    rfl

theorem regenerated_again (hstart : t.startDate = some s) (hend : t.endDate = some e) (hrent : t.rentAmount ≠ 0)
    (hdata : rentData t s e = .ok rent) : ∃ t'', (t.regenerated s rent).generatePaymentSchedule = .ok t'' ∧
      t''.payments.map RentPayment.content = (t.regenerated s rent).payments.map RentPayment.content := by
  have hunpaid : ∀ p ∈ added t s rent, p.unpaid := by
    intro p hp
    simp [RentPayment.unpaid, (added_fresh hp).1]
  have hnone : ∀ p ∈ (t.regenerated s rent).payments, p.unpaid → ¬ p.invoiced := by
    intro p hp hunpaid'
    rw [regenerated_payments] at hp
    rcases List.mem_append.mp hp with hp | hp
    · have hkept := (List.mem_filter.mp hp).2
      simp [hunpaid'] at hkept
    · simp [RentPayment.invoiced, (added_fresh hp).2.2]
  have hkept : (t.regenerated s rent).payments.filter (fun p => !p.unpaid) =
      t.payments.filter fun p => !p.unpaid := by
    rw [regenerated_payments, List.filter_append, List.filter_filter]
    have hgone : (added t s rent).filter (fun p => !p.unpaid) = [] := by
      rw [List.filter_eq_nil_iff]
      intro p hp
      simp [hunpaid p hp]
    simp [hgone]
  refine ⟨_, generatePaymentSchedule_eq_ok.mpr ⟨s, e, rent, hstart, hend, hrent, hnone, hdata, rfl⟩, ?_⟩
  rw [regenerated_payments, hkept, regenerated_payments, List.map_append, List.map_append]
  congr 1
  apply List.ext_getElem
  · simp [added, depositData, Tenancy.regenerated, Tenancy.create]
  · intro i hi hi'
    simp [added, depositData, Tenancy.regenerated, Tenancy.create, Tenancy.newPayment, RentPayment.content]

end Created

theorem BillsOnce.unsettled {t t' : Tenancy} (honce : BillsOnce t t')
    (h : t.generatePaymentSchedule = .ok t') : Unsettled t := by
  obtain ⟨s, e, rent, hstart, hend, -, -, hdata, rfl⟩ := generatePaymentSchedule_eq_ok.mp h
  constructor
  · intro p hp hunpaid d hd hbills
    have hcount := honce.rent d hd
    rw [regenerated_payments, List.filter_append, List.length_append, count_rent hstart hend hdata hd] at hcount
    have hmem : p ∈ (t.payments.filter fun p => !p.unpaid).filter fun p => p.billsRent d := by
      simp [hp, hunpaid, hbills]
    have hpos := List.length_pos_of_mem hmem
    omega
  · have hcount := honce.deposit
    rw [regenerated_payments, List.filter_append, List.length_append,
      count_deposit (rentData_rent hdata), List.filter_filter] at hcount
    simpa [Bool.and_comm] using hcount
  · intro p hp hunpaid
    rcases honce.money p hp with hkept | hzero
    · rw [regenerated_payments] at hkept
      rcases List.mem_append.mp hkept with hkept | hadded
      · have hnot := (List.mem_filter.mp hkept).2
        simp [hunpaid] at hnot
      · exact (added_fresh hadded).2.1
    · exact hzero

theorem Unsettled.billsOnce {t t' : Tenancy} (hunsettled : Unsettled t)
    (h : t.generatePaymentSchedule = .ok t') : BillsOnce t t' := by
  obtain ⟨s, e, rent, hstart, hend, hrent, -, hdata, rfl⟩ := generatePaymentSchedule_eq_ok.mp h
  constructor
  · intro d hd
    have hkept : (t.payments.filter fun p => !p.unpaid).filter (fun p => p.billsRent d) = [] := by
      rw [List.filter_eq_nil_iff]
      intro p hp
      obtain ⟨hp, hunpaid⟩ := List.mem_filter.mp hp
      exact hunsettled.rent p hp (by simpa using hunpaid) d hd
    rw [regenerated_payments, List.filter_append, hkept, List.nil_append]
    exact count_rent hstart hend hdata hd
  · have hdeposit := hunsettled.deposit
    rw [regenerated_payments, List.filter_append, List.length_append,
      count_deposit (rentData_rent hdata), List.filter_filter]
    simpa [Bool.and_comm] using hdeposit
  · intro p hp
    by_cases hunpaid : p.unpaid
    · exact .inr (hunsettled.money p hp hunpaid)
    · left
      rw [regenerated_payments]
      exact List.mem_append_left _ (List.mem_filter.mpr ⟨hp, by simpa using hunpaid⟩)
  · exact regenerated_again hstart hend hrent hdata

theorem bills_once_iff (t : Tenancy) :
    (∀ t', t.generatePaymentSchedule = .ok t' → BillsOnce t t') ↔ (Accepted t → Unsettled t) := by
  rw [generates_of_accepted]
  constructor
  · rintro hall ⟨t', h⟩
    exact (hall t' h).unsettled h
  · intro hclean t' h
    exact (hclean ⟨t', h⟩).billsOnce h

/-- One month from 1 January 2025, half of which is paid before the schedule is
generated again. -/
def january : Tenancy :=
  monthlyTenancy .january31

def half : PaymentWizard where
  amountPaid := 500
  paymentDate := newYear 2025 year_2025
  paymentMethod := .cash
  reference := none
  createInvoice := false
  invoicing := .failed ""

def januaryRent : List PaymentVals := [⟨newYear 2025 year_2025, 1000, .rent⟩]

theorem rentData_january {t : Tenancy} (hschedule : t.paymentSchedule = some .monthly) (hrent : t.rentAmount = 1000) :
    rentData t (newYear 2025 year_2025) .january31 =
      .ok januaryRent := by
  have hinterval : t.schedule.interval = some 1 := by
    rw [Tenancy.schedule, hschedule]
    rfl
  rw [rentData_periodic hinterval]
  refine ⟨[newYear 2025 year_2025], ⟨rfl, by decide, ?_⟩, by simp [januaryRent, hrent]⟩
  refine ⟨⟨2025, 2, 1, by omega, by omega, by decide⟩, by decide, ?_⟩
  rw [Billed]
  decide

theorem january_generates :
    january.generatePaymentSchedule = .ok (january.regenerated (newYear 2025 year_2025) januaryRent) :=
  generatePaymentSchedule_eq_ok.mpr ⟨_, _, _, rfl, rfl, by norm_num [january, monthlyTenancy],
    by simp [january, monthlyTenancy], rentData_january rfl rfl, rfl⟩

theorem january_after : ∃ t, january.after [.generate, .register 2 half] = t ∧
    t.startDate = january.startDate ∧ t.endDate = january.endDate ∧ t.rentAmount = 1000 ∧
    t.paymentSchedule = some .monthly ∧ (∀ p ∈ t.payments, p.unpaid → ¬ p.invoiced) ∧
    ∃ p ∈ t.payments, ¬ p.unpaid ∧ p.billsRent (newYear 2025 year_2025) := by
  refine ⟨_, rfl, ?_⟩
  simp only [Tenancy.after, List.foldl_cons, List.foldl_nil, Tenancy.act, january_generates,
    Except.toOption, Option.getD_some]
  decide +kernel

theorem bills_twice : ¬ ∀ (t : Tenancy) (actions : List Tenancy.Action), t.payments = [] →
    ∀ t', (t.after actions).generatePaymentSchedule = .ok t' → BillsOnce (t.after actions) t' := by
  intro hall
  obtain ⟨t, ht, hstart, hend, hrent, hschedule, hnone, p, hp, hunpaid, hbills⟩ := january_after
  have hdata := rentData_january hschedule hrent
  have hgenerates := generatePaymentSchedule_eq_ok.mpr
    ⟨_, _, _, hstart, hend, by norm_num [hrent], hnone, hdata, rfl⟩
  have honce := hall january [.generate, .register 2 half] rfl _ (by rw [ht]; exact hgenerates)
  rw [ht] at honce
  have hdue : Due t (newYear 2025 year_2025) := by
    have hdates := (rentData_dates hstart hend hdata).2 (newYear 2025 year_2025)
    exact hdates.mp (by simp [januaryRent])
  exact (honce.unsettled hgenerates).rent p hp hunpaid _ hdue hbills

end Rental
