import PropzaAmlak.Rental.PaymentStates

/-! The stored `days_overdue` and `penalty_amount` of a rent payment. They are
computed again when what they are declared to depend on changes; the clock is not
among it. -/

namespace Rental

/-- `_compute_days_overdue` -/
def RentPayment.computeDaysOverdue (p : RentPayment) (today : Date) : Int :=
  if (p.state = .pending ∨ p.state = .partly) ∧ p.dueDate < today then today.toordinal - p.dueDate.toordinal else 0

/-- `_compute_penalty` -/
def computePenalty (amount : ℚ) (daysOverdue : Int) : ℚ :=
  if 0 < daysOverdue then amount * (2 / 100 / 30) * daysOverdue else 0

/-- A rent payment with its stored fields and the date. -/
structure Arrears where
  payment : RentPayment
  daysOverdue : Int
  penaltyAmount : ℚ
  today : Date

namespace Arrears

/-- A write of the payment, and the stored fields it makes the ORM compute again. -/
def write (s : Arrears) (payment : RentPayment) : Arrears :=
  let daysOverdue :=
    if payment.state = s.payment.state ∧ payment.dueDate = s.payment.dueDate then s.daysOverdue
    else payment.computeDaysOverdue s.today
  let penaltyAmount :=
    if payment.amount = s.payment.amount ∧ daysOverdue = s.daysOverdue then s.penaltyAmount
    else computePenalty payment.amount daysOverdue
  { s with payment, daysOverdue, penaltyAmount }

inductive Action where
  | newDay (date : Date)
  | markOverdue
  | register (wizard : PaymentWizard)

def act (s : Arrears) : Action → Arrears
  | .newDay date => if s.today < date then { s with today := date } else s
  | .markOverdue => s.write (s.payment.markOverdue s.today)
  | .register wizard => s.write ((s.payment.register wizard).toOption.getD s.payment)

/-- The payment has just been created. -/
structure New (s : Arrears) : Prop where
  daysOverdue : s.daysOverdue = s.payment.computeDaysOverdue s.today
  penaltyAmount : s.penaltyAmount = computePenalty s.payment.amount s.daysOverdue

/-- An unpaid payment past its due date is charged for each day since. -/
def Charged (s : Arrears) : Prop :=
  s.payment.state ≠ .paid → s.payment.state ≠ .cancelled → s.payment.dueDate < s.today →
    s.daysOverdue = s.today.toordinal - s.payment.dueDate.toordinal ∧
      s.penaltyAmount = s.payment.amount * (2 / 100) / 30 * (s.today.toordinal - s.payment.dueDate.toordinal : Int)

/-- Marking the payment overdue does not lower its penalty. -/
def NotLowered (s : Arrears) (action : Action) : Prop :=
  action = .markOverdue → s.penaltyAmount ≤ (s.act action).penaltyAmount

/-- The last action, or the creation where there is none, has set the state. -/
def Sets (s : Arrears) (actions : List Action) : Prop :=
  actions = [] ∨ ∃ before a, actions = before ++ [a] ∧
    (Tx.after act s actions).payment.state ≠ (Tx.after act s before).payment.state

/-- The state was last set today. -/
def SetToday (s : Arrears) (actions : List Action) : Prop :=
  ∃ before, before <+: actions ∧ s.Sets before ∧ (Tx.after act s before).today = (Tx.after act s actions).today

variable {s : Arrears}

/-- What the stored fields have to do with each other, whatever the date. -/
def Consistent (s : Arrears) : Prop := s.penaltyAmount = computePenalty s.payment.amount s.daysOverdue

theorem write_consistent (hs : s.Consistent) (payment : RentPayment) : (s.write payment).Consistent := by
  unfold Consistent write
  dsimp only
  generalize (if payment.state = s.payment.state ∧ payment.dueDate = s.payment.dueDate then s.daysOverdue
    else payment.computeDaysOverdue s.today) = days
  by_cases h : payment.amount = s.payment.amount ∧ days = s.daysOverdue
  · rw [if_pos h, hs, h.1, h.2]
  · rw [if_neg h]

theorem act_newDay (s : Arrears) (date : Date) :
    ∃ today, s.today ≤ today ∧ s.act (.newDay date) = { s with today } := by
  by_cases h : s.today < date
  · exact ⟨date, Nat.le_of_lt h, if_pos h⟩
  · exact ⟨s.today, Nat.le_refl _, if_neg h⟩

theorem act_consistent (hs : s.Consistent) (a : Action) : (s.act a).Consistent := by
  cases a with
  | newDay date =>
    obtain ⟨today, -, heq⟩ := s.act_newDay date
    rw [heq]
    exact hs
  | markOverdue => exact write_consistent hs _
  | register wizard => exact write_consistent hs _

theorem act_dueDate (s : Arrears) (a : Action) : (s.act a).payment.dueDate = s.payment.dueDate := by
  cases a with
  | newDay date =>
    obtain ⟨today, -, heq⟩ := s.act_newDay date
    rw [heq]
  | markOverdue =>
    show (s.payment.markOverdue s.today).dueDate = s.payment.dueDate
    unfold RentPayment.markOverdue
    split <;> rfl
  | register wizard =>
    show ((s.payment.register wizard).toOption.getD s.payment).dueDate = s.payment.dueDate
    cases hregister : s.payment.register wizard with
    | error e => rfl
    | ok p => exact (register_ok hregister).2.2.2.1

theorem act_today (s : Arrears) (a : Action) : s.today ≤ (s.act a).today := by
  cases a with
  | newDay date =>
    obtain ⟨today, hle, heq⟩ := s.act_newDay date
    rw [heq]
    exact hle
  | markOverdue => exact Nat.le_refl _
  | register wizard => exact Nat.le_refl _

theorem act_same_state {a : Action} (h : (s.act a).payment.state = s.payment.state) :
    (s.act a).daysOverdue = s.daysOverdue := by
  have hdue := s.act_dueDate a
  cases a with
  | newDay date =>
    obtain ⟨today, -, heq⟩ := s.act_newDay date
    rw [heq]
  | markOverdue => exact if_pos ⟨h, hdue⟩
  | register wizard => exact if_pos ⟨h, hdue⟩

theorem act_new_state {a : Action} (h : (s.act a).payment.state ≠ s.payment.state) :
    (s.act a).daysOverdue = (s.act a).payment.computeDaysOverdue (s.act a).today := by
  cases a with
  | newDay date =>
    obtain ⟨today, -, heq⟩ := s.act_newDay date
    rw [heq] at h
    exact absurd rfl h
  | markOverdue => exact if_neg fun hsame => h hsame.1
  | register wizard => exact if_neg fun hsame => h hsame.1

theorem after_today {before actions : List Action} (h : before <+: actions) :
    (Tx.after act s before).today ≤ (Tx.after act s actions).today := by
  induction actions using List.reverseRecOn with
  | nil =>
    rw [List.prefix_nil.mp h]
    exact Nat.le_refl _
  | append_singleton actions a ih =>
    rcases List.prefix_concat_iff.mp h with rfl | h
    · exact Nat.le_refl _
    · have hstep := (Tx.after act s actions).act_today a
      rw [Tx.after_concat]
      exact Nat.le_trans (ih h) hstep

theorem stored_days (hnew : s.New) (actions : List Action) : ∃ last, last <+: actions ∧ s.Sets last ∧
    (Tx.after act s actions).daysOverdue =
      (Tx.after act s actions).payment.computeDaysOverdue (Tx.after act s last).today ∧
    ∀ before, before <+: actions → s.Sets before → (Tx.after act s before).today ≤ (Tx.after act s last).today := by
  induction actions using List.reverseRecOn with
  | nil =>
    refine ⟨[], List.prefix_rfl, .inl rfl, hnew.daysOverdue, ?_⟩
    intro before hbefore _
    rw [List.prefix_nil.mp hbefore]
    exact Nat.le_refl _
  | append_singleton actions a ih =>
    by_cases hset : (Tx.after act s (actions ++ [a])).payment.state = (Tx.after act s actions).payment.state
    · obtain ⟨last, hlast, hsets, hdays, hlatest⟩ := ih
      refine ⟨last, hlast.trans (List.prefix_append actions [a]), hsets, ?_, ?_⟩
      · have hdue := (Tx.after act s actions).act_dueDate a
        rw [Tx.after_concat] at hset ⊢
        rw [act_same_state hset, hdays, RentPayment.computeDaysOverdue, RentPayment.computeDaysOverdue, hset, hdue]
      · intro before hbefore hsets'
        rcases List.prefix_concat_iff.mp hbefore with rfl | hbefore
        · -- the last action has not set the state
          rcases hsets' with hnil | ⟨before, b, heq, hne⟩
          · simp at hnil
          · obtain ⟨rfl, -⟩ := List.append_inj' heq rfl
            exact absurd hset hne
        · exact hlatest before hbefore hsets'
    · refine ⟨actions ++ [a], List.prefix_rfl, .inr ⟨actions, a, rfl, hset⟩, ?_,
        fun before hbefore _ => after_today hbefore⟩
      rw [Tx.after_concat] at hset ⊢
      exact act_new_state hset

theorem penalty_of_days (hs : s.Consistent)
    (hdays : s.daysOverdue = s.today.toordinal - s.payment.dueDate.toordinal) (hlate : s.payment.dueDate < s.today) :
    s.penaltyAmount = s.payment.amount * (2 / 100) / 30 * (s.today.toordinal - s.payment.dueDate.toordinal : Int) := by
  have hpos : 0 < s.daysOverdue := by
    have hlt : s.payment.dueDate.toordinal < s.today.toordinal := hlate
    omega
  rw [hs, computePenalty, if_pos hpos, hdays]
  ring

theorem charged_iff (hnew : s.New) (actions : List Action) : (Tx.after act s actions).Charged ↔
    (Tx.after act s actions).today ≤ (Tx.after act s actions).payment.dueDate ∨
      (Tx.after act s actions).payment.state = .paid ∨ (Tx.after act s actions).payment.state = .cancelled ∨
      (Tx.after act s actions).payment.state ≠ .overdue ∧ s.SetToday actions := by
  obtain ⟨last, hlast, hsets, hdays, hlatest⟩ := stored_days hnew actions
  have hall : Tx.Always act Consistent s actions :=
    Tx.always_of_step hnew.penaltyAmount fun _ a hs => act_consistent hs a
  have hconsistent := hall actions List.prefix_rfl
  have hpast := after_today (s := s) hlast
  generalize hfinal : Tx.after act s actions = t at hdays hconsistent hpast ⊢
  constructor
  · intro hcharged
    by_cases hlate : t.payment.dueDate < t.today
    · right
      by_cases hpaid : t.payment.state = .paid
      · exact .inl hpaid
      by_cases hcancelled : t.payment.state = .cancelled
      · exact .inr (.inl hcancelled)
      right
      right
      obtain ⟨hcount, -⟩ := hcharged hpaid hcancelled hlate
      have hlt : t.payment.dueDate.toordinal < t.today.toordinal := hlate
      rw [hcount, RentPayment.computeDaysOverdue] at hdays
      split at hdays
      · rename_i hopen
        have hsame : (Tx.after act s last).today = t.today := Date.toordinal_injective (by omega)
        refine ⟨?_, last, hlast, hsets, by rw [hsame, hfinal]⟩
        rcases hopen.1 with hstate | hstate <;> simp [hstate]
      · omega
    · have hle : t.today.toordinal ≤ t.payment.dueDate.toordinal := Nat.le_of_not_lt hlate
      exact .inl hle
  · rintro (hearly | hpaid | hcancelled | ⟨hoverdue, before, hbefore, hsetsBefore, htoday⟩)
    · intro _ _ hlate
      have hlt : t.payment.dueDate.toordinal < t.today.toordinal := hlate
      have hle : t.today.toordinal ≤ t.payment.dueDate.toordinal := hearly
      omega
    · exact fun hnot => absurd hpaid hnot
    · exact fun _ hnot => absurd hcancelled hnot
    · intro hpaid hcancelled hlate
      have hsame : (Tx.after act s last).today = t.today := by
        have hfirst := hlatest before hbefore hsetsBefore
        rw [htoday, hfinal] at hfirst
        exact Date.toordinal_injective (Nat.le_antisymm hpast hfirst)
      have hopen : t.payment.state = .pending ∨ t.payment.state = .partly := by
        cases hstate : t.payment.state <;> simp_all
      rw [hsame, RentPayment.computeDaysOverdue, if_pos ⟨hopen, hlate⟩] at hdays
      exact ⟨hdays, penalty_of_days hconsistent hdays hlate⟩

theorem charged_notLowered {a : Action} (hs : (s.act a).Charged) : s.NotLowered a := by
  rintro rfl
  by_cases hmarked : (s.payment.state = .pending ∨ s.payment.state = .partly) ∧ s.payment.dueDate < s.today
  · -- the payment is marked, so its days are not counted any more
    exfalso
    have hpayment : (s.act .markOverdue).payment = { s.payment with state := .overdue } := if_pos hmarked
    have hstate : (s.act .markOverdue).payment.state ≠ s.payment.state := by
      rw [hpayment]
      rcases hmarked.1 with h | h <;> simp [h]
    have hzero : (s.act .markOverdue).daysOverdue = 0 := by
      rw [act_new_state hstate, hpayment]
      simp [RentPayment.computeDaysOverdue]
    obtain ⟨hdays, -⟩ := hs (by simp [hpayment]) (by simp [hpayment]) (by rw [hpayment]; exact hmarked.2)
    have hlt : s.payment.dueDate.toordinal < s.today.toordinal := hmarked.2
    rw [hzero, hpayment] at hdays
    have htoday : (s.act .markOverdue).today = s.today := rfl
    rw [htoday] at hdays
    simp only at hdays
    omega
  · have hsame : s.payment.markOverdue s.today = s.payment := if_neg hmarked
    have hact : s.act .markOverdue = s := by
      show s.write (s.payment.markOverdue s.today) = s
      rw [hsame]
      simp [write]
    rw [hact]

end Arrears

/-- The penalty of an unpaid payment is right just when its state was set on the
same day, and not to overdue. -/
theorem late_penalty_iff {s : Arrears} (hnew : s.New) (actions : List Arrears.Action) :
    ((Tx.after Arrears.act s actions).Charged ↔
      (Tx.after Arrears.act s actions).today ≤ (Tx.after Arrears.act s actions).payment.dueDate ∨
        (Tx.after Arrears.act s actions).payment.state = .paid ∨
        (Tx.after Arrears.act s actions).payment.state = .cancelled ∨
        (Tx.after Arrears.act s actions).payment.state ≠ .overdue ∧ s.SetToday actions) ∧
      (Tx.Always Arrears.act Arrears.Charged s actions → Tx.EachStep Arrears.act Arrears.NotLowered s actions) := by
  refine ⟨Arrears.charged_iff hnew actions, ?_⟩
  intro hcharged before a hbefore
  have hnext := hcharged _ hbefore
  rw [Tx.after_concat] at hnext
  exact Arrears.charged_notLowered hnext

/-- Due on the first of January and half paid on the fifth, when the cron runs too. -/
def newYearRent : Arrears where
  payment := newRent.payment
  daysOverdue := 0
  penaltyAmount := 0
  today := newRent.payment.dueDate

def fifthOfJanuary : List Arrears.Action :=
  [.newDay .january5, .register (cash 40), .markOverdue]

theorem newYearRent_new : newYearRent.New := ⟨rfl, rfl⟩

theorem late_penalty_newYearRent : ¬ (Tx.after Arrears.act newYearRent fifthOfJanuary).Charged := by
  rw [(late_penalty_iff newYearRent_new fifthOfJanuary).1]
  have hstate : (Tx.after Arrears.act newYearRent fifthOfJanuary).payment.state = .overdue := by decide +kernel
  have hlate : ¬ (Tx.after Arrears.act newYearRent fifthOfJanuary).today ≤
      (Tx.after Arrears.act newYearRent fifthOfJanuary).payment.dueDate := by decide +kernel
  simp [hstate, hlate]

theorem overdue_penalty_lost : ¬ ∀ (s : Arrears), s.New → ∀ actions : List Arrears.Action,
    (Tx.after Arrears.act s actions).Charged := by
  intro hall
  have hcharged := hall newYearRent newYearRent_new fifthOfJanuary
  obtain ⟨hdays, -⟩ := hcharged (by decide +kernel) (by decide +kernel) (by decide +kernel)
  revert hdays
  decide +kernel

end Rental
