import PropzaAmlak.Data.Doubles
import PropzaAmlak.Rental.Payments
import PropzaAmlak.Tx.Histories
import Mathlib.Algebra.Order.BigOperators.Group.List
import Mathlib.Tactic.Linarith
import Mathlib.Tactic.NormNum

/-! The deposit of a tenancy: `sa_tenancy_deposit.py` and the wizard that ends
the tenancy, `sa_end_tenancy_wizard.py`. Amounts are doubles, and what is computed from
them is rounded. -/

namespace Rental

inductive DepositState where
  | notPaid
  | held
  | partiallyReturned
  | returned
  | forfeited
deriving DecidableEq

/-- A tenancy's deposit fields, with the amounts of the posted account payments
that are linked to it, inbound and outbound, and the lines of its deduction invoices. -/
structure Deposit where
  state : TenancyState
  cycleState : CycleState
  depositAmount : ℚ
  depositState : DepositState := .notPaid
  depositDatePaid : Option Date := none
  returnedAmount : ℚ := 0
  forfeitedAmount : ℚ := 0
  received : List ℚ := []
  refunds : List ℚ := []
  deductionInvoices : List (List ℚ) := []

/-- An inbound payment linked to the tenancy; payments have no negative amount. -/
structure DepositReceipt where
  amount : ℚ
  date : Option Date
  amount_nonneg : 0 ≤ amount

/-- How an account payment rounds its amount. -/
structure Currency where
  round : ℚ → ℚ
  round_nonneg : ∀ a, 0 ≤ a → 0 ≤ round a

/-- The wizard with the rent balance and the currency it finds. The journals are there
or not, and the posting of the refund succeeds or not. -/
structure EndWizard where
  deductions : List ℚ
  forfeitRemaining : Bool
  createRefundPayment : Bool
  createDeductionInvoice : Bool
  outstandingBalance : ℚ
  paymentJournal : Bool
  salesJournal : Bool
  refundPosts : Bool
  currency : Currency

/-- What the wizard raises, with the amounts its texts give. -/
inductive EndError where
  | outstanding (balance : ℚ)
  | deductions (total deposit : ℚ)
  | noPaymentJournal
  | noSalesJournal

namespace EndWizard

def totalDeductions (w : EndWizard) : ℚ := Double.sum w.deductions

/-- `refund_amount` of `_compute_totals` -/
def refundAmount (w : EndWizard) (depositAmount : ℚ) : ℚ :=
  if w.forfeitRemaining then 0 else max (Double.sub depositAmount w.totalDeductions) 0

/-- `new_state` -/
def newState (w : EndWizard) (depositAmount : ℚ) (depositState : DepositState) : DepositState :=
  if depositAmount ≤ 0 then depositState
  else if w.forfeitRemaining ∧ w.totalDeductions ≤ 0 then .forfeited
  else if depositAmount ≤ w.refundAmount depositAmount then .returned
  else if w.refundAmount depositAmount ≤ 0 then .forfeited
  else .partiallyReturned

/-- The wizard makes a refund payment, or tries to. -/
def refunds (w : EndWizard) (depositAmount : ℚ) : Bool :=
  w.createRefundPayment && decide (0 < w.refundAmount depositAmount)

def invoices (w : EndWizard) : Bool := w.createDeductionInvoice && decide (0 < w.totalDeductions)

end EndWizard

namespace Deposit

/-- `_compute_deposit_remaining` -/
def remaining (d : Deposit) : ℚ := Double.sub (Double.sub d.depositAmount d.returnedAmount) d.forfeitedAmount

/-- `action_post` of a payment linked to the tenancy -/
def receive (d : Deposit) (receipt : DepositReceipt) (today : Date) : Deposit :=
  let posted := { d with received := d.received ++ [receipt.amount] }
  if d.depositState = .notPaid then
    { posted with depositState := .held, depositDatePaid := some (receipt.date.getD today) }
  else posted

/-- `action_mark_deposit_held` -/
def markDepositHeld (d : Deposit) (today : Date) : Except Error Deposit :=
  if d.depositAmount = 0 then .error (.userError "لا يمكن احتجاز ضمان بقيمة صفر")
  else .ok { d with depositState := .held, depositDatePaid := some (d.depositDatePaid.getD today) }

/-- The tenancy as `action_end_tenancy` leaves it. -/
def ended (d : Deposit) (w : EndWizard) : Deposit :=
  { d with
    state := .closed
    cycleState := .ended
    returnedAmount := Double.add d.returnedAmount (w.refundAmount d.depositAmount)
    forfeitedAmount := Double.add d.forfeitedAmount w.totalDeductions
    depositState := w.newState d.depositAmount d.depositState
    refunds := if w.refunds d.depositAmount ∧ w.refundPosts then
        d.refunds ++ [w.currency.round (w.refundAmount d.depositAmount)]
      else d.refunds
    deductionInvoices := if w.invoices then d.deductionInvoices ++ [w.deductions] else d.deductionInvoices }

/-- `action_end_tenancy`, with what it does to the tenancy -/
def endTenancy (d : Deposit) (w : EndWizard) : Except EndError Deposit :=
  if 0 < w.outstandingBalance then .error (.outstanding w.outstandingBalance)
  else if d.depositAmount < w.totalDeductions then .error (.deductions w.totalDeductions d.depositAmount)
  else if w.invoices ∧ ¬ w.salesJournal then .error .noSalesJournal
  else if w.refunds d.depositAmount ∧ ¬ w.paymentJournal then .error .noPaymentJournal
  else .ok (d.ended w)

/-- `action_set_to_draft` -/
def setToDraft (d : Deposit) : Deposit := { d with state := .draft }

inductive Action where
  | receive (receipt : DepositReceipt) (today : Date)
  | markDepositHeld (today : Date)
  | endTenancy (w : EndWizard)
  | setToDraft

def act (d : Deposit) : Action → Deposit
  | .receive receipt today => d.receive receipt today
  | .markDepositHeld today => (d.markDepositHeld today).toOption.getD d
  | .endTenancy w => (d.endTenancy w).toOption.getD d
  | .setToDraft => d.setToDraft

/-- No more is refunded than was received, nor settled than is owed. -/
structure Conserved (d : Deposit) : Prop where
  refunds_nonneg : ∀ r ∈ d.refunds, 0 ≤ r
  refunded : d.refunds.sum ≤ d.received.sum
  settled : d.returnedAmount + d.forfeitedAmount ≤ d.depositAmount

/-- All of the deposit is settled, and the state says how. -/
structure Settled (d : Deposit) : Prop where
  remaining : d.remaining = 0
  state : d.depositState = .returned ∧ d.forfeitedAmount = 0 ∨
    d.depositState = .partiallyReturned ∧ 0 < d.returnedAmount ∧ 0 < d.forfeitedAmount ∨
    d.depositState = .forfeited ∧ d.returnedAmount = 0

/-- The wizard ends the tenancy. -/
def Ends (d : Deposit) (w : EndWizard) : Prop := ∃ d', d.endTenancy w = .ok d'

def Settles (d : Deposit) : Action → Prop
  | .endTenancy w => d.Ends w → d.depositState = .held → (d.act (.endTenancy w)).Settled
  | _ => True

/-- An ending that computes with amounts which need no rounding. -/
structure Exact (d : Deposit) (w : EndWizard) : Prop where
  refund : w.forfeitRemaining = false →
    Double.sub d.depositAmount w.totalDeductions = d.depositAmount - w.totalDeductions
  returned : Double.add d.returnedAmount (w.refundAmount d.depositAmount) =
    d.returnedAmount + w.refundAmount d.depositAmount
  forfeited : Double.add d.forfeitedAmount w.totalDeductions = d.forfeitedAmount + w.totalDeductions
  kept : d.depositState = .held →
    Double.sub d.depositAmount (d.returnedAmount + w.refundAmount d.depositAmount) =
      d.depositAmount - (d.returnedAmount + w.refundAmount d.depositAmount)

/-- An ending that pays out what was received and settles the deposit once. -/
structure Fair (d : Deposit) (w : EndWizard) : Prop where
  money : w.createRefundPayment → w.refundPosts → w.forfeitRemaining = false → w.totalDeductions < d.depositAmount →
    d.refunds.sum + w.currency.round (d.depositAmount - w.totalDeductions) ≤ d.received.sum
  bound : d.returnedAmount + d.forfeitedAmount +
    (if w.forfeitRemaining then w.totalDeductions else d.depositAmount) ≤ d.depositAmount
  held : d.depositState = .held → 0 < d.depositAmount ∧
    if w.forfeitRemaining then d.returnedAmount = 0 ∧ d.forfeitedAmount + w.totalDeductions = d.depositAmount
    else d.returnedAmount + d.forfeitedAmount = 0 ∧ 0 ≤ w.totalDeductions ∧
      (d.returnedAmount = 0 ∨ d.returnedAmount < w.totalDeductions ∧ w.totalDeductions < d.depositAmount)

/-- The deposit is held, and nothing of it is settled. -/
structure Whole (d : Deposit) : Prop where
  held : d.depositState = .held
  returnedAmount : d.returnedAmount = 0
  forfeitedAmount : d.forfeitedAmount = 0

/-- An ending of a deposit that is not whole computes exactly. -/
def Later (d : Deposit) : Action → Prop
  | .endTenancy w => d.Ends w → ¬ d.Whole → d.Exact w
  | _ => True

def Allowed (d : Deposit) : Action → Prop
  | .endTenancy w => d.Ends w → d.Exact w ∧ d.Fair w
  | _ => True

structure New (d : Deposit) : Prop where
  depositAmount : Double.IsDouble d.depositAmount
  depositState : d.depositState = .notPaid
  returnedAmount : d.returnedAmount = 0
  forfeitedAmount : d.forfeitedAmount = 0
  received : d.received = []
  refunds : d.refunds = []

variable {d d' : Deposit} {w : EndWizard}

theorem endTenancy_ok (h : d.endTenancy w = .ok d') : w.totalDeductions ≤ d.depositAmount ∧ d' = d.ended w := by
  unfold endTenancy at h
  by_cases hbalance : 0 < w.outstandingBalance
  · simp [hbalance] at h
  by_cases htotal : d.depositAmount < w.totalDeductions
  · simp [hbalance, htotal] at h
  by_cases hsales : w.invoices ∧ ¬ w.salesJournal
  · simp [hbalance, htotal, hsales] at h
  by_cases hjournal : w.refunds d.depositAmount ∧ ¬ w.paymentJournal
  · rw [if_neg hbalance, if_neg htotal, if_neg hsales, if_pos hjournal] at h
    cases h
  · rw [if_neg hbalance, if_neg htotal, if_neg hsales, if_neg hjournal] at h
    exact ⟨not_lt.mp htotal, (Except.ok.inj h).symm⟩

theorem act_ends (h : d.Ends w) : d.act (.endTenancy w) = d.ended w := by
  obtain ⟨d', h⟩ := h
  simp [act, h, Except.toOption, (endTenancy_ok h).2]

theorem act_not_ends (h : ¬ d.Ends w) : d.act (.endTenancy w) = d := by
  cases hend : d.endTenancy w with
  | ok d' => exact absurd ⟨d', hend⟩ h
  | error e => simp [act, hend, Except.toOption]

theorem Ends.refundAmount_sub (h : d.Ends w) (hforfeit : w.forfeitRemaining = false) :
    w.refundAmount d.depositAmount = Double.sub d.depositAmount w.totalDeductions := by
  obtain ⟨d', h⟩ := h
  have hle := (endTenancy_ok h).1
  have hnonneg : 0 ≤ Double.sub d.depositAmount w.totalDeductions := Double.round_nonneg (by linarith)
  simp [EndWizard.refundAmount, hforfeit, hnonneg]

theorem Ends.refundAmount_eq (h : d.Ends w) (hexact : d.Exact w) :
    w.refundAmount d.depositAmount = if w.forfeitRemaining then 0 else d.depositAmount - w.totalDeductions := by
  cases hforfeit : w.forfeitRemaining with
  | true => simp [EndWizard.refundAmount, hforfeit]
  | false => simpa using (h.refundAmount_sub hforfeit).trans (hexact.refund hforfeit)

/-- Neither a refund nor the amount returned is ever negative. -/
structure Nonneg (d : Deposit) : Prop where
  returnedAmount : 0 ≤ d.returnedAmount
  refunds : ∀ r ∈ d.refunds, 0 ≤ r

theorem refundAmount_nonneg (w : EndWizard) (depositAmount : ℚ) : 0 ≤ w.refundAmount depositAmount := by
  unfold EndWizard.refundAmount
  split
  · exact le_rfl
  · exact le_max_right _ _

theorem Nonneg.ended (hd : d.Nonneg) (w : EndWizard) : (d.ended w).Nonneg := by
  have hrefund := refundAmount_nonneg w d.depositAmount
  constructor
  · exact Double.round_nonneg (add_nonneg hd.returnedAmount hrefund)
  · intro r hr
    by_cases hposts : w.refunds d.depositAmount ∧ w.refundPosts
    · simp only [Deposit.ended, hposts, and_self, if_true, List.mem_append, List.mem_singleton] at hr
      rcases hr with hr | rfl
      · exact hd.refunds r hr
      · exact w.currency.round_nonneg _ hrefund
    · simp only [Deposit.ended, hposts, if_false] at hr
      exact hd.refunds r hr

theorem act_frame (d : Deposit) (a : Action) (ha : ∀ w, a ≠ .endTenancy w) :
    (d.act a).returnedAmount = d.returnedAmount ∧ (d.act a).forfeitedAmount = d.forfeitedAmount ∧
      (d.act a).depositAmount = d.depositAmount ∧ (d.act a).refunds = d.refunds ∧
      d.received.sum ≤ (d.act a).received.sum := by
  cases a with
  | receive receipt today =>
    have hnonneg := receipt.amount_nonneg
    simp only [act, receive]
    split <;> simp [hnonneg]
  | markDepositHeld today =>
    simp only [act, markDepositHeld]
    split <;> simp [Except.toOption]
  | endTenancy w => exact absurd rfl (ha w)
  | setToDraft => simp [act, setToDraft]

theorem act_depositAmount (d : Deposit) (a : Action) : (d.act a).depositAmount = d.depositAmount := by
  by_cases ha : ∃ w, a = .endTenancy w
  · obtain ⟨w, rfl⟩ := ha
    by_cases hends : d.Ends w
    · rw [act_ends hends]
      rfl
    · rw [act_not_ends hends]
  · exact (d.act_frame a fun w h => ha ⟨w, h⟩).2.2.1

theorem Nonneg.act (hd : d.Nonneg) (a : Action) : (d.act a).Nonneg := by
  by_cases ha : ∃ w, a = .endTenancy w
  · obtain ⟨w, rfl⟩ := ha
    by_cases hends : d.Ends w
    · rw [act_ends hends]
      exact hd.ended w
    · rw [act_not_ends hends]
      exact hd
  · obtain ⟨hreturned, -, -, hrefunds, -⟩ := d.act_frame a fun w h => ha ⟨w, h⟩
    exact ⟨hreturned ▸ hd.returnedAmount, hrefunds ▸ hd.refunds⟩

theorem Conserved.act_frame (hc : d.Conserved) {a : Action} (ha : ∀ w, a ≠ .endTenancy w) : (d.act a).Conserved := by
  obtain ⟨hreturned, hforfeited, hdeposit, hrefunds, hreceived⟩ := d.act_frame a ha
  constructor
  · rw [hrefunds]
    exact hc.refunds_nonneg
  · rw [hrefunds]
    exact hc.refunded.trans hreceived
  · rw [hreturned, hforfeited, hdeposit]
    exact hc.settled

theorem ended_refunds (hends : d.Ends w) (hexact : d.Exact w) (hc : d.Conserved) :
    (d.ended w).refunds.sum ≤ d.received.sum ↔
      (w.createRefundPayment → w.refundPosts → w.forfeitRemaining = false → w.totalDeductions < d.depositAmount →
        d.refunds.sum + w.currency.round (d.depositAmount - w.totalDeductions) ≤ d.received.sum) := by
  have hrefund := hends.refundAmount_eq hexact
  by_cases hposts : w.refunds d.depositAmount ∧ w.refundPosts
  · have hsum : (d.ended w).refunds.sum = d.refunds.sum + w.currency.round (w.refundAmount d.depositAmount) := by
      simp [ended, hposts]
    have hcreates : w.createRefundPayment ∧ 0 < w.refundAmount d.depositAmount := by
      simpa [EndWizard.refunds] using hposts.1
    have hforfeit : w.forfeitRemaining = false := by
      by_contra hnot
      simp only [Bool.not_eq_false] at hnot
      rw [hnot, if_pos rfl] at hrefund
      linarith [hcreates.2]
    rw [hforfeit, if_neg (by simp)] at hrefund
    have hrest : w.totalDeductions < d.depositAmount := by linarith [hcreates.2]
    simp [hsum, hrefund, hcreates.1, hposts.2, hforfeit, hrest]
  · have hsum : (d.ended w).refunds = d.refunds := by
      simp only [ended, hposts, if_false]
    rw [hsum]
    constructor
    · intro _ hcreates hrefundPosts hforfeit hrest
      rw [hforfeit, if_neg (by simp)] at hrefund
      have hpos : 0 < w.refundAmount d.depositAmount := by linarith
      exact absurd ⟨by simp [EndWizard.refunds, hcreates, hpos], hrefundPosts⟩ hposts
    · intro _
      exact hc.refunded

theorem refund_add (hends : d.Ends w) (hexact : d.Exact w) : w.refundAmount d.depositAmount + w.totalDeductions =
    if w.forfeitRemaining then w.totalDeductions else d.depositAmount := by
  rw [hends.refundAmount_eq hexact]
  split <;> ring

/-- Nothing remains just when the amounts add up. -/
theorem ended_remaining (hexact : d.Exact w) (hheld : d.depositState = .held) : (d.ended w).remaining = 0 ↔
    d.depositAmount - (d.returnedAmount + w.refundAmount d.depositAmount) - (d.forfeitedAmount + w.totalDeductions) =
      0 := by
  have hremaining : (d.ended w).remaining = Double.round
      (d.depositAmount - (d.returnedAmount + w.refundAmount d.depositAmount) -
        (d.forfeitedAmount + w.totalDeductions)) := by
    rw [remaining, ended, hexact.returned, hexact.forfeited, hexact.kept hheld]
    rfl
  rw [hremaining, Double.round_eq_zero]

theorem settled_of_returned (h : d.depositState = .returned) :
    d.Settled ↔ d.remaining = 0 ∧ d.forfeitedAmount = 0 := by
  constructor
  · rintro ⟨hzero, hagrees⟩
    exact ⟨hzero, by simpa [h] using hagrees⟩
  · rintro ⟨hzero, hnone⟩
    exact ⟨hzero, .inl ⟨h, hnone⟩⟩

theorem settled_of_split (h : d.depositState = .partiallyReturned) :
    d.Settled ↔ d.remaining = 0 ∧ 0 < d.returnedAmount ∧ 0 < d.forfeitedAmount := by
  constructor
  · rintro ⟨hzero, hagrees⟩
    exact ⟨hzero, by simpa [h] using hagrees⟩
  · rintro ⟨hzero, hsplit⟩
    exact ⟨hzero, .inr (.inl ⟨h, hsplit⟩)⟩

theorem settled_of_forfeited (h : d.depositState = .forfeited) :
    d.Settled ↔ d.remaining = 0 ∧ d.returnedAmount = 0 := by
  constructor
  · rintro ⟨hzero, hagrees⟩
    exact ⟨hzero, by simpa [h] using hagrees⟩
  · rintro ⟨hzero, hnone⟩
    exact ⟨hzero, .inr (.inr ⟨h, hnone⟩)⟩

/-- A deposit of nothing is still held after the wizard. -/
theorem deposited_of_settled (hheld : d.depositState = .held) (hsettled : (d.ended w).Settled) :
    0 < d.depositAmount := by
  by_contra hpos
  have hstate : (d.ended w).depositState = .held := by
    have hnone : d.depositAmount ≤ 0 := not_lt.mp hpos
    simp [ended, EndWizard.newState, hnone, hheld]
  obtain ⟨-, hagrees⟩ := hsettled
  simp [hstate] at hagrees

theorem ended_settled_forfeit (hends : d.Ends w) (hexact : d.Exact w) (hforfeit : w.forfeitRemaining)
    (hheld : d.depositState = .held) :
    (d.ended w).Settled ↔ 0 < d.depositAmount ∧
      d.returnedAmount = 0 ∧ d.forfeitedAmount + w.totalDeductions = d.depositAmount := by
  rw [← and_iff_right_of_imp (deposited_of_settled hheld)]
  refine and_congr_right fun hpos => ?_
  have hrefund := hends.refundAmount_eq hexact
  rw [if_pos hforfeit] at hrefund
  have hstate : (d.ended w).depositState = .forfeited := by
    have hsome : ¬ d.depositAmount ≤ 0 := not_le.mpr hpos
    simp [ended, EndWizard.newState, hsome, hforfeit, hrefund]
  have hreturned : (d.ended w).returnedAmount = d.returnedAmount :=
    hexact.returned.trans (by rw [hrefund, add_zero])
  rw [settled_of_forfeited hstate, ended_remaining hexact hheld, hreturned, hrefund]
  constructor
  · rintro ⟨hzero, hnone⟩
    exact ⟨hnone, by linarith⟩
  · rintro ⟨hnone, hall⟩
    exact ⟨by linarith, hnone⟩

theorem ended_settled_return (hd : d.Nonneg) (hends : d.Ends w) (hexact : d.Exact w)
    (hforfeit : w.forfeitRemaining = false) (hheld : d.depositState = .held) :
    (d.ended w).Settled ↔ 0 < d.depositAmount ∧
      d.returnedAmount + d.forfeitedAmount = 0 ∧ 0 ≤ w.totalDeductions ∧
      (d.returnedAmount = 0 ∨ d.returnedAmount < w.totalDeductions ∧ w.totalDeductions < d.depositAmount) := by
  rw [← and_iff_right_of_imp (deposited_of_settled hheld)]
  refine and_congr_right fun hpos => ?_
  have hreturns := hd.returnedAmount
  have hrefund := hends.refundAmount_eq hexact
  rw [hforfeit, if_neg (by simp)] at hrefund
  have hreturned : (d.ended w).returnedAmount = d.returnedAmount + (d.depositAmount - w.totalDeductions) :=
    hexact.returned.trans (by rw [hrefund])
  have hforfeited : (d.ended w).forfeitedAmount = d.forfeitedAmount + w.totalDeductions := hexact.forfeited
  have hremaining : (d.ended w).remaining = 0 ↔ d.returnedAmount + d.forfeitedAmount = 0 := by
    rw [ended_remaining hexact hheld, hrefund]
    constructor
    · intro hzero
      linarith
    · intro hzero
      linarith
  obtain ⟨d', hok⟩ := hends
  have hle := (endTenancy_ok hok).1
  have hsome : ¬ d.depositAmount ≤ 0 := not_le.mpr hpos
  have hnew : (d.ended w).depositState = if d.depositAmount ≤ d.depositAmount - w.totalDeductions then .returned
      else if d.depositAmount - w.totalDeductions ≤ 0 then .forfeited else .partiallyReturned := by
    simp [ended, EndWizard.newState, hsome, hforfeit, hrefund]
  rcases le_or_gt w.totalDeductions 0 with hnone | hsome
  · -- nothing is deducted, and the state says that all is returned
    rw [if_pos (by linarith)] at hnew
    rw [settled_of_returned hnew, hremaining, hforfeited]
    refine and_congr_right fun hzero => ?_
    constructor
    · intro hall
      exact ⟨by linarith, .inl (by linarith)⟩
    · rintro ⟨hnonneg, hcase | ⟨hcase, -⟩⟩
      · linarith
      · linarith
  rw [if_neg (by linarith)] at hnew
  rcases le_or_gt d.depositAmount w.totalDeductions with hall | hpart
  · -- all is deducted, and the state says so
    rw [if_pos (by linarith)] at hnew
    rw [settled_of_forfeited hnew, hremaining, hreturned]
    refine and_congr_right fun hzero => ?_
    constructor
    · intro hnone
      exact ⟨hsome.le, .inl (by linarith)⟩
    · rintro ⟨-, hcase | ⟨-, hcase⟩⟩
      · linarith
      · linarith
  · rw [if_neg (by linarith)] at hnew
    rw [settled_of_split hnew, hremaining, hreturned, hforfeited]
    refine and_congr_right fun hzero => ?_
    constructor
    · rintro ⟨-, hsplit⟩
      exact ⟨hsome.le, .inr ⟨by linarith, hpart⟩⟩
    · rintro ⟨-, hcase | ⟨hcase, -⟩⟩
      · exact ⟨by linarith, by linarith⟩
      · exact ⟨by linarith, by linarith⟩

theorem fair_iff (hd : d.Nonneg) (hc : d.Conserved) (hends : d.Ends w) (hexact : d.Exact w) :
    d.Fair w ↔ (d.depositState = .held → (d.ended w).Settled) ∧ (d.ended w).Conserved := by
  have hbound : (d.ended w).returnedAmount + (d.ended w).forfeitedAmount =
      d.returnedAmount + d.forfeitedAmount + if w.forfeitRemaining then w.totalDeductions else d.depositAmount := by
    rw [← refund_add hends hexact, ended, hexact.returned, hexact.forfeited]
    ring
  have hsettled (hheld : d.depositState = .held) : (d.ended w).Settled ↔ 0 < d.depositAmount ∧
      if w.forfeitRemaining then d.returnedAmount = 0 ∧ d.forfeitedAmount + w.totalDeductions = d.depositAmount
      else d.returnedAmount + d.forfeitedAmount = 0 ∧ 0 ≤ w.totalDeductions ∧
        (d.returnedAmount = 0 ∨ d.returnedAmount < w.totalDeductions ∧ w.totalDeductions < d.depositAmount) := by
    cases hforfeit : w.forfeitRemaining with
    | true => simpa using ended_settled_forfeit hends hexact hforfeit hheld
    | false => simpa using ended_settled_return hd hends hexact hforfeit hheld
  constructor
  · rintro ⟨hmoney, hle, hheld⟩
    refine ⟨fun h => (hsettled h).mpr (hheld h), (hd.ended w).refunds, (ended_refunds hends hexact hc).mpr hmoney, ?_⟩
    rw [hbound]
    exact hle
  · rintro ⟨hlaw, -, hmoney, hle⟩
    rw [hbound] at hle
    exact ⟨(ended_refunds hends hexact hc).mp hmoney, hle, fun h => (hsettled h).mp (hlaw h)⟩

theorem isDouble_totalDeductions (w : EndWizard) : Double.IsDouble w.totalDeductions := Double.isDouble_sum _

theorem isDouble_refundAmount (w : EndWizard) (depositAmount : ℚ) : Double.IsDouble (w.refundAmount depositAmount) := by
  unfold EndWizard.refundAmount
  split
  · exact Double.isDouble_zero
  · rcases max_choice (Double.sub depositAmount w.totalDeductions) 0 with h | h
    · rw [h]
      exact Double.isDouble_round _
    · rw [h]
      exact Double.isDouble_zero

/-- Where a whole deposit is refunded with a rounded amount, something of it remains. -/
theorem refund_exact (hdeposit : Double.IsDouble d.depositAmount) (hwhole : d.Whole) (hends : d.Ends w)
    (hsettled : (d.ended w).Settled) (hforfeit : w.forfeitRemaining = false) :
    Double.sub d.depositAmount w.totalDeductions = d.depositAmount - w.totalDeductions := by
  have htotal := isDouble_totalDeductions w
  have hpos := deposited_of_settled hwhole.held hsettled
  have hrefund := hends.refundAmount_sub hforfeit
  have hle : w.totalDeductions ≤ d.depositAmount := by
    obtain ⟨d', hok⟩ := hends
    exact (endTenancy_ok hok).1
  have hreturned : (d.ended w).returnedAmount = Double.sub d.depositAmount w.totalDeductions := by
    rw [ended, hwhole.returnedAmount, hrefund, Double.zero_add_eq (Double.isDouble_sub_round _ _)]
  have hforfeited : (d.ended w).forfeitedAmount = w.totalDeductions := by
    rw [ended, hwhole.forfeitedAmount, Double.zero_add_eq htotal]
  have hrest : Double.sub d.depositAmount (Double.sub d.depositAmount w.totalDeductions) = w.totalDeductions := by
    have hzero := hsettled.remaining
    have hsame : (d.ended w).depositAmount = d.depositAmount := rfl
    rw [remaining, hsame, hreturned, hforfeited, Double.sub, Double.round_eq_zero] at hzero
    linarith
  have hnonneg : 0 ≤ w.totalDeductions := by
    by_contra hneg
    -- more than the deposit is refunded, and the state says that all is returned
    have hall : d.depositAmount ≤ w.refundAmount d.depositAmount := by
      rw [hrefund]
      exact (Double.round_of_isDouble hdeposit).symm.trans_le (Double.round_mono hpos.le (by linarith))
    have hstate : (d.ended w).depositState = .returned := by
      simp [ended, EndWizard.newState, hpos.not_ge, hforfeit, hall]
    have hnone := ((settled_of_returned hstate).mp hsettled).2
    rw [hforfeited] at hnone
    exact hneg hnone.ge
  exact Double.sub_eq_of_sub_sub hdeposit htotal hnonneg hle hrest

theorem Whole.exact (hwhole : d.Whole) (hdeposit : Double.IsDouble d.depositAmount) (hends : d.Ends w)
    (hsettled : (d.ended w).Settled) : d.Exact w where
  refund := refund_exact hdeposit hwhole hends hsettled
  returned := by rw [hwhole.returnedAmount, Double.zero_add_eq (isDouble_refundAmount _ _), zero_add]
  forfeited := by rw [hwhole.forfeitedAmount, Double.zero_add_eq (isDouble_totalDeductions w), zero_add]
  kept _ := by
    rw [hwhole.returnedAmount, zero_add]
    cases hforfeit : w.forfeitRemaining with
    | true =>
      have hnone : w.refundAmount d.depositAmount = 0 := by simp [EndWizard.refundAmount, hforfeit]
      rw [hnone, Double.sub_zero_eq hdeposit, sub_zero]
    | false =>
      rw [hends.refundAmount_sub hforfeit, refund_exact hdeposit hwhole hends hsettled hforfeit, sub_sub_cancel,
        Double.sub, sub_sub_cancel, Double.round_of_isDouble (isDouble_totalDeductions w)]

theorem Allowed.later {a : Action} (h : d.Allowed a) : d.Later a := by
  cases a with
  | endTenancy w => exact fun hends _ => (h hends).1
  | _ => trivial

theorem allowed_iff (hd : d.Nonneg) (hdeposit : Double.IsDouble d.depositAmount) (hc : d.Conserved) {a : Action}
    (hlater : d.Later a) : d.Allowed a ↔ d.Settles a ∧ (d.act a).Conserved := by
  cases a with
  | endTenancy w =>
    by_cases hends : d.Ends w
    · simp only [Allowed, Settles, hends, true_imp_iff, act_ends hends]
      constructor
      · rintro ⟨hexact, hfair⟩
        exact (fair_iff hd hc hends hexact).mp hfair
      · intro hlaw
        have hexact : d.Exact w := by
          by_cases hwhole : d.Whole
          · exact hwhole.exact hdeposit hends (hlaw.1 hwhole.held)
          · exact hlater hends hwhole
        exact ⟨hexact, (fair_iff hd hc hends hexact).mpr hlaw⟩
    · simp only [Allowed, Settles, hends, false_imp_iff, act_not_ends hends, true_and]
      exact ⟨fun _ => hc, fun _ => trivial⟩
  | receive receipt today =>
    exact ⟨fun _ => ⟨trivial, hc.act_frame (by simp)⟩, fun _ => trivial⟩
  | markDepositHeld today =>
    exact ⟨fun _ => ⟨trivial, hc.act_frame (by simp)⟩, fun _ => trivial⟩
  | setToDraft =>
    exact ⟨fun _ => ⟨trivial, hc.act_frame (by simp)⟩, fun _ => trivial⟩

end Deposit

/-- The deposit is conserved all along, and endings of deposits that are not whole need no
rounding, just when no ending needs any and every ending is fair. -/
theorem deposit_conserved_iff {d : Deposit} (hnew : d.New) (actions : List Deposit.Action) :
    Tx.EachStep Deposit.act Deposit.Later d actions ∧
      Tx.Always Deposit.act Deposit.Conserved d actions ∧ Tx.EachStep Deposit.act Deposit.Settles d actions ↔
      0 ≤ d.depositAmount ∧ Tx.EachStep Deposit.act Deposit.Allowed d actions := by
  have hnonneg : d.Nonneg := ⟨hnew.returnedAmount.ge, by simp [hnew.refunds]⟩
  have hconserved : d.Conserved ↔ 0 ≤ d.depositAmount := by
    constructor
    · intro hc
      have hle := hc.settled
      rwa [hnew.returnedAmount, hnew.forfeitedAmount, add_zero] at hle
    · intro hle
      exact ⟨hnonneg.refunds, by simp [hnew.refunds, hnew.received],
        by rwa [hnew.returnedAmount, hnew.forfeitedAmount, add_zero]⟩
  by_cases hpos : 0 ≤ d.depositAmount
  · have hbase (d : Deposit) (a : Deposit.Action) (hd : d.Nonneg ∧ Double.IsDouble d.depositAmount) :
        (d.act a).Nonneg ∧ Double.IsDouble (d.act a).depositAmount :=
      ⟨hd.1.act a, (d.act_depositAmount a).symm ▸ hd.2⟩
    have hstep (d : Deposit) (a : Deposit.Action) (hd : d.Nonneg ∧ Double.IsDouble d.depositAmount)
        (hc : d.Conserved) (ha : d.Later a) : d.Allowed a ↔ d.Settles a ∧ (d.act a).Conserved :=
      Deposit.allowed_iff hd.1 hd.2 hc ha
    have hiff (hlater : Tx.EachStep Deposit.act Deposit.Later d actions) :=
      Tx.law_iff_within hbase hstep ⟨hnonneg, hnew.depositAmount⟩ (hconserved.mpr hpos) hlater
    simp only [hpos, true_and]
    constructor
    · rintro ⟨hlater, hlaw⟩
      exact (hiff hlater).mp hlaw
    · intro hallowed
      have hlater : Tx.EachStep Deposit.act Deposit.Later d actions :=
        fun before a hbefore => (hallowed before a hbefore).later
      exact ⟨hlater, (hiff hlater).mpr hallowed⟩
  · have hnot : ¬ Tx.Always Deposit.act Deposit.Conserved d actions := by
      intro hall
      exact hpos (hconserved.mp (hall [] List.nil_prefix))
    simp [hpos, hnot]

def deposited : Deposit where
  state := .running
  cycleState := .active
  depositAmount := 1000

/-- Amounts are kept to a hundredth. -/
def riyal : Currency where
  round a := roundInt (a * 100) / 100
  round_nonneg a ha := by
    have hround : roundInt 0 ≤ roundInt (a * 100) := roundInt_mono (by positivity)
    rw [Double.roundInt_zero] at hround
    have hcast : (0 : ℚ) ≤ roundInt (a * 100) := by exact_mod_cast hround
    positivity

/-- The wizard without deductions. -/
def handover : EndWizard where
  deductions := []
  forfeitRemaining := false
  createRefundPayment := true
  createDeductionInvoice := false
  outstandingBalance := 0
  paymentJournal := true
  salesJournal := true
  refundPosts := true
  currency := riyal

theorem deposited_new : deposited.New :=
  ⟨⟨1000, 0, by norm_num, by norm_num [deposited]⟩, rfl, rfl, rfl, rfl, rfl⟩

theorem ends_of_checks {d : Deposit} {w : EndWizard} (hbalance : ¬ 0 < w.outstandingBalance)
    (htotal : ¬ d.depositAmount < w.totalDeductions) (hsales : w.salesJournal) (hjournal : w.paymentJournal) :
    d.Ends w := by
  refine ⟨d.ended w, ?_⟩
  unfold Deposit.endTenancy
  rw [if_neg hbalance, if_neg htotal, if_neg fun h => h.2 hsales, if_neg fun h => h.2 hjournal]

def fullReceipt : DepositReceipt := ⟨1000, none, by norm_num⟩

/-- The deposit is received when the lease begins. -/
def receipt : Deposit.Action := .receive fullReceipt .january1

/-- Cleaning and a key are deducted. -/
def deducted : EndWizard := { handover with deductions := [250, 50] }

theorem deducted_exact : (deposited.act receipt).Exact deducted where
  refund _ := by decide +kernel
  returned := by decide +kernel
  forfeited := by decide +kernel
  kept _ := by decide +kernel

theorem deducted_fair : (deposited.act receipt).Fair deducted where
  money _ _ _ _ := by decide +kernel
  bound := by decide +kernel
  held _ := by decide +kernel

theorem deposit_conserved_deducted :
    Tx.Always Deposit.act Deposit.Conserved deposited ([receipt] ++ [.endTenancy deducted]) ∧
      Tx.EachStep Deposit.act Deposit.Settles deposited ([receipt] ++ [.endTenancy deducted]) := by
  have hallowed : Tx.EachStep Deposit.act Deposit.Allowed deposited ([receipt] ++ [.endTenancy deducted]) :=
    Tx.eachStep_concat.mpr ⟨Tx.eachStep_concat.mpr ⟨Tx.eachStep_nil, trivial⟩, fun _ => ⟨deducted_exact, deducted_fair⟩⟩
  exact ((deposit_conserved_iff deposited_new _).mpr ⟨by decide +kernel, hallowed⟩).2

def forfeiture : EndWizard := { handover with forfeitRemaining := true }

/-- A forfeited deposit stays outstanding. -/
theorem forfeited_deposit_remains : ¬ ∀ (d : Deposit), d.New → 0 ≤ d.depositAmount →
    ∀ actions : List Deposit.Action,
      Tx.Always Deposit.act Deposit.Conserved d actions ∧ Tx.EachStep Deposit.act Deposit.Settles d actions := by
  intro hall
  obtain ⟨-, hsettles⟩ := hall deposited deposited_new (by decide +kernel)
    [receipt, .endTenancy forfeiture]
  have hends : (deposited.act receipt).Ends forfeiture :=
    ends_of_checks (by decide +kernel) (by decide +kernel) rfl rfl
  have hsettled := hsettles [receipt] (.endTenancy forfeiture) List.prefix_rfl hends rfl
  have hremaining := hsettled.remaining
  revert hremaining
  decide +kernel

end Rental
