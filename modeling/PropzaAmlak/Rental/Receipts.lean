import PropzaAmlak.Rental.Payments
import Mathlib.Algebra.Order.BigOperators.Group.List
import Mathlib.Tactic.FieldSimp
import Mathlib.Tactic.Linarith
import Mathlib.Tactic.NormNum

/-! The account payments the wizard posts against the invoice of a rent payment,
and when they add up to the cash that was registered. -/

namespace Rental

/-- How far the posting of an account payment gets. -/
inductive Posting where
  | noJournal
  | refused
  | unreconciled
  | reconciled

/-- A rent payment with the total and the residual of its invoice and the amounts
of the inbound account payments posted for it. -/
structure Books where
  payment : RentPayment
  total : ℚ
  residual : ℚ
  posted : List ℚ := []
  total_nonneg : 0 ≤ total

namespace Books

/-- `payment_state in ('paid', 'in_payment')`; no credit note reverses the invoice. -/
def cleared (b : Books) : Bool := b.residual = 0

/-- `ap_amount` -/
def receipt (b : Books) : ℚ :=
  let paidAmount := b.payment.amountPaid
  let invTotal := if b.total = 0 then paidAmount else b.total
  if 0 < b.payment.amount then invTotal * (paidAmount / b.payment.amount) else paidAmount

/-- `_create_account_payment_and_reconcile` -/
def createAccountPaymentAndReconcile (b : Books) (posting : Posting) : Books :=
  if ¬ b.payment.invoiced then b
  else if b.cleared then b
  else if b.payment.amountPaid ≤ 0 then b
  else
    match posting with
    | .noJournal => b
    | .refused => b
    | .unreconciled => { b with posted := b.posted ++ [b.receipt] }
    | .reconciled =>
      { b with posted := b.posted ++ [b.receipt], residual := max (b.residual - b.receipt) 0 }

/-- `action_register_payment` with its accounting step -/
def register (b : Books) (wizard : PaymentWizard) (posting : Posting) : Except Error Books :=
  match b.payment.register wizard with
  | .error e => .error e
  | .ok payment =>
    let written := { b with payment }
    if payment.invoiced ∧ payment.amountPaid ≠ 0 ∧ ¬ written.cleared then
      .ok (written.createAccountPaymentAndReconcile posting)
    else .ok written

/-- Registrations whose posting and reconciliation succeed. -/
def registerAll (b : Books) (wizards : List PaymentWizard) : Except Error Books :=
  wizards.foldlM (fun b wizard => b.register wizard .reconciled) b

/-- No money has been recorded or posted yet. -/
structure Fresh (b : Books) : Prop where
  paid : b.payment.amountPaid = 0
  posted : b.posted = []
  residual : b.residual = b.total

/-- The invoice is posted, at the latest by the first registration. -/
def Invoices (p : RentPayment) (wizards : List PaymentWizard) : Prop :=
  ∀ wizard ∈ wizards.head?, ∀ p', p.register wizard = .ok p' → p'.invoiced

end Books

/-- The running totals of the registrations, each of which is posted as a payment. -/
def runningTotals (paid : ℚ) : List ℚ → List ℚ
  | [] => []
  | a :: as => (paid + a) :: runningTotals (paid + a) as

/-- The share of the amount that is posted in the end: running totals are added
as long as the invoice is open. -/
def bookedShare (amount posted paid : ℚ) : List ℚ → ℚ
  | [] => posted
  | a :: as =>
    if amount ≤ posted then posted else bookedShare amount (posted + (paid + a)) (paid + a) as

theorem runningTotals_length (paid : ℚ) (as : List ℚ) : (runningTotals paid as).length = as.length := by
  induction as generalizing paid with
  | nil => rfl
  | cons a as ih => simp [runningTotals, ih]

theorem runningTotals_pos {paid : ℚ} {as : List ℚ} (hpaid : 0 ≤ paid) (has : ∀ a ∈ as, 0 < a) :
    ∀ s ∈ runningTotals paid as, 0 < s := by
  induction as generalizing paid with
  | nil => simp [runningTotals]
  | cons a as ih =>
    have ha := has a List.mem_cons_self
    have hsum : 0 < paid + a := by linarith
    intro s hs
    rcases List.mem_cons.mp hs with rfl | hs
    · exact hsum
    · exact ih hsum.le (fun b hb => has b (List.mem_cons_of_mem a hb)) s hs

theorem runningTotals_sum_ge (paid : ℚ) {as : List ℚ} (hpaid : 0 ≤ paid) (has : ∀ a ∈ as, 0 < a)
    (hne : as ≠ []) : paid + as.sum ≤ (runningTotals paid as).sum := by
  induction as generalizing paid with
  | nil => exact absurd rfl hne
  | cons a as ih =>
    have ha := has a List.mem_cons_self
    simp only [runningTotals, List.sum_cons]
    by_cases hrest : as = []
    · simp [hrest, runningTotals]
    · have hle := ih (paid + a) (by linarith) (fun b hb => has b (List.mem_cons_of_mem a hb)) hrest
      linarith

/-- All the running totals add up to the last one only when there is just one. -/
theorem runningTotals_sum_eq_iff {as : List ℚ} (has : ∀ a ∈ as, 0 < a) :
    (runningTotals 0 as).sum = as.sum ↔ as.length ≤ 1 := by
  match as with
  | [] => simp [runningTotals]
  | [a] => simp [runningTotals]
  | a :: b :: rest =>
    have ha := has a List.mem_cons_self
    have hle := runningTotals_sum_ge (0 + a) (by linarith)
      (fun c hc => has c (List.mem_cons_of_mem a hc)) (by simp)
    have hne : (runningTotals 0 (a :: b :: rest)).sum ≠ (a :: b :: rest).sum := by
      rw [runningTotals, List.sum_cons, List.sum_cons]
      intro heq
      linarith
    simp only [hne, false_iff]
    simp

/-- The posting stops after some registration, and before the last one only when
the amount is reached. -/
theorem bookedShare_eq (amount posted paid : ℚ) (as : List ℚ) :
    ∃ n, n ≤ as.length ∧ bookedShare amount posted paid as = posted + ((runningTotals paid as).take n).sum ∧
      (n = as.length ∨ amount ≤ bookedShare amount posted paid as) := by
  induction as generalizing posted paid with
  | nil => exact ⟨0, le_rfl, by simp [bookedShare], .inl rfl⟩
  | cons a as ih =>
    by_cases hreached : amount ≤ posted
    · exact ⟨0, by simp, by simp [bookedShare, hreached], .inr (by simp [bookedShare, hreached])⟩
    · obtain ⟨n, hn, hsum, hstop⟩ := ih (posted + (paid + a)) (paid + a)
      have hnext : bookedShare amount posted paid (a :: as) =
          bookedShare amount (posted + (paid + a)) (paid + a) as := by
        simp [bookedShare, hreached]
      rw [hnext]
      refine ⟨n + 1, by simpa using hn, ?_, ?_⟩
      · rw [hsum, runningTotals, List.take_succ_cons, List.sum_cons]
        ring
      · simpa using hstop

theorem bookedShare_of_reached {amount posted paid : ℚ} {as : List ℚ} {n : Nat} (hpaid : 0 ≤ paid)
    (has : ∀ a ∈ as, 0 < a) (hsum : posted + ((runningTotals paid as).take n).sum = amount) (hn : n ≤ as.length) :
    bookedShare amount posted paid as = amount := by
  induction n generalizing posted paid as with
  | zero =>
    have hposted : posted = amount := by simpa using hsum
    cases as with
    | nil => simpa [bookedShare] using hposted
    | cons a as => simp [bookedShare, hposted]
  | succ n ih =>
    match as with
    | [] => simp at hn
    | a :: as =>
      have ha := has a List.mem_cons_self
      have hrest : ∀ b ∈ as, 0 < b := fun b hb => has b (List.mem_cons_of_mem a hb)
      rw [runningTotals, List.take_succ_cons, List.sum_cons] at hsum
      have hnonneg : 0 ≤ ((runningTotals (paid + a) as).take n).sum := by
        apply List.sum_nonneg
        intro s hs
        have hpos := runningTotals_pos (by linarith) hrest s (List.mem_of_mem_take hs)
        exact hpos.le
      have hopen : ¬ amount ≤ posted := by linarith
      rw [bookedShare, if_neg hopen]
      exact ih (by linarith) hrest (by linarith) (by simpa using hn)

theorem bookedShare_eq_sum_iff {amount : ℚ} {as : List ℚ} (has : ∀ a ∈ as, 0 < a) (hle : as.sum ≤ amount) :
    bookedShare amount 0 0 as = as.sum ↔ as.length ≤ 1 ∨
      (as.sum = amount ∧ ∃ n < as.length, ((runningTotals 0 as).take n).sum = amount) := by
  constructor
  · intro heq
    obtain ⟨n, hn, hsum, hstop⟩ := bookedShare_eq amount 0 0 as
    rw [heq, zero_add] at hsum
    by_cases hlast : n = as.length
    · left
      rw [hlast, List.take_of_length_le (runningTotals_length 0 as).le] at hsum
      exact (runningTotals_sum_eq_iff has).mp hsum.symm
    · right
      have hreached := hstop.resolve_left hlast
      rw [heq] at hreached
      have hfull := le_antisymm hle hreached
      exact ⟨hfull, n, by omega, by rw [← hsum, hfull]⟩
  · rintro (hone | ⟨hfull, n, hn, hreached⟩)
    · match as with
      | [] => rfl
      | [a] =>
        have ha := has a List.mem_cons_self
        have hopen : ¬ amount ≤ 0 := by
          have hsum : a ≤ amount := by simpa using hle
          linarith
        simp [bookedShare, hopen]
      | a :: b :: rest => simp at hone
    · rw [hfull]
      exact bookedShare_of_reached le_rfl has (by simpa using hreached) hn.le

theorem RentPayment.createInvoice_frame (p : RentPayment) (invoicing : Invoicing) :
    ∃ move, (p.createInvoice invoicing).1 = { p with move := move } := by
  unfold RentPayment.createInvoice
  split
  · exact ⟨p.move, rfl⟩
  · split
    · exact ⟨_, rfl⟩
    · exact ⟨_, rfl⟩
    · exact ⟨p.move, rfl⟩

/-- What a registration writes besides the reference of its method. -/
theorem registerWith_ok {add : ℚ → ℚ → ℚ} {p p' : RentPayment} {w : PaymentWizard}
    (h : p.registerWith add w = .ok p') :
    0 < w.amountPaid ∧ p'.amountPaid = add p.amountPaid w.amountPaid ∧ p'.amount = p.amount ∧
      p'.dueDate = p.dueDate ∧ p'.state = (if p.amount ≤ add p.amountPaid w.amountPaid then .paid else .partly) ∧
      p'.paymentDate = some w.paymentDate := by
  unfold RentPayment.registerWith at h
  by_cases hpos : w.amountPaid ≤ 0
  · simp [hpos] at h
  · simp only [hpos, if_false] at h
    split at h
    · simp only [Except.ok.injEq] at h
      obtain ⟨move, hmove⟩ := RentPayment.createInvoice_frame _ w.invoicing
      rw [hmove] at h
      subst h
      exact ⟨lt_of_not_ge hpos, rfl, rfl, rfl, rfl, rfl⟩
    · simp only [Except.ok.injEq] at h
      subst h
      exact ⟨lt_of_not_ge hpos, rfl, rfl, rfl, rfl, rfl⟩

theorem register_ok {p p' : RentPayment} {w : PaymentWizard} (h : p.register w = .ok p') :
    0 < w.amountPaid ∧ p'.amountPaid = p.amountPaid + w.amountPaid ∧ p'.amount = p.amount ∧
      p'.dueDate = p.dueDate ∧ p'.state = (if p.amount ≤ p.amountPaid + w.amountPaid then .paid else .partly) ∧
      p'.paymentDate = some w.paymentDate := registerWith_ok h

theorem registerWith_error_iff {add : ℚ → ℚ → ℚ} {p : RentPayment} {w : PaymentWizard} :
    (∃ e, p.registerWith add w = .error e) ↔ w.amountPaid ≤ 0 := by
  unfold RentPayment.registerWith
  by_cases hpos : w.amountPaid ≤ 0
  · simp [hpos]
  · simp only [hpos, if_false]
    split <;> simp

theorem register_error_iff {p : RentPayment} {w : PaymentWizard} :
    (∃ e, p.register w = .error e) ↔ w.amountPaid ≤ 0 := registerWith_error_iff

theorem register_invoiced {p p' : RentPayment} {w : PaymentWizard} (h : p.register w = .ok p')
    (hp : p.invoiced) : p'.invoiced := by
  unfold RentPayment.register RentPayment.registerWith at h
  by_cases hpos : w.amountPaid ≤ 0
  · simp [hpos] at h
  · have hmove : p.move ≠ none := by
      intro hnone
      simp [RentPayment.invoiced, hnone] at hp
    simp only [hpos, if_false, hmove, false_and, and_false, Except.ok.injEq] at h
    subst h
    exact hp

namespace Books

variable {b b' : Books} {w : PaymentWizard} {wizards : List PaymentWizard}

/-- The share of the amount posted so far: the invoice is open for the rest. -/
structure Posted (b : Books) (share : ℚ) : Prop where
  posted : b.posted.sum = b.total * share / b.payment.amount
  residual : b.residual = max (b.total - b.total * share / b.payment.amount) 0

theorem Posted.cleared_iff {share : ℚ} (hposted : b.Posted share) (hamount : 0 < b.payment.amount)
    (htotal : 0 < b.total) : b.cleared ↔ b.payment.amount ≤ share := by
  rw [cleared, hposted.residual, decide_eq_true_iff, max_eq_right_iff, sub_nonpos, le_div_iff₀ hamount]
  exact mul_le_mul_iff_right₀ htotal

theorem register_eq {payment : RentPayment} (h : b.register w .reconciled = .ok b')
    (hpayment : b.payment.register w = .ok payment) (hinvoiced : payment.invoiced) (hpaid : 0 < payment.amountPaid) :
    b' = if b.cleared then { b with payment }
      else { b with
        payment
        posted := b.posted ++ [({ b with payment } : Books).receipt]
        residual := max (b.residual - ({ b with payment } : Books).receipt) 0 } := by
  have hne : payment.amountPaid ≠ 0 := hpaid.ne'
  have hcleared : ({ b with payment } : Books).cleared = b.cleared := rfl
  simp only [register, hpayment, hinvoiced, hcleared] at h
  by_cases hclear : b.cleared
  · simp only [hclear] at h ⊢
    simpa using h.symm
  · have hnot : ¬ payment.amountPaid ≤ 0 := not_le_of_gt hpaid
    simp only [hclear, createAccountPaymentAndReconcile, hinvoiced, hcleared, hnot] at h ⊢
    simpa [hne] using h.symm

theorem Posted.step {share : ℚ} {payment : RentPayment} (hposted : b.Posted share)
    (hamount : 0 < b.payment.amount) (htotal : 0 < b.total) (hsame : payment.amount = b.payment.amount)
    (hb' : b' = if b.cleared then { b with payment }
      else { b with
        payment
        posted := b.posted ++ [({ b with payment } : Books).receipt]
        residual := max (b.residual - ({ b with payment } : Books).receipt) 0 }) :
    b'.payment = payment ∧ b'.total = b.total ∧
      b'.Posted (if b.payment.amount ≤ share then share else share + payment.amountPaid) := by
  by_cases hreached : b.payment.amount ≤ share
  · have hclear := (hposted.cleared_iff hamount htotal).mpr hreached
    simp only [hclear, if_true] at hb'
    subst hb'
    refine ⟨rfl, rfl, ?_, ?_⟩
    · simpa [hreached, hsame] using hposted.posted
    · simpa [hreached, hsame] using hposted.residual
  · have hclear : ¬ b.cleared := fun hclear => hreached ((hposted.cleared_iff hamount htotal).mp hclear)
    have hreceipt : ({ b with payment } : Books).receipt = b.total * payment.amountPaid / b.payment.amount := by
      simp only [receipt, hsame, hamount, htotal.ne', if_true, if_false]
      ring
    have hopen : b.total * share / b.payment.amount ≤ b.total := by
      rw [div_le_iff₀ hamount]
      exact mul_le_mul_of_nonneg_left (not_le.mp hreached).le htotal.le
    have hsplit : b.total * (share + payment.amountPaid) / b.payment.amount =
        b.total * share / b.payment.amount + b.total * payment.amountPaid / b.payment.amount := by ring
    simp only [hclear, hreceipt] at hb'
    subst hb'
    refine ⟨rfl, rfl, ?_, ?_⟩
    · show (b.posted ++ [b.total * payment.amountPaid / b.payment.amount]).sum = b.total * _ / payment.amount
      rw [hsame, if_neg hreached, hsplit, List.sum_append, hposted.posted, List.sum_singleton]
    · show max (b.residual - b.total * payment.amountPaid / b.payment.amount) 0 =
        max (b.total - b.total * _ / payment.amount) 0
      have hleft : b.residual = b.total - b.total * share / b.payment.amount := by
        rw [hposted.residual, max_eq_left (by linarith)]
      rw [hsame, if_neg hreached, hsplit, hleft, sub_sub]

theorem registerAll_cons (h : b.registerAll (w :: wizards) = .ok b') :
    ∃ payment next, b.payment.register w = .ok payment ∧ b.register w .reconciled = .ok next ∧
      next.registerAll wizards = .ok b' := by
  rw [registerAll, List.foldlM_cons] at h
  cases hregister : b.register w .reconciled with
  | error e => simp [hregister, bind, Except.bind] at h
  | ok next =>
    rw [hregister] at h
    cases hpayment : b.payment.register w with
    | error e => simp [register, hpayment] at hregister
    | ok payment => exact ⟨payment, next, rfl, rfl, h⟩

theorem registerAll_posted {share : ℚ} (h : b.registerAll wizards = .ok b') (hposted : b.Posted share)
    (hamount : 0 < b.payment.amount) (htotal : 0 < b.total) (hpaid : 0 ≤ b.payment.amountPaid)
    (hinvoices : Invoices b.payment wizards) :
    b'.posted.sum = b.total * bookedShare b.payment.amount share b.payment.amountPaid
      (wizards.map PaymentWizard.amountPaid) / b.payment.amount := by
  induction wizards generalizing b share with
  | nil =>
    obtain rfl : b = b' := Except.ok.inj h
    exact hposted.posted
  | cons w rest ih =>
    obtain ⟨payment, next, hpayment, hregister, hrest⟩ := registerAll_cons h
    obtain ⟨hw, hpaidNow, hsame, -⟩ := register_ok hpayment
    have hinvoiced := hinvoices w rfl payment hpayment
    obtain ⟨rfl, hnextTotal, hnext⟩ := hposted.step hamount htotal hsame
      (register_eq hregister hpayment hinvoiced (by linarith))
    have hkept : Invoices next.payment rest := fun w' _ p' hp' => register_invoiced hp' hinvoiced
    have hsum := ih hrest hnext (by rwa [hsame]) (by rwa [hnextTotal]) (by linarith) hkept
    rw [hsum, hnextTotal, hsame, hpaidNow, List.map_cons, bookedShare]
    by_cases hreached : b.payment.amount ≤ share
    · -- the invoice is cleared, and stays so
      simp only [hreached, if_true]
      cases rest <;> simp [bookedShare, hreached]
    · simp only [hreached, if_false]

theorem registerAll_pos (h : b.registerAll wizards = .ok b') :
    ∀ a ∈ wizards.map PaymentWizard.amountPaid, 0 < a := by
  induction wizards generalizing b with
  | nil => simp
  | cons w rest ih =>
    obtain ⟨payment, next, hpayment, -, hrest⟩ := registerAll_cons h
    intro a ha
    rcases List.mem_cons.mp ha with rfl | ha
    · exact (register_ok hpayment).1
    · exact ih hrest a ha

theorem registerAll_free (h : b.registerAll wizards = .ok b') (hresidual : b.residual = 0) :
    b'.posted = b.posted := by
  induction wizards generalizing b with
  | nil =>
    obtain rfl : b = b' := Except.ok.inj h
    rfl
  | cons w rest ih =>
    obtain ⟨payment, next, hpayment, hregister, hrest⟩ := registerAll_cons h
    have hclear (p : RentPayment) : ({ b with payment := p } : Books).cleared := by simpa [cleared] using hresidual
    have hnext : next = { b with payment } := by simpa [register, hpayment, hclear] using hregister.symm
    subst hnext
    have hposted := ih hrest hresidual
    exact hposted

end Books

/-- The posted payments match the cash just when at most one registration was
made, or the running totals add up to the whole amount before the last one. -/
theorem receipts_match_iff {b b' : Books} {wizards : List PaymentWizard} (hamount : 0 < b.payment.amount)
    (hfresh : b.Fresh) (hinvoices : Books.Invoices b.payment wizards) (h : b.registerAll wizards = .ok b')
    (hle : (wizards.map PaymentWizard.amountPaid).sum ≤ b.payment.amount) :
    b'.posted.sum = b.total * (wizards.map PaymentWizard.amountPaid).sum / b.payment.amount ↔
      b.total = 0 ∨ wizards.length ≤ 1 ∨
        ((wizards.map PaymentWizard.amountPaid).sum = b.payment.amount ∧
          ∃ n < wizards.length,
            ((runningTotals 0 (wizards.map PaymentWizard.amountPaid)).take n).sum = b.payment.amount) := by
  by_cases hfree : b.total = 0
  · have hposted := Books.registerAll_free h (by rw [hfresh.residual, hfree])
    simp [hposted, hfresh.posted, hfree]
  · have htotal : 0 < b.total := lt_of_le_of_ne b.total_nonneg (Ne.symm hfree)
    have hnone : b.Posted 0 := by
      constructor
      · simp [hfresh.posted]
      · simp [hfresh.residual, b.total_nonneg]
    have hsum := Books.registerAll_posted h hnone hamount htotal hfresh.paid.ge hinvoices
    have hiff := bookedShare_eq_sum_iff (Books.registerAll_pos h) hle
    rw [List.length_map] at hiff
    rw [hsum, hfresh.paid, div_left_inj' hamount.ne', mul_right_inj' hfree, hiff]
    simp [hfree]

/-- A rent of 100 whose invoice of 115, VAT included, is posted. -/
def hundred : Books where
  payment :=
    { id := 0
      name := "RP/1"
      dueDate := .january1
      amount := 100
      move := some ⟨"INV/1", .posted⟩ }
  total := 115
  residual := 115
  total_nonneg := by norm_num

def cash (amountPaid : ℚ) : PaymentWizard where
  amountPaid := amountPaid
  paymentDate := .january1
  paymentMethod := .cash
  reference := none
  createInvoice := true
  invoicing := .failed ""

theorem hundred_invoices (wizards : List PaymentWizard) : Books.Invoices hundred.payment wizards :=
  fun _ _ _ h => register_invoiced h rfl

theorem hundred_after : ∃ b, hundred.registerAll [cash 40, cash 60] = .ok b ∧ b.posted = [46, 115] := by
  have hposted : (hundred.registerAll [cash 40, cash 60]).toOption.map Books.posted = some [46, 115] := by
    decide +kernel
  cases h : hundred.registerAll [cash 40, cash 60] with
  | error e => simp [h, Except.toOption] at hposted
  | ok b => exact ⟨b, rfl, by simpa [h, Except.toOption] using hposted⟩

theorem receipts_match_hundred : ∃ b, hundred.registerAll [cash 40, cash 60] = .ok b ∧
    b.posted.sum ≠ 115 * 100 / 100 := by
  obtain ⟨b, hb, -⟩ := hundred_after
  refine ⟨b, hb, ?_⟩
  have hiff := receipts_match_iff (by decide +kernel) ⟨rfl, rfl, rfl⟩ (hundred_invoices _) hb (by decide +kernel)
  have hcash : (List.map PaymentWizard.amountPaid [cash 40, cash 60]).sum = 100 := by decide +kernel
  rw [hcash] at hiff
  intro hsum
  have hcond := hiff.mp hsum
  revert hcond
  decide +kernel

theorem receipts_exceed_cash : ¬ ∀ (b b' : Books) (wizards : List PaymentWizard), 0 < b.payment.amount →
    b.Fresh → Books.Invoices b.payment wizards → b.registerAll wizards = .ok b' →
    (wizards.map PaymentWizard.amountPaid).sum ≤ b.payment.amount →
    b'.posted.sum = b.total * (wizards.map PaymentWizard.amountPaid).sum / b.payment.amount := by
  intro hall
  obtain ⟨b, hb, hposted⟩ := hundred_after
  have hsum := hall hundred b _ (by decide +kernel) ⟨rfl, rfl, rfl⟩ (hundred_invoices _) hb (by decide +kernel)
  rw [hposted] at hsum
  revert hsum
  decide +kernel

end Rental
