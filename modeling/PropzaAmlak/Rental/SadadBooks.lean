import PropzaAmlak.Rental.PaymentStates

/-! What a SADAD payment books, against the payment wizard: `_mark_paid` of the SADAD
invoice calls `action_create_invoice_and_reconcile` and swallows what it raises. -/

namespace Rental

/-- What `_mark_paid` writes to the rent payment. -/
def RentPayment.sadadWritten (p : RentPayment) (billNumber paymentRef : String) (today : Date) : RentPayment :=
  { p with
    state := .paid
    amountPaid := p.amount
    paymentDate := some today
    paymentMethod := some .sadad
    sadadNumber := some billNumber
    bankRef := some paymentRef }

namespace Books

/-- `action_create_invoice_and_reconcile`, with what it raises. A new invoice is open for
all of its total. -/
def createInvoiceAndReconcile (b : Books) (invoicing : Invoicing) (posting : Posting) : Books × Option Error :=
  match b.payment.createInvoice invoicing with
  | (payment, some e) => ({ b with payment }, some e)
  | (payment, none) =>
    let invoiced := { b with payment, residual := b.total }
    if (payment.state = .paid ∨ payment.state = .partly) ∧ payment.amountPaid ≠ 0 then
      (invoiced.createAccountPaymentAndReconcile posting, none)
    else (invoiced, none)

/-- What `_mark_paid` does to the rent payment and its books. -/
def sadadPaid (b : Books) (billNumber paymentRef : String) (m : Moment) (posting : Posting) : Books :=
  if b.payment.awaiting then
    (({ b with payment := b.payment.sadadWritten billNumber paymentRef m.today } : Books).createInvoiceAndReconcile
      m.invoicing posting).1
  else b

/-- Before there is an invoice, total and residual are those it will have. -/
def Unbilled (b : Books) : Prop := b.payment.move = none → b.residual = b.total

/-- The balance of the rent payment at the scale in which payments are posted. -/
def outstanding (b : Books) : ℚ :=
  let balance := b.payment.amount - b.payment.amountPaid
  if 0 < b.payment.amount then b.total * (balance / b.payment.amount) else balance

end Books

section

variable {b : Books} {p : RentPayment} {invoicing : Invoicing} {posting : Posting} {billNumber paymentRef name : String}
  {m : Moment}

theorem createAccountPayment_payment : (b.createAccountPaymentAndReconcile posting).payment = b.payment := by
  unfold Books.createAccountPaymentAndReconcile
  split
  · rfl
  · split
    · rfl
    · split
      · rfl
      · cases posting <;> rfl

theorem createInvoiceAndReconcile_payment :
    (b.createInvoiceAndReconcile invoicing posting).1.payment = (b.payment.createInvoice invoicing).1 := by
  unfold Books.createInvoiceAndReconcile
  split
  · rename_i hinvoice
    rw [hinvoice]
  · rename_i hinvoice
    dsimp only
    split
    · rw [createAccountPayment_payment, hinvoice]
    · rw [hinvoice]

theorem sadadPaid_payment :
    (b.sadadPaid billNumber paymentRef m posting).payment = b.payment.sadadPaid billNumber paymentRef m := by
  unfold Books.sadadPaid RentPayment.sadadPaid
  split
  · exact createInvoiceAndReconcile_payment
  · rfl

/-- Where there is still no invoice, the invoicing has raised. -/
theorem createInvoice_move (h : (p.createInvoice invoicing).1.move = none) :
    p.move = none ∧ ∃ e, p.createInvoice invoicing = (p, some e) := by
  unfold RentPayment.createInvoice at h ⊢
  split at h
  · rename_i move hmove
    have hnone : p.move = none := h
    rw [hnone] at hmove
    cases hmove
  · cases invoicing with
    | posted name => cases h
    | unposted name reason => cases h
    | failed reason => exact ⟨h, _, rfl⟩

theorem Books.Unbilled.sadadPaid (hb : b.Unbilled) : (b.sadadPaid billNumber paymentRef m posting).Unbilled := by
  intro hnone
  rw [sadadPaid_payment] at hnone
  unfold RentPayment.sadadPaid at hnone
  unfold Books.sadadPaid
  split at hnone
  · rename_i hawaiting
    obtain ⟨hmove, e, hraised⟩ := createInvoice_move hnone
    have hraised : (b.payment.sadadWritten billNumber paymentRef m.today).createInvoice m.invoicing =
      (b.payment.sadadWritten billNumber paymentRef m.today, some e) := hraised
    rw [if_pos hawaiting, Books.createInvoiceAndReconcile, hraised]
    exact hb hmove
  · rename_i hawaiting
    rw [if_neg hawaiting]
    exact hb hnone

end

/-- The books of a rent payment with its SADAD invoices, the latest first. -/
structure Accounts where
  books : Books
  invoices : List SadadInvoice
  unbilled : books.Unbilled

namespace Accounts

def collection (a : Accounts) : Collection := ⟨a.books.payment, a.invoices⟩

/-- `_mark_paid` of the invoice at `k` -/
def markPaid (a : Accounts) (k : Nat) (paymentRef channel : String) (m : Moment) (posting : Posting) : Accounts :=
  match a.invoices[k]? with
  | none => a
  | some invoice =>
    if invoice.state = .paid then a
    else
      { books := a.books.sadadPaid invoice.billNumber paymentRef m posting
        invoices := a.invoices.set k { invoice with
          state := .paid
          paidDate := some m.now
          paymentRef := some paymentRef
          paymentChannel := some channel }
        unbilled := a.unbilled.sadadPaid }

/-- The accounting is hidden from the rent payment and the invoices. -/
theorem markPaid_collection (a : Accounts) (k : Nat) (paymentRef channel : String) (m : Moment) (posting : Posting) :
    (a.markPaid k paymentRef channel m posting).collection = a.collection.markPaidSadad k paymentRef channel m := by
  unfold markPaid Collection.markPaidSadad
  cases hk : a.invoices[k]? with
  | none => simp [collection, hk]
  | some invoice =>
    by_cases hpaid : invoice.state = .paid
    · simp [collection, hk, hpaid]
    · simp [collection, hk, hpaid, sadadPaid_payment]

end Accounts

/-- A registration of what is outstanding, with its invoice. -/
structure PaymentWizard.Settles (w : PaymentWizard) (p : RentPayment) (invoicing : Invoicing) : Prop where
  amount : w.amountPaid = p.amount - p.amountPaid
  createInvoice : w.createInvoice = true
  invoicing : w.invoicing = invoicing

/-- The same invoice, amounts and state. -/
structure Books.Same (b b' : Books) : Prop where
  move : b.payment.move = b'.payment.move
  state : b.payment.state = b'.payment.state
  amountPaid : b.payment.amountPaid = b'.payment.amountPaid
  total : b.total = b'.total
  residual : b.residual = b'.residual
  posted : b.posted = b'.posted

/-- The step from `b` to `b'` leaves the payment with its one invoice posted, posts what
was outstanding, and does to the accounts what one registration of that would do. -/
structure Books.SettledAlike (b b' : Books) (invoicing : Invoicing) : Prop where
  invoiced : b'.payment.invoiced
  receipts : ∃ receipts, b'.posted = b.posted ++ receipts ∧ receipts.sum = b.outstanding
  cash : ∀ w : PaymentWizard, w.Settles b.payment invoicing → ∃ b'', b.register w .reconciled = .ok b'' ∧ b'.Same b''

/-- Nothing has been paid and no invoice made for a rent that is due; or an invoice
of nothing. -/
def Books.Untouched (b : Books) : Prop :=
  0 < b.payment.amount ∧ b.payment.amountPaid < b.payment.amount ∧
    ((b.payment.move = none ∧ b.payment.paymentType = .rent ∧ (b.payment.amountPaid = 0 ∨ b.total = 0)) ∨
      (b.payment.invoiced ∧ b.total = 0 ∧ b.residual = 0))

section

variable {b : Books} {p : RentPayment} {w : PaymentWizard} {m : Moment} {billNumber paymentRef name : String}

/-- The books once `p` has been invoiced and paid in full. -/
def Books.invoicedInFull (b : Books) (p : RentPayment) : Books :=
  if p.amount ≤ 0 ∨ b.total = 0 then { b with payment := p, residual := b.total }
  else { b with payment := p, residual := 0, posted := b.posted ++ [b.total] }

theorem invoicedInFull_frame : (b.invoicedInFull p).payment = p ∧ (b.invoicedInFull p).total = b.total := by
  unfold Books.invoicedInFull
  split
  · exact ⟨rfl, rfl⟩
  · exact ⟨rfl, rfl⟩

theorem createAccountPayment_inFull (hresidual : b.residual = b.total) (hinvoiced : p.invoiced)
    (hpaid : p.amountPaid = p.amount) :
    ({ b with payment := p } : Books).createAccountPaymentAndReconcile .reconciled = b.invoicedInFull p := by
  unfold Books.createAccountPaymentAndReconcile Books.invoicedInFull
  by_cases hfree : b.total = 0
  · simp [Books.cleared, hresidual, hfree]
  · by_cases hamount : p.amount ≤ 0
    · simp [Books.cleared, hinvoiced, hpaid, hamount, hresidual]
    · have hpos : 0 < p.amount := not_le.mp hamount
      simp [Books.cleared, Books.receipt, hinvoiced, hpaid, hamount, hfree, hresidual, hpos, hpos.ne']

/-- A new invoice is made unless there is one that is not cancelled. -/
def RentPayment.billable (p : RentPayment) : Prop := ∀ move ∈ p.move, move.state = .cancel

theorem createInvoice_billable (h : p.billable) :
    p.createInvoice (.posted name) = ({ p with move := some ⟨name, .posted⟩ }, none) := by
  have hnone : p.move.filter (fun move => move.state ≠ .cancel) = none := by
    rw [Option.filter_eq_none_iff]
    intro move hmove
    simp [h move hmove]
  unfold RentPayment.createInvoice
  rw [hnone]

theorem createInvoice_taken {move : Move} (hmove : p.move = some move) (hstate : move.state ≠ .cancel)
    (invoicing : Invoicing) : ∃ e, p.createInvoice invoicing = (p, some e) := by
  have htaken : p.move.filter (fun move => move.state ≠ .cancel) = some move := by
    rw [hmove, Option.filter_some, if_pos (by simpa using hstate)]
  unfold RentPayment.createInvoice
  rw [htaken]
  exact ⟨_, rfl⟩

/-- `p` is the rent payment of `b`, paid in full. -/
structure PaidInFull (b : Books) (p : RentPayment) : Prop where
  amount : p.amount = b.payment.amount
  amountPaid : p.amountPaid = b.payment.amount
  state : p.state = .paid

theorem sadadWritten_paid (b : Books) (billNumber paymentRef : String) (today : Date) (move : Option Move) :
    PaidInFull b { b.payment.sadadWritten billNumber paymentRef today with move } := ⟨rfl, rfl, rfl⟩

theorem sadadPaid_billable (hawaiting : b.payment.awaiting) (hbillable : b.payment.billable)
    (hposts : m.invoicing = .posted name) : ∃ p, b.sadadPaid billNumber paymentRef m .reconciled = b.invoicedInFull p ∧
      PaidInFull b p ∧ p.move = some ⟨name, .posted⟩ := by
  refine ⟨_, ?_, sadadWritten_paid b billNumber paymentRef m.today (some ⟨name, .posted⟩), rfl⟩
  have hcreate : (b.payment.sadadWritten billNumber paymentRef m.today).createInvoice (.posted name) = _ :=
    createInvoice_billable hbillable
  rw [Books.sadadPaid, if_pos hawaiting, Books.createInvoiceAndReconcile, hposts, hcreate]
  by_cases hamount : b.payment.amount = 0
  · simp [Books.invoicedInFull, RentPayment.sadadWritten, hamount]
  · dsimp only
    rw [if_pos ⟨.inl rfl, hamount⟩]
    exact createAccountPayment_inFull (b := { b with residual := b.total })
      (p := { b.payment.sadadWritten billNumber paymentRef m.today with move := some ⟨name, .posted⟩ }) rfl rfl rfl

theorem sadadPaid_taken (hawaiting : b.payment.awaiting) {move : Move} (hmove : b.payment.move = some move)
    (hstate : move.state ≠ .cancel) : ∃ p, b.sadadPaid billNumber paymentRef m .reconciled = { b with payment := p } ∧
      PaidInFull b p ∧ p.move = b.payment.move := by
  refine ⟨_, ?_, sadadWritten_paid b billNumber paymentRef m.today b.payment.move, rfl⟩
  have htaken : (b.payment.sadadWritten billNumber paymentRef m.today).move = some move := hmove
  obtain ⟨e, hraised⟩ := createInvoice_taken htaken hstate m.invoicing
  rw [Books.sadadPaid, if_pos hawaiting, Books.createInvoiceAndReconcile, hraised]
  rfl

theorem register_move {p' : RentPayment} (h : p.register w = .ok p') (hcreate : w.createInvoice = true)
    (hposts : w.invoicing = .posted name) :
    p'.move = if p.move = none ∧ p.paymentType = .rent then some ⟨name, .posted⟩ else p.move := by
  unfold RentPayment.register RentPayment.registerWith at h
  split at h
  · cases h
  simp only [hcreate, true_and] at h
  split at h
  · rename_i hrent
    obtain rfl := Except.ok.inj h
    rw [if_pos hrent, hposts, createInvoice_billable (by simp [RentPayment.billable, hrent.1])]
  · rename_i hrent
    obtain rfl := Except.ok.inj h
    rw [if_neg hrent]

/-- What the wizard asks of the invoice is asked again where the payment is posted. -/
theorem register_booked (hpayment : b.payment.register w = .ok p) : b.register w .reconciled =
    .ok (({ b with payment := p } : Books).createAccountPaymentAndReconcile .reconciled) := by
  unfold Books.register
  rw [hpayment]
  dsimp only
  split
  · rfl
  · rename_i hnone
    unfold Books.createAccountPaymentAndReconcile
    by_cases hinvoiced : p.invoiced
    · by_cases hcleared : ({ b with payment := p } : Books).cleared
      · simp [hcleared]
      · have hzero : p.amountPaid = 0 := by
          by_contra hpaid
          exact hnone ⟨hinvoiced, hpaid, hcleared⟩
        simp [hzero]
    · simp [hinvoiced]

/-- A registration of the balance. -/
structure Settled (b : Books) (name : String) (p : RentPayment) : Prop extends PaidInFull b p where
  open_ : b.payment.amountPaid < b.payment.amount
  move : p.move = if b.payment.move = none ∧ b.payment.paymentType = .rent then some ⟨name, .posted⟩ else b.payment.move

theorem register_settles (hw : w.Settles b.payment (.posted name)) (h : b.payment.register w = .ok p) :
    Settled b name p := by
  obtain ⟨hpos, hpaid, hamount, -, hstate, -⟩ := register_ok h
  have htotal : b.payment.amountPaid + w.amountPaid = b.payment.amount := by rw [hw.amount]; ring
  rw [htotal] at hpaid hstate
  have hopen : b.payment.amountPaid < b.payment.amount := by linarith [hw.amount]
  exact ⟨⟨hamount, hpaid, by simpa using hstate⟩, hopen, register_move h hw.createInvoice hw.invoicing⟩

/-- The wizard takes what is open, if anything is. -/
theorem register_iff_open (hw : w.Settles b.payment (.posted name)) :
    (∃ p, b.payment.register w = .ok p) ↔ b.payment.amountPaid < b.payment.amount := by
  constructor
  · rintro ⟨p, hp⟩
    exact (register_settles hw hp).open_
  · intro hopen
    cases hregister : b.payment.register w with
    | error e =>
      have hrefused := register_error_iff.mp ⟨e, hregister⟩
      linarith [hw.amount]
    | ok p => exact ⟨p, rfl⟩

theorem settles_exists (p : RentPayment) (invoicing : Invoicing) : ∃ w : PaymentWizard, w.Settles p invoicing :=
  ⟨⟨p.amount - p.amountPaid, .january1, .cash, none, true, invoicing⟩, rfl, rfl, rfl⟩

/-- What the wizard leaves where it settles what is open. -/
theorem settledAlike_cash {b' : Books} (h : b.SettledAlike b' (.posted name)) : ∃ p, Settled b name p ∧
    b'.Same (({ b with payment := p } : Books).createAccountPaymentAndReconcile .reconciled) := by
  obtain ⟨w, hw⟩ := settles_exists b.payment (.posted name)
  obtain ⟨b'', hregister, hsame⟩ := h.cash w hw
  cases hpayment : b.payment.register w with
  | error e => simp [Books.register, hpayment] at hregister
  | ok p =>
    rw [register_booked hpayment] at hregister
    obtain rfl := Except.ok.inj hregister
    exact ⟨p, register_settles hw hpayment, hsame⟩

theorem cash_of_settled {b' : Books} (hopen : b.payment.amountPaid < b.payment.amount)
    (hsame : ∀ p, Settled b name p → b'.Same (({ b with payment := p } : Books).createAccountPaymentAndReconcile
      .reconciled)) (w : PaymentWizard) (hw : w.Settles b.payment (.posted name)) :
    ∃ b'', b.register w .reconciled = .ok b'' ∧ b'.Same b'' := by
  obtain ⟨p, hp⟩ := (register_iff_open hw).mpr hopen
  exact ⟨_, register_booked hp, hsame p (register_settles hw hp)⟩

/-- A rent without an invoice: both invoice and book all of it. -/
theorem alike_unbilled (hunbilled : b.Unbilled) (hmove : b.payment.move = none) (htype : b.payment.paymentType = .rent)
    (hp : PaidInFull b p)
    (hinvoice : p.move = some ⟨name, .posted⟩) :
    b.SettledAlike (b.invoicedInFull p) (.posted name) ↔ 0 < b.payment.amount ∧
      b.payment.amountPaid < b.payment.amount ∧ (b.payment.amountPaid = 0 ∨ b.total = 0) := by
  obtain ⟨hamount, hpaid, hstate⟩ := hp
  have hposted : (b.invoicedInFull p).posted = b.posted ++ if p.amount ≤ 0 ∨ b.total = 0 then [] else [b.total] := by
    unfold Books.invoicedInFull
    split <;> simp
  constructor
  · intro halike
    obtain ⟨q, hq, -⟩ := settledAlike_cash halike
    obtain ⟨receipts, hreceipts, hsum⟩ := halike.receipts
    rw [hposted] at hreceipts
    obtain rfl := List.append_cancel_left hreceipts
    have hbalance : 0 < b.payment.amount - b.payment.amountPaid := sub_pos.mpr hq.open_
    have hpos : 0 < b.payment.amount := by
      by_contra hneg
      simp only [hamount, not_lt.mp hneg, true_or, if_true, List.sum_nil, Books.outstanding, hneg, if_false] at hsum
      linarith
    refine ⟨hpos, hq.open_, ?_⟩
    by_cases hfree : b.total = 0
    · exact .inr hfree
    · left
      simp only [hamount, not_le.mpr hpos, hfree, or_self, if_false, List.sum_singleton, Books.outstanding, hpos,
        if_true] at hsum
      have hshare := mul_left_cancel₀ hfree ((mul_one b.total).trans hsum)
      rw [eq_div_iff hpos.ne'] at hshare
      linarith
  · rintro ⟨hpos, hopen, hwhole⟩
    refine ⟨?_, ⟨_, hposted, ?_⟩, cash_of_settled hopen fun q hq => ?_⟩
    · rw [invoicedInFull_frame.1]
      simp [RentPayment.invoiced, hinvoice]
    · by_cases hfree : b.total = 0
      · simp [Books.outstanding, hfree, hpos]
      · have hzero := hwhole.resolve_right hfree
        simp [hamount, not_le.mpr hpos, hfree, Books.outstanding, hpos, hzero, hpos.ne']
    · have hqmove := hq.move
      rw [if_pos ⟨hmove, htype⟩] at hqmove
      have hqinvoiced : q.invoiced := by simp [RentPayment.invoiced, hqmove]
      rw [createAccountPayment_inFull (hunbilled hmove) hqinvoiced (hq.amountPaid.trans hq.amount.symm)]
      unfold Books.invoicedInFull
      rw [hamount, hq.amount]
      split
      · exact ⟨hinvoice.trans hqmove.symm, hstate.trans hq.state.symm, hpaid.trans hq.amountPaid.symm, rfl, rfl, rfl⟩
      · exact ⟨hinvoice.trans hqmove.symm, hstate.trans hq.state.symm, hpaid.trans hq.amountPaid.symm, rfl, rfl, rfl⟩

/-- An invoice that stands in the way: SADAD books nothing, the wizard all that is open. -/
theorem alike_taken {move : Move} (hmove : b.payment.move = some move)
    (hp : PaidInFull b p)
    (hkept : p.move = b.payment.move) :
    b.SettledAlike { b with payment := p } (.posted name) ↔ 0 < b.payment.amount ∧
      b.payment.amountPaid < b.payment.amount ∧ b.payment.invoiced ∧ b.total = 0 ∧ b.residual = 0 := by
  obtain ⟨hamount, hpaid, hstate⟩ := hp
  have hinvoiced : p.invoiced = b.payment.invoiced := by rw [RentPayment.invoiced, hkept, RentPayment.invoiced]
  have hsettled : ∀ {q}, Settled b name q → q.move = b.payment.move := by
    intro q hq
    have hqmove := hq.move
    rwa [if_neg (by simp [hmove])] at hqmove
  constructor
  · intro halike
    obtain ⟨q, hq, hsame⟩ := settledAlike_cash halike
    obtain ⟨receipts, hreceipts, hsum⟩ := halike.receipts
    have hnothing : receipts = [] := by simpa using hreceipts
    have hbalance : 0 < b.payment.amount - b.payment.amountPaid := sub_pos.mpr hq.open_
    have hpos : 0 < b.payment.amount := by
      by_contra hneg
      simp only [hnothing, List.sum_nil, Books.outstanding, hneg, if_false] at hsum
      linarith
    have hfree : b.total = 0 := by
      simp only [hnothing, List.sum_nil, Books.outstanding, hpos, if_true] at hsum
      have hshare : (b.payment.amount - b.payment.amountPaid) / b.payment.amount ≠ 0 := (div_pos hbalance hpos).ne'
      exact (mul_eq_zero.mp hsum.symm).resolve_right hshare
    have hposted : b.payment.invoiced := hinvoiced ▸ halike.invoiced
    refine ⟨hpos, hq.open_, hposted, hfree, ?_⟩
    by_contra hresidual
    have hqinvoiced : q.invoiced := by rwa [RentPayment.invoiced, hsettled hq]
    have hsame := hsame.posted
    simp [Books.createAccountPaymentAndReconcile, Books.cleared, hqinvoiced, hresidual, hq.amountPaid,
      not_le.mpr hpos] at hsame
  · rintro ⟨hpos, hopen, hposted, hfree, hresidual⟩
    refine ⟨hinvoiced ▸ hposted, ⟨[], by simp, ?_⟩, cash_of_settled hopen fun q hq => ?_⟩
    · simp [Books.outstanding, hpos, hfree]
    · have hcleared : ({ b with payment := q } : Books).createAccountPaymentAndReconcile .reconciled =
          { b with payment := q } := by
        simp [Books.createAccountPaymentAndReconcile, Books.cleared, hresidual]
      rw [hcleared]
      exact ⟨hkept.trans (hsettled hq).symm, hstate.trans hq.state.symm, hpaid.trans hq.amountPaid.symm, rfl, rfl, rfl⟩

theorem not_alike_of_move {b' : Books} (hother : ¬(b.payment.move = none ∧ b.payment.paymentType = .rent))
    (hmove : b'.payment.move ≠ b.payment.move) : ¬ b.SettledAlike b' (.posted name) := by
  intro halike
  obtain ⟨q, hq, hsame⟩ := settledAlike_cash halike
  have hqmove := hq.move
  rw [if_neg hother] at hqmove
  have hsame := hsame.move
  rw [createAccountPayment_payment] at hsame
  exact hmove (hsame.trans hqmove)

end

/-- A SADAD payment books what was outstanding, as the wizard does, exactly if the rent
has not been touched. -/
theorem paths_alike_iff {a : Accounts} {k : Nat} {invoice : SadadInvoice} {paymentRef channel name : String}
    {m : Moment}
    (hk : a.invoices[k]? = some invoice) (hunpaid : invoice.state ≠ .paid) (hawaiting : a.books.payment.awaiting)
    (hposts : m.invoicing = .posted name) :
    a.books.SettledAlike (a.markPaid k paymentRef channel m .reconciled).books (.posted name) ↔ a.books.Untouched := by
  have hbooks : (a.markPaid k paymentRef channel m .reconciled).books =
      a.books.sadadPaid invoice.billNumber paymentRef m .reconciled := by
    simp [Accounts.markPaid, hk, hunpaid]
  rw [hbooks, Books.Untouched]
  by_cases hbillable : a.books.payment.billable
  · obtain ⟨p, hafter, hp, hinvoice⟩ := sadadPaid_billable hawaiting hbillable hposts
    rw [hafter]
    by_cases hrent : a.books.payment.move = none ∧ a.books.payment.paymentType = .rent
    · rw [alike_unbilled a.unbilled hrent.1 hrent.2 hp hinvoice]
      simp [hrent, RentPayment.invoiced]
    · have hmove : (a.books.invoicedInFull p).payment.move ≠ a.books.payment.move := by
        rw [invoicedInFull_frame.1, hinvoice]
        intro hsame
        have hcancelled := hbillable _ hsame.symm
        cases hcancelled
      have hinvoiced : ¬ a.books.payment.invoiced := by
        intro hinvoiced
        obtain ⟨move, hlinked, hposted⟩ := Option.any_eq_true _ _ |>.mp hinvoiced
        have hcancelled := hbillable move hlinked
        simp [hcancelled] at hposted
      have hnot : ¬ a.books.SettledAlike (a.books.invoicedInFull p) (.posted name) := not_alike_of_move hrent hmove
      simp only [hnot, hinvoiced, Bool.false_eq_true, false_and, or_false, false_iff]
      rintro ⟨-, -, hnone, htype, -⟩
      exact hrent ⟨hnone, htype⟩
  · obtain ⟨move, hmove, hstate⟩ : ∃ move, a.books.payment.move = some move ∧ move.state ≠ .cancel := by
      simpa [RentPayment.billable] using hbillable
    obtain ⟨p, hafter, hp, hkept⟩ := sadadPaid_taken hawaiting hmove hstate
    rw [hafter, alike_taken hmove hp hkept]
    simp [hmove]

/-- A SADAD invoice of the rent of 100, and no other invoice yet. -/
def hundredBill : SadadInvoice where
  billNumber := "999900001000011"

def hundredUnbilled : Accounts where
  books := { hundred with payment := { hundred.payment with move := none } }
  invoices := [hundredBill]
  unbilled _ := rfl

def hundredPaid : Moment := ⟨0, .january1, .posted "INV/1"⟩

theorem paths_alike_hundred : hundredUnbilled.books.SettledAlike
    (hundredUnbilled.markPaid 0 "REF" "Simulation" hundredPaid .reconciled).books (.posted "INV/1") := by
  have hbill : hundredUnbilled.invoices[0]? = some hundredBill := rfl
  apply (paths_alike_iff hbill (by decide) rfl rfl).mpr
  exact ⟨by decide +kernel, by decide +kernel, .inl ⟨rfl, rfl, .inl rfl⟩⟩

theorem hundred_unbilled : hundred.Unbilled := fun _ => rfl

/-- The invoice has been posted before. -/
def hundredBilled : Accounts := ⟨hundred, [hundredBill], hundred_unbilled⟩

theorem billed_books : (hundredBilled.markPaid 0 "REF" "Simulation" hundredPaid .reconciled).books.posted = [] ∧
    hundredBilled.books.outstanding = 115 := by
  decide +kernel

/-- The money is booked nowhere. -/
theorem billed_unbooked : ¬ ∀ (a : Accounts) (k : Nat) (invoice : SadadInvoice) (paymentRef channel name : String)
    (m : Moment), a.invoices[k]? = some invoice → invoice.state ≠ .paid → a.books.payment.awaiting →
    m.invoicing = .posted name →
    a.books.SettledAlike (a.markPaid k paymentRef channel m .reconciled).books (.posted name) := by
  intro halike
  have hsettled := halike hundredBilled 0 hundredBill "REF" "Simulation" "INV/1" hundredPaid rfl (by decide) rfl rfl
  obtain ⟨receipts, hposted, hsum⟩ := hsettled.receipts
  obtain ⟨hnone, houtstanding⟩ := billed_books
  rw [hnone] at hposted
  obtain ⟨-, rfl⟩ := List.append_eq_nil_iff.mp hposted.symm
  rw [houtstanding] at hsum
  exact absurd hsum (by decide +kernel)

end Rental
