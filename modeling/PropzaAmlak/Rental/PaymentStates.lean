import PropzaAmlak.Data.Doubles
import PropzaAmlak.Rental.Receipts
import PropzaAmlak.Tx.Histories

/-! The states of a rent payment under all that writes them: the wizard, the
buttons, the cron and the SADAD invoices of `sa_sadad_invoice.py`. Amounts are doubles,
and the wizard rounds the sum that it stores. -/

namespace Rental

inductive SadadState where
  | pending
  | paid
  | cancelled
  | expired
deriving DecidableEq

structure SadadInvoice where
  billNumber : String
  state : SadadState := .pending
  paidDate : Option Int := none
  paymentRef : Option String := none
  paymentChannel : Option String := none
deriving DecidableEq

/-- What the body of a SADAD webhook holds, its token checked. -/
structure SadadCallback where
  billNumber : Option String
  amount : Option ℚ
  paymentRef : String := ""
  channel : String := "Webhook"

/-- A rent payment and its SADAD invoices, the latest first. -/
structure Collection where
  payment : RentPayment
  invoices : List SadadInvoice

/-- The moment of a payment, its seconds as `now`, and how far the invoicing gets. -/
structure Moment where
  now : Int
  today : Date
  invoicing : Invoicing

inductive SadadReply where
  | error (message : String)
  | alreadyPaid
  | success
deriving DecidableEq

namespace RentPayment

/-- `rp.state in ('pending', 'overdue', 'partial')` -/
def awaiting (p : RentPayment) : Bool := p.state = .pending || p.state = .overdue || p.state = .partly

/-- What `_mark_paid` of a SADAD invoice does to its rent payment. -/
def sadadPaid (p : RentPayment) (billNumber paymentRef : String) (m : Moment) : RentPayment :=
  if p.awaiting then
    (({ p with
      state := .paid
      amountPaid := p.amount
      paymentDate := some m.today
      paymentMethod := some .sadad
      sadadNumber := some billNumber
      bankRef := some paymentRef } : RentPayment).createInvoice m.invoicing).1
  else p

end RentPayment

namespace Collection

/-- `_mark_paid` of the invoice at `k` -/
def markPaidSadad (c : Collection) (k : Nat) (paymentRef channel : String) (m : Moment) : Collection :=
  match c.invoices[k]? with
  | none => c
  | some invoice =>
    if invoice.state = .paid then c
    else
      { payment := c.payment.sadadPaid invoice.billNumber paymentRef m
        invoices := c.invoices.set k { invoice with
          state := .paid
          paidDate := some m.now
          paymentRef := some paymentRef
          paymentChannel := some channel } }

/-- `search([('bill_number', '=', bill_number)], limit=1)` -/
def findBill (c : Collection) (billNumber : String) : Option Nat :=
  c.invoices.findIdx? fun invoice => invoice.billNumber = billNumber

def sadadState (c : Collection) (k : Nat) : Option SadadState := c.invoices[k]?.map SadadInvoice.state

/-- `sadad_webhook`. An amount other than the invoice's is only logged. -/
def sadadWebhook (c : Collection) (callback : SadadCallback) (m : Moment) : SadadReply × Collection :=
  match callback.billNumber.filter (· ≠ "") with
  | none => (.error "missing bill_number", c)
  | some billNumber =>
    match c.findBill billNumber with
    | none => (.error "bill not found", c)
    | some k =>
      if c.sadadState k = some .paid then (.alreadyPaid, c)
      else if c.sadadState k = some .cancelled then (.error "invoice cancelled", c)
      else (.success, c.markPaidSadad k callback.paymentRef callback.channel m)

/-- `action_simulate_payment` of the invoice at `k`; the page that simulates a
payment has the same guard. -/
def simulatePayment (c : Collection) (k : Nat) (paymentRef : String) (m : Moment) : Except Error Collection :=
  if c.sadadState k ≠ some .pending then .error (.userError "الفاتورة ليست في حالة انتظار السداد")
  else .ok (c.markPaidSadad k paymentRef "Simulation" m)

/-- The invoice a callback pays, if any. -/
def payable (c : Collection) (callback : SadadCallback) : Option Nat :=
  (callback.billNumber.filter (· ≠ "")).bind fun billNumber =>
    (c.findBill billNumber).filter fun k => c.sadadState k ≠ some .paid ∧ c.sadadState k ≠ some .cancelled

inductive Action where
  | register (wizard : PaymentWizard)
  | markPaid (today : Date)
  | markOverdue (today : Date)
  | cancel
  | sadad (callback : SadadCallback) (m : Moment)
  | simulate (k : Nat) (paymentRef : String) (m : Moment)

def act (c : Collection) : Action → Collection
  | .register wizard => { c with payment := (c.payment.registerWith Double.add wizard).toOption.getD c.payment }
  | .markPaid today => { c with payment := (c.payment.markPaid today).toOption.getD c.payment }
  | .markOverdue today => { c with payment := c.payment.markOverdue today }
  | .cancel => { c with payment := c.payment.cancel }
  | .sadad callback m => (c.sadadWebhook callback m).2
  | .simulate k paymentRef m => (c.simulatePayment k paymentRef m).toOption.getD c

/-- The money that an action records as received. -/
def received (c : Collection) : Action → ℚ
  | .register wizard => if wizard.amountPaid ≤ 0 then 0 else wizard.amountPaid
  | .markPaid _ => if c.payment.state = .cancelled then 0 else max (c.payment.amount - c.payment.amountPaid) 0
  | .markOverdue _ => 0
  | .cancel => 0
  | .sadad callback _ =>
    if (c.payable callback).isSome then (callback.amount.filter (· ≠ 0)).getD c.payment.amount else 0
  | .simulate k _ _ => if c.sadadState k = some .pending then c.payment.amount else 0

/-- The state agrees with the money. -/
structure Sound (c : Collection) : Prop where
  paid : c.payment.state ≠ .cancelled → (c.payment.state = .paid ↔ c.payment.amount ≤ c.payment.amountPaid)
  cancelled : c.payment.state = .cancelled → c.payment.amountPaid = 0

structure Records (c : Collection) (action : Action) : Prop where
  cancelled : c.payment.state = .cancelled → (c.act action).payment.state = .cancelled
  money : (c.act action).payment.amountPaid = c.payment.amountPaid + c.received action

/-- The actions whose guards do not let through too much. -/
def Allowed (c : Collection) : Action → Prop
  | .register wizard => wizard.amountPaid ≤ 0 ∨ c.payment.state ≠ .cancelled ∧
    Double.add c.payment.amountPaid wizard.amountPaid = c.payment.amountPaid + wizard.amountPaid
  | .markPaid _ => c.payment.state = .cancelled ∨ c.payment.amountPaid ≤ c.payment.amount
  | .markOverdue _ => True
  | .cancel => c.payment.amountPaid = 0
  | .sadad callback _ => (c.payable callback).isSome → c.payment.awaiting ∧
    c.payment.amountPaid + (callback.amount.filter (· ≠ 0)).getD c.payment.amount = c.payment.amount
  | .simulate k _ _ => c.sadadState k = some .pending → c.payment.awaiting ∧ c.payment.amountPaid = 0

end Collection

/-- A payment just created, with any SADAD invoices. -/
structure Collection.New (c : Collection) : Prop where
  amount : 0 < c.payment.amount
  state : c.payment.state = .pending
  amountPaid : c.payment.amountPaid = 0

namespace RentPayment

variable {p : RentPayment}

theorem awaiting_iff : p.awaiting ↔ p.state ≠ .paid ∧ p.state ≠ .cancelled := by
  cases h : p.state <;> simp [awaiting, h]

theorem sadadPaid_awaiting (h : p.awaiting) (billNumber paymentRef : String) (m : Moment) :
    (p.sadadPaid billNumber paymentRef m).amount = p.amount ∧
      (p.sadadPaid billNumber paymentRef m).state = .paid ∧
      (p.sadadPaid billNumber paymentRef m).amountPaid = p.amount := by
  rw [sadadPaid, if_pos h]
  obtain ⟨move, hmove⟩ := createInvoice_frame { p with
      state := .paid
      amountPaid := p.amount
      paymentDate := some m.today
      paymentMethod := some .sadad
      sadadNumber := some billNumber
      bankRef := some paymentRef } m.invoicing
  rw [hmove]
  exact ⟨rfl, rfl, rfl⟩

theorem sadadPaid_settled (h : ¬ p.awaiting) (billNumber paymentRef : String) (m : Moment) :
    p.sadadPaid billNumber paymentRef m = p := by
  rw [sadadPaid, if_neg h]

theorem markOverdue_frame (p : RentPayment) (today : Date) :
    (p.markOverdue today).amount = p.amount ∧ (p.markOverdue today).amountPaid = p.amountPaid ∧
      ((p.markOverdue today).state = .paid ↔ p.state = .paid) ∧
      ((p.markOverdue today).state = .cancelled ↔ p.state = .cancelled) := by
  unfold markOverdue
  split
  · rename_i h
    obtain ⟨hstate | hstate, -⟩ := h <;> simp [hstate]
  · simp

end RentPayment

namespace Collection

variable {c : Collection} {callback : SadadCallback} {m : Moment}

theorem sadadWebhook_payment (c : Collection) (callback : SadadCallback) (m : Moment) :
    ∃ billNumber, (c.sadadWebhook callback m).2.payment =
    if (c.payable callback).isSome then c.payment.sadadPaid billNumber callback.paymentRef m else c.payment := by
  unfold sadadWebhook payable
  cases hbill : callback.billNumber.filter (· ≠ "") with
  | none => exact ⟨"", by simp⟩
  | some billNumber =>
    cases hfound : c.findBill billNumber with
    | none => exact ⟨"", by simp [hfound]⟩
    | some k =>
      obtain ⟨hk, -⟩ := List.findIdx?_eq_some_iff_getElem.mp hfound
      have hget : c.invoices[k]? = some c.invoices[k] := List.getElem?_eq_getElem hk
      have hstate : c.sadadState k = some c.invoices[k].state := by simp [sadadState, hget]
      refine ⟨c.invoices[k].billNumber, ?_⟩
      simp only [hfound, Option.bind_some]
      by_cases hpaid : c.invoices[k].state = .paid
      · simp [hstate, hpaid]
      · by_cases hcancelled : c.invoices[k].state = .cancelled
        · simp [hstate, hcancelled]
        · simp [hstate, hpaid, hcancelled, markPaidSadad, hget]

theorem simulatePayment_payment (c : Collection) (k : Nat) (paymentRef : String) (m : Moment) :
    ∃ billNumber, ((c.simulatePayment k paymentRef m).toOption.getD c).payment =
      if c.sadadState k = some .pending then c.payment.sadadPaid billNumber paymentRef m else c.payment := by
  by_cases hstate : c.sadadState k = some .pending
  · obtain ⟨invoice, hget, hpending⟩ := Option.map_eq_some_iff.mp hstate
    refine ⟨invoice.billNumber, ?_⟩
    simp [simulatePayment, hstate, markPaidSadad, hget, hpending, Except.toOption]
  · exact ⟨"", by simp [simulatePayment, hstate, Except.toOption]⟩

/-- The amount is positive and money is never taken back below nothing. -/
structure Counts (c : Collection) : Prop where
  amount : 0 < c.payment.amount
  amountPaid : 0 ≤ c.payment.amountPaid

/-- A SADAD payment of `amount`: the rent payment it finds is taken as paid in full. -/
theorem sadadPaid_iff {c' : Collection} {billNumber paymentRef : String} {amount : ℚ}
    (hamount : amount ≠ 0) (hc' : c'.payment = c.payment.sadadPaid billNumber paymentRef m) :
    (c.payment.awaiting ∧ c.payment.amountPaid + amount = c.payment.amount) ↔
      ((c.payment.state = .cancelled → c'.payment.state = .cancelled) ∧
        c'.payment.amountPaid = c.payment.amountPaid + amount) ∧ c'.Sound := by
  by_cases hawaiting : c.payment.awaiting
  · obtain ⟨-, hcancelled⟩ := RentPayment.awaiting_iff.mp hawaiting
    obtain ⟨hsame, hstate, hpaid⟩ := RentPayment.sadadPaid_awaiting hawaiting billNumber paymentRef m
    rw [← hc'] at hsame hstate hpaid
    constructor
    · rintro ⟨-, htotal⟩
      refine ⟨⟨fun h => absurd h hcancelled, by rw [hpaid, htotal]⟩, ?_, ?_⟩
      · intro _
        simp [hstate, hpaid, hsame]
      · intro h
        simp [hstate] at h
    · rintro ⟨⟨-, hmoney⟩, -⟩
      exact ⟨hawaiting, by rw [← hmoney, hpaid]⟩
  · rw [RentPayment.sadadPaid_settled hawaiting] at hc'
    simp only [hawaiting, Bool.false_eq_true, false_and, false_iff]
    rintro ⟨⟨-, hmoney⟩, -⟩
    rw [hc'] at hmoney
    exact hamount (by linarith)

theorem Counts.sadadPaid (hc : c.Counts) {c' : Collection} {billNumber paymentRef : String} {pays : Prop}
    [Decidable pays]
    (hc' : c'.payment = if pays then c.payment.sadadPaid billNumber paymentRef m else c.payment) : c'.Counts := by
  by_cases hpays : pays ∧ c.payment.awaiting
  · obtain ⟨hamount, -, hmoney⟩ := RentPayment.sadadPaid_awaiting hpays.2 billNumber paymentRef m
    rw [if_pos hpays.1] at hc'
    exact ⟨by rw [hc', hamount]; exact hc.amount, by rw [hc', hmoney]; exact hc.amount.le⟩
  · have hsame : c'.payment = c.payment := by
      by_cases h : pays
      · have hsettled : ¬ c.payment.awaiting := fun hawaiting => hpays ⟨h, hawaiting⟩
        rw [hc', if_pos h, RentPayment.sadadPaid_settled hsettled]
      · rw [hc', if_neg h]
    exact ⟨hsame ▸ hc.amount, hsame ▸ hc.amountPaid⟩

theorem register_iff (hs : c.Sound) (wizard : PaymentWizard) :
    c.Allowed (.register wizard) ↔ c.Records (.register wizard) ∧ (c.act (.register wizard)).Sound := by
  cases hregister : c.payment.registerWith Double.add wizard with
  | error e =>
    have hnone := registerWith_error_iff.mp ⟨e, hregister⟩
    have hact : c.act (.register wizard) = c := by simp [act, hregister, Except.toOption]
    rw [hact]
    simp only [Allowed, hnone, true_or, true_iff]
    exact ⟨⟨by simp [hact], by simp [hact, received, hnone]⟩, hs⟩
  | ok p' =>
    obtain ⟨hpos, hpaid, hsame, -, hstate, -⟩ := registerWith_ok hregister
    have hsome : ¬ wizard.amountPaid ≤ 0 := not_le_of_gt hpos
    have hact : (c.act (.register wizard)).payment = p' := by simp [act, hregister, Except.toOption]
    have hnotCancelled : p'.state ≠ .cancelled := by
      rw [hstate]
      split <;> simp
    simp only [Allowed, hsome, false_or]
    constructor
    · rintro ⟨hopen, hexact⟩
      refine ⟨⟨fun h => absurd h hopen, by simp [hact, hpaid, received, hsome, hexact]⟩, ?_, ?_⟩
      · intro _
        rw [hact, hstate, hpaid, hsame]
        by_cases hfull : c.payment.amount ≤ Double.add c.payment.amountPaid wizard.amountPaid <;> simp [hfull]
      · intro h
        exact absurd (hact ▸ h) hnotCancelled
    · rintro ⟨hrecords, -⟩
      refine ⟨fun hcancelled => hnotCancelled (hact ▸ hrecords.cancelled hcancelled), ?_⟩
      simpa [hact, hpaid, received, hsome] using hrecords.money

theorem markPaid_iff (hs : c.Sound) (today : Date) :
    c.Allowed (.markPaid today) ↔ c.Records (.markPaid today) ∧ (c.act (.markPaid today)).Sound := by
  by_cases hcancelled : c.payment.state = .cancelled
  · have hact : c.act (.markPaid today) = c := by simp [act, RentPayment.markPaid, hcancelled, Except.toOption]
    rw [hact]
    simp only [Allowed, hcancelled, true_or, true_iff]
    exact ⟨⟨by simp [hact], by simp [hact, received, hcancelled]⟩, hs⟩
  · have hact : (c.act (.markPaid today)).payment =
        { c.payment with state := .paid, paymentDate := some today, amountPaid := c.payment.amount } := by
      simp [act, RentPayment.markPaid, hcancelled, Except.toOption]
    simp only [Allowed, hcancelled, false_or]
    constructor
    · intro hle
      refine ⟨⟨fun h => absurd h hcancelled, ?_⟩, by simp [hact], by simp [hact]⟩
      simp only [hact, received, hcancelled, if_false]
      rw [max_eq_left (by linarith)]
      ring
    · rintro ⟨⟨-, hmoney⟩, -⟩
      simp only [hact, received, hcancelled, if_false] at hmoney
      have hle := le_max_right (c.payment.amount - c.payment.amountPaid) 0
      linarith

theorem markOverdue_sound (hs : c.Sound) (today : Date) :
    c.Records (.markOverdue today) ∧ (c.act (.markOverdue today)).Sound := by
  obtain ⟨hamount, hmoney, hpaid, hcancelled⟩ := c.payment.markOverdue_frame today
  refine ⟨⟨hcancelled.mpr, by simpa [received, act] using hmoney⟩, ?_, ?_⟩
  · intro h
    simp only [act, ne_eq, hcancelled] at h
    simpa only [act, hpaid, hamount, hmoney] using hs.paid h
  · intro h
    simp only [act, hcancelled] at h
    simpa only [act, hmoney] using hs.cancelled h

theorem cancel_iff : c.Allowed .cancel ↔ c.Records .cancel ∧ (c.act .cancel).Sound := by
  constructor
  · intro hnone
    exact ⟨⟨fun _ => rfl, by simp [act, RentPayment.cancel, received]⟩, fun h => absurd rfl h, fun _ => hnone⟩
  · rintro ⟨-, hs'⟩
    exact hs'.cancelled rfl

/-- An action that pays the SADAD invoice for `amount` if `pays` holds, and else
leaves the payment alone. -/
theorem pays_iff (hs : c.Sound) {action : Action} {billNumber paymentRef : String} {pays : Prop} [Decidable pays]
    {amount : ℚ} (hamount : amount ≠ 0)
    (hact : (c.act action).payment = if pays then c.payment.sadadPaid billNumber paymentRef m else c.payment)
    (hreceived : c.received action = if pays then amount else 0) :
    (pays → c.payment.awaiting ∧ c.payment.amountPaid + amount = c.payment.amount) ↔
      c.Records action ∧ (c.act action).Sound := by
  by_cases hpays : pays
  · rw [if_pos hpays] at hact hreceived
    simp only [hpays, true_imp_iff]
    rw [sadadPaid_iff hamount hact]
    constructor
    · rintro ⟨⟨hcancelled, hmoney⟩, hs'⟩
      exact ⟨⟨hcancelled, by rw [hmoney, hreceived]⟩, hs'⟩
    · rintro ⟨⟨hcancelled, hmoney⟩, hs'⟩
      exact ⟨⟨hcancelled, by rw [hmoney, hreceived]⟩, hs'⟩
  · rw [if_neg hpays] at hact hreceived
    simp only [hpays, false_imp_iff, true_iff]
    refine ⟨⟨by rw [hact]; exact id, by rw [hact, hreceived, add_zero]⟩, ?_, ?_⟩
    · rw [hact]
      exact hs.paid
    · rw [hact]
      exact hs.cancelled

theorem allowed_iff (hc : c.Counts) (hs : c.Sound) (action : Action) :
    c.Allowed action ↔ c.Records action ∧ (c.act action).Sound := by
  cases action with
  | register wizard => exact register_iff hs wizard
  | markPaid today => exact markPaid_iff hs today
  | markOverdue today => exact ⟨fun _ => markOverdue_sound hs today, fun _ => trivial⟩
  | cancel => exact cancel_iff
  | sadad callback m =>
    obtain ⟨billNumber, hpayment⟩ := c.sadadWebhook_payment callback m
    have hamount : (callback.amount.filter (· ≠ 0)).getD c.payment.amount ≠ 0 := by
      cases hgiven : callback.amount.filter (· ≠ 0) with
      | none => exact hc.amount.ne'
      | some amount => simpa using (Option.filter_eq_some_iff.mp hgiven).2
    exact pays_iff hs hamount hpayment rfl
  | simulate k paymentRef m =>
    obtain ⟨billNumber, hpayment⟩ := c.simulatePayment_payment k paymentRef m
    have hact : (c.act (.simulate k paymentRef m)).payment = if c.sadadState k = some .pending then
        c.payment.sadadPaid billNumber paymentRef m else c.payment := hpayment
    have hiff := pays_iff hs hc.amount.ne' hact rfl
    simpa only [Allowed, add_eq_right] using hiff

theorem Counts.act (hc : c.Counts) (action : Action) : (c.act action).Counts := by
  cases action with
  | register wizard =>
    cases hregister : c.payment.registerWith Double.add wizard with
    | error e => simpa [Collection.act, hregister, Except.toOption] using hc
    | ok p' =>
      obtain ⟨hpos, hpaid, hsame, -⟩ := registerWith_ok hregister
      have hact : (c.act (.register wizard)).payment = p' := by simp [Collection.act, hregister, Except.toOption]
      have hsum : 0 ≤ Double.add c.payment.amountPaid wizard.amountPaid :=
        Double.round_nonneg (add_nonneg hc.amountPaid hpos.le)
      exact ⟨by rw [hact, hsame]; exact hc.amount, by rw [hact, hpaid]; exact hsum⟩
  | markPaid today =>
    by_cases hcancelled : c.payment.state = .cancelled
    · simpa [Collection.act, RentPayment.markPaid, hcancelled, Except.toOption] using hc
    · have hact : (c.act (.markPaid today)).payment =
          { c.payment with state := .paid, paymentDate := some today, amountPaid := c.payment.amount } := by
        simp [Collection.act, RentPayment.markPaid, hcancelled, Except.toOption]
      exact ⟨by rw [hact]; exact hc.amount, by rw [hact]; exact hc.amount.le⟩
  | markOverdue today =>
    obtain ⟨hamount, hmoney, -⟩ := c.payment.markOverdue_frame today
    exact ⟨hamount ▸ hc.amount, hmoney ▸ hc.amountPaid⟩
  | cancel => exact ⟨hc.amount, hc.amountPaid⟩
  | sadad callback m =>
    obtain ⟨billNumber, hpayment⟩ := c.sadadWebhook_payment callback m
    exact hc.sadadPaid hpayment
  | simulate k paymentRef m =>
    obtain ⟨billNumber, hpayment⟩ := c.simulatePayment_payment k paymentRef m
    exact hc.sadadPaid hpayment

end Collection

/-- The states agree with the money all along just when every action is allowed. -/
theorem payment_states_iff {c : Collection} (hnew : c.New) (actions : List Collection.Action) :
    Tx.Always Collection.act Collection.Sound c actions ∧ Tx.EachStep Collection.act Collection.Records c actions ↔
      Tx.EachStep Collection.act Collection.Allowed c actions := by
  have hcounts : c.Counts := ⟨hnew.amount, hnew.amountPaid.ge⟩
  have hsound : c.Sound := by
    have hopen := hnew.amount
    constructor
    · intro _
      simp [hnew.state, hnew.amountPaid, hopen]
    · intro h
      simp [hnew.state] at h
  exact Tx.law_iff (fun _ action hc => hc.act action) (fun _ action hc hs => Collection.allowed_iff hc hs action)
    hcounts hsound

def newRent : Collection where
  payment :=
    { id := 0
      name := "RP/1"
      dueDate := .january1
      amount := 100 }
  invoices := []

theorem newRent_new : newRent.New := ⟨by decide +kernel, rfl, rfl⟩

theorem payment_states_newRent : ¬ (Tx.Always Collection.act Collection.Sound newRent [.cancel, .register (cash 40)] ∧
    Tx.EachStep Collection.act Collection.Records newRent [.cancel, .register (cash 40)]) := by
  rw [payment_states_iff newRent_new]
  intro hallowed
  have hlast := hallowed [.cancel] (.register (cash 40)) List.prefix_rfl
  revert hlast
  show ¬ (newRent.act .cancel).Allowed (.register (cash 40))
  simp only [Collection.Allowed, not_or, not_and]
  decide +kernel

theorem cancelled_payment_reopened : ¬ ∀ (c : Collection), c.New → ∀ actions : List Collection.Action,
    Tx.Always Collection.act Collection.Sound c actions ∧ Tx.EachStep Collection.act Collection.Records c actions := by
  intro hall
  obtain ⟨-, hrecords⟩ := hall newRent newRent_new [.cancel, .register (cash 40)]
  have hkept := (hrecords [.cancel] (.register (cash 40)) List.prefix_rfl).cancelled rfl
  revert hkept
  show ¬ ((newRent.act .cancel).act (.register (cash 40))).payment.state = .cancelled
  decide +kernel

end Rental
