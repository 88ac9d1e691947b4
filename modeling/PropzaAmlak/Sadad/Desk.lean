import PropzaAmlak.Sadad.Invoice

/-! The SADAD invoices of all rent payments under the webhook of `sadad_webhook.py`,
the buttons and the expiry cron. -/

namespace Sadad

open Rental

structure Desk where
  payments : Nat → RentPayment
  bills : Table SadadBill

/-- What the webhook rests on: the token it expects, the database's comparison of a
value of the body with a bill number, and `float`, which may raise and may give what
is no number. -/
structure Gateway where
  token : String
  equals : Json → String → Bool
  float : Json → Option (Option ℚ)

/-- A request to the webhook; the body may be no JSON. -/
structure Call where
  token : String
  body : Option Json
  moment : Moment

namespace Call

/-- `request.get_json_data() or {}` -/
def data (c : Call) : Json := (c.body.getD (.obj [])).orElse (.obj [])

/-- `data.get(key)`; there is nothing to get from what is no dict. -/
def get (c : Call) (key : String) : Option Json :=
  match c.data with
  | .obj fields => Json.lookup fields key
  | _ => none

def billNumber (c : Call) : Option Json := (c.get "bill_number").filter Json.truthy

def amount (c : Call) : Option Json := (c.get "amount").filter Json.truthy

/-- `data.get('payment_ref', '') or ''` -/
def paymentRef (c : Call) : String := (((c.get "payment_ref").getD (.str "")).orElse (.str "")).text

/-- `data.get('channel', 'Webhook') or ''` -/
def channel (c : Call) : String := (((c.get "channel").getD (.str "Webhook")).orElse (.str "")).text

def isDict (c : Call) : Bool :=
  match c.data with
  | .obj _ => true
  | _ => false

/-- The amount that the call reports, where it does and it is not zero. -/
def reported (g : Gateway) (c : Call) : Option ℚ := (c.amount.bind fun v => (g.float v).join).filter (· ≠ 0)

end Call

namespace Desk

def bill (s : Desk) (k : Nat) : SadadBill := s.bills.row k

/-- The amount of an invoice is the one of its rent payment. -/
def amount (s : Desk) (k : Nat) : ℚ := (s.payments (s.bill k).payment).amount

/-- `_mark_paid` -/
def markPaid (s : Desk) (k : Nat) (paymentRef channel : String) (m : Moment) : Desk :=
  if (s.bill k).state = .paid then s
  else
    { payments := Function.update s.payments (s.bill k).payment
        ((s.payments (s.bill k).payment).sadadPaid (s.bill k).billNumber paymentRef m)
      bills := s.bills.modify k fun bill => { bill with
        state := .paid
        paidDate := some m.now
        paymentRef := some paymentRef
        paymentChannel := some channel } }

/-- `sadad_webhook`; there is no reply where it raises. An amount other than the
invoice's is only logged. -/
def sadadWebhook (g : Gateway) (s : Desk) (c : Call) : Option (SadadReply × Desk) :=
  if c.token ≠ g.token then some (.error "invalid token", s)
  else if ¬ c.isDict then none
  else
    match c.billNumber with
    | none => some (.error "missing bill_number", s)
    | some number =>
      match findBill s.bills (g.equals number) with
      | none => some (.error "bill not found", s)
      | some k =>
        if (s.bill k).state = .paid then some (.alreadyPaid, s)
        else if (s.bill k).state = .cancelled then some (.error "invoice cancelled", s)
        else if c.amount.any fun v => (g.float v).isNone then none
        else some (.success, s.markPaid k c.paymentRef c.channel c.moment)

/-- `action_cancel` of one invoice -/
def cancelBill (s : Desk) (k : Nat) : Except Error Desk :=
  if (s.bill k).state = .paid then .error (.userError "لا يمكن إلغاء فاتورة مدفوعة")
  else .ok { s with bills := s.bills.modify k fun bill => { bill with state := .cancelled } }

/-- `cron_expire_old_invoices` -/
def expire (s : Desk) (today : Date) : Desk :=
  { s with bills := s.bills.map fun bill =>
      if bill.state = .pending ∧ bill.expiryDate < today then { bill with state := .expired } else bill }

def hasActiveSadad (s : Desk) (p : Nat) : Bool :=
  ∃ k ∈ s.bills.ids, (s.bill k).payment = p ∧ (s.bill k).state = .pending

/-- `action_generate_sadad` of payment `p`, whose tenant is `partner` -/
def generateSadad (s : Desk) (p partner : Nat) (config : Config) (today : Date) : Except Error Desk :=
  if (s.payments p).state = .paid ∨ (s.payments p).state = .cancelled then
    .error (.userError "لا يمكن إصدار فاتورة SADAD لدفعة مدفوعة أو ملغاة")
  else if s.hasActiveSadad p then
    .error (.userError "يوجد فاتورة SADAD نشطة بالفعل. ألغها أولاً قبل إصدار جديدة.")
  else
    match newBill p partner config today with
    | none => .error .valueError
    | some bill => .ok { s with bills := s.bills.insert bill }

/-- `action_simulate_payment` of one invoice -/
def simulatePayment (s : Desk) (k : Nat) (m : Moment) : Except Error Desk :=
  if (s.bill k).state ≠ .pending then .error (.userError "الفاتورة ليست في حالة انتظار السداد")
  else .ok (s.markPaid k ("SIM-" ++ toString k) "Simulation" m)

inductive Action where
  | call (c : Call)
  | cancelBill (k : Nat)
  | expire (today : Date)

/-- What raises is rolled back. -/
def act (g : Gateway) (s : Desk) : Action → Desk
  | .call c => ((s.sadadWebhook g c).map Prod.snd).getD s
  | .cancelBill k => (s.cancelBill k).toOption.getD s
  | .expire today => s.expire today

/-- The invoice that an authenticated call is for. -/
def finds (g : Gateway) (s : Desk) (c : Call) : Option Nat :=
  if c.token = g.token then c.billNumber.bind fun number => findBill s.bills (g.equals number) else none

/-- The invoice that a call pays: one that is neither paid nor cancelled, where
`float` reads the amount that is given. -/
def pays (g : Gateway) (s : Desk) (c : Call) : Option Nat :=
  (s.finds g c).filter fun k =>
    (s.bill k).state ≠ .paid ∧ (s.bill k).state ≠ .cancelled ∧ ¬ c.amount.any fun v => (g.float v).isNone

/-- The call reports the amount of invoice `k`, give or take 1 SAR. -/
def Reports (g : Gateway) (s : Desk) (c : Call) (k : Nat) : Prop :=
  ∃ q, c.reported g = some q ∧ |q - s.amount k| ≤ 1

variable {g : Gateway} {s : Desk} {c : Call} {k j : Nat}

theorem finds_eq_some : s.finds g c = some k ↔ c.token = g.token ∧ ∃ number, c.billNumber = some number ∧
    findBill s.bills (g.equals number) = some k := by
  by_cases htoken : c.token = g.token <;> simp [finds, htoken, Option.bind_eq_some_iff]

theorem isDict_of_billNumber {number : Json} (h : c.billNumber = some number) : c.isDict := by
  unfold Call.billNumber Call.get at h
  unfold Call.isDict
  split at h
  · rfl
  · simp at h

theorem act_call (g : Gateway) (s : Desk) (c : Call) : s.act g (.call c) =
    (s.pays g c).elim s fun k => s.markPaid k c.paymentRef c.channel c.moment := by
  cases hfinds : s.finds g c with
  | none =>
    have hpays : s.pays g c = none := by rw [pays, hfinds]; rfl
    rw [hpays, act, sadadWebhook]
    by_cases htoken : c.token = g.token
    · rw [finds, if_pos htoken] at hfinds
      cases hnumber : c.billNumber with
      | none => by_cases hdict : c.isDict <;> simp [htoken, hdict]
      | some number =>
        rw [hnumber, Option.bind_some] at hfinds
        simp [htoken, isDict_of_billNumber hnumber, hfinds]
    · simp [htoken]
  | some k =>
    obtain ⟨htoken, number, hnumber, hfind⟩ := finds_eq_some.mp hfinds
    have hpays : s.pays g c = if (s.bill k).state ≠ .paid ∧ (s.bill k).state ≠ .cancelled ∧
        ¬ c.amount.any fun v => (g.float v).isNone then some k else none := by
      rw [pays, hfinds]
      simp [Option.filter]
    rw [hpays, act, sadadWebhook]
    simp only [htoken, isDict_of_billNumber hnumber, hnumber, hfind]
    by_cases hpaid : (s.bill k).state = .paid
    · simp [hpaid]
    · by_cases hcancelled : (s.bill k).state = .cancelled
      · simp [hcancelled]
      · by_cases hfloat : c.amount.any fun v => (g.float v).isNone
        · simp [hpaid, hcancelled, hfloat]
        · simp [hpaid, hcancelled, hfloat]

theorem pays_eq_some : s.pays g c = some k ↔ s.finds g c = some k ∧ (s.bill k).state ≠ .paid ∧
    (s.bill k).state ≠ .cancelled ∧ ¬ c.amount.any fun v => (g.float v).isNone := by
  simp [pays, Option.filter_eq_some_iff]

theorem markPaid_eq (h : (s.bill k).state ≠ .paid) (paymentRef channel : String) (m : Moment) :
    s.markPaid k paymentRef channel m =
      { payments := Function.update s.payments (s.bill k).payment
          ((s.payments (s.bill k).payment).sadadPaid (s.bill k).billNumber paymentRef m)
        bills := s.bills.modify k fun bill => { bill with
          state := .paid
          paidDate := some m.now
          paymentRef := some paymentRef
          paymentChannel := some channel } } := by
  rw [markPaid, if_neg h]

theorem mem_of_finds (h : s.finds g c = some k) : k ∈ s.bills.ids := by
  obtain ⟨-, number, -, hfind⟩ := finds_eq_some.mp h
  exact (findBill_eq_some.mp hfind).1.1

end Desk

end Sadad
