import PropzaAmlak.Data.Months

/-! The payments of one tenancy: `sa_rent_payment.py`, the payment wizard, and
the guard on deletion of `audit_log.py`. -/

namespace Rental

inductive Error where
  | userError (message : String)
  | valueError

inductive PaymentType where
  | rent
  | deposit
  | penalty
  | other
deriving DecidableEq

/-- `partly` is the state called "partial". -/
inductive PaymentState where
  | pending
  | overdue
  | paid
  | partly
  | cancelled
deriving DecidableEq

inductive PaymentMethod where
  | sadad
  | mada
  | bankTransfer
  | cheque
  | cash
deriving DecidableEq

inductive MoveState where
  | draft
  | posted
  | cancel
deriving DecidableEq

structure Move where
  name : String
  state : MoveState
deriving DecidableEq

structure RentPayment where
  id : Nat
  name : String
  dueDate : Date
  amount : ℚ
  paymentType : PaymentType := .rent
  state : PaymentState := .pending
  paymentDate : Option Date := none
  paymentMethod : Option PaymentMethod := none
  amountPaid : ℚ := 0
  sadadNumber : Option String := none
  chequeNumber : Option String := none
  bankRef : Option String := none
  move : Option Move := none
deriving DecidableEq

inductive PaymentSchedule where
  | monthly
  | quarterly
  | semiAnnual
  | annual
  | oneTime
  | flexible
deriving DecidableEq

inductive CycleState where
  | draft
  | confirmed
  | ejarSent
  | active
  | expiring
  | ended
  | renewed
deriving DecidableEq

inductive PropertyState where
  | draft
  | onRent
  | sold
deriving DecidableEq

inductive TenancyState where
  | draft
  | confirm
  | running
  | closed
  | cancelled
deriving DecidableEq

/-- A tenancy with its payments. The next payment gets the next id and the next
number of its sequence. -/
structure Tenancy where
  startDate : Option Date
  endDate : Option Date
  rentAmount : ℚ
  depositAmount : ℚ
  paymentSchedule : Option PaymentSchedule
  cycleState : CycleState
  payments : List RentPayment
  nextId : Nat
  nextNumber : Nat
  sequence : Nat → String

/-- The values a payment is created from. -/
structure PaymentVals where
  dueDate : Date
  amount : ℚ
  paymentType : PaymentType

namespace PaymentSchedule

/-- The months between two due dates; a schedule the table lacks is monthly. -/
def interval : PaymentSchedule → Option Nat
  | quarterly => some 3
  | semiAnnual => some 6
  | annual => some 12
  | oneTime => none
  | _ => some 1

/-- `_get_period_amount` -/
def periodAmount (monthly : ℚ) : PaymentSchedule → ℚ
  | quarterly => monthly * 3
  | semiAnnual => monthly * 6
  | annual => monthly * 12
  | _ => monthly

theorem interval_pos {schedule : PaymentSchedule} {period : Nat} (h : schedule.interval = some period) :
    0 < period := by
  cases schedule
  all_goals simp [interval] at h
  all_goals omega

theorem periodAmount_eq {schedule : PaymentSchedule} {period : Nat} (h : schedule.interval = some period)
    (monthly : ℚ) : schedule.periodAmount monthly = period * monthly := by
  cases schedule
  all_goals simp only [interval, Option.some.injEq, reduceCtorEq] at h
  all_goals
    subst h
    simp only [periodAmount]
    push_cast
    ring

end PaymentSchedule

/-- `while current <= end: ...; current = current + interval` -/
def dueDates (period : Nat) (hperiod : 0 < period) (endDate current : Date) : Option (List Date) :=
  if current ≤ endDate then
    match _hnext : current.addMonths period with
    | none => none
    | some next => (dueDates period hperiod endDate next).map (current :: ·)
  else some []
termination_by 120000 - current.monthIndex
decreasing_by
  have hindex := (Date.addMonths_eq_some.mp _hnext).1
  have hbounds := next.monthIndex_bounds
  omega

/-- `_get_total_months`. The difference is the whole months from `start` on; the
estimate from the two month counts is at most one month off. -/
def totalMonths (startDate endDate : Date) : Int :=
  let months : Int := endDate.monthIndex - startDate.monthIndex
  let reached := startDate.addMonths months
  let adjusted :=
    if startDate ≤ endDate then if reached.any (endDate < ·) then months - 1 else months
    else if reached.any (· < endDate) then months + 1 else months
  adjusted + 1

def Tenancy.schedule (t : Tenancy) : PaymentSchedule := t.paymentSchedule.getD .monthly

def rentData (t : Tenancy) (startDate endDate : Date) : Except Error (List PaymentVals) :=
  match hinterval : t.schedule.interval with
  | none => .ok [⟨startDate, t.rentAmount * totalMonths startDate endDate, .rent⟩]
  | some period =>
    match dueDates period (PaymentSchedule.interval_pos hinterval) endDate startDate with
    | none => .error .valueError
    | some dates => .ok (dates.map fun due => ⟨due, t.schedule.periodAmount t.rentAmount, .rent⟩)

def depositData (t : Tenancy) (startDate : Date) : List PaymentVals :=
  if t.depositAmount = 0 then [] else [⟨startDate, t.depositAmount, .deposit⟩]

def RentPayment.unpaid (p : RentPayment) : Bool := p.state = .pending || p.state = .overdue

def RentPayment.invoiced (p : RentPayment) : Bool := p.move.any fun move => move.state = .posted

def deletionRefused (p : RentPayment) : Error :=
  .userError ("لا يمكن حذف دفعة إيجار (" ++ (if p.name = "" then "/" else p.name) ++
    ") لها فاتورة مُرحَّلة (" ++ (p.move.map Move.name).getD "" ++ ").\nيجب إلغاء الفاتورة أولاً.")

namespace Tenancy

/-- `unlink` of the unpaid payments, in the order they fall due. -/
def unlinkUnpaid (t : Tenancy) : Except Error Tenancy :=
  let doomed := (t.payments.filter RentPayment.unpaid).mergeSort fun p q => p.dueDate ≤ q.dueDate
  match doomed.find? RentPayment.invoiced with
  | some p => .error (deletionRefused p)
  | none => .ok { t with payments := t.payments.filter fun p => !p.unpaid }

def newPayment (t : Tenancy) (i : Nat) (vals : PaymentVals) : RentPayment where
  id := t.nextId + i
  name := t.sequence (t.nextNumber + i)
  dueDate := vals.dueDate
  amount := vals.amount
  paymentType := vals.paymentType

def create (t : Tenancy) (data : List PaymentVals) : Tenancy :=
  { t with
    payments := t.payments ++ data.mapIdx t.newPayment
    nextId := t.nextId + data.length
    nextNumber := t.nextNumber + data.length }

/-- `action_generate_payment_schedule` -/
def generatePaymentSchedule (t : Tenancy) : Except Error Tenancy :=
  match t.startDate, t.endDate with
  | some startDate, some endDate =>
    if t.rentAmount = 0 then .error (.userError "يجب تحديد قيمة الإيجار")
    else
      match t.unlinkUnpaid with
      | .error e => .error e
      | .ok kept =>
        match rentData t startDate endDate with
        | .error e => .error e
        | .ok rent =>
          .ok { kept.create (depositData t startDate ++ rent) with cycleState := .confirmed }
  | _, _ => .error (.userError "يجب تحديد تاريخ البداية والنهاية")

end Tenancy

theorem unlinkUnpaid_eq_ok {t t' : Tenancy} :
    t.unlinkUnpaid = .ok t' ↔ (∀ p ∈ t.payments, p.unpaid → ¬ p.invoiced) ∧
      t' = { t with payments := t.payments.filter fun p => !p.unpaid } := by
  unfold Tenancy.unlinkUnpaid
  dsimp only
  split
  · rename_i p hfind
    have hp := List.find?_some hfind
    have hmem := List.mem_mergeSort.mp (List.mem_of_find?_eq_some hfind)
    obtain ⟨hmem, hunpaid⟩ := List.mem_filter.mp hmem
    simp only [reduceCtorEq, false_iff, not_and]
    intro hnone
    exact absurd hp (hnone p hmem hunpaid)
  · rename_i hfind
    have hnone : ∀ p ∈ t.payments, p.unpaid → ¬ p.invoiced := by
      intro p hp hunpaid
      exact List.find?_eq_none.mp hfind p (List.mem_mergeSort.mpr (List.mem_filter.mpr ⟨hp, hunpaid⟩))
    simp only [Except.ok.injEq]
    constructor
    · rintro rfl
      exact ⟨hnone, rfl⟩
    · rintro ⟨-, rfl⟩
      rfl

/-- The tenancy with its unpaid payments replaced. -/
def Tenancy.regenerated (t : Tenancy) (s : Date) (rent : List PaymentVals) : Tenancy :=
  { { t with payments := t.payments.filter fun p => !p.unpaid }.create (depositData t s ++ rent) with
    cycleState := .confirmed }

theorem generatePaymentSchedule_eq_ok {t t' : Tenancy} :
    t.generatePaymentSchedule = .ok t' ↔ ∃ s e rent, t.startDate = some s ∧ t.endDate = some e ∧
      t.rentAmount ≠ 0 ∧ (∀ p ∈ t.payments, p.unpaid → ¬ p.invoiced) ∧ rentData t s e = .ok rent ∧
      t' = t.regenerated s rent := by
  unfold Tenancy.generatePaymentSchedule
  cases hstart : t.startDate with
  | none => simp
  | some s =>
    cases hend : t.endDate with
    | none => simp
    | some e =>
      by_cases hrent : t.rentAmount = 0
      · simp [hrent]
      · simp only [hrent, if_false]
        constructor
        · intro hok
          cases hunlink : t.unlinkUnpaid with
          | error error => simp [hunlink] at hok
          | ok kept =>
            obtain ⟨hnone, rfl⟩ := unlinkUnpaid_eq_ok.mp hunlink
            cases hdata : rentData t s e with
            | error error => simp [hunlink, hdata] at hok
            | ok rent =>
              simp only [hunlink, hdata, Except.ok.injEq] at hok
              exact ⟨s, e, rent, rfl, rfl, hrent, hnone, hdata, hok.symm⟩
        · rintro ⟨s', e', rent, hs, he, -, hnone, hdata, rfl⟩
          obtain rfl := Option.some.inj hs
          obtain rfl := Option.some.inj he
          rw [unlinkUnpaid_eq_ok.mpr ⟨hnone, rfl⟩, hdata]
          rfl

/-- How far `action_create_invoice` gets: the invoice is posted, or made and then
not posted, or not made. -/
inductive Invoicing where
  | posted (name : String)
  | unposted (name reason : String)
  | failed (reason : String)

structure PaymentWizard where
  amountPaid : ℚ
  paymentDate : Date
  paymentMethod : PaymentMethod
  reference : Option String
  createInvoice : Bool
  invoicing : Invoicing

namespace RentPayment

/-- The payment as `action_create_invoice` leaves it and what it raises. -/
def createInvoice (p : RentPayment) (invoicing : Invoicing) : RentPayment × Option Error :=
  match p.move.filter (fun move => move.state ≠ .cancel) with
  | some move => (p, some (.userError ("الفاتورة موجودة بالفعل: " ++ move.name)))
  | none =>
    match invoicing with
    | .posted name => ({ p with move := some ⟨name, .posted⟩ }, none)
    | .unposted name reason =>
      ({ p with move := some ⟨name, .draft⟩ },
        some (.userError ("فشل ترحيل الفاتورة: " ++ String.ofList (reason.toList.take 200))))
    | .failed reason => (p, some (.userError reason))

/-- `action_register_payment`, which swallows what the invoice raises. What is paid is
added to as `add` says. -/
def registerWith (add : ℚ → ℚ → ℚ) (p : RentPayment) (wizard : PaymentWizard) : Except Error RentPayment :=
  if wizard.amountPaid ≤ 0 then .error (.userError "يجب إدخال مبلغ أكبر من صفر")
  else
    let totalPaid := add p.amountPaid wizard.amountPaid
    let written :=
      { p with
        paymentDate := some wizard.paymentDate
        paymentMethod := some wizard.paymentMethod
        amountPaid := totalPaid
        sadadNumber := if wizard.paymentMethod = .sadad then wizard.reference else p.sadadNumber
        chequeNumber := if wizard.paymentMethod = .cheque then wizard.reference else p.chequeNumber
        bankRef := if wizard.paymentMethod = .bankTransfer then wizard.reference else p.bankRef
        state := if p.amount ≤ totalPaid then .paid else .partly }
    if wizard.createInvoice ∧ written.move = none ∧ written.paymentType = .rent then
      .ok (written.createInvoice wizard.invoicing).1
    else .ok written

/-- The same on exact numbers. -/
def register (p : RentPayment) (wizard : PaymentWizard) : Except Error RentPayment := p.registerWith (· + ·) wizard

/-- `action_mark_paid` -/
def markPaid (p : RentPayment) (today : Date) : Except Error RentPayment :=
  if p.state = .cancelled then .error (.userError "لا يمكن تسجيل دفع لدفعة ملغاة")
  else .ok { p with state := .paid, paymentDate := some today, amountPaid := p.amount }

/-- `action_mark_overdue`, which the cron calls -/
def markOverdue (p : RentPayment) (today : Date) : RentPayment :=
  if (p.state = .pending ∨ p.state = .partly) ∧ p.dueDate < today then { p with state := .overdue } else p

/-- `action_cancel` -/
def cancel (p : RentPayment) : RentPayment := { p with state := .cancelled }

end RentPayment

namespace Tenancy

/-- An action on the payment with the given id. -/
def onPayment (t : Tenancy) (id : Nat) (action : RentPayment → Except Error RentPayment) : Except Error Tenancy :=
  match t.payments.find? fun p => p.id = id with
  | none => .ok t
  | some p =>
    match action p with
    | .error e => .error e
    | .ok p' => .ok { t with payments := t.payments.map fun q => if q.id = id then p' else q }

/-- What changes a tenancy's payments: the schedule, the wizard, the buttons,
the cron, and the edit of the terms. -/
inductive Action where
  | generate
  | register (id : Nat) (wizard : PaymentWizard)
  | markPaid (id : Nat) (today : Date)
  | cancel (id : Nat)
  | createInvoice (id : Nat) (invoicing : Invoicing)
  | cancelInvoice (id : Nat)
  | markOverdue (today : Date)
  | edit (startDate endDate : Option Date) (rentAmount depositAmount : ℚ)
      (paymentSchedule : Option PaymentSchedule)

def act (t : Tenancy) : Action → Except Error Tenancy
  | .generate => t.generatePaymentSchedule
  | .register id wizard => t.onPayment id fun p => p.register wizard
  | .markPaid id today => t.onPayment id fun p => p.markPaid today
  | .cancel id => t.onPayment id fun p => .ok p.cancel
  | .createInvoice id invoicing => t.onPayment id fun p =>
    match p.createInvoice invoicing with
    | (_, some e) => .error e
    | (p', none) => .ok p'
  | .cancelInvoice id => t.onPayment id fun p =>
    .ok { p with move := p.move.map fun move => { move with state := .cancel } }
  | .markOverdue today => .ok { t with payments := t.payments.map fun p => p.markOverdue today }
  | .edit startDate endDate rentAmount depositAmount paymentSchedule =>
    .ok { t with startDate, endDate, rentAmount, depositAmount, paymentSchedule }

/-- An action that raises leaves the tenancy as it was. -/
def after (t : Tenancy) (actions : List Action) : Tenancy :=
  actions.foldl (fun t action => (t.act action).toOption.getD t) t

end Tenancy

end Rental
