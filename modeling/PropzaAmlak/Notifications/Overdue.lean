import PropzaAmlak.Rental.Days
import PropzaAmlak.Rental.PaymentStates

/-! The overdue alerts of `sa_notifications/models/sa_rent_payment.py` beside the cron
that marks payments overdue. -/

namespace Notifications

open Rental

/-- `phone` is the mobile number or else the telephone. -/
structure Tenant where
  email : Option String
  phone : Option String
deriving DecidableEq

structure PaymentRow where
  payment : RentPayment
  tenant : Option Tenant

/-- An e-mail from the template, or a message to a phone with the days it names. -/
inductive Notice where
  | mail (payment : Nat)
  | message (payment : Nat) (phone : String) (days : Nat)
deriving DecidableEq

def given (text : Option String) : Option String := text.filter (· ≠ "")

/-- `_is_enabled` of the parameter's value -/
def isEnabled (param : Option String) : Bool :=
  (((given param).getD "True").toList.map Char.toLower) ∈ ["true", "1", "yes", "on"].map String.toList

def targetOverdueDays : List Nat := [1, 7, 14, 30]

def PaymentRow.overdueSince (r : PaymentRow) (target : Date) : Bool :=
  r.payment.state = .overdue && r.payment.dueDate = target && r.payment.paymentType = .rent

/-- What is sent about one payment. -/
def PaymentRow.notices (r : PaymentRow) (days : Nat) : List Notice :=
  match r.tenant with
  | none => []
  | some tenant =>
    ((given tenant.email).map fun _ => Notice.mail r.payment.id).toList ++
      ((given tenant.phone).map fun phone => Notice.message r.payment.id phone days).toList

/-- Each number of days with the date that it leads back to. The subtraction raises where
the calendar begins. -/
def targets (today : Date) (days : List Nat) : Option (List (Nat × Date)) :=
  days.mapM fun d : Nat => (addDays today (-d)).map fun target => (d, target)

/-- `_cron_send_overdue_alerts`: the notices and the number it returns -/
def sendOverdueAlerts (param : Option String) (today : Date) (rows : List PaymentRow) : Option (List Notice × Nat) :=
  if isEnabled param then
    (targets today targetOverdueDays).map fun dates =>
      let overdue := dates.flatMap fun x => (rows.filter fun r => r.overdueSince x.2).map fun r => (x.1, r)
      (overdue.flatMap fun x => x.2.notices x.1, overdue.countP fun x => x.2.tenant.isSome)
  else some ([], 0)

/-- The notices of one run. Those of a run that raises are rolled back. -/
def alerts (param : Option String) (today : Date) (rows : List PaymentRow) : List Notice :=
  ((sendOverdueAlerts param today rows).map Prod.fst).getD []

inductive Event where
  | register (payment : Nat) (wizard : PaymentWizard)
  | markOverdue
  | sendAlerts

/-- What an event makes of a payment. A registration that raises leaves it. -/
def Event.onPayment (today : Date) (p : RentPayment) : Event → RentPayment
  | register payment wizard => if p.id = payment then (p.register wizard).toOption.getD p else p
  | markOverdue => p.markOverdue today
  | sendAlerts => p

theorem Event.onPayment_same (today : Date) (p : RentPayment) (e : Event) :
    (e.onPayment today p).id = p.id ∧ (e.onPayment today p).dueDate = p.dueDate ∧
      (e.onPayment today p).paymentType = p.paymentType := by
  cases e with
  | register payment wizard =>
    rw [onPayment]
    split
    · cases hregister : p.register wizard with
      | error e => exact ⟨rfl, rfl, rfl⟩
      | ok p' =>
        have hsame : p'.id = p.id ∧ p'.dueDate = p.dueDate ∧ p'.paymentType = p.paymentType := by
          unfold RentPayment.register RentPayment.registerWith at hregister
          split at hregister
          · cases hregister
          · simp only at hregister
            split at hregister
            · obtain ⟨move, hmove⟩ := RentPayment.createInvoice_frame _ wizard.invoicing
              rw [hmove] at hregister
              cases hregister
              exact ⟨rfl, rfl, rfl⟩
            · cases hregister
              exact ⟨rfl, rfl, rfl⟩
        exact hsame
    · exact ⟨rfl, rfl, rfl⟩
  | markOverdue =>
    rw [onPayment, RentPayment.markOverdue]
    split
    · exact ⟨rfl, rfl, rfl⟩
    · exact ⟨rfl, rfl, rfl⟩
  | sendAlerts => exact ⟨rfl, rfl, rfl⟩

/-- The rent payments, and all notices with the day they were sent on. -/
structure Office where
  param : Option String
  rows : List PaymentRow
  ids_nodup : (rows.map fun r => r.payment.id).Nodup
  outbox : List (Date × Notice)

def PaymentRow.after (today : Date) (e : Event) (r : PaymentRow) : PaymentRow :=
  { r with payment := e.onPayment today r.payment }

theorem ids_after (today : Date) (e : Event) (rows : List PaymentRow) :
    (rows.map (PaymentRow.after today e)).map (fun r => r.payment.id) = rows.map fun r => r.payment.id := by
  rw [List.map_map]
  exact List.map_congr_left fun r _ => (e.onPayment_same today r.payment).1

namespace Office

def sent (o : Office) (today : Date) : Event → List Notice
  | .sendAlerts => alerts o.param today o.rows
  | _ => []

def act (today : Date) (o : Office) (e : Event) : Office where
  param := o.param
  rows := o.rows.map (PaymentRow.after today e)
  ids_nodup := (ids_after today e o.rows).symm ▸ o.ids_nodup
  outbox := o.outbox ++ (o.sent today e).map fun notice => (today, notice)

@[simp] theorem act_rows (today : Date) (o : Office) (e : Event) :
    (act today o e).rows = o.rows.map (PaymentRow.after today e) := rfl

@[simp] theorem act_outbox (today : Date) (o : Office) (e : Event) :
    (act today o e).outbox = o.outbox ++ (o.sent today e).map fun notice => (today, notice) := rfl

end Office

/-- A day on which each of the two crons runs once, with what is registered before,
between and after them. -/
structure Day where
  date : Date
  marksFirst : Bool
  early : List (Nat × PaymentWizard)
  middle : List (Nat × PaymentWizard)
  late : List (Nat × PaymentWizard)

namespace Day

def registrations (l : List (Nat × PaymentWizard)) : List Event := l.map fun x => .register x.1 x.2

def events (day : Day) : List Event :=
  registrations day.early ++ (if day.marksFirst then Event.markOverdue else .sendAlerts) ::
    (registrations day.middle ++ (if day.marksFirst then Event.sendAlerts else .markOverdue) ::
      registrations day.late)

/-- What a day makes of a payment. -/
def onPayment (p : RentPayment) (day : Day) : RentPayment := Tx.after (Event.onPayment day.date) p day.events

end Day

def Office.day (o : Office) (day : Day) : Office := Tx.after (Office.act day.date) o day.events

/-- Days one after another. -/
structure Schedule where
  days : List Day
  consecutive : days.IsChain fun day next => tomorrow day.date = some next.date

end Notifications
