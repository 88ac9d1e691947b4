import PropzaAmlak.Rental.PaymentStates
import Mathlib.Data.List.Nodup

/-! What an owner is told of the rents: the profit and loss sheet of
`xlsx_exports.py` and the dashboard of `res_partner_dashboard.py`. -/

namespace Rental

structure PropertyRow where
  id : Nat
  displayName : String
  owner : Option Nat
  state : PropertyState

structure TenancyRow where
  id : Nat
  property : Nat
  state : TenancyState
  rentAmount : ℚ
  endDate : Option Date

structure PaymentRow where
  tenancy : Nat
  payment : RentPayment

structure MaintenanceRow where
  property : Nat
  done : Bool
  ownerBears : Bool
  cost : ℚ

/-- The rows that the two reports search. -/
structure Portfolio where
  properties : List PropertyRow
  tenancies : List TenancyRow
  payments : List PaymentRow
  maintenance : List MaintenanceRow
  properties_nodup : (properties.map PropertyRow.id).Nodup
  tenancies_nodup : (tenancies.map TenancyRow.id).Nodup

/-- A line of the sheet: a property with its revenue and its costs. -/
structure PnlRow where
  displayName : String
  activeCount : Nat
  paid : ℚ
  pending : ℚ
  maint : ℚ

def PnlRow.net (row : PnlRow) : ℚ := row.paid - row.maint

structure Pnl where
  rows : List PnlRow

namespace Pnl

def totalCollected (pnl : Pnl) : ℚ := (pnl.rows.map PnlRow.paid).sum

def totalMaint (pnl : Pnl) : ℚ := (pnl.rows.map PnlRow.maint).sum

def netTotal (pnl : Pnl) : ℚ := pnl.totalCollected - pnl.totalMaint

end Pnl

/-- `_compute_balance` -/
def RentPayment.balance (p : RentPayment) : ℚ := p.amount - p.amountPaid

namespace Portfolio

/-- `action_mark_overdue` over all payments -/
def markOverdue (d : Portfolio) (today : Date) : Portfolio :=
  { d with payments := d.payments.map fun row => { row with payment := row.payment.markOverdue today } }

end Portfolio

theorem sum_filter {α : Type} (l : List α) (p : α → Bool) (f : α → ℚ) :
    ((l.filter p).map f).sum = (l.map fun a => if p a then f a else 0).sum := by
  induction l with
  | nil => rfl
  | cons a l ih =>
    by_cases h : p a
    · simp [h, ih]
    · simp [h, ih]

namespace Portfolio

variable {d : Portfolio} {o k : Nat}

variable {owner : Owner} {pnl : Pnl}

end Portfolio

end Rental
