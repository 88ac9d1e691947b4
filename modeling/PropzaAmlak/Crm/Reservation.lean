import PropzaAmlak.Data.Calendar
import PropzaAmlak.Tx.Snapshot

/-! The reservations of `sa_crm_reservation.py` in a store of rows, each user seeing
what the record rules of `sa_crm_security.xml` let through. -/

namespace Crm

inductive Error where
  | userError (message : String)
  | accessError

inductive ReservationState where
  | draft
  | active
  | expired
  | cancelled
  | converted
deriving DecidableEq

structure Reservation where
  lead : Nat
  property : Nat
  partner : String
  state : ReservationState := .draft
  dateEnd : Date
deriving DecidableEq

inductive LeadCategory where
  | lead
  | opportunity
  | deal
deriving DecidableEq

inductive LeadState where
  | opened
  | won
  | lost
deriving DecidableEq

structure LeadRow where
  user : Option Nat
  category : LeadCategory
  state : LeadState
  stage : Option Nat
  active : Bool := true
deriving DecidableEq

structure PropertyRow where
  name : String
  isReserved : Bool := false
  activeReservation : Option Nat := none
deriving DecidableEq

inductive Key where
  | reservation (k : Nat)
  | lead (l : Nat)
  | property (p : Nat)
deriving DecidableEq

@[reducible] def Row : Key → Type
  | .reservation _ => Reservation
  | .lead _ => LeadRow
  | .property _ => PropertyRow

instance (key : Key) : DecidableEq (Row key) :=
  match key with
  | .reservation _ => inferInstanceAs (DecidableEq Reservation)
  | .lead _ => inferInstanceAs (DecidableEq LeadRow)
  | .property _ => inferInstanceAs (DecidableEq PropertyRow)

abbrev Db : Type := Tx.Store Row

namespace Db

variable (ids : List Nat) (viewer : Option Nat) (s : Db)

def reservation (k : Nat) : Reservation := s (.reservation k)

def lead (l : Nat) : LeadRow := s (.lead l)

def property (p : Nat) : PropertyRow := s (.property p)

/-- An agent sees the reservations of his leads; a manager, and the crons, see all. -/
def sees (k : Nat) : Bool :=
  match viewer with
  | none => true
  | some user => (s.lead (s.reservation k).lead).user = some user

/-- `reservation_ids.filtered(lambda r: r.state == 'active')` of a property, of `ids`
in the order of `date_start desc` -/
def activeOf (p : Nat) : List Nat :=
  ids.filter fun k => (s.reservation k).property = p ∧ (s.reservation k).state = .active ∧ s.sees viewer k

/-- `_compute_is_reserved` -/
def computeIsReserved (p : Nat) : Db :=
  Function.update s (.property p) { s.property p with
    isReserved := !(s.activeOf ids viewer p).isEmpty
    activeReservation := (s.activeOf ids viewer p).head? }

def setState (k : Nat) (state : ReservationState) : Db :=
  Function.update s (.reservation k) { s.reservation k with state := state }

def qualify (l : Nat) : Db := Function.update s (.lead l) { s.lead l with category := .opportunity }

/-- `action_mark_won`, with the first stage that is won if there is one -/
def markWon (wonStage : Option Nat) (l : Nat) : Db :=
  Function.update s (.lead l) { s.lead l with
    state := .won
    category := .deal
    stage := wonStage.or (s.lead l).stage }

def activateOne (k : Nat) : Except Error Db :=
  match (s.activeOf ids viewer (s.reservation k).property).find? (· ≠ k) with
  | some j => .error (.userError ("العقار \"" ++ (s.property (s.reservation k).property).name ++
      "\" محجوز بالفعل للعميل " ++ (s.reservation j).partner ++ " حتى " ++ (s.reservation j).dateEnd.isoformat ++ "."))
  | none => .ok (((s.setState k .active).qualify (s.reservation k).lead).computeIsReserved ids viewer
      (s.reservation k).property)

def recompute (ks : List Nat) : Db :=
  (ks.map fun k => (s.reservation k).property).foldl (fun s p => s.computeIsReserved ids viewer p) s

def cancelAll (ks : List Nat) : Db := ks.foldl (fun s k => s.setState k .cancelled) s

def convertAll (wonStage : Option Nat) (ks : List Nat) : Db :=
  ks.foldl (fun s k => (s.setState k .converted).markWon wonStage (s.reservation k).lead) s

def expireAll (ks : List Nat) : Db := ks.foldl (fun s k => s.setState k .expired) s

/-- What the cron finds to expire. -/
def overdue (today : Date) : List Nat :=
  ids.filter fun k => (s.reservation k).state = .active ∧ (s.reservation k).dateEnd < today

end Db

inductive Op where
  | activate (viewer : Option Nat) (ks : List Nat)
  | cancel (viewer : Option Nat) (ks : List Nat)
  | convertToDeal (viewer : Option Nat) (wonStage : Option Nat) (ks : List Nat)
  | expire (today : Date)

namespace Op

def viewer : Op → Option Nat
  | activate viewer _ => viewer
  | cancel viewer _ => viewer
  | convertToDeal viewer _ _ => viewer
  | expire _ => none

def records (ids : List Nat) (s : Db) : Op → List Nat
  | activate _ ks => ks
  | cancel _ ks => ks
  | convertToDeal _ _ ks => ks
  | expire today => s.overdue ids today

/-- The state an operation moves its records to. -/
def target : Op → ReservationState
  | activate .. => .active
  | cancel .. => .cancelled
  | convertToDeal .. => .converted
  | expire _ => .expired

/-- An operation on records that its user does not see raises. -/
def run (ids : List Nat) (op : Op) (s : Db) : Except Error Db :=
  if ∀ k ∈ op.records ids s, k ∈ ids ∧ s.sees op.viewer k then
    match op with
    | activate viewer ks => ks.foldlM (fun s k => s.activateOne ids viewer k) s
    | cancel viewer ks => .ok ((s.cancelAll ks).recompute ids viewer ks)
    | convertToDeal viewer wonStage ks => .ok ((s.convertAll wonStage ks).recompute ids viewer ks)
    | expire today => .ok ((s.expireAll (s.overdue ids today)).recompute ids none (s.overdue ids today))
  else .error .accessError

end Op

end Crm
