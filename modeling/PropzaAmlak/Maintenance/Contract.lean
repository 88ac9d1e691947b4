import PropzaAmlak.Data.Months

/-! Periodic maintenance contracts (`maintenance_contract.py`). -/

namespace Maintenance

inductive Category where
  | plumbing | electrical | ac | painting | carpentry | cleaning | pest | appliance | other
deriving DecidableEq

inductive Frequency where
  | monthly | quarterly | semiAnnual | annual
deriving DecidableEq

/-- In months. A year of `relativedelta` is twelve of them. -/
def Frequency.offset : Frequency → Nat
  | monthly => 1
  | quarterly => 3
  | semiAnnual => 6
  | annual => 12

inductive ContractState where
  | draft | active | suspended | expired
deriving DecidableEq

structure Request where
  description : String
  property : Nat
  category : Category
  supplierPartner : Nat
  requestDate : Date
  contract : Nat
deriving DecidableEq

/-- A many2many field holds no property twice. -/
structure Contract where
  id : Nat
  name : String
  supplierPartner : Nat
  properties : List Nat
  properties_nodup : properties.Nodup
  category : Category
  frequency : Frequency
  startDate : Date
  endDate : Option Date := none
  lastServiceDate : Option Date := none
  serviceDescription : String := ""
  active : Bool := true
  state : ContractState := .draft

namespace Contract

/-- `_compute_next_service_date` -/
def nextServiceDate (c : Contract) : Option Date := (c.lastServiceDate.getD c.startDate).addMonths c.frequency.offset

def request (c : Contract) (today : Date) (property : Nat) : Request where
  description := if c.serviceDescription = "" then "صيانة دورية وفق العقد " ++ c.name else c.serviceDescription
  property := property
  category := c.category
  supplierPartner := c.supplierPartner
  requestDate := today
  contract := c.id

/-- The requests that are created before the first one raises, and whether none does. -/
def createRequests (c : Contract) (today : Date) (raises : Nat → Bool) : List Nat → List Request × Bool
  | [] => ([], true)
  | property :: rest =>
    if raises property then ([], false)
    else ((c.request today property :: (createRequests c today raises rest).1), (createRequests c today raises rest).2)

/-- `_generate_request`: the requests it leaves behind, and the contract if it returns. -/
def generateRequest (c : Contract) (today : Date) (raises : Nat → Bool) : List Request × Option Contract :=
  let (created, done) := c.createRequests today raises c.properties
  (created, if done then some { c with lastServiceDate := some today } else none)

/-- The domain of the cron's search -/
def due (c : Contract) (today : Date) : Bool :=
  c.active && c.state = .active && c.nextServiceDate.any (· ≤ today) && c.endDate.all (today ≤ ·)

end Contract

/-- A contract with its requests, each beside the due date that it was made on. -/
structure Ledger where
  contract : Contract
  made : List (Date × Request)

/-- A run of the cron: its day, and for which contract and property a request raises. -/
structure Visit where
  today : Date
  raises : Nat → Nat → Bool

namespace Ledger

/-- The turn of one contract. What is raised is caught, and what was created stays. -/
def visit (l : Ledger) (v : Visit) : Ledger :=
  if l.contract.due v.today then
    let (created, served) := l.contract.generateRequest v.today (v.raises l.contract.id)
    { contract := served.getD l.contract
      made := l.made ++ created.filterMap fun r => l.contract.nextServiceDate.map fun d => (d, r) }
  else l

end Ledger

/-- `cron_generate_due_services` -/
def cronGenerateDueServices (book : List Ledger) (v : Visit) : List Ledger := book.map fun l => l.visit v

variable {c : Contract} {today d e : Date} {raises : Nat → Bool} {properties : List Nat} {property : Nat}

namespace Contract

theorem createRequests_properties (c : Contract) (today : Date) (raises : Nat → Bool) (properties : List Nat) :
    (c.createRequests today raises properties).1.map Request.property = properties.takeWhile fun p => !raises p := by
  induction properties with
  | nil => rfl
  | cons property rest ih =>
    rw [createRequests]
    cases hraises : raises property with
    | true => simp [hraises]
    | false =>
      rw [if_neg (by simp), List.map_cons, ih, List.takeWhile_cons, hraises]
      rfl

theorem createRequests_done (c : Contract) (today : Date) : (c.createRequests today raises properties).2 = true ↔
    ∀ p ∈ properties, raises p = false := by
  induction properties with
  | nil => simp [createRequests]
  | cons property rest ih =>
    rw [createRequests]
    cases hraises : raises property <;> simp [hraises, ih]

theorem due_next (h : c.due today) : ∃ d, c.nextServiceDate = some d ∧ d ≤ today := by
  simp only [due, Bool.and_eq_true, Option.any_eq_true, decide_eq_true_eq] at h
  exact h.1.2

/-- The next date after a service is later than the day of the service. -/
theorem lt_next {months : Nat} (hmonths : 0 < months) (he : today.addMonths months = some e) : today < e := by
  have hindex := (Date.addMonths_eq_some.mp he).1
  exact Date.lt_of_index_lt (by omega)

theorem offset_pos (f : Frequency) : 0 < f.offset := by cases f <;> decide

end Contract

end Maintenance
