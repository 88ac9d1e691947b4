import PropzaAmlak.Ejar.Contract
import PropzaAmlak.Ejar.Exceptions

/-! The state machine of `ejar.contract`: the `allowed` table, the constraint
that is to enforce it, and the ORM write that runs the constraint. -/

namespace Ejar

def EjarStatus.label : EjarStatus → String
  | draft => "مسودة"
  | building => "جارٍ الإعداد"
  | ready => "جاهز للإرسال"
  | submitting => "جارٍ الإرسال"
  | submitted => "بانتظار الموافقة"
  | approved => "موافق عليه"
  | rejected => "مرفوض"
  | expired => "منتهي"
  | cancelled => "ملغي"

def allowed : EjarStatus → List EjarStatus
  | .draft => [.building, .cancelled]
  | .building => [.ready, .draft, .cancelled]
  | .ready => [.building, .submitting, .cancelled]
  | .submitting => [.submitted, .ready]
  | .submitted => [.approved, .rejected, .cancelled]
  | .approved => [.expired, .cancelled]
  | .rejected => [.draft, .cancelled]
  | .expired => []
  | .cancelled => []

/-- `_TERMINAL_STATES` -/
def EjarStatus.terminal (s : EjarStatus) : Bool := s = .expired || s = .cancelled

/-- `rec._origin` of a record that is saved is that record. -/
def origin (record : Contract) : Contract := record

/-- `_check_state_transition`, run on the record that holds the new values. -/
def checkStateTransition (record : Contract) : Except Exc Unit :=
  let old := (origin record).ejarStatus
  let new := record.ejarStatus
  if old = new then .ok ()
  else if new ∈ allowed old then .ok ()
  else .error { cls := .validationError
                message := "الانتقال من \"" ++ old.label ++ "\" إلى \"" ++ new.label ++
                  "\" غير مسموح به" }

/-- `contract.write(vals)`: the constraint runs when the status is among the
keys. -/
def Contract.write (c : Contract) (vals : ContractVals) : Except Exc Contract :=
  let record := c.set vals
  if vals.ejarStatus.isSome then (checkStateTransition record).map fun _ => record else .ok record

theorem checkStateTransition_ok (record : Contract) : checkStateTransition record = .ok () := by
  simp [checkStateTransition, origin]

@[simp] theorem Contract.write_ok (c : Contract) (vals : ContractVals) :
    c.write vals = .ok (c.set vals) := by
  simp [Contract.write, checkStateTransition_ok, Except.map]

end Ejar
