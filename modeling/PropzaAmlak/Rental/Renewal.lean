import PropzaAmlak.Rental.Schedule

/-! The renewal of tenancies: `sa_tenancy_renewal.py` with its cron, and the
wizard. A renewal that raises in the cron is caught, and what it has written
before stays. -/

namespace Rental

inductive ContractType where
  | residential
  | commercial
deriving DecidableEq

inductive TenantIdType where
  | nationalId
  | iqama
  | gcc
  | passport
deriving DecidableEq

/-- The tenant's identity, as the tenancy has it. -/
structure TenantIdentity where
  idType : Option TenantIdType := some .nationalId
  nationalId : Option String := none
  idExpiry : Option Date := none
  nationality : Option Nat := none
deriving DecidableEq

/-- A row of `property.tenancy`; the fields that a creation leaves out get the
values given here. -/
structure TenancyRecord where
  property : Nat
  partner : Nat
  startDate : Date
  endDate : Option Date
  duration : Int := 12
  intervalType : IntervalType := .months
  rentAmount : ℚ
  depositAmount : ℚ := 0
  paymentMethod : Option PaymentMethod := some .bankTransfer
  state : TenancyState := .draft
  cycleState : CycleState := .draft
  autoRenew : Bool := false
  renewalPeriodMonths : Int := 12
  renewalRentIncreasePct : ℚ := 0
  renewalNoticeDays : Int := 30
  renewedTo : Option Nat := none
  renewedFrom : Option Nat := none
  identity : TenantIdentity := {}
  contractType : ContractType := .residential
  paymentSchedule : PaymentSchedule := .annual
  broker : Option Nat := none

inductive RenewalError where
  | alreadyRenewed
  | outOfRange
  | rentFreeze
  | dates
  | freezeWarning
  | invalidRent
  | missingDates
  | failed
deriving DecidableEq

/-- The texts of the errors that have one. -/
def RenewalError.message : RenewalError → Option String
  | alreadyRenewed => some "العقد مُجدَّد بالفعل"
  | rentFreeze => some ("لا يُسمح بزيادة الإيجار في عقارات الرياض حتى سبتمبر 2030 " ++
    "(قانون تجميد الإيجار). أبقِ النسبة عند 0٪.")
  | dates => some "تاريخ النهاية يجب أن يكون بعد تاريخ البداية."
  | freezeWarning => some ("لا يُسمح بزيادة الإيجار في عقارات الرياض حتى سبتمبر 2030 " ++
    "(قانون تجميد الإيجار). أبقِ النسبة عند 0٪ أو ألغِ التجديد.")
  | invalidRent => some "قيمة الإيجار الجديد غير صحيحة"
  | missingDates => some "يجب تحديد تاريخ البداية والمدة"
  | outOfRange => none
  | failed => none

/-- The freeze raises the error. -/
def RenewalError.freezes (e : RenewalError) : Bool := e = .rentFreeze || e = .freezeWarning

/-- Where else in `_do_renewal` an exception may come from: the sequence and the
creation, what runs on the new row, and the messages after the link. -/
inductive FailurePoint where
  | beforeInsert
  | afterInsert
  | afterLink
deriving DecidableEq

/-- The arguments of `_do_renewal`; a period of 0 is none. -/
structure RenewalRequest where
  newRent : Option ℚ := none
  periodMonths : Int := 0
  newStartDate : Option Date := none

structure RenewalWizard where
  newStartDate : Option Date
  periodMonths : Int
  rentIncreasePct : ℚ
  newRent : ℚ

namespace TenancyRecord

def terms (t : TenancyRecord) (frozen : Bool) : RenewalTerms where
  endDate := t.endDate
  rentAmount := t.rentAmount
  depositAmount := t.depositAmount
  renewalPeriodMonths := t.renewalPeriodMonths
  renewalRentIncreasePct := t.renewalRentIncreasePct
  rentFreezeActive := frozen

/-- The row that `create` makes of the values of `_build_renewal_vals`. -/
def successor (t : TenancyRecord) (id : Nat) (vals : RenewalVals) : TenancyRecord where
  property := t.property
  partner := t.partner
  startDate := vals.startDate
  endDate := some vals.endDate
  duration := vals.duration
  intervalType := vals.intervalType
  rentAmount := vals.rentAmount
  depositAmount := vals.depositAmount
  paymentMethod := t.paymentMethod
  autoRenew := t.autoRenew
  renewalPeriodMonths := t.renewalPeriodMonths
  renewalRentIncreasePct := t.renewalRentIncreasePct
  renewalNoticeDays := t.renewalNoticeDays
  renewedFrom := some id
  state := .draft

/-- `_check_rent_freeze` and `_check_dates`, which run on the new row -/
def check (t : TenancyRecord) (frozen : Bool) : Option RenewalError :=
  if t.endDate.any (· < t.startDate) then some .dates
  else if frozen ∧ 0 < t.renewalRentIncreasePct then some .rentFreeze
  else none

def build (t : TenancyRecord) (frozen : Bool) (today : Date) (request : RenewalRequest) : Option RenewalVals :=
  buildRenewalVals (t.terms frozen) today request.newRent request.periodMonths request.newStartDate

/-- `search` of the cron -/
def candidate (t : TenancyRecord) : Bool :=
  t.state = .running && t.autoRenew && t.renewedTo.isNone && t.endDate.isSome

/-- `0 <= days_left <= notice` -/
def inNotice (t : TenancyRecord) (today : Date) : Bool :=
  let notice := if t.renewalNoticeDays ≠ 0 then t.renewalNoticeDays else 30
  t.endDate.any fun endDate =>
    let daysLeft : Int := endDate.toordinal - today.toordinal
    decide (0 ≤ daysLeft) && decide (daysLeft ≤ notice)

end TenancyRecord

/-- The tenancies, by number, and the properties whose rent is frozen. -/
structure RenewalStore where
  tenancies : List TenancyRecord
  frozen : Nat → Bool

namespace RenewalStore

def insert (s : RenewalStore) (t : TenancyRecord) : RenewalStore := { s with tenancies := s.tenancies ++ [t] }

def link (s : RenewalStore) (i : Nat) (t : TenancyRecord) (id : Nat) : RenewalStore :=
  { s with tenancies := s.tenancies.set i { t with renewedTo := some id, cycleState := .renewed } }

/-- `_do_renewal`: what it has written and what it returns or raises -/
def doRenewal (s : RenewalStore) (i : Nat) (t : TenancyRecord) (today : Date) (request : RenewalRequest)
    (failure : Option FailurePoint) : RenewalStore × Except RenewalError Nat :=
  if t.renewedTo.isSome then (s, .error .alreadyRenewed)
  else
    match t.build (s.frozen t.property) today request with
    | none => (s, .error .outOfRange)
    | some vals =>
      if failure = some .beforeInsert then (s, .error .failed)
      else
        let created := s.insert (t.successor i vals)
        match (t.successor i vals).check (s.frozen t.property) with
        | some e => (created, .error e)
        | none =>
          if failure = some .afterInsert then (created, .error .failed)
          else
            let linked := created.link i t s.tenancies.length
            if failure = some .afterLink then (linked, .error .failed) else (linked, .ok s.tenancies.length)

/-- One turn of the loop of the cron, whatever is raised in it. -/
def autoRenew (today : Date) (failures : Nat → Option FailurePoint) (s : RenewalStore) (i : Nat) : RenewalStore :=
  match s.tenancies[i]? with
  | none => s
  | some t => (s.doRenewal i t today {} (failures i)).1

/-- The candidates whose notice has come. -/
def due (s : RenewalStore) (today : Date) : List Nat :=
  (List.range s.tenancies.length).filter fun i =>
    s.tenancies[i]?.any fun t => t.candidate && t.inNotice today

def renewAll (s : RenewalStore) (today : Date) (failures : Nat → Option FailurePoint) (ids : List Nat) :
    RenewalStore :=
  ids.foldl (autoRenew today failures) s

/-- `cron_auto_renew_tenancies` -/
def cron (s : RenewalStore) (today : Date) (failures : Nat → Option FailurePoint) : RenewalStore :=
  s.renewAll today failures (s.due today)

/-- A request that raises takes back all it wrote. -/
def committed (result : RenewalStore × Except RenewalError Nat) : Except RenewalError RenewalStore :=
  match result.2 with
  | .ok _ => .ok result.1
  | .error e => .error e

/-- `action_renew` -/
def actionRenew (s : RenewalStore) (i : Nat) (t : TenancyRecord) (w : RenewalWizard) (today : Date) :
    Except RenewalError RenewalStore :=
  if s.frozen t.property ∧ 0 < w.rentIncreasePct then .error .freezeWarning
  else if w.newRent ≤ 0 then .error .invalidRent
  else if w.newStartDate = none ∨ w.periodMonths = 0 then .error .missingDates
  else committed (s.doRenewal i t today ⟨some w.newRent, w.periodMonths, w.newStartDate⟩ none)

end RenewalStore

end Rental
