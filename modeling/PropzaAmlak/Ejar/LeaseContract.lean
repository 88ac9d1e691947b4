import PropzaAmlak.Data.Schema
import PropzaAmlak.Data.Table
import PropzaAmlak.Ejar.Required
import PropzaAmlak.Profile.Verification
import PropzaAmlak.Rental.Renewal
import PropzaAmlak.Submission.FeeCap

/-! Tenancies and the contracts made from them: the creation of an `ejar.contract`
with its lines, and `action_create_ejar_contract` of `property_tenancy.py`. -/

namespace Ejar

open Schema (Vals Value)

def tenantIdTypeStr : Rental.TenantIdType → String
  | .nationalId => "national_id"
  | .iqama => "iqama"
  | .gcc => "gcc"
  | .passport => "passport"

def paymentMethodStr : Rental.PaymentMethod → String
  | .sadad => "sadad"
  | .mada => "mada"
  | .bankTransfer => "bank_transfer"
  | .cheque => "cheque"
  | .cash => "cash"

/-- The keys of `ejar_payment_schedule`. -/
def tenancyScheduleStr : Rental.PaymentSchedule → String
  | .flexible => "flexible"
  | .oneTime => "one_time"
  | .monthly => "monthly"
  | .quarterly => "quarterly"
  | .semiAnnual => "semi_annual"
  | .annual => "annual"

/-- The months between two payments, where the schedule has a period. -/
def tenancyPeriod : Rental.PaymentSchedule → Option Nat
  | .flexible => none
  | .oneTime => none
  | .monthly => some 1
  | .quarterly => some 3
  | .semiAnnual => some 6
  | .annual => some 12

def PaymentSchedule.period : PaymentSchedule → Nat
  | monthly => 1
  | quarterly => 3
  | biannual => 6
  | annual => 12

/-- `ejar_fee_bearer` -/
inductive FeeBearer where
  | lessor
  | broker

def FeeBearer.str : FeeBearer → String
  | lessor => "lessor"
  | broker => "broker"

def UnitType.label : UnitType → String
  | villa => "فيلا"
  | apartment => "شقة"
  | floor => "طابق"
  | room => "غرفة"
  | office => "مكتب"
  | store => "محل تجاري"
  | warehouse => "مستودع"
  | land => "أرض"

/-- The member of an enumeration with a given key. -/
def ofKey {α : Type} (members : List α) (str : α → String) (key : String) : Option α :=
  members.find? fun a => str a = key

def schedules : List PaymentSchedule := [.monthly, .quarterly, .biannual, .annual]
def contractTypes : List ContractType := [.residential, .commercial]
def idTypes : List IdType := [.nationalId, .iqama, .passport, .gccId]
def roles : List Role := [.lessor, .tenant, .lessorRepresentative, .tenantRepresentative]
def unitTypes : List UnitType := [.villa, .apartment, .floor, .room, .office, .store, .warehouse, .land]
def tenantIdTypes : List Rental.TenantIdType := [.nationalId, .iqama, .gcc, .passport]
def paymentMethods : List Rental.PaymentMethod := [.sadad, .mada, .bankTransfer, .cheque, .cash]

/-- The fields every model has, and those of `mail.thread` and `mail.activity.mixin`. -/
def commonFields : List String :=
  ["id", "display_name", "create_uid", "create_date", "write_uid", "write_date",
   "message_is_follower", "message_follower_ids", "message_partner_ids", "message_ids", "has_message",
   "message_needaction", "message_needaction_counter", "message_has_error", "message_has_error_counter",
   "message_attachment_count", "activity_ids", "activity_state", "activity_user_id", "activity_type_id",
   "activity_type_icon", "activity_date_deadline", "my_activity_date_deadline", "activity_summary",
   "activity_exception_decoration", "activity_exception_icon"]

def contractModel : Schema.Model where
  name := "ejar.contract"
  fields := commonFields ++
    ["company_id", "name", "ejar_status", "contract_type", "contract_sub_type", "use_type", "tenancy_id",
     "brokerage_profile_id", "party_ids", "unit_ids", "start_date", "end_date", "rent_amount", "currency_id",
     "payment_schedule", "payment_option", "sublease_allowed", "brokerage_fee", "brokerage_fee_paid_by",
     "ejar_fees_paid_by", "doc_fee", "signed_doc", "signed_doc_filename", "custom_terms", "ejar_contract_id",
     "ejar_contract_number", "rejection_reason", "submit_attempt", "submit_error", "ejar_last_sync", "next_poll_at",
     "poll_count", "ejar_response_raw", "webhook_uuid", "webhook_delivered_at", "webhook_event_type",
     "webhook_correlation_id", "webhook_last_error_at", "webhook_last_error_msg", "duration_years", "party_count",
     "unit_count", "log_count", "has_lessor", "has_tenant", "has_unit", "is_ready_to_submit", "rent_freeze_warning",
     "active_job_uuid", "job_channel", "job_enqueued_at", "job_retry_count", "job_last_error", "job_state",
     "job_progress", "has_active_job"]
  selections :=
    [("contract_type", contractTypes.map ContractType.str),
     ("payment_schedule", schedules.map PaymentSchedule.str)]

def partyModel : Schema.Model where
  name := "ejar.contract.party"
  fields := commonFields ++
    ["contract_id", "company_id", "role", "entity_type", "partner_id", "id_number", "id_type", "id_expiry",
     "date_of_birth", "nationality", "mobile", "email", "full_name_ar", "full_name_en", "cr_number", "unified_number",
     "iban", "proxy_doc", "proxy_doc_filename", "proxy_doc_type", "ejar_entity_id", "ejar_party_id",
     "ejar_proxy_doc_id", "sync_state", "sync_error"]
  selections :=
    [("role", roles.map Role.str), ("entity_type", ["individual", "organization"]),
     ("id_type", idTypes.map IdType.str)]

def unitModel : Schema.Model where
  name := "ejar.contract.unit"
  fields := commonFields ++
    ["contract_id", "company_id", "property_id", "unit_number", "unit_type", "area", "floor_number", "bedrooms",
     "bathrooms", "parking_spaces", "finishing", "furnishing", "direction", "deed_number", "national_address_code",
     "ejar_property_id", "ejar_unit_id", "ejar_contract_unit_id", "sync_state", "sync_error", "unit_label"]
  selections := [("unit_type", unitTypes.map UnitType.str)]

/-- A row of `property.tenancy`, with its fields for Ejar. -/
structure LeasedTenancy extends Rental.TenancyRecord where
  ejarPaymentSchedule : Option Rental.PaymentSchedule := some .monthly
  subleaseAllowed : Bool := false
  ejarFeeBearer : Option FeeBearer := some .lessor
  ejarContract : Option Nat := none

/-- A contract with the tenancy it is for. -/
structure LeaseContract extends Contract where
  tenancy : Option Nat

inductive PropertyType where
  | residential
  | commercial
  | industrial
  | land
deriving DecidableEq

structure LeaseProperty where
  name : String
  owner : Option Nat := none
  rentAmount : ℚ := 0
  ejarUnitType : PropertyType := .residential
  areaSqm : ℚ := 0
  rooms : Int := 0
  bathrooms : Int := 0
  deedNumber : CharField := none
  nationalAddressCode : CharField := none
  rentFreezeActive : Bool := false

structure LeasePartner extends Profile.Identity where
  name : CharField
  mobile : CharField := none
  phone : CharField := none
  email : CharField := none

/-- What a new contract takes from where it is made. -/
structure Office where
  companyId : Nat
  companyName : String
  brokerageProfile : Option BrokerageProfile := none
  nextName : String

structure Leases where
  office : Office
  property : Nat → LeaseProperty
  partner : Nat → LeasePartner
  tenancies : Table LeasedTenancy
  contracts : Table LeaseContract

inductive LeaseError where
  | valueError (r : Schema.Refusal)
  | missingRequired (field : String)
  | dateOverflow
  | tenancy (e : Rental.RenewalError)
  | validationError (message : String)
  | userError (message : String)

def refuse {α : Type} (r : Except Schema.Refusal α) : Except LeaseError α := r.mapError .valueError

def partyDisplayName (fullNameAr partnerName : CharField) (role : Role) : String :=
  let name := fullNameAr.orText (partnerName.orText "")
  if name = "" then role.label else name ++ " (" ++ role.label ++ ")"

/-- `_check_id_number` -/
def checkIdNumber (p : Party) : Except LeaseError Unit :=
  match p.idNumber with
  | none => .ok ()
  | some idNumber =>
    if idNumber = "" then .ok ()
    else if p.idType = some .nationalId ∧ !Profile.tenDigitsFrom '1' idNumber.toList then
      .error (.validationError "الهوية الوطنية يجب أن تبدأ بـ 1 وتتكون من 10 أرقام")
    else if p.idType = some .iqama ∧ !Profile.tenDigitsFrom '2' idNumber.toList then
      .error (.validationError "رقم الإقامة يجب أن يبدأ بـ 2 وتتكون من 10 أرقام")
    else .ok ()

/-- What `_check_id_number` asks of a number of the type. -/
def numberFits (idType : IdType) (number : List Char) : Bool :=
  match idType with
  | .nationalId => Profile.tenDigitsFrom '1' number
  | .iqama => Profile.tenDigitsFrom '2' number
  | _ => true

/-- `text.strip(chars)` -/
def stripOf (chars text : List Char) : List Char :=
  ((text.dropWhile (· ∈ chars)).reverse.dropWhile (· ∈ chars)).reverse

/-- `_compute_unit_label` -/
def unitLabel (property : String) (unitType : Option UnitType) (unitNumber : String) : String :=
  let typeName := (unitType.map UnitType.label).getD ""
  String.ofList (stripOf [' ', '—'] (property ++ " — " ++ typeName ++ " " ++ unitNumber).toList)

namespace Leases

variable (w : Leases) (vals : Vals)

def addTenancy (t : LeasedTenancy) : Leases := { w with tenancies := w.tenancies.insert t }

def addContract (c : LeaseContract) : Leases := { w with contracts := w.contracts.insert c }

/-- `tenancy.ejar_contract_id = contract` -/
def link (tenancy contract : Nat) : Leases :=
  { w with tenancies := w.tenancies.modify tenancy fun t => { t with ejarContract := some contract } }

/-- The tenancy before a contract was made for it. -/
def unlink (tenancy : Nat) : Leases :=
  { w with tenancies := w.tenancies.modify tenancy fun t => { t with ejarContract := none } }

/-- The row of a new party. -/
def partyOf (role : Role) : Party where
  role
  entityType := if vals.text "entity_type" = some "organization" then .organization else .individual
  idNumber := vals.text "id_number"
  idType := vals.select "id_type" (ofKey idTypes IdType.str) (some .nationalId)
  idExpiry := vals.date "id_expiry"
  mobile := vals.text "mobile"
  email := vals.text "email"
  fullNameAr := vals.text "full_name_ar"
  displayName :=
    let partnerName := (vals.record "partner_id").bind fun partner => (w.partner partner).name
    some (partyDisplayName (vals.text "full_name_ar") partnerName role)

/-- The creation of an `ejar.contract.party`. -/
def party : Except LeaseError Party := do
  refuse (partyModel.check vals)
  match vals.select "role" (ofKey roles Role.str) none with
  | none => .error (.missingRequired "role")
  | some role =>
    checkIdNumber (w.partyOf vals role)
    return w.partyOf vals role

/-- The creation of an `ejar.contract.unit`. -/
def unit : Except LeaseError ContractUnit := do
  refuse (unitModel.check vals)
  match vals.record "property_id", vals.text "unit_number" with
  | some property, some unitNumber =>
    if Text.strip unitNumber.toList = [] then .error (.validationError "رقم الوحدة مطلوب")
    else
      let unitType := vals.select "unit_type" (ofKey unitTypes UnitType.str) (some .apartment)
      return {
        deedNumber := (w.property property).deedNumber
        nationalAddressCode := (w.property property).nationalAddressCode
        area := toCents (vals.number "area")
        unitLabel := some (unitLabel (w.property property).name unitType unitNumber) }
  | none, _ => .error (.missingRequired "property_id")
  | _, none => .error (.missingRequired "unit_number")

/-- The row of a new contract; no caller gives it a reference or a brokerage profile. -/
def contractOf (parties : List Party) (units : List ContractUnit) (startDate endDate : Date) : LeaseContract where
  companyId := w.office.companyId
  companyName := w.office.companyName
  name := w.office.nextName
  brokerageProfileId := w.office.brokerageProfile
  contractType := vals.select "contract_type" (ofKey contractTypes ContractType.str) (some .residential)
  tenancy := vals.record "tenancy_id"
  partyIds := .ofRows parties { role := .tenant }
  unitIds := .ofRows units {}
  startDate := some startDate
  endDate := some endDate
  rentAmount := toCents (vals.number "rent_amount")
  paymentSchedule := vals.select "payment_schedule" (ofKey schedules PaymentSchedule.str) (some .monthly)
  subleaseAllowed := vals.boolean "sublease_allowed"

/-- The creation of an `ejar.contract` with its lines. -/
def createContract : Except LeaseError (Nat × Leases) := do
  refuse (contractModel.check vals)
  let parties ← (vals.rows "party_ids").mapM w.party
  let units ← (vals.rows "unit_ids").mapM w.unit
  match vals.date "start_date", vals.date "end_date" with
  | some startDate, some endDate =>
    if endDate ≤ startDate then .error (.validationError "تاريخ الانتهاء يجب أن يكون بعد تاريخ البداية")
    else return (w.contracts.next, w.addContract (w.contractOf vals parties units startDate endDate))
  | none, _ => .error (.missingRequired "start_date")
  | _, none => .error (.missingRequired "end_date")

/-- What `action_create_ejar_contract` of a tenancy gives the new contract. -/
def tenancyVals (tenancy : Nat) : Vals :=
  let t := w.tenancies.row tenancy
  [("tenancy_id", .record (some tenancy)),
   ("property_id", .record (some t.property)),
   ("lessor_partner_id", .record (w.property t.property).owner),
   ("tenant_partner_id", .record (some t.partner)),
   ("start_date", .date (some t.startDate)),
   ("end_date", .date t.endDate),
   ("rent_amount", .number t.rentAmount),
   ("payment_schedule", .text (t.ejarPaymentSchedule.map tenancyScheduleStr)),
   ("tenant_id_type", .text (t.identity.idType.map tenantIdTypeStr)),
   ("tenant_national_id", .text t.identity.nationalId),
   ("sublease_allowed", .boolean t.subleaseAllowed),
   ("fee_bearer", .text (t.ejarFeeBearer.map FeeBearer.str))]

/-- `action_create_ejar_contract` of a tenancy -/
def tenancyCreatesContract (tenancy : Nat) : Except LeaseError (Nat × Leases) :=
  if (w.tenancies.row tenancy).ejarContract.isSome then
    .error (.userError "عقد إيجار موجود بالفعل لهذا الإيجار")
  else do
    let (contract, w) ← w.createContract (w.tenancyVals tenancy)
    return (contract, w.link tenancy contract)

end Leases

/-- A contract as it should be made from its tenancy. -/
structure FollowsTenancy (t : LeasedTenancy) (c : LeaseContract) : Prop where
  rent : c.rentAmount = 12 * t.rentAmount
  startDate : c.startDate = some t.startDate
  endDate : c.endDate = t.endDate
  schedule : ∃ s e, c.paymentSchedule = some s ∧ t.ejarPaymentSchedule = some e ∧ tenancyPeriod e = some s.period

/-- The tenancy's action makes a contract, and it follows the tenancy. -/
def TenancyRight (w : Leases) (tenancy : Nat) : Prop :=
  ∃ contract after, w.tenancyCreatesContract tenancy = .ok (contract, after) ∧
    FollowsTenancy (w.tenancies.row tenancy) (after.contracts.row contract)

/-- The same dates, rent and schedule. -/
structure SameLease (c c' : LeaseContract) : Prop where
  startDate : c.startDate = c'.startDate
  endDate : c.endDate = c'.endDate
  rent : c.rentAmount = c'.rentAmount
  schedule : c.paymentSchedule = c'.paymentSchedule

section Steps

variable {α β : Type} {a : α} {e : LeaseError} {f : α → Except LeaseError β}

@[simp] theorem ok_bind : (Except.ok a >>= f) = f a := rfl

@[simp] theorem error_bind : (Except.error e >>= f) = .error e := rfl

@[simp] theorem pure_ok : (pure a : Except LeaseError α) = .ok a := rfl

@[simp] theorem refuse_ok : refuse (.ok a) = .ok a := rfl

@[simp] theorem refuse_error {r : Schema.Refusal} :
    refuse (.error r : Except Schema.Refusal α) = .error (.valueError r) := rfl

end Steps

theorem checkIdNumber_ok_iff {p : Party} {idType : IdType} (hidType : p.idType = some idType) :
    checkIdNumber p = .ok () ↔
      ∀ number, p.idNumber = some number → number ≠ "" → numberFits idType number.toList := by
  unfold checkIdNumber
  cases hnumber : p.idNumber with
  | none => simp
  | some number =>
    by_cases hempty : number = ""
    · simp [hempty]
    · cases idType <;> simp [hidType, hempty, numberFits]

theorem toCents_of_isCents {q : ℚ} (hq : IsCents q) : toCents q = q := by
  have hround (n : ℤ) : ((n : ℚ) / 100 * 100 + 1 / 2).floor = n := by
    have hscaled : (n : ℚ) / 100 * 100 + 1 / 2 = n + 1 / 2 := by ring
    have hfloor : ⌊(n : ℚ) + 1 / 2⌋ = n := Int.floor_eq_iff.mpr ⟨by linarith, by linarith⟩
    rw [hscaled]
    exact hfloor
  obtain ⟨n, rfl⟩ := hq
  unfold toCents
  split
  · have hneg := hround (-n)
    push_cast [neg_div] at hneg
    rw [hneg]
    push_cast
    ring
  · rw [hround]

section Tenancy

variable {w : Leases} {tenancy : Nat}

/-- The first field the tenancy's action names that a contract does not have. -/
theorem tenancyVals_refused : contractModel.check (w.tenancyVals tenancy) =
    .error (.invalidField "property_id" "ejar.contract") := by
  have hdeclared : "tenancy_id" ∈ contractModel.fields := by decide
  have hundeclared : "property_id" ∉ contractModel.fields := by decide
  have hbefore : ∀ entry ∈ ([("tenancy_id", .record (some tenancy))] : Vals), entry.1 ∈ contractModel.fields := by
    simpa using hdeclared
  exact Schema.Model.check_of_undeclared hbefore hundeclared

/-- The tenancy's action never creates a contract. -/
theorem tenancyCreatesContract_error : w.tenancyCreatesContract tenancy =
    .error (if (w.tenancies.row tenancy).ejarContract.isSome then
      .userError "عقد إيجار موجود بالفعل لهذا الإيجار"
    else .valueError (.invalidField "property_id" "ejar.contract")) := by
  have hcreate : w.createContract (w.tenancyVals tenancy) =
      .error (.valueError (.invalidField "property_id" "ejar.contract")) := by
    rw [Leases.createContract, tenancyVals_refused, refuse_error, error_bind]
  unfold Leases.tenancyCreatesContract
  rw [hcreate]
  split
  · rfl
  · rfl

theorem not_tenancyRight : ¬ TenancyRight w tenancy := by
  rintro ⟨contract, after, hcreate, _⟩
  rw [tenancyCreatesContract_error] at hcreate
  cases hcreate

end Tenancy

end Ejar
