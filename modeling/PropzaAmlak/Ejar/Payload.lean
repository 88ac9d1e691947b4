import PropzaAmlak.Data.Integers
import PropzaAmlak.Ejar.Contract
import PropzaAmlak.Ejar.Exceptions

/-! `services/payload_builder.py`: the attributes of the requests the submission
pipeline makes, and the `validate_for_submission` checks that go before them. -/

namespace Ejar

open Text (isDecimalDigit)

/-- A value as `_require` sees it; `pyNone` is Python's `None`. -/
inductive FieldValue where
  | false
  | pyNone
  | char (s : String)
  | number (q : Rat)
  | date (d : Date)
  | record (present : Bool)

namespace FieldValue

def truthy : FieldValue → Bool
  | false => Bool.false
  | pyNone => Bool.false
  | char s => s != ""
  | number q => q != 0
  | date _ => true
  | record present => present

/-- `value != 0`; Python holds `False == 0`. -/
def neZero : FieldValue → Bool
  | false => Bool.false
  | number q => q != 0
  | _ => true

def ofChar : CharField → FieldValue
  | some s => char s
  | none => false

def ofDate : Option Date → FieldValue
  | some d => date d
  | none => false

end FieldValue

/-- `_require` -/
def require (value : FieldValue) (field model : String) : Except Exc Unit :=
  if !value.truthy && value.neZero then
    .error { cls := .ejarPayloadError, message := "Required field is empty: " ++ field
             odooField := field, odooModel := model }
  else .ok ()

/-- `str(d)` of a Date field. -/
def dateStr : Option Date → String
  | some d => d.isoformat
  | none => "False"

structure ContractAttributes where
  contractType : String
  subType : String
  useType : String
  contractStartDate : String
  contractEndDate : String
  numberOfYears : Rat
  subleaseAllowed : Bool
  customTermsAccepted : Bool

def buildContractAttributes (contract : Contract) (profile : Option BrokerageProfile) :
    Except Exc ContractAttributes := do
  require (.ofDate contract.startDate) "start_date" "ejar.contract"
  require (.ofDate contract.endDate) "end_date" "ejar.contract"
  require (.number contract.rentAmount) "rent_amount" "ejar.contract"
  require (.record profile.isSome) "brokerage_profile_id" "ejar.contract"
  return {
    contractType := (contract.contractType.getD .residential).str
    subType := (contract.contractSubType.getD .main).str
    useType := (contract.useType.getD .residentialFamilies).str
    contractStartDate := dateStr contract.startDate
    contractEndDate := dateStr contract.endDate
    numberOfYears := pyRound contract.durationYears 4
    subleaseAllowed := contract.subleaseAllowed
    customTermsAccepted := contract.customTerms.truthy }

structure FinancialAttributes where
  annualRent : Rat
  billingType : CharField
  paymentOption : String
  ibanNumber : String
  ibanBelongTo : String
  ejarFeesPaidBy : String

/-- `_get_party` -/
def getParty (contract : Contract) (role : Role) : Option Party :=
  contract.parties.find? (·.role = role)

def buildFinancialAttributes (contract : Contract) : Except Exc FinancialAttributes := do
  require (.number contract.rentAmount) "rent_amount" "ejar.contract"
  require (.ofChar (contract.paymentSchedule.map PaymentSchedule.str)) "payment_schedule"
    "ejar.contract"
  return {
    annualRent := pyRound contract.rentAmount 2
    billingType := contract.paymentSchedule.map PaymentSchedule.str
    paymentOption := (contract.paymentOption.getD .bankTransfer).str
    ibanNumber := CharField.orText ((getParty contract .lessor).bind Party.iban) ""
    ibanBelongTo := "lessor"
    ejarFeesPaidBy := (contract.ejarFeesPaidBy.getD .brokerageOffice).str }

structure RentalFeeAttributes where
  brokerageFee : Rat
  brokerageFeePaidBy : String
  brokerageLicenseNumber : CharField

/-- `none` when no brokerage fee is configured. -/
def buildRentalFeeAttributes (contract : Contract) (profile : Option BrokerageProfile) :
    Option RentalFeeAttributes :=
  if contract.brokerageFee = 0 then none
  else some {
    brokerageFee := pyRound contract.brokerageFee 2
    brokerageFeePaidBy := (contract.brokerageFeePaidBy.getD .lessor).str
    brokerageLicenseNumber :=
      match profile with
      | some p => p.licenseNumber
      | none => some "" }

def normalizeMobile (mobile : CharField) : String :=
  match mobile with
  | none => ""
  | some mobile =>
    if mobile = "" then "" else
    let digits := mobile.toList.filter isDecimalDigit
    if "966".toList.isPrefixOf digits then String.ofList ('+' :: digits)
    else if ['0'].isPrefixOf digits && digits.length == 10 then
      String.ofList ("+966".toList ++ digits.drop 1)
    else if digits.length == 9 then String.ofList ("+966".toList ++ digits)
    else mobile

structure IndividualEntityAttributes where
  idNumber : CharField
  idType : String
  idExpiryDate : Option String
  fullName : CharField
  mobileNumber : String
  email : Option String
  nationality : String

def buildIndividualEntityAttributes (party : Party) : Except Exc IndividualEntityAttributes := do
  require (.ofChar party.idNumber) "id_number" "ejar.contract.party"
  require (.ofChar party.mobile) "mobile" "ejar.contract.party"
  require (.ofChar party.fullNameAr) "full_name_ar" "ejar.contract.party"
  return {
    idNumber := party.idNumber
    idType := (party.idType.getD .nationalId).str
    idExpiryDate := party.idExpiry.map Date.isoformat
    fullName := party.fullNameAr
    mobileNumber := normalizeMobile party.mobile
    email := if party.email.truthy then party.email else none
    nationality := party.nationality.orText "SA" }

structure OrganizationEntityAttributes where
  crNumber : String
  unifiedNumber : String
  organizationName : String
  mobileNumber : String

def buildOrganizationEntityAttributes (party : Party) : Except Exc OrganizationEntityAttributes := do
  require (.ofChar (if party.crNumber.truthy then party.crNumber else party.unifiedNumber))
    "cr_number / unified_number" "ejar.contract.party"
  return {
    crNumber := party.crNumber.orText ""
    unifiedNumber := party.unifiedNumber.orText ""
    organizationName := party.fullNameAr.orText ""
    mobileNumber := normalizeMobile (some (party.mobile.orText "")) }

/-- The last two fields travel as `_entity_id` and `_entity_type` and are popped
by the client. -/
structure PartyAttributes where
  role : String
  protectIdentity : Bool
  isRepresentative : Bool
  entityId : CharField
  entityType : String

def EntityType.endpointType : EntityType → String
  | individual => "individual_entities"
  | organization => "organization_entities"

def buildPartyAttributes (party : Party) (entityId : CharField) : Except Exc PartyAttributes := do
  require (.ofChar entityId) "ejar_entity_id" "ejar.contract.party"
  require (.char party.role.str) "role" "ejar.contract.party"
  return {
    role := party.role.str
    protectIdentity := false
    isRepresentative := party.role.isRepresentative
    entityId := entityId
    entityType := party.entityType.endpointType }

/-- `ValidationError` listing what is missing, if anything is. -/
def reportMissing (heading : String) (errors : List String) : Except Exc Unit :=
  if errors.isEmpty then .ok ()
  else .error { cls := .validationError, message := heading ++ "\n• " ++ "\n• ".intercalate errors }

def missingIf (condition : Bool) (what : String) : List String := if condition then [what] else []

def BrokerageProfile.licenseExpired (profile : BrokerageProfile) (today : Date) : Bool :=
  match profile.licenseExpiry with
  | some expiry => decide (expiry < today)
  | none => false

def BrokerageProfile.validateForSubmission (profile : BrokerageProfile) (today : Date) :
    Except Exc Unit :=
  reportMissing "ملف الوساطة غير مكتمل. الحقول المطلوبة:" (
    missingIf (!profile.crNumber.truthy) "رقم السجل التجاري" ++
    missingIf (!profile.unifiedNumber.truthy) "الرقم الموحد" ++
    missingIf (!profile.licenseNumber.truthy) "رقم الترخيص (ريرا)" ++
    missingIf (profile.licenseExpired today) "ترخيص ريرا منتهي الصلاحية" ++
    missingIf (!profile.representativePartnerId.isSome) "الممثل القانوني" ++
    missingIf (!CharField.truthy (profile.representativePartnerId.bind Partner.saNationalId))
      "هوية الممثل القانوني" ++
    missingIf (!profile.officeNameAr.truthy) "اسم المكتب (عربي)")

def Party.validateForSubmission (party : Party) : Except Exc Unit :=
  reportMissing ("بيانات " ++ party.role.label ++ " غير مكتملة:") (
    missingIf (party.entityType = .individual && !party.idNumber.truthy) "رقم الهوية" ++
    missingIf (party.entityType = .individual && !party.mobile.truthy) "رقم الجوال" ++
    missingIf (party.entityType = .individual && !party.fullNameAr.truthy) "الاسم الكامل" ++
    missingIf (party.entityType = .organization && !party.crNumber.truthy &&
      !party.unifiedNumber.truthy) "رقم السجل التجاري أو الرقم الموحد" ++
    missingIf (party.role = .lessor && !party.iban.truthy) "رقم الآيبان (مطلوب للمؤجر)" ++
    missingIf (party.role.isRepresentative && !party.proxyDoc.truthy)
      "وثيقة التوكيل (مطلوبة للممثل)")

def ContractUnit.validateForSubmission (unit : ContractUnit) : Except Exc Unit :=
  reportMissing ("بيانات الوحدة " ++ unit.unitLabel.str ++ " غير مكتملة:") (
    missingIf (!unit.deedNumber.truthy) "رقم الصك (مفقود في العقار)" ++
    missingIf (!unit.nationalAddressCode.truthy) "رمز العنوان الوطني (مفقود في العقار)" ++
    missingIf (unit.area = 0) "مساحة الوحدة")

end Ejar
