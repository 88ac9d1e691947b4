import PropzaAmlak.Data.Records
import PropzaAmlak.Data.Json
import PropzaAmlak.Data.Calendar

/-! The records of the Ejar addon: `ejar.contract` with its parties, its units
and its brokerage profile, and the values written to them. -/

namespace Ejar

/-- A Char, Text or related field; `none` is Odoo's `False`. -/
abbrev CharField := Option String

namespace CharField

def truthy : CharField → Bool
  | some s => s != ""
  | none => false

/-- `str(v)` -/
def str : CharField → String
  | some s => s
  | none => "False"

/-- `v or d` -/
def orText (v : CharField) (d : String) : String :=
  match v with
  | some s => if s != "" then s else d
  | none => d

/-- What the field holds once a JSON value is written to it. -/
def ofJson : Json → CharField
  | .null => none
  | .bool false => none
  | v => some v.text

@[simp] theorem truthy_none : truthy none = false := rfl

@[simp] theorem truthy_some (s : String) : truthy (some s) = (s != "") := rfl

theorem truthy_iff {v : CharField} : v.truthy = true ↔ ∃ s, v = some s ∧ s ≠ "" := by
  cases v <;> simp [truthy]

theorem ofJson_of_truthy {v : Json} (hv : v.truthy) : ofJson v = some v.text := by
  cases v with
  | null => simp at hv
  | bool b =>
    cases b with
    | false => cases hv
    | true => rfl
  | _ => rfl

theorem ofJson_truthy {v : Json} (hv : v.truthy) : (ofJson v).truthy := by
  rw [ofJson_of_truthy hv, truthy_some]
  simpa using Json.text_ne_empty hv

end CharField

/-- A Binary field, by the bytes its base64 text decodes to. -/
abbrev BinaryField := Option (List UInt8)

def BinaryField.truthy : BinaryField → Bool
  | some content => !content.isEmpty
  | none => false

abbrev Datetime := Int

inductive EjarStatus where
  | draft
  | building
  | ready
  | submitting
  | submitted
  | approved
  | rejected
  | expired
  | cancelled
deriving DecidableEq

inductive ContractType where
  | residential
  | commercial
deriving DecidableEq

def ContractType.str : ContractType → String
  | residential => "residential"
  | commercial => "commercial"

inductive ContractSubType where
  | main
  | renewal
  | sublease
deriving DecidableEq

def ContractSubType.str : ContractSubType → String
  | main => "main"
  | renewal => "renewal"
  | sublease => "sublease"

inductive UseType where
  | residentialFamilies
  | residentialSingles
  | commercial
  | industrial
deriving DecidableEq

def UseType.str : UseType → String
  | residentialFamilies => "residential_families"
  | residentialSingles => "residential_singles"
  | commercial => "commercial"
  | industrial => "industrial"

inductive PaymentSchedule where
  | monthly
  | quarterly
  | biannual
  | annual
deriving DecidableEq

def PaymentSchedule.str : PaymentSchedule → String
  | monthly => "monthly"
  | quarterly => "quarterly"
  | biannual => "biannual"
  | annual => "annual"

inductive PaymentOption where
  | mada
  | sadad
  | cash
  | bankTransfer
deriving DecidableEq

def PaymentOption.str : PaymentOption → String
  | mada => "mada"
  | sadad => "sadad"
  | cash => "cash"
  | bankTransfer => "bank_transfer"

inductive FeePayer where
  | lessor
  | tenant
  | brokerageOffice
deriving DecidableEq

def FeePayer.str : FeePayer → String
  | lessor => "lessor"
  | tenant => "tenant"
  | brokerageOffice => "brokerage_office"

inductive Role where
  | lessor
  | tenant
  | lessorRepresentative
  | tenantRepresentative
deriving DecidableEq

def Role.str : Role → String
  | lessor => "lessor"
  | tenant => "tenant"
  | lessorRepresentative => "lessor_representative"
  | tenantRepresentative => "tenant_representative"

def Role.label : Role → String
  | lessor => "مؤجر"
  | tenant => "مستأجر"
  | lessorRepresentative => "ممثل المؤجر"
  | tenantRepresentative => "ممثل المستأجر"

/-- `role in ('lessor_representative', 'tenant_representative')` -/
def Role.isRepresentative : Role → Bool
  | lessorRepresentative => true
  | tenantRepresentative => true
  | _ => false

inductive EntityType where
  | individual
  | organization
deriving DecidableEq

inductive IdType where
  | nationalId
  | iqama
  | passport
  | gccId
deriving DecidableEq

def IdType.str : IdType → String
  | nationalId => "national_id"
  | iqama => "iqama"
  | passport => "passport"
  | gccId => "gcc_id"

inductive ProxyDocType where
  | ePoa
  | paperPoa
  | courtOrder
deriving DecidableEq

def ProxyDocType.str : ProxyDocType → String
  | ePoa => "e_poa"
  | paperPoa => "paper_poa"
  | courtOrder => "court_order"

inductive SyncState where
  | pending
  | synced
  | failed
deriving DecidableEq

structure Party where
  role : Role
  entityType : EntityType := .individual
  idNumber : CharField := none
  idType : Option IdType := some .nationalId
  idExpiry : Option Date := none
  nationality : CharField := some "SA"
  mobile : CharField := none
  email : CharField := none
  fullNameAr : CharField := none
  crNumber : CharField := none
  unifiedNumber : CharField := none
  iban : CharField := none
  proxyDoc : BinaryField := none
  proxyDocFilename : CharField := none
  proxyDocType : Option ProxyDocType := some .paperPoa
  displayName : CharField := none
  ejarEntityId : CharField := none
  ejarPartyId : CharField := none
  ejarProxyDocId : CharField := none
  syncState : SyncState := .pending

structure ContractUnit where
  deedNumber : CharField := none
  nationalAddressCode : CharField := none
  area : Rat := 0
  unitLabel : CharField := none
  ejarPropertyId : CharField := none
  ejarUnitId : CharField := none
  ejarContractUnitId : CharField := none
  syncState : SyncState := .pending

structure Partner where
  saNationalId : CharField := none

structure BrokerageProfile where
  crNumber : CharField := none
  unifiedNumber : CharField := none
  licenseNumber : CharField := none
  licenseExpiry : Option Date := none
  representativePartnerId : Option Partner := none
  officeNameAr : CharField

structure Contract where
  companyId : Nat
  companyName : String
  name : String
  ejarStatus : EjarStatus := .draft
  contractType : Option ContractType := some .residential
  contractSubType : Option ContractSubType := some .main
  useType : Option UseType := some .residentialFamilies
  brokerageProfileId : Option BrokerageProfile := none
  partyIds : Records Party
  unitIds : Records ContractUnit
  startDate : Option Date
  endDate : Option Date
  rentAmount : Rat
  paymentSchedule : Option PaymentSchedule := some .monthly
  paymentOption : Option PaymentOption := some .bankTransfer
  subleaseAllowed : Bool := false
  brokerageFee : Rat := 0
  brokerageFeePaidBy : Option FeePayer := some .lessor
  ejarFeesPaidBy : Option FeePayer := some .brokerageOffice
  signedDoc : BinaryField := none
  signedDocFilename : CharField := none
  customTerms : CharField := none
  ejarContractId : CharField := none
  ejarContractNumber : CharField := none
  rejectionReason : CharField := none
  submitAttempt : Nat := 0
  submitError : CharField := none
  ejarLastSync : Option Datetime := none
  nextPollAt : Option Datetime := none
  pollCount : Nat := 0
  activeJobUuid : CharField := none
  jobChannel : CharField := none
  jobEnqueuedAt : Option Datetime := none
  jobLastError : CharField := none
  webhookUuid : CharField := none
  webhookDeliveredAt : Option Datetime := none
  webhookEventType : CharField := none
  webhookCorrelationId : CharField := none
  activities : List String := []

namespace Contract

def parties (c : Contract) : List Party := c.partyIds.toList

def units (c : Contract) : List ContractUnit := c.unitIds.toList

def hasLessor (c : Contract) : Bool := c.parties.any (·.role = .lessor)

def hasTenant (c : Contract) : Bool := c.parties.any (·.role = .tenant)

def hasUnit (c : Contract) : Bool := !c.unitIds.ids.isEmpty

def isReadyToSubmit (c : Contract) : Bool :=
  c.hasLessor && c.hasTenant && c.hasUnit && c.signedDoc.truthy && c.brokerageProfileId.isSome &&
    c.startDate.isSome && c.endDate.isSome && decide (0 < c.rentAmount)

/-- `round(delta.days / 365, 4)` -/
def durationYears (c : Contract) : Rat :=
  match c.startDate, c.endDate with
  | some start, some stop => pyRound (((stop.toordinal : Int) - (start.toordinal : Int) : Int) / 365) 4
  | _, _ => 0

end Contract

/-- The values of one `contract.write({...})`; `none` stands for a key that is
not in the dict. -/
structure ContractVals where
  ejarStatus : Option EjarStatus := none
  brokerageProfileId : Option (Option BrokerageProfile) := none
  signedDoc : Option BinaryField := none
  signedDocFilename : Option CharField := none
  ejarContractId : Option CharField := none
  ejarContractNumber : Option CharField := none
  rejectionReason : Option CharField := none
  submitAttempt : Option Nat := none
  submitError : Option CharField := none
  ejarLastSync : Option (Option Datetime) := none
  nextPollAt : Option (Option Datetime) := none
  pollCount : Option Nat := none
  activeJobUuid : Option CharField := none
  jobChannel : Option CharField := none
  jobEnqueuedAt : Option (Option Datetime) := none
  jobLastError : Option CharField := none
  webhookUuid : Option CharField := none
  webhookDeliveredAt : Option (Option Datetime) := none
  webhookEventType : Option CharField := none
  webhookCorrelationId : Option CharField := none

structure PartyVals where
  ejarEntityId : Option CharField := none
  ejarPartyId : Option CharField := none
  ejarProxyDocId : Option CharField := none
  syncState : Option SyncState := none

structure UnitVals where
  ejarContractUnitId : Option CharField := none
  syncState : Option SyncState := none

def Party.set (p : Party) (v : PartyVals) : Party :=
  { p with
    ejarEntityId := v.ejarEntityId.getD p.ejarEntityId
    ejarPartyId := v.ejarPartyId.getD p.ejarPartyId
    ejarProxyDocId := v.ejarProxyDocId.getD p.ejarProxyDocId
    syncState := v.syncState.getD p.syncState }

def ContractUnit.set (u : ContractUnit) (v : UnitVals) : ContractUnit :=
  { u with
    ejarContractUnitId := v.ejarContractUnitId.getD u.ejarContractUnitId
    syncState := v.syncState.getD u.syncState }

def Contract.set (c : Contract) (v : ContractVals) : Contract :=
  { c with
    ejarStatus := v.ejarStatus.getD c.ejarStatus
    brokerageProfileId := v.brokerageProfileId.getD c.brokerageProfileId
    signedDoc := v.signedDoc.getD c.signedDoc
    signedDocFilename := v.signedDocFilename.getD c.signedDocFilename
    ejarContractId := v.ejarContractId.getD c.ejarContractId
    ejarContractNumber := v.ejarContractNumber.getD c.ejarContractNumber
    rejectionReason := v.rejectionReason.getD c.rejectionReason
    submitAttempt := v.submitAttempt.getD c.submitAttempt
    submitError := v.submitError.getD c.submitError
    ejarLastSync := v.ejarLastSync.getD c.ejarLastSync
    nextPollAt := v.nextPollAt.getD c.nextPollAt
    pollCount := v.pollCount.getD c.pollCount
    activeJobUuid := v.activeJobUuid.getD c.activeJobUuid
    jobChannel := v.jobChannel.getD c.jobChannel
    jobEnqueuedAt := v.jobEnqueuedAt.getD c.jobEnqueuedAt
    jobLastError := v.jobLastError.getD c.jobLastError
    webhookUuid := v.webhookUuid.getD c.webhookUuid
    webhookDeliveredAt := v.webhookDeliveredAt.getD c.webhookDeliveredAt
    webhookEventType := v.webhookEventType.getD c.webhookEventType
    webhookCorrelationId := v.webhookCorrelationId.getD c.webhookCorrelationId }

/-- One ORM write to the contract or to a party or unit of it, or an activity
scheduled on it. -/
inductive RecordWrite where
  | contract (v : ContractVals)
  | party (id : Nat) (v : PartyVals)
  | unit (id : Nat) (v : UnitVals)
  | activity (note : String)

def RecordWrite.apply : RecordWrite → Contract → Contract
  | contract v, c => c.set v
  | party id v, c => { c with partyIds := c.partyIds.modify id (·.set v) }
  | unit id v, c => { c with unitIds := c.unitIds.modify id (·.set v) }
  | activity note, c => { c with activities := c.activities ++ [note] }

end Ejar
