import PropzaAmlak.Crm.Reservation
import PropzaAmlak.Ejar.LeaseContract
import PropzaAmlak.Rental.Days

/-! `action_create_ejar_contract` of `sa_crm_lead.py`: a tenancy and its contract
made from a lead, as often as it is pressed. -/

namespace Crm

open Ejar
open Schema (Vals Value)

structure Lead where
  partner : Nat
  property : Option Nat := none
  propertyType : Option PropertyType := some .residential
  budgetMax : ℚ := 0
  reservations : List Reservation := []
  tenancy : Option Nat := none
  contract : Option Nat := none

/-- The lead's property, or the one of its first converted reservation. -/
def Lead.leased (lead : Lead) : Option Nat :=
  lead.property.or ((lead.reservations.find? (·.state = .converted)).map (·.property))

/-- `sa_rent_annual`, computed from the monthly rent. -/
def saRentAnnual (p : LeaseProperty) : ℚ := p.rentAmount * 12

/-- The monthly and the annual rent of the new lease. -/
def rents (property : Option LeaseProperty) (budgetMax : ℚ) : ℚ × ℚ :=
  let rentMonthly := (property.map (·.rentAmount)).getD 0
  let rentAnnual := (property.map fun p => if saRentAnnual p = 0 then rentMonthly * 12 else saRentAnnual p).getD 0
  let rentAnnual := if rentAnnual = 0 then budgetMax else rentAnnual
  let rentMonthly := if rentMonthly = 0 then rentAnnual / 12 else rentMonthly
  (rentMonthly, rentAnnual)

def partnerIdTypeStr : Profile.PartnerIdType → String
  | .nationalId => "national_id"
  | .iqama => "iqama"
  | .gcc => "gcc"
  | .passport => "passport"
  | .company => "company"

/-- `id_type_mapping.get(partner.sa_id_type, 'national_id')` -/
def partyIdType : Option Profile.PartnerIdType → IdType
  | some .iqama => .iqama
  | some .passport => .passport
  | some .gcc => .gccId
  | _ => .nationalId

/-- `_unit_type_map` -/
def unitTypeOf : PropertyType → UnitType
  | .residential => .apartment
  | .commercial => .office
  | .industrial => .warehouse
  | .land => .land

/-- `contract_type` of the new contract. -/
def contractTypeOf (propertyType : Option PropertyType) : ContractType :=
  if propertyType = some .residential ∨ propertyType = some .land then .residential else .commercial

def tenancyModel : Schema.Model where
  name := "property.tenancy"
  fields := commonFields ++
    ["name", "property_id", "partner_id", "owner_partner_id", "start_date", "end_date", "duration", "interval_type",
     "rent_amount", "deposit_amount", "currency_id", "payment_method", "state", "priority", "ejar_contract_id",
     "ejar_contract_number", "ejar_contract_status", "tenant_id_type", "tenant_national_id", "tenant_id_expiry",
     "sadad_invoice_number", "ejar_payment_schedule", "sublease_allowed", "ejar_doc_fee", "ejar_fee_bearer",
     "rent_freeze_warning", "sa_tenant_nationality", "sa_tenant_phone", "sa_contract_type", "sa_payment_schedule",
     "sa_broker_id", "sa_broker_license", "sa_ejar_status", "sa_rent_freeze_warning", "sa_contract_notes"]
  selections :=
    [("payment_method", paymentMethods.map paymentMethodStr), ("tenant_id_type", tenantIdTypes.map tenantIdTypeStr)]

/-- The leases and the lead that is pressed. -/
structure Desk where
  leases : Leases
  lead : Lead

namespace Desk

variable (d : Desk)

def client : LeasePartner := d.leases.partner d.lead.partner

def leased : Option LeaseProperty := d.lead.leased.map d.leases.property

def rents : ℚ × ℚ := Crm.rents d.leased d.lead.budgetMax

def tenancyVals (today endDate : Date) : Vals :=
  [("partner_id", .record (some d.lead.partner)), ("start_date", .date (some today)),
   ("end_date", .date (some endDate)), ("rent_amount", .number d.rents.1),
   ("payment_method", .text (some "bank_transfer"))] ++
  (if d.client.nationalId.truthy then
    [("tenant_id_type", .text (some ((d.client.idType.map partnerIdTypeStr).getD "national_id"))),
     ("tenant_national_id", .text d.client.nationalId), ("tenant_id_expiry", .date d.client.idExpiry)]
  else []) ++
  (match d.lead.leased with
    | some property => [("property_id", .record (some property))]
    | none => [])

def partyVals : Vals :=
  [("role", .text (some "tenant")), ("entity_type", .text (some "individual")),
   ("partner_id", .record (some d.lead.partner)), ("full_name_ar", .text (some (d.client.name.orText ""))),
   ("mobile", .text (some (d.client.mobile.orText (d.client.phone.orText "")))),
   ("email", .text (some (d.client.email.orText "")))] ++
  (if d.client.nationalId.truthy then
    [("id_number", .text d.client.nationalId), ("id_type", .text (some (partyIdType d.client.idType).str)),
     ("id_expiry", .date d.client.idExpiry)]
  else [])

def unitVals (property : Nat) : Vals :=
  let p := d.leases.property property
  [("property_id", .record (some property)), ("unit_number", .text (some p.name)),
   ("unit_type", .text (some (unitTypeOf p.ejarUnitType).str)), ("area", .number p.areaSqm),
   ("bedrooms", .number p.rooms), ("bathrooms", .number p.bathrooms)]

def contractVals (tenancy : Nat) (today endDate : Date) : Vals :=
  [("tenancy_id", .record (some tenancy)), ("start_date", .date (some today)), ("end_date", .date (some endDate)),
   ("rent_amount", .number d.rents.2), ("contract_type", .text (some (contractTypeOf d.lead.propertyType).str)),
   ("payment_schedule", .text (some "monthly")), ("party_ids", .rows [d.partyVals])] ++
  (match d.lead.leased with
    | some property => [("unit_ids", .rows [d.unitVals property])]
    | none => [])

end Desk

/-- The row of a new tenancy; a field without a key gets its default. -/
def tenancyOf (vals : Vals) (property partner : Nat) (startDate : Date) : LeasedTenancy where
  property
  partner
  startDate
  endDate := vals.date "end_date"
  rentAmount := vals.number "rent_amount"
  paymentMethod := vals.select "payment_method" (ofKey paymentMethods paymentMethodStr) (some .bankTransfer)
  identity := {
    idType := vals.select "tenant_id_type" (ofKey tenantIdTypes tenantIdTypeStr) (some .nationalId)
    nationalId := vals.text "tenant_national_id"
    idExpiry := vals.date "tenant_id_expiry" }

/-- The creation of a `property.tenancy`. -/
def createTenancy (w : Leases) (vals : Vals) : Except LeaseError (Nat × Leases) := do
  refuse (tenancyModel.check vals)
  match vals.record "property_id", vals.record "partner_id", vals.date "start_date" with
  | some property, some partner, some startDate =>
    let t := tenancyOf vals property partner startDate
    match t.check (w.property property).rentFreezeActive with
    | some e => .error (.tenancy e)
    | none => return (w.tenancies.next, w.addTenancy t)
  | none, _, _ => .error (.missingRequired "property_id")
  | _, none, _ => .error (.missingRequired "partner_id")
  | _, _, none => .error (.missingRequired "start_date")

namespace Desk

/-- `action_create_ejar_contract` of the lead -/
def createEjarContract (d : Desk) (today : Date) : Except LeaseError Desk :=
  match Rental.addDays today 365 with
  | none => .error .dateOverflow
  | some endDate => do
    let (tenancy, w) ← createTenancy d.leases (d.tenancyVals today endDate)
    let (contract, w) ← w.createContract (d.contractVals tenancy today endDate)
    return {
      leases := w.link tenancy contract
      lead := { d.lead with tenancy := some tenancy, contract := some contract } }

/-- The tables after a tenancy and a contract for it, with the lead linked to both. -/
def leaseWith (d : Desk) (t : LeasedTenancy) (c : LeaseContract) : Desk where
  leases := ((d.leases.addTenancy t).addContract c).link d.leases.tenancies.next d.leases.contracts.next
  lead := { d.lead with tenancy := some d.leases.tenancies.next, contract := some d.leases.contracts.next }

/-- An attempt that raises is rolled back. -/
def press (d : Desk) (today : Date) : Desk := (d.createEjarContract today).toOption.getD d

def pressAll (d : Desk) (days : List Date) : Desk := days.foldl press d

end Desk

/-- A partner without a number, or with one that fits the type the party gets
from the partner, which is not a company. -/
def Identified (p : LeasePartner) : Prop :=
  ∀ number, p.nationalId = some number → number ≠ "" →
    p.idType ≠ some .company ∧ numberFits (partyIdType p.idType) number.toList

/-- The lead has a property with a name, a client whose identity fits, and a year
left in the calendar. -/
structure Desk.Accepts (d : Desk) (today : Date) : Prop where
  date : ∃ endDate, Rental.addDays today 365 = some endDate
  property : ∃ property, d.lead.leased = some property ∧ Text.strip (d.leases.property property).name.toList ≠ []
  client : Identified d.client

section Creation

variable {d : Desk} {today endDate : Date} {w : Leases} {tenancy : Nat}

theorem rents_annual (property : Option LeaseProperty) (budgetMax : ℚ) :
    (rents property budgetMax).2 = 12 * (rents property budgetMax).1 := by
  unfold rents
  cases property with
  | none =>
    simp
    ring
  | some p =>
    by_cases hrent : p.rentAmount = 0
    · simp [saRentAnnual, hrent]
      ring
    · simp [saRentAnnual, hrent]
      ring

theorem wrongKey_idType (idType : Option Profile.PartnerIdType) : tenancyModel.wrongKey
    ("tenant_id_type", .text (some ((idType.map partnerIdTypeStr).getD "national_id"))) = none ↔
      idType ≠ some .company := by
  cases idType with
  | none => decide
  | some idType => cases idType <;> decide

theorem tenancyVals_check (d : Desk) (today endDate : Date) :
    tenancyModel.check (d.tenancyVals today endDate) = .ok () ↔
      (d.client.nationalId.truthy → d.client.idType ≠ some .company) := by
  have hfields : ∀ key ∈ ["partner_id", "start_date", "end_date", "rent_amount", "payment_method", "tenant_id_type",
      "tenant_national_id", "tenant_id_expiry", "property_id"], key ∈ tenancyModel.fields := by decide
  have hmethod : tenancyModel.wrongKey ("payment_method", .text (some "bank_transfer")) = none := by decide
  have hnumber : tenancyModel.wrongKey ("tenant_national_id", .text d.client.nationalId) = none :=
    Schema.Model.wrongKey_text (by decide)
  unfold Desk.tenancyVals
  by_cases htruthy : d.client.nationalId.truthy
  · cases d.lead.leased with
    | none => simp [htruthy, hfields, hmethod, hnumber, wrongKey_idType]
    | some property => simp [htruthy, hfields, hmethod, hnumber, wrongKey_idType]
  · cases d.lead.leased with
    | none => simp [htruthy, hfields, hmethod]
    | some property => simp [htruthy, hfields, hmethod]

theorem tenancyVals_record (d : Desk) (today endDate : Date) :
    Vals.record (d.tenancyVals today endDate) "property_id" = d.lead.leased ∧
    Vals.record (d.tenancyVals today endDate) "partner_id" = some d.lead.partner := by
  unfold Vals.record Desk.tenancyVals
  by_cases htruthy : d.client.nationalId.truthy
  · cases d.lead.leased with
    | none => simp [htruthy, List.lookup_cons]
    | some property => simp [htruthy, List.lookup_cons]
  · cases d.lead.leased with
    | none => simp [htruthy, List.lookup_cons]
    | some property => simp [htruthy, List.lookup_cons]

theorem tenancyVals_terms (d : Desk) (today endDate : Date) :
    Vals.date (d.tenancyVals today endDate) "start_date" = some today ∧
    Vals.date (d.tenancyVals today endDate) "end_date" = some endDate ∧
    Vals.number (d.tenancyVals today endDate) "rent_amount" = d.rents.1 := by
  simp [Vals.date, Vals.number, Desk.tenancyVals, List.lookup_cons]

theorem createTenancy_ok {property : Nat} (hcompany : d.client.nationalId.truthy → d.client.idType ≠ some .company)
    (hleased : d.lead.leased = some property) (hend : today < endDate) :
    createTenancy d.leases (d.tenancyVals today endDate) = .ok (d.leases.tenancies.next,
      d.leases.addTenancy (tenancyOf (d.tenancyVals today endDate) property d.lead.partner today)) := by
  have hcheck := (tenancyVals_check d today endDate).mpr hcompany
  have hnot : ¬ endDate < today := fun hlt => absurd (Nat.lt_trans hend hlt) (Nat.lt_irrefl _)
  obtain ⟨hproperty, hpartner⟩ := tenancyVals_record d today endDate
  obtain ⟨hstart, hstop, hrent⟩ := tenancyVals_terms d today endDate
  have hchecked (frozen : Bool) :
      (tenancyOf (d.tenancyVals today endDate) property d.lead.partner today).check frozen = none := by
    simp [tenancyOf, hstop, Rental.TenancyRecord.check, hnot]
  rw [createTenancy, hcheck, hproperty, hleased, hpartner, hstart, refuse_ok, ok_bind]
  simp only [hchecked, pure_ok]

theorem createTenancy_eq_ok {row : Nat × Leases}
    (h : createTenancy d.leases (d.tenancyVals today endDate) = .ok row) :
    (d.client.nationalId.truthy → d.client.idType ≠ some .company) ∧ ∃ property, d.lead.leased = some property := by
  obtain ⟨hproperty, _⟩ := tenancyVals_record d today endDate
  rw [createTenancy] at h
  cases hcheck : tenancyModel.check (d.tenancyVals today endDate) with
  | error e => simp [hcheck] at h
  | ok =>
    refine ⟨(tenancyVals_check d today endDate).mp hcheck, ?_⟩
    cases hleased : d.lead.leased with
    | none => simp [hcheck, hproperty, hleased] at h
    | some property => exact ⟨property, rfl⟩

theorem partyVals_check : partyModel.check d.partyVals = .ok () := by
  have hfields : ∀ key ∈ ["role", "entity_type", "partner_id", "full_name_ar", "mobile", "email", "id_number",
      "id_type", "id_expiry"], key ∈ partyModel.fields := by decide
  have hfree : ∀ key ∈ ["full_name_ar", "mobile", "email", "id_number"], ∀ s : CharField,
      partyModel.wrongKey (key, .text s) = none := by
    have hkeys : ∀ key ∈ ["full_name_ar", "mobile", "email", "id_number"],
      partyModel.selections.lookup key = none := by decide
    exact fun key hkey s => Schema.Model.wrongKey_text (hkeys key hkey)
  have hrole : partyModel.wrongKey ("role", .text (some "tenant")) = none := by decide
  have hentity : partyModel.wrongKey ("entity_type", .text (some "individual")) = none := by decide
  have hidType (idType : IdType) : partyModel.wrongKey ("id_type", .text (some idType.str)) = none := by
    cases idType <;> decide
  unfold Desk.partyVals
  by_cases htruthy : d.client.nationalId.truthy
  · simp [htruthy, hfields, hfree, hrole, hentity, hidType]
  · simp [htruthy, hfields, hfree, hrole, hentity]

theorem unitVals_check {property : Nat} : unitModel.check (d.unitVals property) = .ok () := by
  have hfields : ∀ key ∈ ["property_id", "unit_number", "unit_type", "area", "bedrooms", "bathrooms"],
      key ∈ unitModel.fields := by decide
  have hnumber (s : CharField) : unitModel.wrongKey ("unit_number", .text s) = none :=
    Schema.Model.wrongKey_text (by decide)
  have hunitType (unitType : UnitType) : unitModel.wrongKey ("unit_type", .text (some unitType.str)) = none := by
    cases unitType <;> decide
  simp [Desk.unitVals, hfields, hnumber, hunitType]

theorem contractVals_check : contractModel.check (d.contractVals tenancy today endDate) = .ok () := by
  have hfields : ∀ key ∈ ["tenancy_id", "start_date", "end_date", "rent_amount", "contract_type", "payment_schedule",
      "party_ids", "unit_ids"], key ∈ contractModel.fields := by decide
  have hschedule : contractModel.wrongKey ("payment_schedule", .text (some "monthly")) = none := by decide
  have hcontractType (contractType : ContractType) :
      contractModel.wrongKey ("contract_type", .text (some contractType.str)) = none := by
    cases contractType <;> decide
  unfold Desk.contractVals
  cases d.lead.leased with
  | none => simp [hfields, hschedule, hcontractType]
  | some property => simp [hfields, hschedule, hcontractType]

theorem partyVals_identity :
    Vals.text d.partyVals "id_number" = (if d.client.nationalId.truthy then d.client.nationalId else none) ∧
    Vals.select d.partyVals "id_type" (ofKey idTypes IdType.str) (some .nationalId) =
      some (if d.client.nationalId.truthy then partyIdType d.client.idType else .nationalId) := by
  have hread (idType : IdType) : ofKey idTypes IdType.str idType.str = some idType := by cases idType <;> decide
  unfold Vals.text Vals.select Desk.partyVals
  by_cases htruthy : d.client.nationalId.truthy
  · simp [htruthy, List.lookup_cons, hread]
  · simp [htruthy, List.lookup_cons]

theorem truthy_iff {v : CharField} : v.truthy ↔ ∃ s, v = some s ∧ s ≠ "" := by
  cases v with
  | none => simp [CharField.truthy]
  | some s => simp [CharField.truthy]

theorem checkIdNumber_partyVals : checkIdNumber (w.partyOf d.partyVals .tenant) = .ok () ↔
    ∀ number, d.client.nationalId = some number → number ≠ "" →
      numberFits (partyIdType d.client.idType) number.toList := by
  obtain ⟨hnumber, hidType⟩ := partyVals_identity (d := d)
  rw [checkIdNumber_ok_iff (p := w.partyOf d.partyVals .tenant) hidType, Leases.partyOf, hnumber]
  by_cases htruthy : d.client.nationalId.truthy
  · simp [htruthy]
  · have hnone : ∀ number, d.client.nationalId = some number → ¬ number ≠ "" :=
      fun number hsome hne => htruthy (truthy_iff.mpr ⟨number, hsome, hne⟩)
    simp only [htruthy]
    constructor
    · exact fun _ number hsome hne => absurd hne (hnone number hsome)
    · exact fun _ number hsome => by simp at hsome

theorem party_ok_iff : (∃ p, w.party d.partyVals = .ok p) ↔
    ∀ number, d.client.nationalId = some number → number ≠ "" →
      numberFits (partyIdType d.client.idType) number.toList := by
  have hrole : Vals.select d.partyVals "role" (ofKey roles Role.str) none = some .tenant := by
    have hread : ofKey roles Role.str "tenant" = some .tenant := by decide
    simp [Vals.select, Desk.partyVals, hread]
  rw [← checkIdNumber_partyVals (w := w), Leases.party, partyVals_check, hrole]
  cases hcheck : checkIdNumber (w.partyOf d.partyVals .tenant) with
  | error e => simp [hcheck]
  | ok => simp [hcheck]

theorem unit_ok_iff {property : Nat} : (∃ u, w.unit (d.unitVals property) = .ok u) ↔
    Text.strip (d.leases.property property).name.toList ≠ [] := by
  have hproperty : Vals.record (d.unitVals property) "property_id" = some property := by
    simp [Vals.record, Desk.unitVals]
  have hnumber : Vals.text (d.unitVals property) "unit_number" = some (d.leases.property property).name := by
    simp [Vals.text, Desk.unitVals, List.lookup_cons]
  rw [Leases.unit, unitVals_check, hproperty, hnumber]
  by_cases hblank : Text.strip (d.leases.property property).name.toList = []
  · simp [hblank]
  · simp [hblank]

theorem contractVals_lines {property : Nat} (tenancy : Nat) (today endDate : Date)
    (hleased : d.lead.leased = some property) :
    Vals.rows (d.contractVals tenancy today endDate) "party_ids" = [d.partyVals] ∧
    Vals.rows (d.contractVals tenancy today endDate) "unit_ids" = [d.unitVals property] := by
  unfold Vals.rows Desk.contractVals
  simp [hleased, List.lookup_cons]

theorem contractVals_dates (d : Desk) (tenancy : Nat) (today endDate : Date) :
    Vals.date (d.contractVals tenancy today endDate) "start_date" = some today ∧
    Vals.date (d.contractVals tenancy today endDate) "end_date" = some endDate := by
  simp [Vals.date, Desk.contractVals, List.lookup_cons]

theorem contractVals_terms (d : Desk) (tenancy : Nat) (today endDate : Date) :
    Vals.number (d.contractVals tenancy today endDate) "rent_amount" = d.rents.2 ∧
    Vals.select (d.contractVals tenancy today endDate) "payment_schedule" (ofKey schedules PaymentSchedule.str)
      (some .monthly) = some .monthly := by
  have hread : ofKey schedules PaymentSchedule.str "monthly" = some .monthly := by decide
  simp [Vals.number, Vals.select, Desk.contractVals, List.lookup_cons, hread]

theorem createContract_ok {property : Nat} {p : Party} {u : ContractUnit} (hleased : d.lead.leased = some property)
    (hend : today < endDate) (hparty : w.party d.partyVals = .ok p) (hunit : w.unit (d.unitVals property) = .ok u) :
    w.createContract (d.contractVals tenancy today endDate) = .ok (w.contracts.next,
      w.addContract (w.contractOf (d.contractVals tenancy today endDate) [p] [u] today endDate)) := by
  have hnot : ¬ endDate ≤ today := Nat.not_le_of_lt hend
  obtain ⟨hparties, hunits⟩ := contractVals_lines tenancy today endDate hleased
  obtain ⟨hstart, hstop⟩ := contractVals_dates d tenancy today endDate
  rw [Leases.createContract, contractVals_check, hparties, hunits, hstart, hstop]
  simp [hparty, hunit, hnot]

theorem createContract_eq_ok {property : Nat} {row : Nat × Leases} (hleased : d.lead.leased = some property)
    (h : w.createContract (d.contractVals tenancy today endDate) = .ok row) :
    (∃ p, w.party d.partyVals = .ok p) ∧ ∃ u, w.unit (d.unitVals property) = .ok u := by
  obtain ⟨hparties, hunits⟩ := contractVals_lines tenancy today endDate hleased
  rw [Leases.createContract, contractVals_check, hparties, hunits] at h
  cases hparty : w.party d.partyVals with
  | error e => simp [hparty] at h
  | ok p =>
    cases hunit : w.unit (d.unitVals property) with
    | error e => simp [hparty, hunit] at h
    | ok u => exact ⟨⟨p, rfl⟩, u, rfl⟩

end Creation

section Press

variable {d : Desk} {today : Date} {t : LeasedTenancy} {c : LeaseContract} {days : List Date}

theorem lt_of_addDays {endDate : Date} (hdate : Rental.addDays today 365 = some endDate) : today < endDate := by
  have hdays := Rental.addDays_eq_some.mp hdate
  show today.toordinal < endDate.toordinal
  omega

theorem follows_iff {property : Nat} {w : Leases} {p : Party} {u : ContractUnit} {endDate : Date} {tenancy : Nat} :
    FollowsTenancy (tenancyOf (d.tenancyVals today endDate) property d.lead.partner today)
      (w.contractOf (d.contractVals tenancy today endDate) [p] [u] today endDate) ↔ IsCents d.rents.2 := by
  obtain ⟨_, hstop, hrent⟩ := tenancyVals_terms d today endDate
  obtain ⟨hannual, hschedule⟩ := contractVals_terms d tenancy today endDate
  have htwelve : d.rents.2 = 12 * d.rents.1 := rents_annual _ _
  constructor
  · intro h
    have hstored := h.rent
    simp only [Leases.contractOf, tenancyOf, hannual, hrent, ← htwelve] at hstored
    rw [← hstored]
    exact FeeCap.toCents_isCents _
  · intro hcents
    constructor
    · simp only [Leases.contractOf, tenancyOf, hannual, hrent, ← htwelve]
      exact toCents_of_isCents hcents
    · rfl
    · exact hstop.symm
    · exact ⟨.monthly, .monthly, hschedule, rfl, rfl⟩

theorem createEjarContract_of_created {endDate : Date} {tenancy contract : Nat} {w w' : Leases}
    (hdate : Rental.addDays today 365 = some endDate)
    (htenancy : createTenancy d.leases (d.tenancyVals today endDate) = .ok (tenancy, w))
    (hcontract : w.createContract (d.contractVals tenancy today endDate) = .ok (contract, w')) :
    d.createEjarContract today = .ok {
      leases := w'.link tenancy contract
      lead := { d.lead with tenancy := some tenancy, contract := some contract } } := by
  unfold Desk.createEjarContract
  -- `rw` would go on to compare the creations themselves
  rewrite [hdate]
  dsimp only
  rewrite [htenancy, ok_bind, hcontract, ok_bind]
  rfl

theorem created_of_createEjarContract {after : Desk} (h : d.createEjarContract today = .ok after) :
    ∃ endDate tenancy w row, Rental.addDays today 365 = some endDate ∧
      createTenancy d.leases (d.tenancyVals today endDate) = .ok (tenancy, w) ∧
      w.createContract (d.contractVals tenancy today endDate) = .ok row := by
  unfold Desk.createEjarContract at h
  cases hdate : Rental.addDays today 365 with
  | none =>
    rewrite [hdate] at h
    cases h
  | some endDate =>
    rewrite [hdate] at h
    dsimp only at h
    cases htenancy : createTenancy d.leases (d.tenancyVals today endDate) with
    | error e =>
      rewrite [htenancy] at h
      cases h
    | ok made =>
      rewrite [htenancy, ok_bind] at h
      cases hcontract : made.2.createContract (d.contractVals made.1 today endDate) with
      | error e =>
        rewrite [hcontract] at h
        cases h
      | ok row => exact ⟨endDate, made.1, made.2, row, rfl, htenancy, hcontract⟩

theorem createEjarContract_ok (h : d.Accepts today) : ∃ t c, d.createEjarContract today = .ok (d.leaseWith t c) ∧
    (FollowsTenancy t c ↔ IsCents d.rents.2) := by
  obtain ⟨endDate, hdate⟩ := h.date
  obtain ⟨property, hleased, hname⟩ := h.property
  have hend := lt_of_addDays hdate
  have hcompany : d.client.nationalId.truthy → d.client.idType ≠ some .company := by
    intro htruthy
    obtain ⟨number, hsome, hne⟩ := truthy_iff.mp htruthy
    exact (h.client number hsome hne).1
  have htenancy := createTenancy_ok hcompany hleased hend
  have hcontract (w : Leases) : ∃ p u, w.createContract (d.contractVals d.leases.tenancies.next today endDate) =
      .ok (w.contracts.next, w.addContract (w.contractOf (d.contractVals d.leases.tenancies.next today endDate) [p] [u]
        today endDate)) := by
    obtain ⟨p, hparty⟩ := party_ok_iff.mpr fun number hsome hne => (h.client number hsome hne).2
    obtain ⟨u, hunit⟩ := unit_ok_iff.mpr hname
    exact ⟨p, u, createContract_ok hleased hend hparty hunit⟩
  obtain ⟨p, u, hcontract⟩ := hcontract (d.leases.addTenancy
    (tenancyOf (d.tenancyVals today endDate) property d.lead.partner today))
  exact ⟨_, _, createEjarContract_of_created hdate htenancy hcontract, follows_iff⟩

theorem accepts_of_createEjarContract {after : Desk} (h : d.createEjarContract today = .ok after) :
    d.Accepts today := by
  obtain ⟨endDate, tenancy, w, row, hdate, htenancy, hcontract⟩ := created_of_createEjarContract h
  obtain ⟨hcompany, property, hleased⟩ := createTenancy_eq_ok htenancy
  rw [createTenancy_ok hcompany hleased (lt_of_addDays hdate)] at htenancy
  obtain ⟨rfl, rfl⟩ := Prod.mk.inj (Except.ok.inj htenancy)
  obtain ⟨hparty, hunit⟩ := createContract_eq_ok hleased hcontract
  have hfits := party_ok_iff.mp hparty
  refine ⟨⟨endDate, hdate⟩, ⟨property, hleased, unit_ok_iff.mp hunit⟩, ?_⟩
  intro number hsome hne
  exact ⟨hcompany (truthy_iff.mpr ⟨number, hsome, hne⟩), hfits number hsome hne⟩

theorem press_of_accepts (h : d.Accepts today) : ∃ t c, d.press today = d.leaseWith t c := by
  obtain ⟨t, c, hpress, _⟩ := createEjarContract_ok h
  refine ⟨t, c, ?_⟩
  rw [Desk.press, hpress]
  rfl

theorem press_of_refused (h : ¬ d.Accepts today) : d.press today = d := by
  rw [Desk.press]
  cases hpress : d.createEjarContract today with
  | error e => rfl
  | ok after => exact absurd (accepts_of_createEjarContract hpress) h

/-- A press changes nothing that another one looks at. -/
theorem accepts_press {day : Date} : (d.press today).Accepts day ↔ d.Accepts day := by
  by_cases haccepts : d.Accepts today
  · obtain ⟨t, c, hpress⟩ := press_of_accepts haccepts
    rw [hpress]
    exact ⟨fun h => ⟨h.date, h.property, h.client⟩, fun h => ⟨h.date, h.property, h.client⟩⟩
  · rw [press_of_refused haccepts]

/-- Both tables keep their rows and have `n` more. -/
structure Grown (d after : Desk) (n : Nat) : Prop where
  tenancies : d.leases.tenancies.ids ⊆ after.leases.tenancies.ids
  tenancyCard : after.leases.tenancies.ids.card = d.leases.tenancies.ids.card + n
  contracts : d.leases.contracts.ids ⊆ after.leases.contracts.ids
  contractCard : after.leases.contracts.ids.card = d.leases.contracts.ids.card + n

theorem Grown.refl : Grown d d 0 := ⟨Finset.Subset.refl _, rfl, Finset.Subset.refl _, rfl⟩

theorem Grown.trans {d₁ d₂ d₃ : Desk} {m n : Nat} (h : Grown d₁ d₂ m) (h' : Grown d₂ d₃ n) : Grown d₁ d₃ (m + n) where
  tenancies := h.tenancies.trans h'.tenancies
  tenancyCard := by rw [h'.tenancyCard, h.tenancyCard, add_assoc]
  contracts := h.contracts.trans h'.contracts
  contractCard := by rw [h'.contractCard, h.contractCard, add_assoc]

theorem grown_leaseWith : Grown d (d.leaseWith t c) 1 where
  tenancies := Finset.subset_insert _ _
  tenancyCard := Finset.card_insert_of_notMem d.leases.tenancies.next_notMem
  contracts := Finset.subset_insert _ _
  contractCard := Finset.card_insert_of_notMem d.leases.contracts.next_notMem

theorem pressAll_cons {day : Date} : d.pressAll (day :: days) = (d.press day).pressAll days := List.foldl_cons

open Classical in
/-- Each accepted press makes a tenancy and a contract of its own. -/
theorem grown_pressAll (d : Desk) (days : List Date) :
    Grown d (d.pressAll days) (days.countP fun day => d.Accepts day) := by
  induction days generalizing d with
  | nil => exact .refl
  | cons day days ih =>
    have hrest : Grown (d.press day) (d.pressAll (day :: days)) (days.countP fun day => d.Accepts day) := by
      have hpressed := ih (d.press day)
      simp only [accepts_press] at hpressed
      rw [pressAll_cons]
      exact hpressed
    by_cases haccepts : d.Accepts day
    · obtain ⟨t, c, hpress⟩ := press_of_accepts haccepts
      have hfirst : Grown d (d.press day) 1 := by
        rw [hpress]
        exact grown_leaseWith
      have hcount : (day :: days).countP (fun day => d.Accepts day) = 1 + days.countP fun day => d.Accepts day := by
        rw [List.countP_cons_of_pos (by simpa using haccepts), add_comm]
      rw [hcount]
      exact hfirst.trans hrest
    · have hcount : (day :: days).countP (fun day => d.Accepts day) = days.countP fun day => d.Accepts day :=
        List.countP_cons_of_neg (by simpa using haccepts)
      rw [press_of_refused haccepts] at hrest
      rw [hcount]
      exact hrest

/-- The tenancies of the lead after some presses: the one it had, and the new ones. -/
def tenancyCount (before after : Desk) : Nat :=
  before.lead.tenancy.toList.length + (after.leases.tenancies.ids \ before.leases.tenancies.ids).card

def contractCount (before after : Desk) : Nat :=
  before.lead.contract.toList.length + (after.leases.contracts.ids \ before.leases.contracts.ids).card

theorem Grown.counts {after : Desk} {n : Nat} (h : Grown d after n) :
    tenancyCount d after = d.lead.tenancy.toList.length + n ∧
      contractCount d after = d.lead.contract.toList.length + n := by
  unfold tenancyCount contractCount
  rw [Finset.card_sdiff_of_subset h.tenancies, Finset.card_sdiff_of_subset h.contracts, h.tenancyCard, h.contractCard]
  omega

theorem follows_leaseWith :
    FollowsTenancy ((d.leaseWith t c).leases.tenancies.row d.leases.tenancies.next)
      ((d.leaseWith t c).leases.contracts.row d.leases.contracts.next) ↔ FollowsTenancy t c := by
  have htenancy : (d.leaseWith t c).leases.tenancies.row d.leases.tenancies.next =
      { t with ejarContract := some d.leases.contracts.next } := by
    simp [Desk.leaseWith, Leases.link, Leases.addContract, Leases.addTenancy]
  have hcontract : (d.leaseWith t c).leases.contracts.row d.leases.contracts.next = c :=
    Table.insert_row_next
  rw [htenancy, hcontract]
  exact ⟨fun h => ⟨h.rent, h.startDate, h.endDate, h.schedule⟩,
    fun h => ⟨h.rent, h.startDate, h.endDate, h.schedule⟩⟩

end Press

/-- The lead's action makes a contract that follows the new tenancy. -/
def MakesContract (d : Desk) (today : Date) : Prop :=
  ∃ after tenancy contract, d.createEjarContract today = .ok after ∧
    after.lead.tenancy = some tenancy ∧ after.lead.contract = some contract ∧
    FollowsTenancy (after.leases.tenancies.row tenancy) (after.leases.contracts.row contract)

/-- The first press does as it should, and with the later ones there is one tenancy and one contract. -/
structure LeadRight (d : Desk) (first : Date) (later : List Date) : Prop where
  created : MakesContract d first
  tenancies : tenancyCount d (d.pressAll (first :: later)) = 1
  contracts : contractCount d (d.pressAll (first :: later)) = 1

/-- The tenancy's action, on the tenancy that the lead's has made, gives a contract
with the terms of the lead's. -/
def PathsAgree (d : Desk) (today : Date) : Prop :=
  ∃ after tenancy contract contract' w, d.createEjarContract today = .ok after ∧
    after.lead.tenancy = some tenancy ∧ after.lead.contract = some contract ∧
    (after.leases.unlink tenancy).tenancyCreatesContract tenancy = .ok (contract', w) ∧
    SameLease (after.leases.contracts.row contract) (w.contracts.row contract')

section Right

variable {d : Desk} {first : Date} {later : List Date}

theorem makesContract_iff : MakesContract d first ↔ d.Accepts first ∧ IsCents d.rents.2 := by
  constructor
  · rintro ⟨after, tenancy, contract, hcreate, htenancy, hcontract, hfollows⟩
    have haccepts := accepts_of_createEjarContract hcreate
    obtain ⟨t, c, hmade, hcents⟩ := createEjarContract_ok haccepts
    obtain rfl := Except.ok.inj (hmade.symm.trans hcreate)
    obtain rfl := Option.some.inj htenancy
    obtain rfl := Option.some.inj hcontract
    exact ⟨haccepts, hcents.mp (follows_leaseWith.mp hfollows)⟩
  · rintro ⟨haccepts, hcents⟩
    obtain ⟨t, c, hmade, hfollows⟩ := createEjarContract_ok haccepts
    exact ⟨d.leaseWith t c, _, _, hmade, rfl, rfl, follows_leaseWith.mpr (hfollows.mpr hcents)⟩

theorem toList_length_eq_zero {id : Option Nat} : id.toList.length = 0 ↔ id = none := by
  rw [List.length_eq_zero_iff, Option.toList_eq_nil_iff]

open Classical in
theorem counts_iff (haccepts : d.Accepts first) :
    (tenancyCount d (d.pressAll (first :: later)) = 1 ∧ contractCount d (d.pressAll (first :: later)) = 1) ↔
      d.lead.tenancy = none ∧ d.lead.contract = none ∧ ∀ day ∈ later, ¬ d.Accepts day := by
  have hgrown := grown_pressAll d (first :: later)
  rw [List.countP_cons_of_pos (by simpa using haccepts)] at hgrown
  obtain ⟨htenancies, hcontracts⟩ := hgrown.counts
  have hnone : (later.countP fun day => d.Accepts day) = 0 ↔ ∀ day ∈ later, ¬ d.Accepts day := by
    simp [List.countP_eq_zero]
  rw [htenancies, hcontracts, ← hnone, ← toList_length_eq_zero, ← toList_length_eq_zero]
  omega

theorem accepts_iff_year (haccepts : d.Accepts first) {day : Date} :
    d.Accepts day ↔ Rental.addDays day 365 ≠ none := by
  rw [Option.ne_none_iff_exists']
  exact ⟨fun h => h.date, fun hdate => ⟨hdate, haccepts.property, haccepts.client⟩⟩

theorem lead_right_iff : LeadRight d first later ↔ d.Accepts first ∧ IsCents d.rents.2 ∧
    d.lead.tenancy = none ∧ d.lead.contract = none ∧ ∀ day ∈ later, Rental.addDays day 365 = none := by
  constructor
  · intro h
    obtain ⟨haccepts, hcents⟩ := makesContract_iff.mp h.created
    obtain ⟨htenancy, hcontract, hlater⟩ := (counts_iff haccepts).mp ⟨h.tenancies, h.contracts⟩
    refine ⟨haccepts, hcents, htenancy, hcontract, fun day hday => ?_⟩
    simpa [accepts_iff_year haccepts] using hlater day hday
  · rintro ⟨haccepts, hcents, htenancy, hcontract, hlater⟩
    have hrefused : ∀ day ∈ later, ¬ d.Accepts day := by simpa [accepts_iff_year haccepts] using hlater
    obtain ⟨htenancies, hcontracts⟩ := (counts_iff haccepts).mpr ⟨htenancy, hcontract, hrefused⟩
    exact ⟨makesContract_iff.mpr ⟨haccepts, hcents⟩, htenancies, hcontracts⟩

theorem not_pathsAgree : ¬ PathsAgree d first := by
  rintro ⟨after, tenancy, contract, contract', w, _, _, _, hcreate, _⟩
  rw [tenancyCreatesContract_error] at hcreate
  cases hcreate

/-- The tenancy's action makes no contract. The lead's is right for a lead with neither
a tenancy nor a contract, when its client and property are accepted, the annual rent is
a whole number of halalas, and no press after the first has a year left. -/
theorem lease_contracts_right_iff (w : Leases) (tenancy : Nat) (d : Desk) (first : Date) (later : List Date) :
    ¬ TenancyRight w tenancy ∧ ¬ PathsAgree d first ∧
      (LeadRight d first later ↔ d.Accepts first ∧ IsCents d.rents.2 ∧
        d.lead.tenancy = none ∧ d.lead.contract = none ∧ ∀ day ∈ later, Rental.addDays day 365 = none) :=
  ⟨not_tenancyRight, not_pathsAgree, lead_right_iff⟩

def year2025 : LeasedTenancy where
  property := 0
  partner := 0
  startDate := .january1
  endDate := some .december31
  rentAmount := 5000

/-- A tenancy of the year 2025 at 5000 a month, and a lead for the same villa. -/
def villa : Desk where
  leases := {
    office := { companyId := 1, companyName := "Amlak", nextName := "EJR/2025/0001" }
    property := fun _ => { name := "Villa", rentAmount := 5000 }
    partner := fun _ => { name := some "Tenant", nationalId := some "1234567890" }
    tenancies := (Table.empty fun _ => year2025).insert year2025
    contracts := Table.empty fun _ => { sampleContract "EJR/2024/0001" with tenancy := none } }
  lead := { partner := 0, property := some 0 }

theorem villa_accepts : villa.Accepts .january1 where
  date := ⟨.nextJanuary1, Rental.addDays_eq_some.mpr (by decide)⟩
  property := ⟨0, rfl, by decide⟩
  client := by
    intro number hsome _
    obtain rfl := Option.some.inj hsome
    decide

theorem villa_isCents : IsCents villa.rents.2 := by
  refine ⟨6000000, ?_⟩
  have hannual : villa.rents.2 = 12 * villa.rents.1 := rents_annual _ _
  have hmonthly : villa.rents.1 = 5000 := by decide
  rw [hannual, hmonthly]
  norm_num

/-- The tenancy's action raises, and a second press of the lead's makes a second tenancy. -/
theorem villa_leased_twice : (villa.leases.tenancies.row 0).endDate.isSome ∧ ¬ TenancyRight villa.leases 0 ∧
    villa.lead.leased.isSome ∧ LeadRight villa .january1 [] ∧ ¬ LeadRight villa .january1 [.january1] := by
  have hyear : Rental.addDays .january1 365 = some .nextJanuary1 := Rental.addDays_eq_some.mpr (by decide)
  refine ⟨rfl, not_tenancyRight, rfl, ?_, ?_⟩
  · exact lead_right_iff.mpr ⟨villa_accepts, villa_isCents, rfl, rfl, by simp⟩
  · intro h
    have hnone := (lead_right_iff.mp h).2.2.2.2 .january1 (by simp)
    simp [hyear] at hnone

end Right

end Crm
