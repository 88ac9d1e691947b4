import PropzaAmlak.Ejar.Payload

/-! Which missing values the builders of `payload_builder.py` reject, and what they
send otherwise. -/

namespace Ejar

inductive UnitType where
  | villa
  | apartment
  | floor
  | room
  | office
  | store
  | warehouse
  | land
deriving DecidableEq

def UnitType.str : UnitType → String
  | villa => "villa"
  | apartment => "apartment"
  | floor => "floor"
  | room => "room"
  | office => "office"
  | store => "store"
  | warehouse => "warehouse"
  | land => "land"

inductive Furnishing where
  | furnishNew
  | furnishOld
  | unfurnished
deriving DecidableEq

def Furnishing.str : Furnishing → String
  | furnishNew => "furnish_new"
  | furnishOld => "furnish_old"
  | unfurnished => "unfurnished"

inductive Finishing where
  | finished
  | semiFinished
  | unfinished
deriving DecidableEq

def Finishing.str : Finishing → String
  | finished => "finished"
  | semiFinished => "semi_finished"
  | unfinished => "unfinished"

inductive UnitDirection where
  | north
  | south
  | east
  | west
deriving DecidableEq

def UnitDirection.str : UnitDirection → String
  | north => "north"
  | south => "south"
  | east => "east"
  | west => "west"

inductive DeedType where
  | electronic
  | traditional
  | temporary
deriving DecidableEq

def DeedType.str : DeedType → String
  | electronic => "electronic"
  | traditional => "traditional"
  | temporary => "temporary"

/-- What the builder reads of `property.property`; city and region by their name and code. -/
structure UnitProperty where
  deedNumber : CharField := none
  deedType : Option DeedType := none
  nationalAddressCode : CharField := none
  buildingNumber : CharField := none
  districtAr : CharField := none
  district : CharField := none
  saCity : Option String := none
  saRegion : Option String := none
  postalCode : CharField := none

/-- What the builder reads of `ejar.contract.unit`. -/
structure UnitRecord where
  unitNumber : CharField := none
  unitType : Option UnitType := some .apartment
  area : Rat := 0
  floorNumber : Int := 0
  furnishing : Option Furnishing := some .unfurnished
  finishing : Option Finishing := some .finished
  direction : Option UnitDirection := none
  bedrooms : Int := 0
  bathrooms : Int := 0
  property : Option UnitProperty := none

/-- `related='property_id.deed_number'` -/
def UnitRecord.deedNumber (unit : UnitRecord) : CharField := unit.property.bind UnitProperty.deedNumber

structure UnitLocation where
  deedNumber : String
  deedType : String
  nationalAddressCode : String
  buildingNumber : String
  district : String
  city : String
  region : String
  postalCode : String

structure UnitAttributes where
  unitNumber : CharField
  unitType : String
  area : Rat
  floorNumber : Int
  furnishing : String
  finishing : String
  direction : Option String
  bedrooms : Option Int
  bathrooms : Option Int
  location : Option UnitLocation

def UnitProperty.location (prop : UnitProperty) : UnitLocation where
  deedNumber := prop.deedNumber.orText ""
  deedType := (prop.deedType.getD .electronic).str
  nationalAddressCode := prop.nationalAddressCode.orText ""
  buildingNumber := prop.buildingNumber.orText ""
  district := prop.districtAr.orText (prop.district.orText "")
  city := prop.saCity.getD ""
  region := prop.saRegion.getD ""
  postalCode := prop.postalCode.orText ""

def buildUnitAttributes (unit : UnitRecord) : Except Exc UnitAttributes := do
  require (.ofChar unit.deedNumber) "deed_number" "ejar.contract.unit"
  require (.ofChar unit.unitNumber) "unit_number" "ejar.contract.unit"
  return {
    unitNumber := unit.unitNumber
    unitType := (unit.unitType.getD .apartment).str
    area := pyRound unit.area 2
    floorNumber := unit.floorNumber
    furnishing := (unit.furnishing.getD .unfurnished).str
    finishing := (unit.finishing.getD .finished).str
    direction := unit.direction.map UnitDirection.str
    bedrooms := if unit.bedrooms = 0 then none else some unit.bedrooms
    bathrooms := if unit.bathrooms = 0 then none else some unit.bathrooms
    location := unit.property.map UnitProperty.location }

/-- `none` when there are no custom terms. -/
def buildCustomTermsAttributes (contract : Contract) : Option String :=
  if contract.customTerms.truthy then contract.customTerms else none

/-- A call of one of the builder's methods. -/
inductive Build where
  | contract (contract : Contract) (profile : Option BrokerageProfile)
  | financial (contract : Contract)
  | rentalFee (contract : Contract) (profile : Option BrokerageProfile)
  | individualEntity (party : Party)
  | organizationEntity (party : Party)
  | party (party : Party) (entityId : CharField)
  | unit (unit : UnitRecord)
  | customTerms (contract : Contract)

/-- The payload of a call, where it returns one. -/
inductive Payload where
  | contract (attributes : ContractAttributes)
  | financial (attributes : FinancialAttributes)
  | rentalFee (attributes : Option RentalFeeAttributes)
  | individualEntity (attributes : IndividualEntityAttributes)
  | organizationEntity (attributes : OrganizationEntityAttributes)
  | party (attributes : PartyAttributes)
  | unit (attributes : UnitAttributes)
  | customTerms (terms : Option String)

def Build.run : Build → Except Exc Payload
  | contract c profile => (buildContractAttributes c profile).map .contract
  | financial c => (buildFinancialAttributes c).map .financial
  | rentalFee c profile => .ok (.rentalFee (buildRentalFeeAttributes c profile))
  | individualEntity p => (buildIndividualEntityAttributes p).map .individualEntity
  | organizationEntity p => (buildOrganizationEntityAttributes p).map .organizationEntity
  | party p entityId => (buildPartyAttributes p entityId).map .party
  | unit u => (buildUnitAttributes u).map .unit
  | customTerms c => .ok (.customTerms (buildCustomTermsAttributes c))

/-- The values the call hands to `_require`. -/
def Build.required : Build → List FieldValue
  | contract c profile => [.ofDate c.startDate, .ofDate c.endDate, .number c.rentAmount, .record profile.isSome]
  | financial c => [.number c.rentAmount, .ofChar (c.paymentSchedule.map PaymentSchedule.str)]
  | rentalFee _ _ => []
  | individualEntity p => [.ofChar p.idNumber, .ofChar p.mobile, .ofChar p.fullNameAr]
  | organizationEntity p => [.ofChar (if p.crNumber.truthy then p.crNumber else p.unifiedNumber)]
  | party p entityId => [.ofChar entityId, .char p.role.str]
  | unit u => [.ofChar u.deedNumber, .ofChar u.unitNumber]
  | customTerms _ => []

/-- The values under which a payload carries the required fields; a key that is
missing carries `None`. -/
def Payload.carried : Payload → List FieldValue
  | contract a => [.char a.contractStartDate, .char a.contractEndDate]
  | financial a => [.number a.annualRent, .ofChar a.billingType]
  | rentalFee _ => []
  | individualEntity a => [.ofChar a.idNumber, .char a.mobileNumber, .ofChar a.fullName]
  | organizationEntity a => [.char (if a.crNumber != "" then a.crNumber else a.unifiedNumber)]
  | party a => [.ofChar a.entityId, .char a.role]
  | unit a => [(a.location.map fun l => FieldValue.char l.deedNumber).getD .pyNone, .ofChar a.unitNumber]
  | customTerms _ => []

namespace FieldValue

/-- The ways Odoo represents an unset value. -/
def Unset : FieldValue → Prop
  | false => True
  | pyNone => True
  | char s => s = ""
  | number _ => False
  | date _ => False
  | record present => present = Bool.false

/-- A value worth sending. -/
def Real (v : FieldValue) : Prop := ¬v.Unset ∧ v ≠ .char "False"

end FieldValue

/-- The call rejects unset values, and sends no others. -/
structure RejectsMissing (b : Build) : Prop where
  rejects : (∃ v ∈ b.required, v.Unset) → ∃ e, b.run = .error e ∧ e.cls = .ejarPayloadError
  carries : ∀ p, b.run = .ok p → ∀ v ∈ p.carried, v.Real

section

variable {v : FieldValue} {field model : String} {text : CharField} {b : Build} {p : Payload} {e : Exc}

/-- `False` is the one unset value that `_require` lets through. -/
theorem require_isOk : (∃ u, require v field model = .ok u) ↔ v = .false ∨ ¬v.Unset := by
  cases v with
  | char s => simp [require, FieldValue.truthy, FieldValue.neZero, FieldValue.Unset]
  | number q => simp [require, FieldValue.truthy, FieldValue.neZero, FieldValue.Unset]
  | record present => simp [require, FieldValue.truthy, FieldValue.neZero, FieldValue.Unset]
  | _ => simp [require, FieldValue.truthy, FieldValue.neZero, FieldValue.Unset]

theorem require_error (h : require v field model = .error e) : e.cls = .ejarPayloadError := by
  unfold require at h
  split at h
  · obtain rfl := Except.error.inj h
    rfl
  · cases h

theorem map_eq_ok {ε α β : Type} {x : Except ε α} {f : α → β} {y : β} : x.map f = .ok y ↔ ∃ a, x = .ok a ∧ f a = y := by
  cases x <;> simp [Except.map]

theorem map_eq_error {ε α β : Type} {x : Except ε α} {f : α → β} {err : ε} : x.map f = .error err ↔ x = .error err := by
  cases x <;> simp [Except.map]

theorem error_of_require {α : Type} {k : Unit → Except Exc α} (hk : ∀ e, k () = .error e → e.cls = .ejarPayloadError)
    (h : (require v field model >>= k) = .error e) : e.cls = .ejarPayloadError := by
  rcases bind_eq_error.mp h with h | ⟨_, -, h⟩
  · exact require_error h
  · exact hk e h

theorem error_of_last {α : Type} {a : α} (h : (require v field model >>= fun _ => (pure a : Except Exc α)) = .error e) :
    e.cls = .ejarPayloadError := by
  refine error_of_require (fun e h => ?_) h
  cases h

/-- A call goes through just when `_require` lets every value through. -/
theorem run_isOk : (∃ p, b.run = .ok p) ↔ ∀ v ∈ b.required, v = .false ∨ ¬v.Unset := by
  cases b with
  | rentalFee c profile => simp [Build.run, Build.required]
  | customTerms c => simp [Build.run, Build.required]
  | contract c profile =>
    simp [Build.run, Build.required, buildContractAttributes, map_eq_ok, bind_eq_ok, require_isOk, pure, Except.pure]
  | financial c =>
    simp [Build.run, Build.required, buildFinancialAttributes, map_eq_ok, bind_eq_ok, require_isOk, pure, Except.pure]
  | individualEntity p =>
    simp [Build.run, Build.required, buildIndividualEntityAttributes, map_eq_ok, bind_eq_ok, require_isOk, pure,
      Except.pure]
  | organizationEntity p =>
    simp [Build.run, Build.required, buildOrganizationEntityAttributes, map_eq_ok, bind_eq_ok, require_isOk, pure,
      Except.pure]
  | party p entityId =>
    simp [Build.run, Build.required, buildPartyAttributes, map_eq_ok, bind_eq_ok, require_isOk, pure, Except.pure]
  | unit u =>
    simp [Build.run, Build.required, buildUnitAttributes, map_eq_ok, bind_eq_ok, require_isOk, pure, Except.pure]

theorem run_error (h : b.run = .error e) : e.cls = .ejarPayloadError := by
  cases b with
  | rentalFee c profile => cases h
  | customTerms c => cases h
  | contract c profile =>
    refine error_of_require (fun e h => ?_) (map_eq_error.mp h)
    refine error_of_require (fun e h => ?_) h
    refine error_of_require (fun e h => ?_) h
    exact error_of_last h
  | individualEntity p =>
    refine error_of_require (fun e h => ?_) (map_eq_error.mp h)
    refine error_of_require (fun e h => ?_) h
    exact error_of_last h
  | organizationEntity p => exact error_of_last (map_eq_error.mp h)
  | financial _ | party _ _ | unit _ =>
    refine error_of_require (fun e h => ?_) (map_eq_error.mp h)
    exact error_of_last h

theorem not_real_false : ¬FieldValue.false.Real := fun h => h.1 trivial

theorem char_real {s : String} : (FieldValue.char s).Real ↔ s ≠ "" ∧ s ≠ "False" := by
  simp [FieldValue.Real, FieldValue.Unset]

theorem real_iff (h : v = .false ∨ ¬v.Unset) : v.Real ↔ v ≠ .false ∧ v ≠ .char "False" := by
  rcases h with rfl | hset
  · simp [not_real_false]
  · have hne : v ≠ .false := by
      rintro rfl
      exact hset trivial
    simp [FieldValue.Real, hset, hne]

theorem orText_real : (FieldValue.char (text.orText "")).Real ↔ (FieldValue.ofChar text).Real := by
  cases text with
  | none => simp [CharField.orText, FieldValue.ofChar, char_real, not_real_false]
  | some s =>
    have hkept : CharField.orText (some s) "" = s := by
      by_cases hs : s = "" <;> simp [CharField.orText, hs]
    rw [hkept]
    rfl

theorem isoformat_ne {d : Date} {s : String} (hs : '-' ∉ s.toList) : d.isoformat ≠ s := by
  rintro rfl
  apply hs
  simp [Date.isoformat]

theorem dateStr_real {d : Option Date} : (FieldValue.char (dateStr d)).Real ↔ (FieldValue.ofDate d).Real := by
  cases d with
  | none => simp [dateStr, char_real, FieldValue.ofDate, not_real_false]
  | some d =>
    have hempty : d.isoformat ≠ "" := isoformat_ne (by decide)
    have hfalse : d.isoformat ≠ "False" := isoformat_ne (by decide)
    simp [dateStr, FieldValue.ofDate, FieldValue.Real, FieldValue.Unset, hempty, hfalse]

theorem normalizeMobile_real : (FieldValue.char (normalizeMobile text)).Real ↔ (FieldValue.ofChar text).Real := by
  cases text with
  | none => simp [normalizeMobile, char_real, FieldValue.ofChar, not_real_false]
  | some s =>
    have hplus : ∀ l : List Char, (FieldValue.char (String.ofList ('+' :: l))).Real := by
      intro l
      rw [char_real, Ne, ← String.toList_inj, String.toList_ofList, Ne, ← String.toList_inj, String.toList_ofList]
      simp
    by_cases hempty : s = ""
    · subst hempty
      rfl
    · by_cases hfalse : s = "False"
      · have hkept : normalizeMobile (some "False") = "False" := by decide
        rw [hfalse, hkept]
        rfl
      · have hreal : (FieldValue.char s).Real := char_real.mpr ⟨hempty, hfalse⟩
        simp only [normalizeMobile, hempty, if_false, FieldValue.ofChar, hreal, iff_true]
        split
        · exact hplus _
        · split
          · exact hplus _
          · split
            · exact hplus _
            · exact hreal

/-- What a payload carries is as real as what the call was given. -/
theorem carried_real_iff (h : b.run = .ok p) : (∀ v ∈ p.carried, v.Real) ↔ ∀ v ∈ b.required, v.Real := by
  have hlet := run_isOk.mp ⟨p, h⟩
  have hnumber : ∀ q, (FieldValue.number q).Real := fun q => by simp [FieldValue.Real, FieldValue.Unset]
  cases b with
  | rentalFee c profile =>
    obtain rfl := Except.ok.inj h
    simp [Payload.carried, Build.required]
  | customTerms c =>
    obtain rfl := Except.ok.inj h
    simp [Payload.carried, Build.required]
  | contract c profile =>
    obtain ⟨a, ha, rfl⟩ := map_eq_ok.mp h
    obtain ⟨_, _, ha⟩ := bind_eq_ok.mp ha
    obtain ⟨_, _, ha⟩ := bind_eq_ok.mp ha
    obtain ⟨_, _, ha⟩ := bind_eq_ok.mp ha
    obtain ⟨_, _, ha⟩ := bind_eq_ok.mp ha
    obtain rfl := Except.ok.inj ha
    have hprofile : (FieldValue.record profile.isSome).Real := by
      rcases hlet (.record profile.isSome) (by simp [Build.required]) with hfalse | hset
      · cases hfalse
      · exact ⟨hset, by simp⟩
    simp [Payload.carried, Build.required, dateStr_real, hnumber, hprofile]
  | financial c =>
    obtain ⟨a, ha, rfl⟩ := map_eq_ok.mp h
    obtain ⟨_, _, ha⟩ := bind_eq_ok.mp ha
    obtain ⟨_, _, ha⟩ := bind_eq_ok.mp ha
    obtain rfl := Except.ok.inj ha
    simp [Payload.carried, Build.required, hnumber]
  | individualEntity party =>
    obtain ⟨a, ha, rfl⟩ := map_eq_ok.mp h
    obtain ⟨_, _, ha⟩ := bind_eq_ok.mp ha
    obtain ⟨_, _, ha⟩ := bind_eq_ok.mp ha
    obtain ⟨_, _, ha⟩ := bind_eq_ok.mp ha
    obtain rfl := Except.ok.inj ha
    simp [Payload.carried, Build.required, normalizeMobile_real]
  | organizationEntity party =>
    obtain ⟨a, ha, rfl⟩ := map_eq_ok.mp h
    obtain ⟨_, _, ha⟩ := bind_eq_ok.mp ha
    obtain rfl := Except.ok.inj ha
    simp only [Payload.carried, Build.required, List.mem_singleton, forall_eq]
    by_cases hcr : party.crNumber.truthy
    · obtain ⟨s, hs, hne⟩ := CharField.truthy_iff.mp hcr
      simp [hs, CharField.orText, hne, FieldValue.ofChar]
    · have hnone : party.crNumber.orText "" = "" := by
        cases hs : party.crNumber with
        | none => rfl
        | some s =>
          have hempty : s = "" := by simpa [hs] using hcr
          simp [CharField.orText, hempty]
      simp [hnone, hcr, orText_real]
  | party party entityId =>
    obtain ⟨a, ha, rfl⟩ := map_eq_ok.mp h
    obtain ⟨_, _, ha⟩ := bind_eq_ok.mp ha
    obtain ⟨_, _, ha⟩ := bind_eq_ok.mp ha
    obtain rfl := Except.ok.inj ha
    rfl
  | unit unit =>
    obtain ⟨a, ha, rfl⟩ := map_eq_ok.mp h
    obtain ⟨_, _, ha⟩ := bind_eq_ok.mp ha
    obtain ⟨_, _, ha⟩ := bind_eq_ok.mp ha
    obtain rfl := Except.ok.inj ha
    cases hproperty : unit.property with
    | none =>
      simp [Payload.carried, Build.required, UnitRecord.deedNumber, hproperty, FieldValue.ofChar, FieldValue.Real,
        FieldValue.Unset]
    | some prop =>
      simp [Payload.carried, Build.required, UnitRecord.deedNumber, hproperty, UnitProperty.location, orText_real]

theorem carried_real (h : b.run = .ok p) :
    (∀ v ∈ p.carried, v.Real) ↔ ∀ v ∈ b.required, v ≠ .false ∧ v ≠ .char "False" := by
  have hlet := run_isOk.mp ⟨p, h⟩
  rw [carried_real_iff h]
  exact forall₂_congr fun v hv => real_iff (hlet v hv)

theorem builders_reject_missing_iff (b : Build) : (∀ value field model, value.Unset →
      ((∃ e, require value field model = .error e ∧ e.cls = .ejarPayloadError) ↔ value ≠ .false)) ∧
    (RejectsMissing b ↔
      (∃ v ∈ b.required, v.Unset ∧ v ≠ .false) ∨ ∀ v ∈ b.required, v ≠ .false ∧ v ≠ .char "False") := by
  constructor
  · intro value field model hunset
    constructor
    · rintro ⟨e, he, -⟩ rfl
      cases he
    · intro hne
      cases he : require value field model with
      | ok u =>
        rcases require_isOk.mp ⟨u, he⟩ with h | h
        · exact absurd h hne
        · exact absurd hunset h
      | error e => exact ⟨e, rfl, require_error he⟩
  · cases hrun : b.run with
    | error e =>
      have hmissing : ∃ v ∈ b.required, v.Unset ∧ v ≠ .false := by
        by_contra hnone
        have hok : ∃ p, b.run = .ok p := run_isOk.mpr fun v hv => by
          by_cases hfalse : v = .false
          · exact .inl hfalse
          · exact .inr fun hunset => hnone ⟨v, hv, hunset, hfalse⟩
        simp [hrun] at hok
      refine ⟨fun _ => .inl hmissing, fun _ => ⟨fun _ => ⟨e, hrun, run_error hrun⟩, fun p hp => ?_⟩⟩
      rw [hrun] at hp
      cases hp
    | ok p =>
      have hlet := run_isOk.mp ⟨p, hrun⟩
      have hreal := carried_real hrun
      constructor
      · intro h
        exact .inr (hreal.mp (h.carries p hrun))
      · intro h
        have hall : ∀ v ∈ b.required, v ≠ .false ∧ v ≠ .char "False" := by
          rcases h with ⟨v, hv, hunset, hne⟩ | h
          · rcases hlet v hv with hfalse | hset
            · exact absurd hfalse hne
            · exact absurd hunset hset
          · exact h
        refine ⟨?_, fun q hq => ?_⟩
        · rintro ⟨v, hv, hunset⟩
          rcases hlet v hv with hfalse | hset
          · exact absurd hfalse (hall v hv).1
          · exact absurd hunset hset
        · obtain rfl := Except.ok.inj (hrun.symm.trans hq)
          exact hreal.mpr hall

/-- A party without an id number: the payload has `False` for it. -/
theorem missing_idNumber_sent : ¬∀ b : Build, RejectsMissing b := by
  intro h
  let party : Party := { role := .tenant, mobile := some "0500000002", fullNameAr := some "مستأجر" }
  have hrejects := (h (.individualEntity party)).rejects ⟨.false, by simp [party, Build.required, FieldValue.ofChar],
    trivial⟩
  obtain ⟨e, he, -⟩ := hrejects
  cases he

end

end Ejar
