import PropzaAmlak.Ejar.Filed
import PropzaAmlak.Submission.Prerequisites
import PropzaAmlak.Submission.Resumption

/-! What a record says should be sent to Ejar, request by request, and when that
is what Ejar has on file. -/

namespace Ejar

open Tx

/-- The parts of a record that are sent. -/
inductive Item where
  | entity (i : Nat)
  | contract
  | unit (i : Nat)
  | party (i : Nat)
  | financialInfo
  | rentalFee

/-- The commit before which an attempt sends it. -/
def Item.stage : Item → Nat
  | entity _ => 0
  | contract => 1
  | unit _ => 2
  | party _ => 3
  | financialInfo => 4
  | rentalFee => 5

def Contract.has (c : Contract) : Item → Prop
  | .entity i => i ∈ c.partyIds.ids
  | .unit i => i ∈ c.unitIds.ids
  | .party i => i ∈ c.partyIds.ids
  | _ => True

/-- An id is stored for it. -/
def Contract.skips (c : Contract) : Item → Bool
  | .entity i => (c.partyIds.row i).ejarEntityId.truthy
  | .contract => c.ejarContractId.truthy
  | .unit i => (c.unitIds.row i).ejarContractUnitId.truthy
  | .party i => (c.partyIds.row i).ejarPartyId.truthy
  | _ => false

namespace Remote

/-- The call with the data of the record, under the ids that it has or will get. -/
def call (m : Remote) (profile : Option BrokerageProfile) (c : Contract) : Item → Option ApiCall
  | .entity i => (entityCall (c.partyIds.row i)).toOption
  | .contract => (buildContractAttributes c profile).toOption.map .createContract
  | .unit i =>
    some (.attachUnit (m.contractId c) (c.unitIds.row i).ejarPropertyId (c.unitIds.row i).ejarUnitId)
  | .party i =>
    some (.addParty (m.contractId c) { c.partyIds.row i with ejarEntityId := m.entityId c i }.attributes)
  | .financialInfo => (buildFinancialAttributes c).toOption.map (.addFinancialInformation (m.contractId c))
  | .rentalFee => (buildRentalFeeAttributes c profile).map (.addRentalFee (m.contractId c))

/-- What the record says should be sent. -/
def Asks (m : Remote) (profile : Option BrokerageProfile) (c : Contract) (q : Request) : Prop :=
  q.companyId = c.companyId ∧ ∃ item, c.has item ∧ m.call profile c item = some q.call

/-- What an attempt sends of it. -/
def Sends (m : Remote) (profile : Option BrokerageProfile) (c : Contract) (q : Request) : Prop :=
  q.companyId = c.companyId ∧ ∃ item, c.has item ∧ ¬ c.skips item ∧ m.call profile c item = some q.call

/-- The request is for the remote contract of the record, or created it. -/
def About (m : Remote) (c : Contract) (q : Request) : Prop :=
  q.companyId = c.companyId ∧
    match q.call with
    | .createContract _ => m.name (m.resource q) = m.contractId c
    | .attachUnit id _ _ => id = m.contractId c
    | .addParty id _ => id = m.contractId c
    | .addFinancialInformation id _ => id = m.contractId c
    | .addRentalFee id _ => id = m.contractId c
    | _ => False

/-- The uploads and the submission, which carry none of the data. -/
def Aside (q : Request) : Prop :=
  match q.call with
  | .uploadProxyDocument .. => True
  | .uploadSignedDocument .. => True
  | .submitContract _ => True
  | _ => False

variable {m : Remote} {profile : Option BrokerageProfile} {c d : Contract} {q : Request}

theorem Sends.asks (h : m.Sends profile c q) : m.Asks profile c q := by
  obtain ⟨hcompany, item, hhas, -, hcall⟩ := h
  exact ⟨hcompany, item, hhas, hcall⟩

/-- The kinds of the keys under which data is sent. -/
def dataKinds : List String := ["add_financial_info", "add_rental_fee"] ++ linkKinds

theorem Asks.kind (h : m.Asks profile c q) : ∃ kind ∈ dataKinds, (m.resource q).head? = some kind := by
  obtain ⟨-, item, -, hcall⟩ := h
  obtain ⟨client, call⟩ := q
  cases item with
  | entity i =>
    have hcall : (entityCall (c.partyIds.row i)).toOption = some call := hcall
    cases hentity : entityCall (c.partyIds.row i) with
    | error e =>
      rw [hentity] at hcall
      cases hcall
    | ok call' =>
      rw [hentity] at hcall
      obtain rfl := Option.some.inj hcall
      obtain ⟨kind, hkind, hhead⟩ := entityCall_kind (m := m) hentity
      exact ⟨kind, List.mem_append_right _ hkind, hhead⟩
  | contract =>
    obtain ⟨attrs, -, hattrs⟩ := Option.map_eq_some_iff.mp hcall
    obtain rfl : .createContract attrs = call := hattrs
    exact ⟨"create_contract", by simp [dataKinds, linkKinds], rfl⟩
  | unit i =>
    obtain rfl := Option.some.inj hcall
    exact ⟨"attach_unit", by simp [dataKinds, linkKinds], rfl⟩
  | party i =>
    obtain rfl := Option.some.inj hcall
    exact ⟨"add_party", by simp [dataKinds, linkKinds], rfl⟩
  | financialInfo =>
    obtain ⟨attrs, -, hattrs⟩ := Option.map_eq_some_iff.mp hcall
    obtain rfl : .addFinancialInformation _ attrs = call := hattrs
    exact ⟨"add_financial_info", by simp [dataKinds], rfl⟩
  | rentalFee =>
    obtain ⟨attrs, -, hattrs⟩ := Option.map_eq_some_iff.mp hcall
    obtain rfl : .addRentalFee _ attrs = call := hattrs
    exact ⟨"add_rental_fee", by simp [dataKinds], rfl⟩

theorem Aside.kind (h : Aside q) : ∃ kind ∉ dataKinds, (m.resource q).head? = some kind := by
  obtain ⟨client, call⟩ := q
  cases call with
  | uploadProxyDocument => exact ⟨"upload_proxy_doc", by simp [dataKinds, linkKinds], rfl⟩
  | uploadSignedDocument => exact ⟨"upload_signed_doc", by simp [dataKinds, linkKinds], rfl⟩
  | submitContract => exact ⟨"submit_contract", by simp [dataKinds, linkKinds], rfl⟩
  | _ => exact h.elim

/-- No key of the uploads and the submission is one under which data is sent. -/
theorem Aside.apart (h : Aside q) : ¬ m.About c q ∧ ∀ a, m.Asks profile c a → m.resource q ≠ m.resource a := by
  constructor
  · rintro ⟨-, habout⟩
    obtain ⟨client, call⟩ := q
    cases call with
    | uploadProxyDocument => exact habout
    | uploadSignedDocument => exact habout
    | submitContract => exact habout
    | _ => exact h
  · intro a ha hkey
    obtain ⟨kind, hkind, hhead⟩ := h.kind (m := m)
    obtain ⟨kind', hkind', hhead'⟩ := ha.kind
    rw [hkey, hhead', Option.some.injEq] at hhead
    exact hkind (hhead ▸ hkind')

theorem getParty_base (c : Contract) (role : Role) : getParty c.base role = (getParty c role).map Party.base := by
  have hparties : c.base.parties = c.parties.map Party.base := by
    simp [Contract.parties, Contract.base, Records.toList]
  rw [getParty, getParty, hparties, List.find?_map]
  rfl

theorem buildFinancialAttributes_base (c : Contract) :
    buildFinancialAttributes c.base = buildFinancialAttributes c := by
  have hiban : (getParty c.base .lessor).bind Party.iban = (getParty c .lessor).bind Party.iban := by
    rw [getParty_base]
    cases getParty c .lessor <;> rfl
  rw [buildFinancialAttributes, buildFinancialAttributes, hiban]
  rfl

section

variable (h : m.Same c d)
include h

theorem has_congr (item : Item) : d.has item ↔ c.has item := by
  have hparties : d.partyIds.ids = c.partyIds.ids := (congrArg (fun d : Contract => d.partyIds.ids) h.base :)
  have hunits : d.unitIds.ids = c.unitIds.ids := (congrArg (fun d : Contract => d.unitIds.ids) h.base :)
  cases item with
  | entity i => rw [Contract.has, Contract.has, hparties]
  | unit i => rw [Contract.has, Contract.has, hunits]
  | party i => rw [Contract.has, Contract.has, hparties]
  | _ => exact Iff.rfl

theorem attributes_congr (i : Nat) : { d.partyIds.row i with ejarEntityId := m.entityId d i }.attributes =
    { c.partyIds.row i with ejarEntityId := m.entityId c i }.attributes := by
  rw [h.entityId i]
  exact (congrArg (fun p : Party => { p with ejarEntityId := m.entityId c i }.attributes) (party_congr h.base i) :)

theorem call_congr (item : Item) : m.call profile d item = m.call profile c item := by
  cases item with
  | entity i =>
    rw [call, call, ← entityCall_base (d.partyIds.row i), party_congr h.base i, entityCall_base]
  | contract =>
    have hattrs : buildContractAttributes d profile = buildContractAttributes c profile :=
      (congrArg (fun d : Contract => buildContractAttributes d profile) h.base :)
    rw [call, call, hattrs]
  | unit i =>
    have hproperty : (d.unitIds.row i).ejarPropertyId = (c.unitIds.row i).ejarPropertyId :=
      (congrArg ContractUnit.ejarPropertyId (unit_congr h.base i) :)
    have hunit : (d.unitIds.row i).ejarUnitId = (c.unitIds.row i).ejarUnitId :=
      (congrArg ContractUnit.ejarUnitId (unit_congr h.base i) :)
    rw [call, call, h.contractId, hproperty, hunit]
  | party i => rw [call, call, h.contractId, attributes_congr h i]
  | financialInfo =>
    rw [call, call, h.contractId, ← buildFinancialAttributes_base d, h.base, buildFinancialAttributes_base]
  | rentalFee =>
    have hattrs : buildRentalFeeAttributes d profile = buildRentalFeeAttributes c profile :=
      (congrArg (fun d : Contract => buildRentalFeeAttributes d profile) h.base :)
    rw [call, call, h.contractId, hattrs]

theorem asks_congr : m.Asks profile d q ↔ m.Asks profile c q := by
  simp only [Asks, companyId_congr h.base, has_congr h, call_congr h]

theorem about_congr : m.About d q ↔ m.About c q := by
  rw [About, About, companyId_congr h.base, h.contractId]

end

theorem toOption_eq_some {α : Type} {v : Except Exc α} {a : α} : v.toOption = some a ↔ v = .ok a := by
  cases v <;> simp [Except.toOption]

theorem Asks.of_entity {client i : Nat} {call : ApiCall} (hi : i ∈ c.partyIds.ids)
    (hcall : entityCall (c.partyIds.row i) = .ok call) (hclient : client = c.companyId) :
    m.Asks profile c ⟨client, call⟩ :=
  ⟨hclient, .entity i, hi, toOption_eq_some.mpr hcall⟩

theorem Asks.contract {client : Nat} {attrs : ContractAttributes}
    (h : m.Asks profile c ⟨client, .createContract attrs⟩) : buildContractAttributes c profile = .ok attrs := by
  obtain ⟨-, item, -, hcall⟩ := h
  cases item with
  | entity i => exact (Prerequisite.entityCall_createsEntity (toOption_eq_some.mp hcall)).elim
  | contract =>
    obtain ⟨attrs', hattrs, heq⟩ := Option.map_eq_some_iff.mp hcall
    obtain rfl := ApiCall.createContract.inj heq
    exact toOption_eq_some.mp hattrs
  | _ => simp [call] at hcall

theorem Asks.unit {client : Nat} {id : String} {propertyId unitId : CharField}
    (h : m.Asks profile c ⟨client, .attachUnit id propertyId unitId⟩) :
    ∃ i ∈ c.unitIds.ids, propertyId = (c.unitIds.row i).ejarPropertyId ∧ unitId = (c.unitIds.row i).ejarUnitId := by
  obtain ⟨-, item, hhas, hcall⟩ := h
  cases item with
  | entity i => exact (Prerequisite.entityCall_createsEntity (toOption_eq_some.mp hcall)).elim
  | unit i =>
    obtain ⟨-, hproperty, hunit⟩ := ApiCall.attachUnit.inj (Option.some.inj hcall)
    exact ⟨i, hhas, hproperty.symm, hunit.symm⟩
  | _ => simp [call] at hcall

theorem Asks.party {client : Nat} {id : String} {attrs : PartyAttributes}
    (h : m.Asks profile c ⟨client, .addParty id attrs⟩) :
    ∃ i ∈ c.partyIds.ids, attrs = { c.partyIds.row i with ejarEntityId := m.entityId c i }.attributes := by
  obtain ⟨-, item, hhas, hcall⟩ := h
  cases item with
  | entity i => exact (Prerequisite.entityCall_createsEntity (toOption_eq_some.mp hcall)).elim
  | party i =>
    obtain ⟨-, hattrs⟩ := ApiCall.addParty.inj (Option.some.inj hcall)
    exact ⟨i, hhas, hattrs.symm⟩
  | _ => simp [call] at hcall

theorem Asks.financialInfo {client : Nat} {id : String} {attrs : FinancialAttributes}
    (h : m.Asks profile c ⟨client, .addFinancialInformation id attrs⟩) : buildFinancialAttributes c = .ok attrs := by
  obtain ⟨-, item, -, hcall⟩ := h
  cases item with
  | entity i => exact (Prerequisite.entityCall_createsEntity (toOption_eq_some.mp hcall)).elim
  | financialInfo =>
    obtain ⟨attrs', hattrs, heq⟩ := Option.map_eq_some_iff.mp hcall
    obtain ⟨-, rfl⟩ := ApiCall.addFinancialInformation.inj heq
    exact toOption_eq_some.mp hattrs
  | _ => simp [call] at hcall

theorem Asks.rentalFee {client : Nat} {id : String} {attrs : RentalFeeAttributes}
    (h : m.Asks profile c ⟨client, .addRentalFee id attrs⟩) : buildRentalFeeAttributes c profile = some attrs := by
  obtain ⟨-, item, -, hcall⟩ := h
  cases item with
  | entity i => exact (Prerequisite.entityCall_createsEntity (toOption_eq_some.mp hcall)).elim
  | rentalFee =>
    obtain ⟨attrs', hattrs, heq⟩ := Option.map_eq_some_iff.mp hcall
    obtain ⟨-, rfl⟩ := ApiCall.addRentalFee.inj heq
    exact hattrs
  | _ => simp [call] at hcall

theorem entityResource_of {i : Nat} {call : ApiCall} (hcall : entityCall (d.partyIds.row i) = .ok call) :
    m.entityResource d i = m.resource ⟨d.companyId, call⟩ := by
  rw [entityResource, hcall]

/-- The remote ids are those that Ejar gives to the data as it is. -/
structure Named (m : Remote) (c : Contract) : Prop where
  contract : m.contractId c = m.name (contractResource c)
  entity : ∀ i ∈ c.partyIds.ids, m.entityId c i = some (m.name (m.entityResource c i))

theorem named_congr (h : m.Same c d) : m.Named d ↔ m.Named c := by
  have hids : d.partyIds.ids = c.partyIds.ids := (congrArg (fun d : Contract => d.partyIds.ids) h.base :)
  have hentity (i : Nat) : m.entityResource d i = m.entityResource c i := entityResource_congr h.base i
  constructor
  · rintro ⟨hcontract, hentities⟩
    rw [h.contractId, contractResource_congr h.base] at hcontract
    refine ⟨hcontract, ?_⟩
    intro i hi
    rw [← h.entityId, ← hentity]
    exact hentities i (hids ▸ hi)
  · rintro ⟨hcontract, hentities⟩
    refine ⟨by rw [h.contractId, contractResource_congr h.base, hcontract], ?_⟩
    intro i hi
    rw [h.entityId, hentity]
    exact hentities i (hids ▸ hi)

/-- The record with all that a submission which went through leaves on it. -/
structure Submitted (profile : BrokerageProfile) (d : Contract) : Prop where
  profile : d.brokerageProfileId = some profile
  contract : d.ejarContractId.truthy
  entity : ∀ i ∈ d.partyIds.ids, (d.partyIds.row i).ejarEntityId.truthy
  call : ∀ i ∈ d.partyIds.ids, ∃ call, entityCall (d.partyIds.row i) = .ok call

section

variable {own : BrokerageProfile} {log : List Request} {i : Nat} (h : Submitted own d)
include h

theorem Submitted.contractId : m.contractId d = d.ejarContractId.str := if_pos h.contract

theorem Submitted.entityId (hi : i ∈ d.partyIds.ids) : m.entityId d i = (d.partyIds.row i).ejarEntityId :=
  if_pos (h.entity i hi)

theorem Submitted.call_party (hi : i ∈ d.partyIds.ids) :
    m.call profile d (.party i) = some (.addParty d.ejarContractId.str (d.partyIds.row i).attributes) := by
  rw [Remote.call, h.contractId, h.entityId hi]

theorem Submitted.attributes (hi : i ∈ d.partyIds.ids) :
    buildPartyAttributes (d.partyIds.row i) (d.partyIds.row i).ejarEntityId = .ok (d.partyIds.row i).attributes :=
  buildPartyAttributes_ok (h.entity i hi)

theorem Submitted.party_mem (hi : i ∈ d.partyIds.ids) :
    ((d.partyIds.row i).attributes, {call | entityCall (d.partyIds.row i) = .ok call}) ∈ d.filed.parties :=
  ⟨_, Records.mem_toList.mpr ⟨i, hi, rfl⟩, h.attributes hi, rfl⟩

theorem Submitted.mem_parties {p : PartyAttributes × Set ApiCall} (hp : p ∈ d.filed.parties) :
    ∃ i ∈ d.partyIds.ids, p = ((d.partyIds.row i).attributes, {call | entityCall (d.partyIds.row i) = .ok call}) := by
  obtain ⟨party, hparty, hattrs, hcalls⟩ := hp
  obtain ⟨i, hi, rfl⟩ := Records.mem_toList.mp hparty
  rw [h.attributes hi, Except.ok.injEq] at hattrs
  exact ⟨i, hi, Prod.ext hattrs.symm hcalls⟩

section

variable (heq : m.filed log d.companyId d.ejarContractId.str = d.filed)
include heq

/-- What is on file for the contract is asked for, if both sides are equal. -/
theorem Submitted.about_asks (hq : q ∈ log) (habout : m.About d q) : m.Asks (some own) d q := by
  obtain ⟨client, call⟩ := q
  obtain ⟨hclient, habout⟩ := habout
  obtain rfl : client = d.companyId := hclient
  refine ⟨rfl, ?_⟩
  cases call with
  | createContract attrs =>
    have hmem : attrs ∈ (m.filed log d.companyId d.ejarContractId.str).attributes :=
      ⟨hq, habout.trans h.contractId⟩
    rw [heq] at hmem
    have hattrs : buildContractAttributes d (some own) = .ok attrs := by
      rw [← h.profile]
      exact hmem
    exact ⟨.contract, trivial, by rw [Remote.call, hattrs]; rfl⟩
  | attachUnit id propertyId unitId =>
    obtain rfl : id = d.ejarContractId.str := habout.trans h.contractId
    have hmem : (propertyId, unitId) ∈ (m.filed log d.companyId d.ejarContractId.str).units := hq
    rw [heq] at hmem
    obtain ⟨unit, hunit, hids⟩ := hmem
    obtain ⟨i, hi, rfl⟩ := Records.mem_toList.mp hunit
    obtain ⟨rfl, rfl⟩ := Prod.mk.inj hids
    exact ⟨.unit i, hi, by rw [Remote.call, h.contractId]⟩
  | addParty id attrs =>
    obtain rfl : id = d.ejarContractId.str := habout.trans h.contractId
    have hmem : (attrs, {call | ⟨d.companyId, call⟩ ∈ log ∧
        attrs.entityId = some (m.name (m.resource ⟨d.companyId, call⟩))}) ∈
        (m.filed log d.companyId d.ejarContractId.str).parties := ⟨hq, rfl⟩
    rw [heq] at hmem
    obtain ⟨i, hi, hparty⟩ := h.mem_parties hmem
    obtain ⟨rfl, -⟩ := Prod.mk.inj hparty
    exact ⟨.party i, hi, h.call_party hi⟩
  | addFinancialInformation id attrs =>
    obtain rfl : id = d.ejarContractId.str := habout.trans h.contractId
    have hmem : attrs ∈ (m.filed log d.companyId d.ejarContractId.str).financialInfo := hq
    rw [heq] at hmem
    have hattrs : buildFinancialAttributes d = .ok attrs := hmem
    exact ⟨.financialInfo, trivial, by rw [Remote.call, hattrs, h.contractId]; rfl⟩
  | addRentalFee id attrs =>
    obtain rfl : id = d.ejarContractId.str := habout.trans h.contractId
    have hmem : attrs ∈ (m.filed log d.companyId d.ejarContractId.str).rentalFee := hq
    rw [heq] at hmem
    have hattrs : buildRentalFeeAttributes d (some own) = some attrs := by
      rw [← h.profile]
      exact hmem
    exact ⟨.rentalFee, trivial, by rw [Remote.call, hattrs, h.contractId]; rfl⟩
  | _ => exact habout.elim

theorem Submitted.party_filed (hi : i ∈ d.partyIds.ids) :
    ⟨d.companyId, .addParty d.ejarContractId.str (d.partyIds.row i).attributes⟩ ∈ log ∧
      ∀ call, entityCall (d.partyIds.row i) = .ok call → ⟨d.companyId, call⟩ ∈ log ∧
        (d.partyIds.row i).ejarEntityId = some (m.name (m.resource ⟨d.companyId, call⟩)) := by
  have hmem := h.party_mem hi
  rw [← heq] at hmem
  obtain ⟨hparty, hcalls⟩ := hmem
  refine ⟨hparty, ?_⟩
  intro call hcall
  exact (Set.ext_iff.mp hcalls call).mp hcall

theorem Submitted.contract_filed {attrs : ContractAttributes}
    (hattrs : buildContractAttributes d (some own) = .ok attrs) :
    ⟨d.companyId, .createContract attrs⟩ ∈ log ∧
      m.name (m.resource ⟨d.companyId, .createContract attrs⟩) = d.ejarContractId.str := by
  have hmem : attrs ∈ d.filed.attributes := by
    rw [← h.profile] at hattrs
    exact hattrs
  rw [← heq] at hmem
  exact hmem

theorem Submitted.named : m.Named d := by
  constructor
  · obtain ⟨attrs, hattrs⟩ := buildContractAttributes_ok d own
    rw [h.contractId, ← (h.contract_filed heq hattrs).2, resource_createContract hattrs]
  · intro i hi
    obtain ⟨call, hcall⟩ := h.call i hi
    rw [h.entityId hi, entityResource_of hcall]
    exact ((h.party_filed heq hi).2 call hcall).2

theorem Submitted.asks_mem (hq : m.Asks (some own) d q) : q ∈ log := by
  obtain ⟨client, call⟩ := q
  obtain ⟨hclient, item, hhas, hcall⟩ := hq
  obtain rfl : client = d.companyId := hclient
  cases item with
  | entity i =>
    obtain ⟨entity, hentity⟩ := h.call i hhas
    rw [Remote.call, hentity] at hcall
    obtain rfl : entity = call := Option.some.inj hcall
    exact ((h.party_filed heq hhas).2 entity hentity).1
  | contract =>
    obtain ⟨attrs, hattrs⟩ := buildContractAttributes_ok d own
    rw [Remote.call, hattrs] at hcall
    obtain rfl : .createContract attrs = call := Option.some.inj hcall
    exact (h.contract_filed heq hattrs).1
  | unit i =>
    rw [Remote.call, h.contractId] at hcall
    obtain rfl := Option.some.inj hcall
    have hmem : ((d.unitIds.row i).ejarPropertyId, (d.unitIds.row i).ejarUnitId) ∈ d.filed.units :=
      ⟨_, Records.mem_toList.mpr ⟨i, hhas, rfl⟩, rfl⟩
    rw [← heq] at hmem
    exact hmem
  | party i =>
    rw [h.call_party hhas] at hcall
    obtain rfl := Option.some.inj hcall
    exact (h.party_filed heq hhas).1
  | financialInfo =>
    obtain ⟨attrs, hattrs⟩ := buildFinancialAttributes_ok d
    rw [Remote.call, hattrs, h.contractId] at hcall
    obtain rfl : .addFinancialInformation d.ejarContractId.str attrs = call := Option.some.inj hcall
    have hmem : attrs ∈ d.filed.financialInfo := hattrs
    rw [← heq] at hmem
    exact hmem
  | rentalFee =>
    rw [Remote.call, h.contractId] at hcall
    obtain ⟨attrs, hattrs, rfl⟩ := Option.map_eq_some_iff.mp hcall
    have hmem : attrs ∈ d.filed.rentalFee := by
      rw [← h.profile] at hattrs
      exact hattrs
    rw [← heq] at hmem
    exact hmem

end

/-- An entity that is on file under the id of a party is that of its data. -/
theorem Submitted.entity_calls (hname : Function.Injective m.name) (hnodup : (log.map m.resource).Nodup)
    (hasks : ∀ q, m.Asks (some own) d q → q ∈ log) (hnamed : m.Named d) (hi : i ∈ d.partyIds.ids) :
    {call | ⟨d.companyId, call⟩ ∈ log ∧
      (d.partyIds.row i).ejarEntityId = some (m.name (m.resource ⟨d.companyId, call⟩))} =
      {call | entityCall (d.partyIds.row i) = .ok call} := by
  obtain ⟨entity, hentity⟩ := h.call i hi
  have hlog : ⟨d.companyId, entity⟩ ∈ log := hasks _ (Asks.of_entity hi hentity rfl)
  have hid : (d.partyIds.row i).ejarEntityId = some (m.name (m.resource ⟨d.companyId, entity⟩)) := by
    rw [← h.entityId hi, hnamed.entity i hi, entityResource_of hentity]
  ext call
  constructor
  · rintro ⟨hcall, hcallId⟩
    have hkey : m.resource ⟨d.companyId, entity⟩ = m.resource ⟨d.companyId, call⟩ :=
      hname (Option.some.inj (hid.symm.trans hcallId))
    have hsame := List.inj_on_of_nodup_map hnodup hlog hcall hkey
    obtain rfl : entity = call := congrArg Request.call hsame
    exact hentity
  · intro hcall
    obtain rfl : entity = call := Except.ok.inj (hentity.symm.trans hcall)
    exact ⟨hlog, hid⟩

/-- Both sides are equal where what is asked for is on file, and nothing else. -/
theorem Submitted.filed_eq (hname : Function.Injective m.name) (hnodup : (log.map m.resource).Nodup)
    (habout : ∀ q ∈ log, m.About d q → m.Asks (some own) d q) (hasks : ∀ q, m.Asks (some own) d q → q ∈ log)
    (hnamed : m.Named d) : m.filed log d.companyId d.ejarContractId.str = d.filed := by
  have hid := h.contractId (m := m)
  ext x
  · rw [filed, Contract.filed, h.profile]
    constructor
    · rintro ⟨hx, hnamed⟩
      exact (habout _ hx ⟨rfl, hnamed.trans hid.symm⟩).contract
    · intro hx
      have hx : buildContractAttributes d (some own) = .ok x := hx
      refine ⟨hasks _ ⟨rfl, .contract, trivial, by rw [Remote.call, hx]; rfl⟩, ?_⟩
      rw [resource_createContract hx, ← hnamed.contract, hid]
  · constructor
    · intro hx
      obtain ⟨i, hi, hproperty, hunit⟩ := (habout _ hx ⟨rfl, hid.symm⟩).unit
      exact ⟨_, Records.mem_toList.mpr ⟨i, hi, rfl⟩, Prod.ext hproperty hunit⟩
    · rintro ⟨unit, hunit, rfl⟩
      obtain ⟨i, hi, rfl⟩ := Records.mem_toList.mp hunit
      exact hasks _ ⟨rfl, .unit i, hi, by rw [Remote.call, hid]⟩
  · obtain ⟨attrs, calls⟩ := x
    constructor
    · rintro ⟨hx, hcalls⟩
      obtain ⟨i, hi, hattrs⟩ := (habout _ hx ⟨rfl, hid.symm⟩).party
      rw [h.entityId hi] at hattrs
      obtain rfl : attrs = (d.partyIds.row i).attributes := hattrs
      have hmem := h.party_mem hi
      rw [← h.entity_calls hname hnodup hasks hnamed hi] at hmem
      rw [show calls = _ from hcalls]
      exact hmem
    · intro hx
      obtain ⟨i, hi, hparty⟩ := h.mem_parties hx
      obtain ⟨rfl, rfl⟩ := Prod.mk.inj hparty
      exact ⟨hasks _ ⟨rfl, .party i, hi, h.call_party hi⟩, (h.entity_calls hname hnodup hasks hnamed hi).symm⟩
  · constructor
    · intro hx
      exact (habout _ hx ⟨rfl, hid.symm⟩).financialInfo
    · intro hx
      have hx : buildFinancialAttributes d = .ok x := hx
      exact hasks _ ⟨rfl, .financialInfo, trivial, by rw [Remote.call, hx, hid]; rfl⟩
  · rw [filed, Contract.filed, h.profile]
    constructor
    · intro hx
      exact (habout _ hx ⟨rfl, hid.symm⟩).rentalFee
    · intro hx
      have hx : buildRentalFeeAttributes d (some own) = some x := hx
      exact hasks _ ⟨rfl, .rentalFee, trivial, by rw [Remote.call, hx, hid]; rfl⟩

theorem Submitted.filed_eq_iff (hname : Function.Injective m.name) (hnodup : (log.map m.resource).Nodup) :
    m.filed log d.companyId d.ejarContractId.str = d.filed ↔
      ((∀ q ∈ log, m.About d q → m.Asks (some own) d q) ∧ ∀ q, m.Asks (some own) d q → q ∈ log) ∧ m.Named d := by
  constructor
  · intro heq
    exact ⟨⟨fun q hq => h.about_asks heq hq, fun q hq => h.asks_mem heq hq⟩, h.named heq⟩
  · rintro ⟨⟨habout, hasks⟩, hnamed⟩
    exact h.filed_eq hname hnodup habout hasks hnamed

end

end Remote

end Ejar
