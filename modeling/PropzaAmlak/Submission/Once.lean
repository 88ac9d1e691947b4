import PropzaAmlak.Ejar.Server
import PropzaAmlak.Ejar.PipelineRule

/-! Attempts one after another against a service that does each thing once: what
each step of the pipeline asks for stays the same. -/

namespace Ejar

open Tx

namespace Remote

def entityResource (m : Remote) (c : Contract) (i : Nat) : Resource :=
  match entityCall (c.partyIds.row i) with
  | .ok call => m.resource ⟨c.companyId, call⟩
  | .error _ => []

/-- The entity id that the party has or will get. -/
def entityId (m : Remote) (c : Contract) (i : Nat) : CharField :=
  if (c.partyIds.row i).ejarEntityId.truthy then (c.partyIds.row i).ejarEntityId
  else some (m.name (m.entityResource c i))

def contractResource (c : Contract) : Resource :=
  ["create_contract", toString c.companyId, dateStr c.startDate, dateStr c.endDate,
    (c.contractType.getD .residential).str]

def contractId (m : Remote) (c : Contract) : String :=
  if c.ejarContractId.truthy then c.ejarContractId.str else m.name (contractResource c)

def unitResource (m : Remote) (c : Contract) (i : Nat) : Resource :=
  m.resource ⟨c.companyId, .attachUnit (m.contractId c) (c.unitIds.row i).ejarPropertyId (c.unitIds.row i).ejarUnitId⟩

def partyResource (m : Remote) (c : Contract) (i : Nat) : Resource :=
  m.resource ⟨c.companyId, .addParty (m.contractId c)
    { c.partyIds.row i with ejarEntityId := m.entityId c i }.attributes⟩

def partyId (m : Remote) (c : Contract) (i : Nat) : CharField :=
  if (c.partyIds.row i).ejarPartyId.truthy then (c.partyIds.row i).ejarPartyId
  else some (m.name (m.partyResource c i))

/-- The party with the remote ids that it has or will get. -/
def registered (m : Remote) (c : Contract) (i : Nat) : Party :=
  { c.partyIds.row i with ejarEntityId := m.entityId c i, ejarPartyId := m.partyId c i }

def proxyResource (m : Remote) (c : Contract) (i : Nat) : Resource :=
  m.resource ⟨c.companyId, (m.registered c i).proxyCall (m.contractId c)⟩

def signedResource (m : Remote) (c : Contract) : Resource :=
  m.resource ⟨c.companyId, c.signedDocCall (m.contractId c)⟩

def infoResource (m : Remote) (c : Contract) : Resource :=
  ["add_financial_info", toString c.companyId, m.contractId c]

def feeResource (m : Remote) (c : Contract) : Resource :=
  ["add_rental_fee", toString c.companyId, m.contractId c]

def submitResource (m : Remote) (c : Contract) : Resource :=
  m.resource ⟨c.companyId, .submitContract (m.contractId c)⟩

/-- What the steps of the contract ask for. -/
inductive StepResource (m : Remote) (c : Contract) : Resource → Prop
  | entity (i : Nat) : StepResource m c (m.entityResource c i)
  | contract : StepResource m c (contractResource c)
  | unit (i : Nat) : StepResource m c (m.unitResource c i)
  | party (i : Nat) : StepResource m c (m.partyResource c i)
  | proxy (i : Nat) : StepResource m c (m.proxyResource c i)
  | signed : StepResource m c (m.signedResource c)
  | info : StepResource m c (m.infoResource c)
  | fee : StepResource m c (m.feeResource c)
  | submit : StepResource m c (m.submitResource c)

/-- Seen from Ejar the two records are the same. -/
structure Same (m : Remote) (c c' : Contract) : Prop where
  base : c'.base = c.base
  contractId : m.contractId c' = m.contractId c
  entityId : ∀ i, m.entityId c' i = m.entityId c i
  partyId : ∀ i, m.partyId c' i = m.partyId c i

variable {m : Remote} {c c' c'' : Contract} {i : Nat} {call : ApiCall}

theorem Same.refl (m : Remote) (c : Contract) : m.Same c c := ⟨rfl, rfl, fun _ => rfl, fun _ => rfl⟩

theorem Same.trans (h : m.Same c c') (h' : m.Same c' c'') : m.Same c c'' where
  base := h'.base.trans h.base
  contractId := h'.contractId.trans h.contractId
  entityId i := (h'.entityId i).trans (h.entityId i)
  partyId i := (h'.partyId i).trans (h.partyId i)

theorem entityCall_base (p : Party) : entityCall p.base = entityCall p := rfl

section

variable (h : c'.base = c.base)
include h

theorem companyId_congr : c'.companyId = c.companyId :=
  (congrArg Contract.companyId h : c'.base.companyId = c.base.companyId)

theorem party_congr (i : Nat) : (c'.partyIds.row i).base = (c.partyIds.row i).base :=
  congrArg (fun d : Contract => d.partyIds.row i) h

theorem unit_congr (i : Nat) : (c'.unitIds.row i).base = (c.unitIds.row i).base :=
  congrArg (fun d : Contract => d.unitIds.row i) h

theorem contractResource_congr : contractResource c' = contractResource c :=
  (congrArg contractResource h : contractResource c'.base = contractResource c.base)

theorem entityResource_congr (i : Nat) : m.entityResource c' i = m.entityResource c i := by
  have hparty := party_congr h i
  rw [entityResource, entityResource, companyId_congr h, ← entityCall_base (c'.partyIds.row i), hparty,
    entityCall_base]

theorem partyResource_congr (hcontract : m.contractId c' = m.contractId c)
    (hentity : m.entityId c' i = m.entityId c i) : m.partyResource c' i = m.partyResource c i := by
  have hparty := party_congr h i
  have hattributes : { c'.partyIds.row i with ejarEntityId := m.entityId c i }.attributes =
      { c.partyIds.row i with ejarEntityId := m.entityId c i }.attributes :=
    (congrArg (fun p : Party => { p with ejarEntityId := m.entityId c i }.attributes) hparty :)
  rw [partyResource, partyResource, companyId_congr h, hcontract, hentity, hattributes]

end

namespace Same

variable (h : m.Same c c')
include h

theorem unitResource (i : Nat) : m.unitResource c' i = m.unitResource c i := by
  have hunit := unit_congr h.base i
  have hproperty : (c'.unitIds.row i).ejarPropertyId = (c.unitIds.row i).ejarPropertyId :=
    (congrArg ContractUnit.ejarPropertyId hunit :)
  have hid : (c'.unitIds.row i).ejarUnitId = (c.unitIds.row i).ejarUnitId :=
    (congrArg ContractUnit.ejarUnitId hunit :)
  rw [Remote.unitResource, Remote.unitResource, companyId_congr h.base, h.contractId, hproperty, hid]

theorem partyResource (i : Nat) : m.partyResource c' i = m.partyResource c i :=
  partyResource_congr h.base h.contractId (h.entityId i)

theorem proxyResource (i : Nat) : m.proxyResource c' i = m.proxyResource c i := by
  have hparty := party_congr h.base i
  have hcall : (m.registered c' i).proxyCall (m.contractId c) = (m.registered c i).proxyCall (m.contractId c) := by
    rw [registered, h.entityId, h.partyId]
    exact congrArg (fun p : Party =>
      { p with ejarEntityId := m.entityId c i, ejarPartyId := m.partyId c i }.proxyCall (m.contractId c)) hparty
  rw [Remote.proxyResource, Remote.proxyResource, companyId_congr h.base, h.contractId, hcall]

theorem signedResource : m.signedResource c' = m.signedResource c := by
  have hcall : c'.signedDocCall (m.contractId c) = c.signedDocCall (m.contractId c) :=
    (congrArg (fun d : Contract => d.signedDocCall (m.contractId c)) h.base :)
  rw [Remote.signedResource, Remote.signedResource, companyId_congr h.base, h.contractId, hcall]

theorem infoResource : m.infoResource c' = m.infoResource c := by
  rw [Remote.infoResource, Remote.infoResource, companyId_congr h.base, h.contractId]

theorem feeResource : m.feeResource c' = m.feeResource c := by
  rw [Remote.feeResource, Remote.feeResource, companyId_congr h.base, h.contractId]

theorem submitResource : m.submitResource c' = m.submitResource c := by
  rw [Remote.submitResource, Remote.submitResource, companyId_congr h.base, h.contractId]

end Same

/-- A stored id is as it was, or there was none and it is the one Ejar gives. -/
def Filled (old new : CharField) (id : String) : Prop :=
  new = old ∨ ¬ old.truthy ∧ new = some id

theorem Filled.eq {old new : CharField} {r : Resource} (h : Filled old new (m.name r)) :
    (if new.truthy then new else some (m.name r)) = if old.truthy then old else some (m.name r) := by
  rcases h with rfl | ⟨hold, rfl⟩
  · rfl
  · have hname : CharField.truthy (some (m.name r)) := by simpa using m.name_ne r
    rw [if_pos hname, if_neg hold]

theorem same_of_filled (hbase : c'.base = c.base)
    (hcontract : Filled c.ejarContractId c'.ejarContractId (m.name (contractResource c)))
    (hentity : ∀ i, Filled (c.partyIds.row i).ejarEntityId (c'.partyIds.row i).ejarEntityId
      (m.name (m.entityResource c i)))
    (hparty : ∀ i, Filled (c.partyIds.row i).ejarPartyId (c'.partyIds.row i).ejarPartyId
      (m.name (m.partyResource c i))) : m.Same c c' := by
  have hid : m.contractId c' = m.contractId c := by
    rw [contractId, contractId, contractResource_congr hbase]
    rcases hcontract with hsame | ⟨hold, hnew⟩
    · rw [hsame]
    · have hname : CharField.truthy (some (m.name (contractResource c))) := by simpa using m.name_ne _
      rw [hnew, if_pos hname, if_neg hold]
      rfl
  have hentities : ∀ i, m.entityId c' i = m.entityId c i := by
    intro i
    rw [entityId, entityId, entityResource_congr hbase]
    exact (hentity i).eq
  refine ⟨hbase, hid, hentities, ?_⟩
  intro i
  rw [partyId, partyId, partyResource_congr hbase hid (hentities i)]
  exact (hparty i).eq

theorem same_of_base (hbase : c'.base = c.base) (hcontract : c'.ejarContractId = c.ejarContractId)
    (hparties : c'.partyIds = c.partyIds) : m.Same c c' :=
  same_of_filled hbase (Or.inl hcontract) (fun _ => Or.inl (by rw [hparties])) fun _ => Or.inl (by rw [hparties])

theorem same_contract {number : CharField} (hid : ¬ c.ejarContractId.truthy) :
    m.Same c (c.set
      { ejarContractId := some (some (m.name (contractResource c))), ejarContractNumber := some number }) :=
  same_of_filled rfl (Or.inr ⟨hid, rfl⟩) (fun _ => Or.inl rfl) fun _ => Or.inl rfl

theorem same_unit (v : UnitVals) : m.Same c ((RecordWrite.unit i v).apply c) :=
  same_of_base (base_unit c i v) rfl rfl

theorem same_party {v : PartyVals}
    (hentity : ∀ id, v.ejarEntityId = some id → ¬ (c.partyIds.row i).ejarEntityId.truthy ∧
      id = some (m.name (m.entityResource c i)))
    (hparty : ∀ id, v.ejarPartyId = some id → ¬ (c.partyIds.row i).ejarPartyId.truthy ∧
      id = some (m.name (m.partyResource c i))) : m.Same c ((RecordWrite.party i v).apply c) := by
  apply same_of_filled (base_party c i v) (Or.inl rfl)
  · intro j
    by_cases hj : j = i
    · subst hj
      cases hv : v.ejarEntityId with
      | none => exact Or.inl (by simp [RecordWrite.apply, Party.set, hv])
      | some id =>
        obtain ⟨hold, rfl⟩ := hentity id hv
        exact Or.inr ⟨hold, by simp [RecordWrite.apply, Party.set, hv]⟩
    · exact Or.inl (by simp [RecordWrite.apply, hj])
  · intro j
    by_cases hj : j = i
    · subst hj
      cases hv : v.ejarPartyId with
      | none => exact Or.inl (by simp [RecordWrite.apply, Party.set, hv])
      | some id =>
        obtain ⟨hold, rfl⟩ := hparty id hv
        exact Or.inr ⟨hold, by simp [RecordWrite.apply, Party.set, hv]⟩
    · exact Or.inl (by simp [RecordWrite.apply, hj])

/-- The three writes to a party row: its entity, its party, and its document. -/
theorem same_entityId {r : Resource} {state : Option SyncState} (hid : ¬ (c.partyIds.row i).ejarEntityId.truthy)
    (hr : r = m.entityResource c i) : m.Same c ((RecordWrite.party i
      { ejarEntityId := some (.ofJson (.str (m.name r))), syncState := state }).apply c) := by
  apply same_party
  · intro id hv
    obtain rfl := Option.some.inj hv
    exact ⟨hid, by rw [hr]; rfl⟩
  · intro id hv
    cases hv

theorem same_partyId {r : Resource} {state : Option SyncState} (hid : ¬ (c.partyIds.row i).ejarPartyId.truthy)
    (hr : r = m.partyResource c i) : m.Same c ((RecordWrite.party i
      { ejarPartyId := some (.ofJson (.str (m.name r))), syncState := state }).apply c) := by
  apply same_party
  · intro id hv
    cases hv
  · intro id hv
    obtain rfl := Option.some.inj hv
    exact ⟨hid, by rw [hr]; rfl⟩

theorem same_proxyDocId (docId : CharField) :
    m.Same c ((RecordWrite.party i { ejarProxyDocId := some docId }).apply c) := by
  apply same_party
  · intro id hv
    cases hv
  · intro id hv
    cases hv

/-- The steps so far have done nothing twice, and nothing else than what the
contract asks for. -/
structure Once (m : Remote) (c : Contract) (y : Session Contract (List Resource)) : Prop where
  working : m.Same c y.working
  committed : m.Same c y.committed
  nodup : y.seen.Nodup
  steps : ∀ r ∈ y.seen, m.StepResource c r

section

variable {x y : Session Contract (List Resource)} {seen : List Resource} {request : Request} {client : Nat}

theorem Once.write {u : RecordWrite} (hx : m.Once c x) (hs : m.unreliable x.seen (.write u) seen)
    (hu : m.Same x.working (u.apply x.working)) : m.Once c ⟨x.committed, u.apply x.working, seen⟩ := by
  obtain rfl : seen = x.seen := hs
  exact ⟨hx.working.trans hu, hx.committed, hx.nodup, hx.steps⟩

theorem Once.commit (hx : m.Once c x) (hs : m.unreliable x.seen .commit seen) :
    m.Once c ⟨x.working, x.working, seen⟩ := by
  obtain rfl : seen = x.seen := hs
  exact ⟨hx.working, hx.working, hx.nodup, hx.steps⟩

theorem Once.atCommit (hx : m.Once c x) {P : Session Contract (List Resource) → Prop}
    (hP : ∀ seen, m.Once c ⟨x.working, x.working, seen⟩ → P ⟨x.working, x.working, seen⟩) :
    Ejar.atCommit m.unreliable (m.Once c) P x :=
  ⟨hx, fun seen hs => hP seen (hx.commit hs)⟩

theorem Once.performs (hx : m.Once c x) (hstep : m.StepResource c (m.resource request))
    (hs : seen = x.seen ∨ seen = (m.answer x.seen request).2) : m.Once c ⟨x.committed, x.working, seen⟩ := by
  rcases hs with rfl | rfl
  · exact hx
  · refine ⟨hx.working, hx.committed, m.answer_nodup request hx.nodup, ?_⟩
    intro r hr
    rcases (m.mem_answer x.seen request r).mp hr with hr | rfl
    · exact hx.steps r hr
    · exact hstep

theorem Once.callThen {α : Type} {read : Reply → Except Exc α} {N : α → Session Contract (List Resource) → Prop}
    (hx : m.Once c x) (hstep : m.StepResource c (m.resource request))
    (hread : ∀ reply a, read reply = .ok a → reply.accepted)
    (hN : ∀ a seen, read (m.answer x.seen request).1 = .ok a → m.Once c ⟨x.committed, x.working, seen⟩ →
      N a ⟨x.committed, x.working, seen⟩) :
    Ejar.callThen m.unreliable request read N (fun _ => m.Once c) (m.Once c) x := by
  apply callThen_of hx
  · intro reply seen a hs ha
    rcases hs with hanswer | ⟨hfailed, -⟩
    · obtain ⟨hreply, hseen⟩ := Prod.mk.inj hanswer
      rw [hreply] at ha
      exact hN a seen ha (hx.performs hstep (Or.inr hseen))
    · exact absurd (hread reply a ha) hfailed
  · intro reply seen e hs _
    rcases hs with hanswer | ⟨-, hs⟩
    · exact hx.performs hstep (Or.inr (Prod.mk.inj hanswer).2)
    · exact hx.performs hstep hs
  · intro seen hs
    exact hx.performs hstep hs

theorem Once.resolvePartyEntity (hx : m.Once c x) (hclient : client = c.companyId) (i : Nat) :
    wp RecordWrite.apply m.unreliable (resolvePartyEntity client i) (fun _ => m.Once c) (fun _ => m.Once c)
      (m.Once c) x := by
  by_cases hid : (x.working.partyIds.row i).ejarEntityId.truthy
  · rw [wp_resolvePartyEntity_skip hid]
    exact hx
  rw [wp_resolvePartyEntity hid, wp_stepCreateEntity]
  cases hcall : entityCall (x.working.partyIds.row i) with
  | error e => exact hx
  | ok call =>
    have hresource : m.resource ⟨client, call⟩ = m.entityResource x.working i := by
      rw [entityResource, hcall, hclient, companyId_congr hx.working.base]
    have hstep : m.StepResource c (m.resource ⟨client, call⟩) := by
      rw [hresource, entityResource_congr hx.working.base]
      exact .entity i
    apply hx.callThen hstep fun reply a ha => (entityReply_ok ha).1
    intro id seen hanswer hy performed hs
    rw [entityReply_answer] at hanswer
    obtain rfl := Except.ok.inj hanswer
    exact hy.write hs (same_entityId hid hresource)

theorem resource_createContract {profile : Option BrokerageProfile} {attrs : ContractAttributes}
    (h : buildContractAttributes c profile = .ok attrs) :
    m.resource ⟨c.companyId, .createContract attrs⟩ = contractResource c := by
  obtain ⟨hstart, hend, htype⟩ := buildContractAttributes_terms h
  rw [resource, ApiCall.idempotencyParts, hstart, hend, htype, contractResource]

theorem Once.stepCreateContract (hx : m.Once c x) (hclient : client = c.companyId) (profile : BrokerageProfile) :
    wp RecordWrite.apply m.unreliable (stepCreateContract client profile)
      (fun id y => m.Once c y ∧ id = m.contractId c) (fun _ => m.Once c) (m.Once c) x := by
  have hcontract := hx.working.contractId
  by_cases hid : x.working.ejarContractId.truthy
  · rw [wp_stepCreateContract_skip hid]
    rw [contractId, if_pos hid] at hcontract
    exact ⟨hx, hcontract⟩
  rw [contractId, if_neg hid] at hcontract
  rw [wp_stepCreateContract hid]
  cases hattrs : buildContractAttributes x.working (some profile) with
  | error e => exact hx
  | ok attrs =>
    have hresource : m.resource ⟨client, .createContract attrs⟩ = contractResource x.working := by
      rw [hclient, ← companyId_congr hx.working.base]
      exact resource_createContract hattrs
    have hstep : m.StepResource c (m.resource ⟨client, .createContract attrs⟩) := by
      rw [hresource, contractResource_congr hx.working.base]
      exact .contract
    apply hx.callThen hstep fun reply a ha => (contractReply_ok ha).1
    intro created seen hanswer hy performed hs
    rw [contractReply_answer] at hanswer
    obtain rfl := Except.ok.inj hanswer
    rw [hresource] at hs ⊢
    exact ⟨hy.write hs (same_contract hid), hcontract⟩

theorem Once.stepAttachUnit (hx : m.Once c x) (hclient : client = c.companyId) {id : String}
    (hid : id = m.contractId c) (i : Nat) :
    wp RecordWrite.apply m.unreliable (stepAttachUnit client id i) (fun _ => m.Once c) (fun _ => m.Once c)
      (m.Once c) x := by
  by_cases hlinked : (x.working.unitIds.row i).ejarContractUnitId.truthy
  · rw [wp_stepAttachUnit_skip hlinked]
    exact hx
  by_cases hreg : (x.working.unitIds.row i).registered
  · rw [wp_stepAttachUnit hlinked hreg]
    have hstep : m.StepResource c (m.resource ⟨client, .attachUnit id (x.working.unitIds.row i).ejarPropertyId
        (x.working.unitIds.row i).ejarUnitId⟩) := by
      rw [hclient, hid, ← companyId_congr hx.working.base, ← hx.working.contractId]
      change m.StepResource c (m.unitResource x.working i)
      rw [hx.working.unitResource]
      exact .unit i
    apply hx.callThen hstep fun reply a ha => (linkReply_ok ha).1
    intro linkedId seen _ hy performed hs
    exact hy.write hs (same_unit _)
  · exact wp_stepAttachUnit_unregistered hlinked hreg fun _ => hx

theorem partyResource_of {i : Nat} (h : (c.partyIds.row i).ejarEntityId.truthy) :
    m.partyResource c i = m.resource ⟨c.companyId, .addParty (m.contractId c) (c.partyIds.row i).attributes⟩ := by
  rw [partyResource, entityId, if_pos h]

theorem Once.stepAddParty (hx : m.Once c x) (hclient : client = c.companyId) {id : String}
    (hid : id = m.contractId c) (i : Nat) :
    wp RecordWrite.apply m.unreliable (stepAddParty client id i) (fun _ => m.Once c) (fun _ => m.Once c)
      (m.Once c) x := by
  by_cases hlinked : (x.working.partyIds.row i).ejarPartyId.truthy
  · rw [wp_stepAddParty_skip hlinked]
    exact hx
  by_cases hentity : (x.working.partyIds.row i).ejarEntityId.truthy
  · rw [wp_stepAddParty hlinked hentity]
    have hresource : m.resource ⟨client, .addParty id (x.working.partyIds.row i).attributes⟩ =
        m.partyResource x.working i := by
      rw [partyResource_of hentity, hclient, hid, companyId_congr hx.working.base, hx.working.contractId]
    have hstep : m.StepResource c (m.resource ⟨client, .addParty id (x.working.partyIds.row i).attributes⟩) := by
      rw [hresource, hx.working.partyResource]
      exact .party i
    apply hx.callThen hstep fun reply a ha => (linkReply_ok ha).1
    intro linkedId seen hanswer hy performed hs
    rw [linkReply_answer] at hanswer
    obtain rfl := Except.ok.inj hanswer
    exact hy.write hs (same_partyId hlinked hresource)
  · exact wp_stepAddParty_noEntity hlinked hentity fun _ => hx

theorem proxyResource_of {i : Nat} (h : (c.partyIds.row i).ejarPartyId.truthy) :
    m.proxyResource c i = m.resource ⟨c.companyId, (c.partyIds.row i).proxyCall (m.contractId c)⟩ := by
  rw [proxyResource, registered, partyId, if_pos h]
  rfl

theorem Once.uploadRepresentativeDoc (hx : m.Once c x) (hclient : client = c.companyId) {id : String}
    (hid : id = m.contractId c) (i : Nat) :
    wp RecordWrite.apply m.unreliable (uploadRepresentativeDoc client id i) (fun _ => m.Once c)
      (fun _ => m.Once c) (m.Once c) x := by
  rw [wp_uploadRepresentativeDoc]
  by_cases hpending : (x.working.partyIds.row i).proxyPending
  · have hparty : (x.working.partyIds.row i).ejarPartyId.truthy := by
      simp only [Party.proxyPending, Bool.and_eq_true] at hpending
      exact hpending.2
    have hstep : m.StepResource c (m.resource ⟨client, (x.working.partyIds.row i).proxyCall id⟩) := by
      rw [hclient, hid, ← companyId_congr hx.working.base, ← hx.working.contractId, ← proxyResource_of hparty,
        hx.working.proxyResource]
      exact .proxy i
    rw [if_pos hpending]
    apply hx.callThen hstep fun reply a ha => ?_
    · intro docId seen _ hy performed hs
      exact hy.write hs (same_proxyDocId _)
    · obtain ⟨body, hbody, -⟩ := bind_eq_ok.mp ha
      exact Reply.accepted_of_ok hbody
  · rw [if_neg hpending]
    exact hx

theorem Once.stepUploadSignedDoc (hx : m.Once c x) (hclient : client = c.companyId) {id : String}
    (hid : id = m.contractId c) :
    wp RecordWrite.apply m.unreliable (stepUploadSignedDoc client id) (fun _ => m.Once c) (fun _ => m.Once c)
      (m.Once c) x := by
  by_cases hdoc : x.working.signedDoc.truthy
  · have hstep : m.StepResource c (m.resource ⟨client, x.working.signedDocCall id⟩) := by
      rw [hclient, hid, ← companyId_congr hx.working.base, ← hx.working.contractId]
      change m.StepResource c (m.signedResource x.working)
      rw [hx.working.signedResource]
      exact .signed
    rw [wp_stepUploadSignedDoc hdoc]
    exact hx.callThen hstep (fun reply a ha => docReply_ok ha) fun _ seen _ hy => hy
  · exact wp_stepUploadSignedDoc_missing hdoc fun _ => hx

theorem Once.stepAddFinancialInfo (hx : m.Once c x) (hclient : client = c.companyId) {id : String}
    (hid : id = m.contractId c) :
    wp RecordWrite.apply m.unreliable (stepAddFinancialInfo client id) (fun _ => m.Once c) (fun _ => m.Once c)
      (m.Once c) x := by
  rw [wp_stepAddFinancialInfo]
  cases buildFinancialAttributes x.working with
  | error e => exact hx
  | ok attrs =>
    have hstep : m.StepResource c (m.resource ⟨client, .addFinancialInformation id attrs⟩) := by
      rw [hclient, hid]
      exact .info
    exact hx.callThen hstep (fun reply a ha => infoReply_ok ha) fun _ seen _ hy => hy

theorem Once.stepAddRentalFee (hx : m.Once c x) (hclient : client = c.companyId) {id : String}
    (hid : id = m.contractId c) (profile : BrokerageProfile) :
    wp RecordWrite.apply m.unreliable (stepAddRentalFee client profile id) (fun _ => m.Once c)
      (fun _ => m.Once c) (m.Once c) x := by
  rw [wp_stepAddRentalFee]
  cases buildRentalFeeAttributes x.working (some profile) with
  | none => exact hx
  | some attrs =>
    have hstep : m.StepResource c (m.resource ⟨client, .addRentalFee id attrs⟩) := by
      rw [hclient, hid]
      exact .fee
    exact hx.callThen hstep (fun reply a ha => infoReply_ok ha) fun _ seen _ hy => hy

theorem Once.stepSubmit (hx : m.Once c x) (hclient : client = c.companyId) {id : String}
    (hid : id = m.contractId c) :
    wp RecordWrite.apply m.unreliable (stepSubmit client id) (fun _ => m.Once c) (fun _ => m.Once c)
      (m.Once c) x := by
  rw [wp_stepSubmit]
  have hstep : m.StepResource c (m.resource ⟨client, .submitContract id⟩) := by
    rw [hclient, hid]
    exact .submit
  apply hx.callThen hstep fun reply a ha => ?_
  · exact fun _ seen _ hy => hy
  · obtain ⟨body, hbody, -⟩ := bind_eq_ok.mp ha
    exact Reply.accepted_of_ok hbody

theorem Once.writeContract (hx : m.Once c x) {vals : ContractVals} {N : Unit → Session Contract (List Resource) → Prop}
    {E : Exc → Session Contract (List Resource) → Prop} {C : Session Contract (List Resource) → Prop}
    (hbase : (x.working.set vals).base = x.working.base) (hid : vals.ejarContractId = none)
    (hN : ∀ y, m.Once c y → y.working = x.working.set vals → N () y) :
    wp RecordWrite.apply m.unreliable (writeContract vals) N E C x := by
  rw [wp_writeContract]
  intro seen hs
  apply hN
  · apply hx.write hs (same_of_base hbase ?_ rfl)
    simp [RecordWrite.apply, Contract.set, hid]
  · rfl

theorem Once.resolveProfile (hx : m.Once c x) (env : Env) :
    wp RecordWrite.apply m.unreliable (resolveProfile env) (fun _ => m.Once c) (fun _ => m.Once c)
      (m.Once c) x := by
  refine throughout_bind (I := m.Once c) (throughout_bind hx fun contract y hy => ?_) fun profile y hy => ?_
  · split
    · exact hy
    · exact throughout_bind (hy.writeContract rfl rfl fun z hz _ => hz) fun _ z hz => hz
    · exact hy
  · refine throughout_bind hy fun contract z hz => ?_
    cases profile with
    | none => exact hz
    | some profile => exact throughout_bind (Kept.ofExcept _ hz) fun _ w hw => hw

theorem Once.buildClient (hx : m.Once c x) (env : Env) :
    wp RecordWrite.apply m.unreliable (buildClient env) (fun client y => m.Once c y ∧ client = c.companyId)
      (fun _ => m.Once c) (m.Once c) x := by
  simp only [Ejar.buildClient, wp_bind, wp_get, wp_ofExcept, Prog.pure_eq, wp_ret]
  cases env.credentials with
  | error e => exact hx
  | ok _ => exact ⟨hx, companyId_congr hx.working.base⟩

/-- What is known after each commit of an attempt. -/
def onceOutline (m : Remote) (c : Contract) : Outline (List Resource) :=
  let before (_ : BrokerageProfile) (client : Nat) (y : Session Contract (List Resource)) :=
    m.Once c y ∧ client = c.companyId
  let after (_ : BrokerageProfile) (client : Nat) (id : String) (y : Session Contract (List Resource)) :=
    m.Once c y ∧ client = c.companyId ∧ id = m.contractId c
  { start := before, entities := before, created := after, units := after, parties := after, proxyDocs := after
    signedDoc := after, financialInfo := after, rentalFee := after, submit := fun _ => m.Once c }

theorem Once.runPipeline (hx : m.Once c x) (env : Env) :
    wp RecordWrite.apply m.unreliable (runPipeline env) (fun _ => m.Once c) (fun _ => m.Once c)
      (m.Once c) x := by
  have hloop {ids : List Nat} {body : Nat → Pipeline Unit} {y : Session Contract (List Resource)}
      (hbody : ∀ i y, m.Once c y → wp RecordWrite.apply m.unreliable (body i) (fun _ => m.Once c)
        (fun _ => m.Once c) (m.Once c) y) (hy : m.Once c y) :
      wp RecordWrite.apply m.unreliable (Prog.forEach ids body) (fun _ => m.Once c) (fun _ => m.Once c)
        (m.Once c) y := wp_forEach_inv (fun i _ y hy => hbody i y hy) hy
  have hthen {α : Type} {p : Pipeline α} {y : Session Contract (List Resource)}
      {N P : α → Session Contract (List Resource) → Prop}
      (hp : wp RecordWrite.apply m.unreliable p N (fun _ => m.Once c) (m.Once c) y)
      (hN : ∀ a z, N a z → m.Once c z) (hP : ∀ a z seen, N a z → m.Once c ⟨z.working, z.working, seen⟩ →
        P a ⟨z.working, z.working, seen⟩) :
      wp RecordWrite.apply m.unreliable p (fun a => Ejar.atCommit m.unreliable (m.Once c) (P a))
        (fun _ => m.Once c) (m.Once c) y := by
    refine wp_mono (fun a z hz => ?_) (fun _ _ hz => hz) (fun _ hz => hz) hp
    exact (hN a z hz).atCommit fun seen hseen => hP a z seen hz hseen
  apply wp_runPipeline (m.onceOutline c)
  · refine wp_mono (fun profile y hy => ?_) (fun _ _ hy => hy) (fun _ hy => hy) (hx.resolveProfile env)
    exact hy.buildClient env
  · rintro profile client y ⟨hy, hclient⟩
    apply hthen ?_ (fun _ z hz => hz) fun _ _ _ _ hz => ⟨hz, hclient⟩
    exact hloop (fun i z hz => hz.resolvePartyEntity hclient i) hy
  · rintro profile client y ⟨hy, hclient⟩
    exact hthen (hy.stepCreateContract hclient profile) (fun _ z hz => hz.1) fun _ _ _ hid hz => ⟨hz, hclient, hid.2⟩
  · rintro profile client id y ⟨hy, hclient, hid⟩
    apply hthen ?_ (fun _ z hz => hz) fun _ _ _ _ hz => ⟨hz, hclient, hid⟩
    exact hloop (fun i z hz => hz.stepAttachUnit hclient hid i) hy
  · rintro profile client id y ⟨hy, hclient, hid⟩
    apply hthen ?_ (fun _ z hz => hz) fun _ _ _ _ hz => ⟨hz, hclient, hid⟩
    exact hloop (fun i z hz => hz.stepAddParty hclient hid i) hy
  · rintro profile client id y ⟨hy, hclient, hid⟩
    apply hthen ?_ (fun _ z hz => hz) fun _ _ _ _ hz => ⟨hz, hclient, hid⟩
    exact hloop (fun i z hz => hz.uploadRepresentativeDoc hclient hid i) hy
  · rintro profile client id y ⟨hy, hclient, hid⟩
    exact hthen (hy.stepUploadSignedDoc hclient hid) (fun _ z hz => hz) fun _ _ _ _ hz => ⟨hz, hclient, hid⟩
  · rintro profile client id y ⟨hy, hclient, hid⟩
    exact hthen (hy.stepAddFinancialInfo hclient hid) (fun _ z hz => hz) fun _ _ _ _ hz => ⟨hz, hclient, hid⟩
  · rintro profile client id y ⟨hy, hclient, hid⟩
    exact hthen (hy.stepAddRentalFee hclient hid profile) (fun _ z hz => hz) fun _ _ _ _ hz => ⟨hz, hclient, hid⟩
  · rintro profile client id y ⟨hy, hclient, hid⟩
    exact hy.stepSubmit hclient hid
  · intro id y hy
    rw [Ejar.finalize, wp_bind]
    apply hy.writeContract rfl rfl
    intro z hz _
    rw [wp_bind, wp_commitNow]
    exact ⟨hz, fun seen hs => hz.commit hs⟩

theorem Once.executeFullSubmission (hx : m.Once c x) (env : Env) :
    wp RecordWrite.apply m.unreliable (executeFullSubmission env) (fun _ => m.Once c) (fun _ => m.Once c)
      (m.Once c) x := by
  apply wp_executeFullSubmission (M := m.Once c) (F := fun _ => m.Once c)
  · intro seen hs
    have hy := hx.write hs (same_of_base rfl rfl rfl)
    exact hy.atCommit fun _ hz => hz
  · exact fun hy => hy.runPipeline env
  · intro exc y hy seen hs
    have hz := hy.write hs (same_of_base rfl rfl rfl)
    exact hz.atCommit fun _ hz => hz


end

/-- One attempt after the other, each cut off wherever and on the record that is committed then. -/
inductive Attempts (m : Remote) (c : Contract) : Contract → List Resource → Prop
  | none : Attempts m c c []
  | attempt {c' d w : Contract} {performed performed' : List Resource} {o : Outcome Exc SubmissionResult} (env : Env)
      (h : Attempts m c c' performed)
      (hrun : Exec RecordWrite.apply m.unreliable (Ejar.executeFullSubmission env) ⟨c', c', performed⟩ o
        ⟨d, w, performed'⟩) : Attempts m c d performed'

/-- Whatever the attempts, each step of the contract stands for one resource, done once at most. -/
theorem Attempts.once {performed : List Resource} (h : m.Attempts c c' performed) :
    m.Same c c' ∧ performed.Nodup ∧ ∀ r ∈ performed, m.StepResource c r := by
  induction h with
  | none => exact ⟨Same.refl m c, by simp, by simp⟩
  | @attempt c' d w performed performed' o env _ hrun ih =>
    obtain ⟨hsame, hnodup, hsteps⟩ := ih
    have hstart : m.Once c ⟨c', c', performed⟩ := ⟨hsame, hsame, hnodup, hsteps⟩
    have hend := wp_sound (hstart.executeFullSubmission env) hrun
    have honce : m.Once c ⟨d, w, performed'⟩ := by
      cases o with
      | ret a => exact hend
      | raise e => exact hend
      | cut => exact hend
    exact ⟨honce.committed, honce.nodup, honce.steps⟩

end Remote

end Ejar
