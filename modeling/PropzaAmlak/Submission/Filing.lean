import PropzaAmlak.Submission.Asked

/-! A submission that goes through, against a service that carries out the first
request under each key: what it adds to the file. -/

namespace Ejar

open Tx

namespace Remote

/-- An attempt on the record `c`, begun after `log`, with the record as it is in
the open transaction. -/
structure Filing (m : Remote) (profile : BrokerageProfile) (c : Contract) (log : List Request) (d : Contract)
    (seen : List Request) : Prop where
  keeps : Keeps c d
  same : m.Same c d
  used : d.brokerageProfileId = some profile
  kept : log ⊆ seen
  made : ∀ q ∈ seen, q ∈ log ∨ m.Sends (some profile) c q ∨ Aside q
  backed : ∀ item call, d.skips item → m.call (some profile) c item = some call →
    c.skips item ∨ m.resource ⟨c.companyId, call⟩ ∈ seen.map m.resource

/-- The attempt has got the item stored or sent. -/
def Done (m : Remote) (profile : BrokerageProfile) (c : Contract) (item : Item) (d : Contract)
    (seen : List Request) : Prop :=
  if item.stage < 4 then d.skips item = true
  else ∀ call, m.call (some profile) c item = some call →
    m.resource ⟨c.companyId, call⟩ ∈ seen.map m.resource

/-- The first `n` stages are done. -/
def Reached (m : Remote) (profile : BrokerageProfile) (c : Contract) (n : Nat) (d : Contract)
    (seen : List Request) : Prop :=
  ∀ item, item.stage < n → c.has item → m.Done profile c item d seen

/-- The run returns with `N`, unless it raises or is cut off. -/
abbrev files {α : Type} (m : Remote) (p : Pipeline α) (N : α → Session Contract (List Request) → Prop)
    (x : Session Contract (List Request)) : Prop :=
  wp RecordWrite.apply m.replaying p N (fun _ _ => True) (fun _ => True) x

/-- Later in an attempt. -/
structure Follows (y z : Session Contract (List Request)) : Prop where
  keeps : Keeps y.working z.working
  seen : y.seen ⊆ z.seen

variable {m : Remote} {profile : BrokerageProfile} {c d : Contract} {log seen : List Request}
  {x y z : Session Contract (List Request)} {q : Request} {client i n : Nat} {item : Item}

theorem skips_keeps (h : Keeps c d) (hskips : c.skips item) : d.skips item := by
  cases item with
  | entity i => exact h.entityId_truthy hskips
  | contract => exact h.contractId_truthy hskips
  | unit i => exact h.contractUnitId_truthy hskips
  | party i => exact h.partyId_truthy hskips
  | financialInfo => exact hskips
  | rentalFee => exact hskips

theorem Done.follows (h : m.Done profile c item y.working y.seen) (hfollows : Follows y z) :
    m.Done profile c item z.working z.seen := by
  by_cases hstage : item.stage < 4
  · rw [Done, if_pos hstage] at h ⊢
    exact skips_keeps hfollows.keeps h
  · rw [Done, if_neg hstage] at h ⊢
    intro call hcall
    exact List.map_subset m.resource hfollows.seen (h call hcall)

theorem Reached.follows (h : m.Reached profile c n y.working y.seen) (hfollows : Follows y z) :
    m.Reached profile c n z.working z.seen := by
  intro item hstage hhas
  exact (h item hstage hhas).follows hfollows

theorem Reached.next (h : m.Reached profile c n d seen)
    (hdone : ∀ item, item.stage = n → c.has item → m.Done profile c item d seen) :
    m.Reached profile c (n + 1) d seen := by
  intro item hstage hhas
  by_cases hlast : item.stage = n
  · exact hdone item hlast hhas
  · exact h item (by omega) hhas

theorem follows_kept (m : Remote) (y : Session Contract (List Request)) : Kept m.replaying (Follows y) where
  write := by
    intro x u s hx hs hkeeps
    exact ⟨hx.keeps.trans hkeeps, List.Subset.trans hx.seen (replaying_subset hs)⟩
  commit := by
    intro x s hx hs
    exact ⟨hx.keeps, List.Subset.trans hx.seen (replaying_subset hs)⟩
  call := by
    intro x q r s hx hs
    exact ⟨hx.keeps, List.Subset.trans hx.seen (replaying_subset hs)⟩
  lost := by
    intro x q s hx hs
    exact ⟨hx.keeps, List.Subset.trans hx.seen (replaying_subset hs)⟩

theorem Follows.refl (y : Session Contract (List Request)) : Follows y y := ⟨Keeps.refl _, List.Subset.refl _⟩

section

variable {α : Type} {p : Pipeline α} {M : α → Session Contract (List Request) → Prop}

theorem files_carry (hreached : m.Reached profile c n x.working x.seen) (hkept : always m.replaying p (Follows x) x)
    (hp : m.files p M x) : m.files p (fun a y => M a y ∧ m.Reached profile c n y.working y.seen) x := by
  refine wp_mono (fun a y hy => ?_) (fun _ _ _ => trivial) (fun _ _ => trivial) (wp_and hp hkept)
  exact ⟨hy.1, hreached.follows hy.2⟩

theorem files_stage (hreached : m.Reached profile c n x.working x.seen) (hkept : always m.replaying p (Follows x) x)
    (hp : m.files p (fun a y => M a y ∧ ∀ item, item.stage = n → c.has item →
      m.Done profile c item y.working y.seen) x) :
    m.files p (fun a y => M a y ∧ m.Reached profile c (n + 1) y.working y.seen) x := by
  refine wp_mono (fun a y hy => ?_) (fun _ _ _ => trivial) (fun _ _ => trivial) (wp_and hp hkept)
  obtain ⟨⟨hM, hdone⟩, hfollows⟩ := hy
  exact ⟨hM, (hreached.follows hfollows).next hdone⟩

theorem files_commit {P : α → Session Contract (List Request) → Prop} (hp : m.files p M x)
    (hP : ∀ a y, M a y → P a ⟨y.working, y.working, y.seen⟩) :
    m.files p (fun a => atCommit m.replaying (fun _ => True) (P a)) x := by
  refine wp_mono (fun a y hy => ⟨trivial, fun seen hs => ?_⟩) (fun _ _ _ => trivial) (fun _ _ => trivial) hp
  obtain rfl : seen = y.seen := hs
  exact hP a y hy

theorem files_call {request : Request} {read : Reply → Except Exc α} (hpost : request.call.method ≠ "GET")
    (hread : ∀ reply a, read reply = .ok a → reply.accepted)
    (hM : ∀ performed a, read (m.answer performed request).1 = .ok a →
      M a ⟨x.committed, x.working, Ledger.enter m.resource x.seen request⟩) :
    callThen m.replaying request read M (fun _ _ => True) (fun _ => True) x := by
  apply callThen_of trivial
  · intro reply seen a hs ha
    obtain ⟨hanswers, rfl⟩ := answers_of_accepted hpost hs (hread reply a ha)
    obtain ⟨performed, rfl⟩ := exists_answer hanswers
    exact hM performed a ha
  · intro _ _ _ _ _
    trivial
  · intro _ _
    trivial

theorem files_write {u : RecordWrite} {P : Session Contract (List Request) → Prop}
    (h : P ⟨x.committed, u.apply x.working, x.seen⟩) : writeThen m.replaying u P x := by
  intro seen hs
  obtain rfl : seen = x.seen := hs
  exact h

end

theorem Filing.enter (h : m.Filing profile c log d seen) (hq : m.Sends (some profile) c q ∨ Aside q) :
    m.Filing profile c log d (Ledger.enter m.resource seen q) where
  keeps := h.keeps
  same := h.same
  used := h.used
  kept := List.Subset.trans h.kept (Ledger.subset_enter m.resource seen q)
  made := by
    intro r hr
    rcases Ledger.mem_or_eq_of_mem_enter hr with hr | rfl
    · exact h.made r hr
    · exact Or.inr hq
  backed := by
    intro item call hskips hcall
    refine (h.backed item call hskips hcall).imp_right ?_
    exact fun hmem => List.map_subset m.resource (Ledger.subset_enter m.resource seen q) hmem

theorem Filing.write {d' : Contract} (h : m.Filing profile c log d seen) (hkeeps : Keeps d d') (hsame : m.Same d d')
    (hprofile : d'.brokerageProfileId = d.brokerageProfileId)
    (hskips : ∀ item, d'.skips item → d.skips item ∨ ∀ call, m.call (some profile) c item = some call →
      m.resource ⟨c.companyId, call⟩ ∈ seen.map m.resource) : m.Filing profile c log d' seen where
  keeps := h.keeps.trans hkeeps
  same := h.same.trans hsame
  used := hprofile.trans h.used
  kept := h.kept
  made := h.made
  backed := by
    intro item call hitem hcall
    rcases hskips item hitem with hold | hnew
    · exact h.backed item call hold hcall
    · exact Or.inr (hnew call hcall)

/-- A request for an item that the record has and nothing is stored for. -/
theorem Filing.sends {call : ApiCall} (h : m.Filing profile c log d seen) (hhas : c.has item) (hskips : ¬ d.skips item)
    (hcall : m.call (some profile) c item = some call) : m.Sends (some profile) c ⟨c.companyId, call⟩ :=
  ⟨rfl, item, hhas, fun hc => hskips (skips_keeps h.keeps hc), hcall⟩

theorem skips_party {v : PartyVals} (h : ((RecordWrite.party i v).apply d).skips item) :
    d.skips item ∨ item = .entity i ∧ v.ejarEntityId ≠ none ∨ item = .party i ∧ v.ejarPartyId ≠ none := by
  cases item with
  | entity j =>
    by_cases hj : j = i
    · subst hj
      cases hv : v.ejarEntityId with
      | none => exact Or.inl (by simpa [Contract.skips, RecordWrite.apply, Party.set, hv] using h)
      | some id => exact Or.inr (Or.inl ⟨rfl, by simp⟩)
    · exact Or.inl (by simpa [Contract.skips, RecordWrite.apply, hj] using h)
  | party j =>
    by_cases hj : j = i
    · subst hj
      cases hv : v.ejarPartyId with
      | none => exact Or.inl (by simpa [Contract.skips, RecordWrite.apply, Party.set, hv] using h)
      | some id => exact Or.inr (Or.inr ⟨rfl, by simp⟩)
    · exact Or.inl (by simpa [Contract.skips, RecordWrite.apply, hj] using h)
  | _ => exact Or.inl h

theorem skips_unit {v : UnitVals} (h : ((RecordWrite.unit i v).apply d).skips item) :
    d.skips item ∨ item = .unit i := by
  cases item with
  | unit j =>
    by_cases hj : j = i
    · exact Or.inr (by rw [hj])
    · exact Or.inl (by simpa [Contract.skips, RecordWrite.apply, hj] using h)
  | _ => exact Or.inl h

theorem Filing.store {d' : Contract} {call : ApiCall} (h : m.Filing profile c log d seen)
    (hsends : m.Sends (some profile) c ⟨c.companyId, call⟩) (hcall : m.call (some profile) c item = some call)
    (hkeeps : Keeps d d') (hsame : m.Same d d') (hprofile : d'.brokerageProfileId = d.brokerageProfileId)
    (hskips : ∀ item', d'.skips item' → d.skips item' ∨ item' = item) :
    m.Filing profile c log d' (Ledger.enter m.resource seen ⟨c.companyId, call⟩) := by
  apply (h.enter (Or.inl hsends)).write hkeeps hsame hprofile
  intro item' hitem
  rcases hskips item' hitem with hold | rfl
  · exact Or.inl hold
  · refine Or.inr fun call' hcall' => ?_
    obtain rfl : call' = call := Option.some.inj (hcall'.symm.trans hcall)
    exact Ledger.key_mem_enter m.resource seen _

theorem name_stored (m : Remote) (r : Resource) : (CharField.ofJson (.str (m.name r))).truthy :=
  CharField.ofJson_truthy (m.name_truthy r)

theorem post_of_createsEntity {call : ApiCall} (h : call.createsEntity) : call.method ≠ "GET" := by
  cases call with
  | createIndividualEntity attrs => simp [ApiCall.method]
  | createOrganizationEntity attrs => simp [ApiCall.method]
  | _ => exact h.elim

theorem Filing.resolvePartyEntity (hx : m.Filing profile c log x.working x.seen) (hclient : client = c.companyId)
    (hi : i ∈ c.partyIds.ids) : m.files (resolvePartyEntity client i)
      (fun _ y => m.Filing profile c log y.working y.seen ∧ (y.working.partyIds.row i).ejarEntityId.truthy) x := by
  by_cases hid : (x.working.partyIds.row i).ejarEntityId.truthy
  · rw [files, wp_resolvePartyEntity_skip hid]
    exact ⟨hx, hid⟩
  rw [files, wp_resolvePartyEntity hid, wp_stepCreateEntity]
  cases hcall : entityCall (x.working.partyIds.row i) with
  | error e => trivial
  | ok call =>
    have hitem : m.call (some profile) c (.entity i) = some call := by
      rw [← call_congr hx.same]
      exact toOption_eq_some.mpr hcall
    have hhas : c.has (.entity i) := hi
    have hsends := hx.sends hhas hid hitem
    subst hclient
    have hresource : m.resource ⟨c.companyId, call⟩ = m.entityResource x.working i := by
      rw [entityResource_of hcall, companyId_congr hx.same.base]
    rw [resultMeets_ok]
    apply files_call (post_of_createsEntity (Prerequisite.entityCall_createsEntity hcall))
      fun reply a ha => (entityReply_ok ha).1
    intro performed entityId hanswer
    rw [entityReply_answer] at hanswer
    obtain rfl := Except.ok.inj hanswer
    apply files_write
    constructor
    · apply hx.store hsends hitem
      · exact Keeps.of_party (fun _ => hid) (by simp) (by simp)
      · exact same_entityId hid hresource
      · rfl
      · intro item hskips
        rcases skips_party hskips with hold | ⟨hitem, -⟩ | ⟨-, hnone⟩
        · exact Or.inl hold
        · exact Or.inr hitem
        · exact absurd rfl hnone
    · simp only [RecordWrite.apply, Records.modify_row_self]
      exact m.name_stored _

theorem Filing.stepCreateContract (hx : m.Filing profile c log x.working x.seen) (hclient : client = c.companyId) :
    m.files (stepCreateContract client profile) (fun id y => m.Filing profile c log y.working y.seen ∧
      id = m.contractId c ∧ y.working.ejarContractId.truthy) x := by
  have hcontract := hx.same.contractId
  by_cases hid : x.working.ejarContractId.truthy
  · rw [files, wp_stepCreateContract_skip hid]
    rw [contractId, if_pos hid] at hcontract
    exact ⟨hx, hcontract, hid⟩
  rw [contractId, if_neg hid] at hcontract
  obtain ⟨attrs, hattrs⟩ := buildContractAttributes_ok x.working profile
  have hitem : m.call (some profile) c .contract = some (.createContract attrs) := by
    rw [← call_congr hx.same, Remote.call, hattrs]
    rfl
  have hhas : c.has .contract := trivial
  have hsends := hx.sends hhas hid hitem
  have hresource : m.resource ⟨c.companyId, .createContract attrs⟩ = contractResource x.working := by
    rw [← companyId_congr hx.same.base]
    exact resource_createContract hattrs
  subst hclient
  rw [files, wp_stepCreateContract hid, hattrs, resultMeets_ok]
  apply files_call (by simp [ApiCall.method]) fun reply a ha => (contractReply_ok ha).1
  intro performed created hanswer
  rw [contractReply_answer, hresource] at hanswer
  obtain rfl := Except.ok.inj hanswer
  apply files_write
  refine ⟨?_, hcontract, m.name_stored _⟩
  apply hx.store hsends hitem
  · exact Keeps.of_contract rfl fun _ => hid
  · exact same_contract hid
  · rfl
  · intro item hskips
    cases item with
    | contract => exact Or.inr rfl
    | _ => exact Or.inl hskips

theorem Filing.stepAttachUnit (hx : m.Filing profile c log x.working x.seen) (hclient : client = c.companyId)
    {id : String} (hid : id = m.contractId c) (hi : i ∈ c.unitIds.ids) : m.files (stepAttachUnit client id i)
      (fun _ y => m.Filing profile c log y.working y.seen ∧ (y.working.unitIds.row i).ejarContractUnitId.truthy) x := by
  by_cases hlinked : (x.working.unitIds.row i).ejarContractUnitId.truthy
  · rw [files, wp_stepAttachUnit_skip hlinked]
    exact ⟨hx, hlinked⟩
  by_cases hreg : (x.working.unitIds.row i).registered
  · have hitem : m.call (some profile) c (.unit i) = some (.attachUnit id (x.working.unitIds.row i).ejarPropertyId
        (x.working.unitIds.row i).ejarUnitId) := by
      rw [← call_congr hx.same, Remote.call, hx.same.contractId, hid]
    have hhas : c.has (.unit i) := hi
    have hsends := hx.sends hhas hlinked hitem
    subst hclient
    rw [files, wp_stepAttachUnit hlinked hreg]
    apply files_call (by simp [ApiCall.method]) fun reply a ha => (linkReply_ok ha).1
    intro performed linkedId hanswer
    rw [linkReply_answer] at hanswer
    obtain rfl := Except.ok.inj hanswer
    apply files_write
    constructor
    · exact hx.store hsends hitem (Keeps.of_unit fun _ => hlinked) (same_unit _) rfl fun item hskips =>
        skips_unit hskips
    · simp only [RecordWrite.apply, Records.modify_row_self]
      exact m.name_stored _
  · exact wp_stepAttachUnit_unregistered hlinked hreg fun _ => trivial

theorem Filing.stepAddParty (hx : m.Filing profile c log x.working x.seen) (hclient : client = c.companyId)
    {id : String} (hid : id = m.contractId c) (hi : i ∈ c.partyIds.ids) : m.files (stepAddParty client id i)
      (fun _ y => m.Filing profile c log y.working y.seen ∧ (y.working.partyIds.row i).ejarPartyId.truthy) x := by
  by_cases hlinked : (x.working.partyIds.row i).ejarPartyId.truthy
  · rw [files, wp_stepAddParty_skip hlinked]
    exact ⟨hx, hlinked⟩
  by_cases hentity : (x.working.partyIds.row i).ejarEntityId.truthy
  · have hitem : m.call (some profile) c (.party i) = some (.addParty id (x.working.partyIds.row i).attributes) := by
      rw [← call_congr hx.same, Remote.call, hx.same.contractId, hid, entityId, if_pos hentity]
    have hhas : c.has (.party i) := hi
    have hsends := hx.sends hhas hlinked hitem
    have hresource : m.resource ⟨c.companyId, .addParty id (x.working.partyIds.row i).attributes⟩ =
        m.partyResource x.working i := by
      rw [partyResource_of hentity, hid, companyId_congr hx.same.base, hx.same.contractId]
    subst hclient
    rw [files, wp_stepAddParty hlinked hentity]
    apply files_call (by simp [ApiCall.method]) fun reply a ha => (linkReply_ok ha).1
    intro performed linkedId hanswer
    rw [linkReply_answer] at hanswer
    obtain rfl := Except.ok.inj hanswer
    apply files_write
    constructor
    · apply hx.store hsends hitem
      · exact Keeps.of_party (by simp) (fun _ => hlinked) (by simp)
      · exact same_partyId hlinked hresource
      · rfl
      · intro item hskips
        rcases skips_party hskips with hold | ⟨-, hnone⟩ | ⟨hitem, -⟩
        · exact Or.inl hold
        · exact absurd rfl hnone
        · exact Or.inr hitem
    · simp only [RecordWrite.apply, Records.modify_row_self]
      exact m.name_stored _
  · exact wp_stepAddParty_noEntity hlinked hentity fun _ => trivial

theorem files_each {ids : List Nat} {body : Nat → Pipeline Unit} {item : Nat → Item}
    (hbody : ∀ i ∈ ids, ∀ y, m.Filing profile c log y.working y.seen → m.files (body i)
      (fun _ z => m.Filing profile c log z.working z.seen ∧ z.working.skips (item i)) y)
    (hkept : ∀ i y, always m.replaying (body i) (Follows y) y) (hx : m.Filing profile c log x.working x.seen) :
    m.files (Prog.forEach ids body) (fun _ y => m.Filing profile c log y.working y.seen ∧
      ∀ i ∈ ids, y.working.skips (item i)) x := by
  apply wp_forEach_each (r := Follows) hbody ?_ ?_ hx
  · intro i _ y
    exact wp_mono (fun _ _ hz => hz) (fun _ _ hz => hz) (fun _ hz => hz) (hkept i y)
  · intro i y z hfollows hskips
    exact skips_keeps hfollows.keeps hskips

theorem Filing.resolvePartyEntities (hx : m.Filing profile c log x.working x.seen) (hclient : client = c.companyId) :
    m.files (resolvePartyEntities client) (fun _ y => m.Filing profile c log y.working y.seen ∧
      ∀ i ∈ c.partyIds.ids, y.working.skips (.entity i)) x := by
  rw [files, Ejar.resolvePartyEntities, wp_bind, wp_get, hx.keeps.partyIds_ids]
  exact files_each (fun i hi y hy => hy.resolvePartyEntity hclient hi)
    (fun i y => (follows_kept m y).resolvePartyEntity (Follows.refl y)) hx

theorem Filing.attachUnits (hx : m.Filing profile c log x.working x.seen) (hclient : client = c.companyId) {id : String}
    (hid : id = m.contractId c) : m.files (attachUnits client id) (fun _ y =>
      m.Filing profile c log y.working y.seen ∧ ∀ i ∈ c.unitIds.ids, y.working.skips (.unit i)) x := by
  rw [files, Ejar.attachUnits, wp_bind, wp_get, hx.keeps.unitIds_ids]
  exact files_each (fun i hi y hy => hy.stepAttachUnit hclient hid hi)
    (fun i y => (follows_kept m y).stepAttachUnit (Follows.refl y)) hx

theorem Filing.addParties (hx : m.Filing profile c log x.working x.seen) (hclient : client = c.companyId) {id : String}
    (hid : id = m.contractId c) : m.files (addParties client id) (fun _ y =>
      m.Filing profile c log y.working y.seen ∧ ∀ i ∈ c.partyIds.ids, y.working.skips (.party i)) x := by
  rw [files, Ejar.addParties, wp_bind, wp_get, hx.keeps.partyIds_ids]
  exact files_each (fun i hi y hy => hy.stepAddParty hclient hid hi)
    (fun i y => (follows_kept m y).stepAddParty (Follows.refl y)) hx

theorem Filing.uploadRepresentativeDoc (hx : m.Filing profile c log x.working x.seen) {id : String} :
    m.files (uploadRepresentativeDoc client id i) (fun _ y => m.Filing profile c log y.working y.seen) x := by
  rw [files, wp_uploadRepresentativeDoc]
  by_cases hpending : (x.working.partyIds.row i).proxyPending
  · have hnone : ¬ (x.working.partyIds.row i).ejarProxyDocId.truthy := by
      intro hdoc
      simp [Party.proxyPending, hdoc] at hpending
    rw [if_pos hpending]
    apply files_call (by simp [ApiCall.method, Party.proxyCall])
    · intro reply a ha
      obtain ⟨body, hbody, -⟩ := bind_eq_ok.mp ha
      exact Reply.accepted_of_ok hbody
    · intro performed docId _
      apply files_write
      have haside : Aside ⟨client, (x.working.partyIds.row i).proxyCall id⟩ := trivial
      apply (hx.enter (Or.inr haside)).write
      · exact Keeps.of_party (by simp) (by simp) fun _ => hnone
      · exact same_proxyDocId _
      · rfl
      · intro item hskips
        rcases skips_party hskips with hold | ⟨-, hnone⟩ | ⟨-, hnone⟩
        · exact Or.inl hold
        · exact absurd rfl hnone
        · exact absurd rfl hnone
  · rw [if_neg hpending]
    exact hx

theorem Filing.uploadProxyDocs (hx : m.Filing profile c log x.working x.seen) {id : String} :
    m.files (uploadProxyDocs client id) (fun _ y => m.Filing profile c log y.working y.seen) x := by
  rw [files, Ejar.uploadProxyDocs, wp_bind, wp_get]
  exact wp_forEach_inv (fun i _ y hy => hy.uploadRepresentativeDoc) hx

theorem Filing.stepUploadSignedDoc (hx : m.Filing profile c log x.working x.seen) {id : String} :
    m.files (stepUploadSignedDoc client id) (fun _ y => m.Filing profile c log y.working y.seen) x := by
  by_cases hdoc : x.working.signedDoc.truthy
  · rw [files, wp_stepUploadSignedDoc hdoc]
    have haside : Aside ⟨client, x.working.signedDocCall id⟩ := trivial
    apply files_call (by simp [ApiCall.method, Contract.signedDocCall]) fun reply a ha => docReply_ok ha
    exact fun _ _ _ => hx.enter (Or.inr haside)
  · exact wp_stepUploadSignedDoc_missing hdoc fun _ => trivial

theorem Filing.stepAddFinancialInfo (hx : m.Filing profile c log x.working x.seen) (hclient : client = c.companyId)
    {id : String} (hid : id = m.contractId c) : m.files (stepAddFinancialInfo client id) (fun _ y =>
      m.Filing profile c log y.working y.seen ∧ m.Done profile c .financialInfo y.working y.seen) x := by
  obtain ⟨attrs, hattrs⟩ := buildFinancialAttributes_ok x.working
  have hitem : m.call (some profile) c .financialInfo = some (.addFinancialInformation id attrs) := by
    rw [← call_congr hx.same, Remote.call, hattrs, hx.same.contractId, hid]
    rfl
  have hhas : c.has .financialInfo := trivial
  have hsends := hx.sends hhas Bool.false_ne_true hitem
  subst hclient
  rw [files, wp_stepAddFinancialInfo, hattrs, resultMeets_ok]
  apply files_call (by simp [ApiCall.method]) fun reply a ha => infoReply_ok ha
  intro performed a _
  refine ⟨hx.enter (Or.inl hsends), ?_⟩
  rw [Done, if_neg (by simp [Item.stage])]
  intro call hcall
  obtain rfl := Option.some.inj (hcall.symm.trans hitem)
  exact Ledger.key_mem_enter m.resource x.seen _

theorem Filing.stepAddRentalFee (hx : m.Filing profile c log x.working x.seen) (hclient : client = c.companyId)
    {id : String} (hid : id = m.contractId c) : m.files (stepAddRentalFee client profile id) (fun _ y =>
      m.Filing profile c log y.working y.seen ∧ m.Done profile c .rentalFee y.working y.seen) x := by
  rw [files, wp_stepAddRentalFee]
  have hitem : m.call (some profile) c .rentalFee =
      (buildRentalFeeAttributes x.working (some profile)).map (.addRentalFee id) := by
    rw [← call_congr hx.same, Remote.call, hx.same.contractId, hid]
  cases hattrs : buildRentalFeeAttributes x.working (some profile) with
  | none =>
    rw [hattrs] at hitem
    refine ⟨hx, ?_⟩
    rw [Done, if_neg (by simp [Item.stage]), hitem]
    simp
  | some attrs =>
    rw [hattrs] at hitem
    have hhas : c.has .rentalFee := trivial
    have hsends := hx.sends hhas Bool.false_ne_true hitem
    subst hclient
    apply files_call (by simp [ApiCall.method]) fun reply a ha => infoReply_ok ha
    intro performed a _
    refine ⟨hx.enter (Or.inl hsends), ?_⟩
    rw [Done, if_neg (by simp [Item.stage])]
    intro call hcall
    obtain rfl := Option.some.inj (hcall.symm.trans hitem)
    exact Ledger.key_mem_enter m.resource x.seen _

theorem Filing.stepSubmit (hx : m.Filing profile c log x.working x.seen) {id : String} :
    m.files (stepSubmit client id) (fun _ y => m.Filing profile c log y.working y.seen) x := by
  rw [files, wp_stepSubmit]
  apply files_call (by simp [ApiCall.method])
  · intro reply a ha
    obtain ⟨body, hbody, -⟩ := bind_eq_ok.mp ha
    exact Reply.accepted_of_ok hbody
  · have haside : Aside ⟨client, .submitContract id⟩ := trivial
    exact fun _ _ _ => hx.enter (Or.inr haside)

/-- The record before the pipeline has touched it. -/
structure Untouched (c d : Contract) : Prop where
  base : d.base = c.base
  contractId : d.ejarContractId = c.ejarContractId
  parties : d.partyIds = c.partyIds
  units : d.unitIds = c.unitIds

theorem Untouched.skips (h : Untouched c d) (item : Item) : d.skips item = c.skips item := by
  cases item with
  | entity i => rw [Contract.skips, Contract.skips, h.parties]
  | contract => rw [Contract.skips, Contract.skips, h.contractId]
  | unit i => rw [Contract.skips, Contract.skips, h.units]
  | party i => rw [Contract.skips, Contract.skips, h.parties]
  | _ => rfl

theorem Untouched.filing (h : Untouched c d) (hprofile : d.brokerageProfileId = some profile) :
    m.Filing profile c log d log where
  keeps := ⟨h.base, fun _ => h.contractId, fun _ _ => by rw [h.parties], fun _ _ => by rw [h.parties],
    fun _ _ => by rw [h.parties], fun _ _ => by rw [h.units]⟩
  same := same_of_base h.base h.contractId h.parties
  used := hprofile
  kept := List.Subset.refl log
  made := fun _ hq => Or.inl hq
  backed := fun item _ hskips _ => Or.inl (h.skips item ▸ hskips)

/-- What is known in an attempt with the first `n` stages done. -/
structure Stage (m : Remote) (profile : BrokerageProfile) (c : Contract) (log : List Request) (n : Nat)
    (used : BrokerageProfile) (client : Nat) (d : Contract) (seen : List Request) : Prop where
  found : used = profile
  client : client = c.companyId
  calls : ∀ i ∈ c.partyIds.ids, ∃ call, entityCall (c.partyIds.row i) = .ok call
  filing : m.Filing profile c log d seen
  reached : m.Reached profile c n d seen

theorem entityCalls_of_checks {env : Env} (h : validateForSubmission env profile c = .ok ()) :
    ∀ i ∈ c.partyIds.ids, ∃ call, entityCall (c.partyIds.row i) = .ok call := by
  obtain ⟨_, -, h⟩ := bind_eq_ok.mp h
  obtain ⟨_, hparties, -⟩ := bind_eq_ok.mp h
  intro i hi
  exact entityCall_ok (forM_ok hparties _ (List.mem_map.mpr ⟨i, hi, rfl⟩))

theorem resolveProfile_files {env : Env} (hx : Untouched c x.working) (hseen : x.seen = log)
    (hown : x.working.brokerageProfileId = c.brokerageProfileId)
    (hprofile : c.brokerageProfileId.or env.companyProfile = some profile) :
    m.files (resolveProfile env) (fun used y => used = profile ∧
      (∀ i ∈ c.partyIds.ids, ∃ call, entityCall (c.partyIds.row i) = .ok call) ∧
      m.Filing profile c log y.working y.seen) x := by
  have hchecked (d : Contract) (hd : Untouched c d) (hused : d.brokerageProfileId = some profile) :
      resultMeets (validateForSubmission env profile d) (fun _ => True ∧
        (∀ i ∈ c.partyIds.ids, ∃ call, entityCall (c.partyIds.row i) = .ok call) ∧
        m.Filing profile c log d log) fun _ => True := by
    cases hchecks : validateForSubmission env profile d with
    | error e => trivial
    | ok _ =>
      have hcalls := entityCalls_of_checks hchecks
      rw [hd.parties] at hcalls
      exact ⟨trivial, hcalls, hd.filing hused⟩
  subst hseen
  rw [files, Ejar.resolveProfile, wp_bind, findProfile, wp_bind, wp_get, hown]
  cases hc : c.brokerageProfileId with
  | some own =>
    rw [hc] at hprofile
    obtain rfl : own = profile := Option.some.inj hprofile
    simp only [Prog.pure_eq, wp_ret, wp_bind, wp_get, wp_ofExcept]
    exact hchecked x.working hx (hown.trans hc)
  | none =>
    rw [hc, Option.none_or] at hprofile
    rw [hprofile]
    simp only [wp_bind, wp_writeContract, Prog.pure_eq, wp_ret]
    apply files_write
    simp only [wp_get, wp_ofExcept]
    exact hchecked (x.working.set { brokerageProfileId := some (some profile) })
      ⟨hx.base, hx.contractId, hx.parties, hx.units⟩ rfl

/-- What is known after each commit. -/
def filingOutline (m : Remote) (profile : BrokerageProfile) (c : Contract) (log : List Request) :
    Outline (List Request) :=
  let before (n : Nat) (used : BrokerageProfile) (client : Nat) (y : Session Contract (List Request)) :=
    m.Stage profile c log n used client y.working y.seen
  let after (n : Nat) (used : BrokerageProfile) (client : Nat) (id : String) (y : Session Contract (List Request)) :=
    m.Stage profile c log n used client y.working y.seen ∧ id = m.contractId c
  { start := before 0, entities := before 1, created := after 2, units := after 3, parties := after 4
    proxyDocs := after 4, signedDoc := after 4, financialInfo := after 5, rentalFee := after 6
    submit := fun _ y => m.Stage profile c log 6 profile c.companyId y.working y.seen }

section

variable {α : Type} {p : Pipeline α} {R : α → Prop} {used : BrokerageProfile}
  (h : m.Stage profile c log n used client y.working y.seen) (hkept : always m.replaying p (Follows y) y)
include h hkept

theorem Stage.next (hp : m.files p (fun a z => (m.Filing profile c log z.working z.seen ∧ R a) ∧
      ∀ item, item.stage = n → c.has item → m.Done profile c item z.working z.seen) y) :
    m.files p (fun a => atCommit m.replaying (fun _ => True)
      fun z => m.Stage profile c log (n + 1) used client z.working z.seen ∧ R a) y := by
  apply files_commit (files_stage h.reached hkept hp)
  rintro a z ⟨⟨hfiling, hR⟩, hreached⟩
  exact ⟨⟨h.found, h.client, h.calls, hfiling, hreached⟩, hR⟩

theorem Stage.stay (hp : m.files p (fun _ z => m.Filing profile c log z.working z.seen) y) :
    m.files p (fun _ z => m.Stage profile c log n used client z.working z.seen) y := by
  refine wp_mono (fun a z hz => ?_) (fun _ _ _ => trivial) (fun _ _ => trivial) (files_carry h.reached hkept hp)
  exact ⟨h.found, h.client, h.calls, hz.1, hz.2⟩

end

theorem done_of_skips (hn : n < 4) (h : ∀ item, item.stage = n → c.has item → d.skips item) :
    ∀ item, item.stage = n → c.has item → m.Done profile c item d seen := by
  intro item hstage hhas
  rw [Done, if_pos (by omega)]
  exact h item hstage hhas

theorem Stage.write_status {used : BrokerageProfile} {sync : Option Datetime}
    (h : m.Stage profile c log n used client d seen) : m.Stage profile c log n used client
      (d.set { ejarStatus := some .submitted, ejarLastSync := some sync, submitError := some none }) seen := by
  have hkeeps :
      Keeps d (d.set { ejarStatus := some .submitted, ejarLastSync := some sync, submitError := some none }) :=
    Keeps.of_contract rfl (by simp)
  have hfollows : Follows ⟨d, d, seen⟩
      ⟨d, d.set { ejarStatus := some .submitted, ejarLastSync := some sync, submitError := some none }, seen⟩ :=
    ⟨hkeeps, List.Subset.refl seen⟩
  refine ⟨h.found, h.client, h.calls, ?_, h.reached.follows hfollows⟩
  apply h.filing.write hkeeps (same_of_base rfl rfl rfl) rfl
  intro item hskips
  cases item with
  | _ => exact Or.inl hskips

theorem Stage.runPipeline {env : Env} (hx : Untouched c x.working) (hseen : x.seen = log)
    (hown : x.working.brokerageProfileId = c.brokerageProfileId)
    (hprofile : c.brokerageProfileId.or env.companyProfile = some profile) :
    m.files (runPipeline env) (fun _ y => m.Stage profile c log 6 profile c.companyId y.committed y.seen) x := by
  have hkept (y : Session Contract (List Request)) := follows_kept m y
  apply wp_runPipeline (m.filingOutline profile c log)
  · refine wp_mono (fun used y hy => ?_) (fun _ _ _ => trivial) (fun _ _ => trivial)
      (resolveProfile_files hx hseen hown hprofile)
    obtain ⟨hused, hcalls, hfiling⟩ := hy
    have hnone : m.Reached profile c 0 y.working y.seen := fun _ hstage => absurd hstage (Nat.not_lt_zero _)
    simp only [buildClient, wp_bind, wp_get, wp_ofExcept, Prog.pure_eq, wp_ret]
    cases env.credentials with
    | error e => trivial
    | ok _ => exact ⟨hused, companyId_congr hfiling.same.base, hcalls, hfiling, hnone⟩
  · intro used client y hy
    refine wp_mono (fun _ z hz => ⟨hz.1, fun seen hs => (hz.2 seen hs).1⟩) (fun _ _ _ => trivial) (fun _ _ => trivial)
      (hy.next (R := fun _ => True) ((hkept y).resolvePartyEntities (Follows.refl y)) ?_)
    refine wp_mono (fun _ z hz => ⟨⟨hz.1, trivial⟩, done_of_skips (by omega) ?_⟩) (fun _ _ _ => trivial)
      (fun _ _ => trivial) (hy.filing.resolvePartyEntities hy.client)
    intro item hstage hhas
    cases item with
    | entity i => exact hz.2 i hhas
    | _ => simp [Item.stage] at hstage
  · intro used client y hy
    apply hy.next ((hkept y).stepCreateContract (Follows.refl y))
    obtain rfl := hy.found
    refine wp_mono (fun _ z hz => ⟨⟨hz.1, hz.2.1⟩, done_of_skips (by omega) ?_⟩) (fun _ _ _ => trivial)
      (fun _ _ => trivial) (hy.filing.stepCreateContract hy.client)
    intro item hstage hhas
    cases item with
    | contract => exact hz.2.2
    | _ => simp [Item.stage] at hstage
  · rintro used client id y ⟨hy, hid⟩
    apply hy.next (R := fun _ => id = m.contractId c) ((hkept y).attachUnits (Follows.refl y))
    refine wp_mono (fun _ z hz => ⟨⟨hz.1, hid⟩, done_of_skips (by omega) ?_⟩) (fun _ _ _ => trivial)
      (fun _ _ => trivial) (hy.filing.attachUnits hy.client hid)
    intro item hstage hhas
    cases item with
    | unit i => exact hz.2 i hhas
    | _ => simp [Item.stage] at hstage
  · rintro used client id y ⟨hy, hid⟩
    apply hy.next (R := fun _ => id = m.contractId c) ((hkept y).addParties (Follows.refl y))
    refine wp_mono (fun _ z hz => ⟨⟨hz.1, hid⟩, done_of_skips (by omega) ?_⟩) (fun _ _ _ => trivial)
      (fun _ _ => trivial) (hy.filing.addParties hy.client hid)
    intro item hstage hhas
    cases item with
    | party i => exact hz.2 i hhas
    | _ => simp [Item.stage] at hstage
  · rintro used client id y ⟨hy, hid⟩
    exact files_commit (hy.stay ((hkept y).uploadProxyDocs (Follows.refl y)) hy.filing.uploadProxyDocs)
      fun _ z hz => ⟨hz, hid⟩
  · rintro used client id y ⟨hy, hid⟩
    exact files_commit (hy.stay ((hkept y).stepUploadSignedDoc (Follows.refl y)) hy.filing.stepUploadSignedDoc)
      fun _ z hz => ⟨hz, hid⟩
  · rintro used client id y ⟨hy, hid⟩
    apply hy.next (R := fun _ => id = m.contractId c) ((hkept y).stepAddFinancialInfo (Follows.refl y))
    refine wp_mono (fun _ z hz => ⟨⟨hz.1, hid⟩, ?_⟩) (fun _ _ _ => trivial) (fun _ _ => trivial)
      (hy.filing.stepAddFinancialInfo hy.client hid)
    intro item hstage hhas
    cases item with
    | financialInfo => exact hz.2
    | _ => simp [Item.stage] at hstage
  · rintro used client id y ⟨hy, hid⟩
    apply hy.next (R := fun _ => id = m.contractId c) ((hkept y).stepAddRentalFee (Follows.refl y))
    obtain rfl := hy.found
    refine wp_mono (fun _ z hz => ⟨⟨hz.1, hid⟩, ?_⟩) (fun _ _ _ => trivial) (fun _ _ => trivial)
      (hy.filing.stepAddRentalFee hy.client hid)
    intro item hstage hhas
    cases item with
    | rentalFee => exact hz.2
    | _ => simp [Item.stage] at hstage
  · rintro used client id y ⟨hy, hid⟩
    refine wp_mono (fun _ z hz => ?_) (fun _ _ _ => trivial) (fun _ _ => trivial)
      (hy.stay ((hkept y).stepSubmit (Follows.refl y)) hy.filing.stepSubmit)
    exact ⟨rfl, rfl, hz.calls, hz.filing, hz.reached⟩
  · intro id y hy
    rw [finalize, wp_bind, wp_writeContract]
    apply files_write
    rw [wp_bind, wp_commitNow]
    refine ⟨trivial, fun seen hs => ?_⟩
    obtain rfl : seen = y.seen := hs
    exact hy.write_status

theorem Stage.executeFullSubmission {env : Env}
    (hprofile : c.brokerageProfileId.or env.companyProfile = some profile) :
    m.files (executeFullSubmission env)
      (fun _ y => m.Stage profile c log 6 profile c.companyId y.committed y.seen) ⟨c, c, log⟩ := by
  apply wp_executeFullSubmission (M := fun y => (Untouched c y.working ∧ y.seen = log) ∧
    y.working.brokerageProfileId = c.brokerageProfileId) (F := fun _ _ => True)
  · apply files_write
    refine ⟨trivial, fun seen hs => ?_⟩
    obtain rfl : seen = log := hs
    exact ⟨⟨⟨rfl, rfl, rfl, rfl⟩, rfl⟩, rfl⟩
  · rintro y ⟨⟨hy, hseen⟩, hown⟩
    exact Stage.runPipeline hy hseen hown hprofile
  · intro exc y _
    apply files_write
    exact ⟨trivial, fun _ _ => trivial⟩

theorem no_profile {env : Env} (hnone : c.brokerageProfileId.or env.companyProfile = none) :
    m.files (executeFullSubmission env) (fun _ _ => False) ⟨c, c, log⟩ := by
  obtain ⟨hown, hcompany⟩ := Option.or_eq_none_iff.mp hnone
  apply wp_executeFullSubmission (M := fun y => y.working.brokerageProfileId = none) (F := fun _ _ => True)
  · apply files_write
    refine ⟨trivial, fun seen hs => ?_⟩
    exact hown
  · intro y hy
    rw [Ejar.runPipeline, wp_bind, Ejar.resolveProfile, wp_bind, findProfile, wp_bind, wp_get, hy, hcompany]
    trivial
  · intro exc y _
    apply files_write
    exact ⟨trivial, fun _ _ => trivial⟩

end Remote

end Ejar
