import PropzaAmlak.Submission.Once

/-! An attempt in which every call is answered, after any others: where it ends
depends on the three steps whose conflicts are not caught. -/

namespace Ejar

open Tx

/-- The contract passes the checks of the pipeline. -/
structure Contract.Valid (c : Contract) (env : Env) : Prop where
  profile : ∃ profile, c.brokerageProfileId.or env.companyProfile = some profile ∧
    validateForSubmission env profile c = .ok ()
  credentials : env.credentials = .ok ()
  signedDoc : c.signedDoc.truthy
  units : ∀ i ∈ c.unitIds.ids, (c.unitIds.row i).registered

theorem forM_ok {α : Type} {f : α → Except Exc Unit} {xs : List α} (h : xs.forM f = .ok ()) :
    ∀ x ∈ xs, f x = .ok () := by
  induction xs with
  | nil =>
    intro x hx
    cases hx
  | cons a xs ih =>
    have h : (f a >>= fun _ => xs.forM f) = .ok () := h
    obtain ⟨_, ha, hxs⟩ := bind_eq_ok.mp h
    intro x hx
    rcases List.mem_cons.mp hx with rfl | hx
    · exact ha
    · exact ih hxs x hx

theorem reportMissing_ok {heading : String} {errors : List String} (h : reportMissing heading errors = .ok ()) :
    errors = [] := by
  cases errors with
  | nil => rfl
  | cons e errors => cases h

theorem missingIf_nil {condition : Bool} {what : String} (h : missingIf condition what = []) : condition = false := by
  cases condition with
  | true => cases h
  | false => rfl

theorem require_char {v : CharField} {field model : String} (hv : v.truthy) :
    require (.ofChar v) field model = .ok () := by
  obtain ⟨s, rfl, hs⟩ := CharField.truthy_iff.mp hv
  simp [require, FieldValue.ofChar, FieldValue.truthy, hs]

theorem entityCall_ok {p : Party} (h : p.validateForSubmission = .ok ()) : ∃ call, entityCall p = .ok call := by
  have hmissing := reportMissing_ok h
  simp only [List.append_eq_nil_iff] at hmissing
  obtain ⟨⟨⟨⟨⟨hnumber, hmobile⟩, hname⟩, horganization⟩, -⟩, -⟩ := hmissing
  have hnumber := missingIf_nil hnumber
  have hmobile := missingIf_nil hmobile
  have hname := missingIf_nil hname
  have horganization := missingIf_nil horganization
  cases htype : p.entityType with
  | individual =>
    simp only [htype, decide_true, Bool.true_and, Bool.not_eq_false'] at hnumber hmobile hname
    have hattrs : ∃ attrs, buildIndividualEntityAttributes p = .ok attrs := by
      rw [buildIndividualEntityAttributes, require_char hnumber, require_char hmobile, require_char hname]
      exact ⟨_, rfl⟩
    obtain ⟨attrs, hattrs⟩ := hattrs
    exact ⟨.createIndividualEntity attrs, by simp [entityCall, htype, hattrs, Except.map]⟩
  | organization =>
    simp only [htype, decide_true, Bool.true_and, Bool.and_eq_false_iff, Bool.not_eq_false'] at horganization
    have hid : CharField.truthy (if p.crNumber.truthy then p.crNumber else p.unifiedNumber) := by
      by_cases hcr : p.crNumber.truthy
      · rwa [if_pos hcr]
      · rw [if_neg hcr]
        rcases horganization with h | h
        · exact absurd h hcr
        · exact h
    have hattrs : ∃ attrs, buildOrganizationEntityAttributes p = .ok attrs := by
      rw [buildOrganizationEntityAttributes, require_char hid]
      exact ⟨_, rfl⟩
    obtain ⟨attrs, hattrs⟩ := hattrs
    exact ⟨.createOrganizationEntity attrs, by simp [entityCall, htype, hattrs, Except.map]⟩

theorem require_date (d : Option Date) (field model : String) : require (.ofDate d) field model = .ok () := by
  cases d with
  | none => rfl
  | some d => rfl

theorem require_number (q : Rat) (field model : String) : require (.number q) field model = .ok () := by
  simp [require, FieldValue.truthy, FieldValue.neZero]

theorem buildContractAttributes_ok (c : Contract) (profile : BrokerageProfile) :
    ∃ attrs, buildContractAttributes c (some profile) = .ok attrs := by
  rw [buildContractAttributes, require_date, require_date, require_number]
  exact ⟨_, rfl⟩

theorem buildFinancialAttributes_ok (c : Contract) : ∃ attrs, buildFinancialAttributes c = .ok attrs := by
  have hschedule : require (.ofChar (c.paymentSchedule.map PaymentSchedule.str)) "payment_schedule" "ejar.contract" =
      .ok () := by
    cases c.paymentSchedule with
    | none => rfl
    | some schedule =>
      cases schedule
      all_goals rfl
  rw [buildFinancialAttributes, require_number, hschedule]
  exact ⟨_, rfl⟩

namespace Remote

/-- The proxy documents without an id are all still to be uploaded. -/
structure ProxiesFresh (m : Remote) (c : Contract) (performed : List Resource) : Prop where
  proxies : ∀ i ∈ c.partyIds.ids, (m.registered c i).proxyPending → m.proxyResource c i ∉ performed
  distinct : ∀ i ∈ c.partyIds.ids, ∀ j ∈ c.partyIds.ids, (m.registered c i).proxyPending →
    (m.registered c j).proxyPending → m.proxyResource c i = m.proxyResource c j → i = j

/-- The steps whose conflict is not caught are still to be done. -/
structure Fresh (m : Remote) (c : Contract) (performed : List Resource) : Prop
    extends m.ProxiesFresh c performed where
  signed : m.signedResource c ∉ performed
  submit : m.submitResource c ∉ performed

def linkKinds : List String :=
  ["create_individual_entity", "create_org_entity", "create_contract", "attach_unit", "add_party"]

def docKinds : List String := "upload_proxy_doc" :: linkKinds

def infoKinds : List String := ["upload_signed_doc", "add_financial_info", "add_rental_fee"] ++ docKinds

/-- The rerun on the record `c`, where it has asked for nothing but `kinds`. -/
structure Rerun (m : Remote) (c : Contract) (performed : List Resource) (kinds : List String)
    (y : Session Contract (List Resource)) : Prop where
  same : m.Same c y.working
  kept : ∀ r ∈ performed, r ∈ y.seen
  made : ∀ r ∈ y.seen, r ∈ performed ∨ ∃ kind ∈ kinds, r.head? = some kind

variable {m : Remote} {c : Contract} {performed : List Resource} {kinds kinds' : List String} {env : Env}
  {x y : Session Contract (List Resource)} {request : Request} {client i : Nat}

theorem Rerun.mono (h : m.Rerun c performed kinds y) (hkinds : kinds ⊆ kinds') : m.Rerun c performed kinds' y := by
  refine ⟨h.same, h.kept, ?_⟩
  intro r hr
  rcases h.made r hr with hr | ⟨kind, hkind, hr⟩
  · exact Or.inl hr
  · exact Or.inr ⟨kind, hkinds hkind, hr⟩

theorem Rerun.answer {kind : String} (h : m.Rerun c performed kinds x) (hkind : kind ∈ kinds)
    (hrequest : (m.resource request).head? = some kind) :
    m.Rerun c performed kinds ⟨x.committed, x.working, (m.answer x.seen request).2⟩ := by
  refine ⟨h.same, ?_, ?_⟩
  · intro r hr
    exact (m.mem_answer x.seen request r).mpr (Or.inl (h.kept r hr))
  · intro r hr
    rcases (m.mem_answer x.seen request r).mp hr with hr | rfl
    · exact h.made r hr
    · exact Or.inr ⟨kind, hkind, hrequest⟩

theorem Rerun.mem_of_kind {kind : String} {r : Resource} (h : m.Rerun c performed kinds y) (hr : r ∈ y.seen)
    (hkind : r.head? = some kind) (hnew : kind ∉ kinds) : r ∈ performed := by
  rcases h.made r hr with hr | ⟨kind', hmem, hkind'⟩
  · exact hr
  · rw [hkind, Option.some.injEq] at hkind'
    exact absurd (hkind' ▸ hmem) hnew

theorem callThen_answered {α : Type} {read : Reply → Except Exc α} {N : α → Session Contract (List Resource) → Prop}
    {E : Exc → Session Contract (List Resource) → Prop}
    (h : resultMeets (read (m.answer x.seen request).1)
      (N · ⟨x.committed, x.working, (m.answer x.seen request).2⟩)
      (E · ⟨x.committed, x.working, (m.answer x.seen request).2⟩)) :
    callThen m.answered request read N E (fun _ => True) x := by
  refine ⟨trivial, ?_, fun _ hs => hs.elim⟩
  intro reply seen hs
  obtain ⟨rfl, rfl⟩ := Prod.mk.inj (Option.some.inj hs)
  exact h

/-- The rerun returns with `N`, or a step which is not fresh has raised. -/
abbrev reruns {α : Type} (m : Remote) (c : Contract) (performed : List Resource) (p : Pipeline α)
    (N : α → Session Contract (List Resource) → Prop) (x : Session Contract (List Resource)) : Prop :=
  wp RecordWrite.apply m.answered p N (fun _ _ => ¬ m.Fresh c performed) (fun _ => True) x

theorem atCommit_answered {P : Session Contract (List Resource) → Prop} (h : P ⟨x.working, x.working, x.seen⟩) :
    atCommit m.answered (fun _ => True) P x := by
  refine ⟨trivial, fun seen hs => ?_⟩
  obtain rfl : seen = x.seen := hs
  exact h

theorem writeThen_answered {u : RecordWrite} {N : Session Contract (List Resource) → Prop}
    (h : N ⟨x.committed, u.apply x.working, x.seen⟩) : writeThen m.answered u N x := by
  intro seen hs
  obtain rfl : seen = x.seen := hs
  exact h

theorem Rerun.write {u : RecordWrite} (h : m.Rerun c performed kinds x) (hu : m.Same x.working (u.apply x.working)) :
    m.Rerun c performed kinds ⟨x.committed, u.apply x.working, x.seen⟩ :=
  ⟨h.same.trans hu, h.kept, h.made⟩

theorem Rerun.commit (h : m.Rerun c performed kinds x) :
    m.Rerun c performed kinds ⟨x.working, x.working, x.seen⟩ :=
  ⟨h.same, h.kept, h.made⟩

/-- Up to the uploads: the rerun with the proxy documents as they were. -/
structure Linking (m : Remote) (c : Contract) (performed : List Resource) (y : Session Contract (List Resource)) :
    Prop extends m.Rerun c performed linkKinds y where
  docs : ∀ i, (y.working.partyIds.row i).ejarProxyDocId = (c.partyIds.row i).ejarProxyDocId

theorem Linking.answer {kind : String} (h : m.Linking c performed x) (hkind : kind ∈ linkKinds)
    (hrequest : (m.resource request).head? = some kind) :
    m.Linking c performed ⟨x.committed, x.working, (m.answer x.seen request).2⟩ :=
  ⟨h.toRerun.answer hkind hrequest, h.docs⟩

theorem Linking.write {u : RecordWrite} (h : m.Linking c performed x) (hu : m.Same x.working (u.apply x.working))
    (hdocs : ∀ i, ((u.apply x.working).partyIds.row i).ejarProxyDocId = (x.working.partyIds.row i).ejarProxyDocId) :
    m.Linking c performed ⟨x.committed, u.apply x.working, x.seen⟩ :=
  ⟨h.toRerun.write hu, fun i => (hdocs i).trans (h.docs i)⟩

theorem Linking.commit (h : m.Linking c performed x) : m.Linking c performed ⟨x.working, x.working, x.seen⟩ :=
  ⟨h.toRerun.commit, h.docs⟩

theorem docs_party {d : Contract} {v : PartyVals} (hv : v.ejarProxyDocId = none) (j : Nat) :
    (((RecordWrite.party i v).apply d).partyIds.row j).ejarProxyDocId = (d.partyIds.row j).ejarProxyDocId := by
  by_cases hj : j = i
  · subst hj
    simp [RecordWrite.apply, Party.set, hv]
  · simp [RecordWrite.apply, hj]

theorem entityCall_kind {p : Party} {call : ApiCall} (h : entityCall p = .ok call) :
    ∃ kind ∈ linkKinds, (m.resource ⟨client, call⟩).head? = some kind := by
  rcases entityCall_cases h with ⟨attrs, rfl⟩ | ⟨attrs, rfl⟩
  · exact ⟨"create_individual_entity", by simp [linkKinds], rfl⟩
  · exact ⟨"create_org_entity", by simp [linkKinds], rfl⟩

/-- The ids of a kind that the rows of `x` have, those of `y` have too. -/
def KeepsIds (f : Party → CharField) (x y : Session Contract (List Resource)) : Prop :=
  ∀ j, (f (x.working.partyIds.row j)).truthy → (f (y.working.partyIds.row j)).truthy

theorem Linking.resolvePartyEntity (hx : m.Linking c performed x) (hclient : client = c.companyId)
    (hvalid : (c.partyIds.row i).validateForSubmission = .ok ()) :
    m.reruns c performed (resolvePartyEntity client i) (fun _ y => (m.Linking c performed y ∧
      (y.working.partyIds.row i).ejarEntityId.truthy) ∧ KeepsIds Party.ejarEntityId x y) x := by
  by_cases hid : (x.working.partyIds.row i).ejarEntityId.truthy
  · rw [reruns, wp_resolvePartyEntity_skip hid]
    exact ⟨⟨hx, hid⟩, fun _ hj => hj⟩
  obtain ⟨call, hcall⟩ := entityCall_ok hvalid
  have hcall' : entityCall (x.working.partyIds.row i) = .ok call := by
    rw [← entityCall_base, party_congr hx.same.base, entityCall_base, hcall]
  obtain ⟨kind, hkind, hrequest : (m.resource ⟨client, call⟩).head? = some kind⟩ := entityCall_kind hcall
  have hresource : m.resource ⟨client, call⟩ = m.entityResource x.working i := by
    rw [entityResource, hcall', hclient, companyId_congr hx.same.base]
  rw [reruns, wp_resolvePartyEntity hid, wp_stepCreateEntity, hcall', resultMeets_ok]
  apply callThen_answered
  rw [entityReply_answer, resultMeets_ok]
  apply writeThen_answered
  have hname : CharField.truthy (some (m.name (m.resource ⟨client, call⟩))) := by simpa using m.name_ne _
  refine ⟨⟨(hx.answer hkind hrequest).write ?_ (docs_party rfl), ?_⟩, ?_⟩
  · exact same_entityId hid hresource
  · simp only [RecordWrite.apply, Records.modify_row_self]
    exact hname
  · intro j hj
    by_cases hji : j = i
    · subst hji
      exact absurd hj hid
    · simpa [RecordWrite.apply, hji] using hj

theorem reruns_each {f : Party → CharField} {I : Session Contract (List Resource) → Prop} {ids : List Nat}
    {body : Nat → Pipeline Unit} (hbody : ∀ i ∈ ids, ∀ y, I y → m.reruns c performed (body i)
      (fun _ z => (I z ∧ (f (z.working.partyIds.row i)).truthy) ∧ KeepsIds f y z) y) (hx : I x) :
    m.reruns c performed (Prog.forEach ids body)
      (fun _ y => I y ∧ ∀ i ∈ ids, (f (y.working.partyIds.row i)).truthy) x := by
  apply wp_forEach (I := fun done y => I y ∧ ∀ i ∈ done, (f (y.working.partyIds.row i)).truthy)
  · rintro done i rest hids y ⟨hy, hdone⟩
    have hi : i ∈ ids := by simp [hids]
    refine wp_mono (fun _ z hz => ?_) (fun _ _ hz => hz) (fun _ hz => hz) (hbody i hi y hy)
    obtain ⟨⟨hz, hid⟩, hkeeps⟩ := hz
    refine ⟨hz, ?_⟩
    intro j hj
    rcases List.mem_append.mp hj with hj | hj
    · exact hkeeps j (hdone j hj)
    · rwa [List.mem_singleton.mp hj]
  · exact ⟨hx, by simp⟩

theorem Linking.stepCreateContract (hx : m.Linking c performed x) (hclient : client = c.companyId)
    (profile : BrokerageProfile) : m.reruns c performed (stepCreateContract client profile)
      (fun id y => m.Linking c performed y ∧ id = m.contractId c ∧ y.working.partyIds = x.working.partyIds) x := by
  have hcontract := hx.same.contractId
  by_cases hid : x.working.ejarContractId.truthy
  · rw [reruns, wp_stepCreateContract_skip hid]
    rw [contractId, if_pos hid] at hcontract
    exact ⟨hx, hcontract, rfl⟩
  rw [contractId, if_neg hid] at hcontract
  obtain ⟨attrs, hattrs⟩ := buildContractAttributes_ok x.working profile
  have hresource : m.resource ⟨client, .createContract attrs⟩ = contractResource x.working := by
    rw [hclient, ← companyId_congr hx.same.base]
    exact resource_createContract hattrs
  rw [reruns, wp_stepCreateContract hid, hattrs, resultMeets_ok]
  apply callThen_answered
  rw [contractReply_answer, resultMeets_ok, hresource]
  apply writeThen_answered
  refine ⟨?_, hcontract, rfl⟩
  have hanswer := hx.answer (by simp [linkKinds] : "create_contract" ∈ linkKinds)
    (rfl : (m.resource ⟨client, .createContract attrs⟩).head? = _)
  exact hanswer.write (same_contract hid) fun _ => rfl

theorem Linking.stepAttachUnit (hx : m.Linking c performed x) {id : String}
    (hreg : (c.unitIds.row i).registered) : m.reruns c performed (stepAttachUnit client id i)
      (fun _ y => m.Linking c performed y ∧ y.working.partyIds = x.working.partyIds) x := by
  by_cases hlinked : (x.working.unitIds.row i).ejarContractUnitId.truthy
  · rw [reruns, wp_stepAttachUnit_skip hlinked]
    exact ⟨hx, rfl⟩
  have hreg' : (x.working.unitIds.row i).registered := by
    have hunit := congrArg ContractUnit.registered (unit_congr hx.same.base i)
    exact hunit.trans hreg
  rw [reruns, wp_stepAttachUnit hlinked hreg']
  apply callThen_answered
  rw [linkReply_answer, resultMeets_ok]
  apply writeThen_answered
  refine ⟨?_, rfl⟩
  have hanswer := hx.answer (by simp [linkKinds] : "attach_unit" ∈ linkKinds)
    (rfl : (m.resource ⟨client, .attachUnit id (x.working.unitIds.row i).ejarPropertyId
      (x.working.unitIds.row i).ejarUnitId⟩).head? = _)
  exact hanswer.write (same_unit _) fun _ => rfl

theorem Linking.stepAddParty (hx : m.Linking c performed x) (hclient : client = c.companyId) {id : String}
    (hid : id = m.contractId c) (hentity : (x.working.partyIds.row i).ejarEntityId.truthy) :
    m.reruns c performed (stepAddParty client id i) (fun _ y => (m.Linking c performed y ∧
      (y.working.partyIds.row i).ejarPartyId.truthy) ∧ KeepsIds Party.ejarPartyId x y ∧
        KeepsIds Party.ejarEntityId x y) x := by
  by_cases hlinked : (x.working.partyIds.row i).ejarPartyId.truthy
  · rw [reruns, wp_stepAddParty_skip hlinked]
    exact ⟨⟨hx, hlinked⟩, fun _ hj => hj, fun _ hj => hj⟩
  have hresource : m.resource ⟨client, .addParty id (x.working.partyIds.row i).attributes⟩ =
      m.partyResource x.working i := by
    rw [partyResource_of hentity, hclient, hid, companyId_congr hx.same.base, hx.same.contractId]
  rw [reruns, wp_stepAddParty hlinked hentity]
  apply callThen_answered
  rw [linkReply_answer, resultMeets_ok]
  apply writeThen_answered
  have hname : CharField.truthy (some (m.name (m.resource ⟨client, .addParty id
      (x.working.partyIds.row i).attributes⟩))) := by simpa using m.name_ne _
  have hanswer := hx.answer (by simp [linkKinds] : "add_party" ∈ linkKinds)
    (rfl : (m.resource ⟨client, .addParty id (x.working.partyIds.row i).attributes⟩).head? = _)
  refine ⟨⟨hanswer.write ?_ (docs_party rfl), ?_⟩, ?_, ?_⟩
  · exact same_partyId hlinked hresource
  · simp only [RecordWrite.apply, Records.modify_row_self]
    exact hname
  · intro j hj
    by_cases hji : j = i
    · subst hji
      exact absurd hj hlinked
    · simpa [RecordWrite.apply, hji] using hj
  · intro j hj
    by_cases hji : j = i
    · subst hji
      simpa [RecordWrite.apply, Party.set] using hj
    · simpa [RecordWrite.apply, hji] using hj

theorem partyId_truthy (m : Remote) (c : Contract) (i : Nat) : (m.partyId c i).truthy := by
  by_cases hid : (c.partyIds.row i).ejarPartyId.truthy
  · rwa [partyId, if_pos hid]
  · rw [partyId, if_neg hid]
    simpa using m.name_ne _

theorem proxyPending_congr {d : Contract} (hbase : d.base = c.base) (hparty : (d.partyIds.row i).ejarPartyId.truthy)
    (hdoc : (d.partyIds.row i).ejarProxyDocId = (c.partyIds.row i).ejarProxyDocId) :
    (d.partyIds.row i).proxyPending = (m.registered c i).proxyPending := by
  have hrow := party_congr hbase i
  have hrole : (d.partyIds.row i).role = (c.partyIds.row i).role := (congrArg Party.role hrow :)
  have hfile : (d.partyIds.row i).proxyDoc = (c.partyIds.row i).proxyDoc := (congrArg Party.proxyDoc hrow :)
  have hregistered : (m.registered c i).ejarPartyId.truthy := m.partyId_truthy c i
  rw [Party.proxyPending, Party.proxyPending, hrole, hfile, hdoc, hparty, hregistered]
  rfl

/-- The uploads of the proxy documents, after the rows `done`. -/
structure Uploading (m : Remote) (c : Contract) (performed : List Resource) (done : List Nat)
    (y : Session Contract (List Resource)) : Prop where
  same : m.Same c y.working
  parties : ∀ i ∈ c.partyIds.ids, (y.working.partyIds.row i).ejarPartyId.truthy
  uploaded : ∀ i ∈ done, (m.registered c i).proxyPending → (y.working.partyIds.row i).ejarProxyDocId.truthy
  untouched : ∀ i, ¬ (i ∈ done ∧ (m.registered c i).proxyPending) →
    (y.working.partyIds.row i).ejarProxyDocId = (c.partyIds.row i).ejarProxyDocId
  kept : ∀ r ∈ performed, r ∈ y.seen
  made : ∀ r ∈ y.seen, r ∈ performed ∨ (∃ kind ∈ linkKinds, r.head? = some kind) ∨
    ∃ i ∈ done, (m.registered c i).proxyPending ∧ r = m.proxyResource c i
  asked : ∀ i ∈ done, (m.registered c i).proxyPending → m.proxyResource c i ∈ y.seen
  fresh : ∀ i ∈ done, (m.registered c i).proxyPending → m.proxyResource c i ∉ performed
  distinct : ∀ i ∈ done, ∀ j ∈ done, (m.registered c i).proxyPending → (m.registered c j).proxyPending →
    m.proxyResource c i = m.proxyResource c j → i = j

theorem Uploading.skip {done : List Nat} (hx : m.Uploading c performed done x)
    (hi : (m.registered c i).proxyPending → i ∈ done) : m.Uploading c performed (done ++ [i]) x := by
  have hmem (j : Nat) (hpending : (m.registered c j).proxyPending) : j ∈ done ++ [i] → j ∈ done := by
    intro hj
    rcases List.mem_append.mp hj with hj | hj
    · exact hj
    · obtain rfl := List.mem_singleton.mp hj
      exact hi hpending
  refine ⟨hx.same, hx.parties, ?_, ?_, hx.kept, ?_, ?_, ?_, ?_⟩
  · exact fun j hj hpending => hx.uploaded j (hmem j hpending hj) hpending
  · intro j hj
    apply hx.untouched
    rintro ⟨hdone, hpending⟩
    exact hj ⟨List.mem_append_left [i] hdone, hpending⟩
  · intro r hr
    rcases hx.made r hr with hr | hr | ⟨j, hj, hpending⟩
    · exact Or.inl hr
    · exact Or.inr (Or.inl hr)
    · exact Or.inr (Or.inr ⟨j, List.mem_append_left [i] hj, hpending⟩)
  · exact fun j hj hpending => hx.asked j (hmem j hpending hj) hpending
  · exact fun j hj hpending => hx.fresh j (hmem j hpending hj) hpending
  · intro j hj k hk hpending hpending'
    exact hx.distinct j (hmem j hpending hj) k (hmem k hpending' hk) hpending hpending'

theorem Uploading.upload {done : List Nat} {seen : List Resource} (hx : m.Uploading c performed done x)
    (hopen : (m.registered c i).proxyPending) (hnew : m.proxyResource c i ∉ x.seen)
    (hseen : ∀ r, r ∈ seen ↔ r ∈ x.seen ∨ r = m.proxyResource c i) {docId : CharField} (hdoc : docId.truthy) :
    m.Uploading c performed (done ++ [i])
      ⟨x.committed, (RecordWrite.party i { ejarProxyDocId := some docId }).apply x.working, seen⟩ := by
  have hcases (j : Nat) (hj : j ∈ done ++ [i]) : j ∈ done ∨ j = i := by
    rcases List.mem_append.mp hj with hj | hj
    · exact Or.inl hj
    · exact Or.inr (List.mem_singleton.mp hj)
  have hself : ((RecordWrite.party i { ejarProxyDocId := some docId }).apply x.working).partyIds.row i =
      (x.working.partyIds.row i).set { ejarProxyDocId := some docId } := by
    simp [RecordWrite.apply]
  have hother (j : Nat) (hj : j ≠ i) : ((RecordWrite.party i { ejarProxyDocId := some docId }).apply
      x.working).partyIds.row j = x.working.partyIds.row j := by
    simp [RecordWrite.apply, hj]
  refine ⟨?_, ?_, ?_, ?_, ?_, ?_, ?_, ?_, ?_⟩
  · exact hx.same.trans (same_proxyDocId docId)
  · intro j hj
    by_cases hji : j = i
    · subst hji
      rw [hself]
      exact hx.parties j hj
    · rw [hother j hji]
      exact hx.parties j hj
  · intro j hj hpending
    by_cases hji : j = i
    · subst hji
      rw [hself]
      exact hdoc
    · rw [hother j hji]
      exact hx.uploaded j ((hcases j hj).resolve_right hji) hpending
  · intro j hj
    have hji : j ≠ i := by
      rintro rfl
      exact hj ⟨by simp, hopen⟩
    rw [hother j hji]
    exact hx.untouched j fun h => hj ⟨List.mem_append_left [i] h.1, h.2⟩
  · exact fun r hr => (hseen r).mpr (Or.inl (hx.kept r hr))
  · intro r hr
    rcases (hseen r).mp hr with hr | rfl
    · rcases hx.made r hr with hr | hr | ⟨j, hj, hpending⟩
      · exact Or.inl hr
      · exact Or.inr (Or.inl hr)
      · exact Or.inr (Or.inr ⟨j, List.mem_append_left [i] hj, hpending⟩)
    · exact Or.inr (Or.inr ⟨i, by simp, hopen, rfl⟩)
  · intro j hj hpending
    rcases hcases j hj with hj | rfl
    · exact (hseen _).mpr (Or.inl (hx.asked j hj hpending))
    · exact (hseen _).mpr (Or.inr rfl)
  · intro j hj hpending
    rcases hcases j hj with hj | rfl
    · exact hx.fresh j hj hpending
    · exact fun hbefore => hnew (hx.kept _ hbefore)
  · intro j hj k hk hpending hpending' hsame
    rcases hcases j hj with hold | hlast
    · rcases hcases k hk with hold' | hlast'
      · exact hx.distinct j hold k hold' hpending hpending' hsame
      · have hasked := hx.asked j hold hpending
        rw [hsame, hlast'] at hasked
        exact absurd hasked hnew
    · rcases hcases k hk with hold' | hlast'
      · have hasked := hx.asked k hold' hpending'
        rw [← hsame, hlast] at hasked
        exact absurd hasked hnew
      · exact hlast.trans hlast'.symm

theorem proxyResource_head (m : Remote) (c : Contract) (i : Nat) :
    (m.proxyResource c i).head? = some "upload_proxy_doc" := rfl

/-- The document of one representative, and what a conflict says of it. -/
theorem Uploading.uploadRepresentativeDoc {done : List Nat} (hx : m.Uploading c performed done x)
    (hdone : ∀ j ∈ done, j ∈ c.partyIds.ids) (hi : i ∈ c.partyIds.ids) (hclient : client = c.companyId) {id : String}
    (hid : id = m.contractId c) : m.reruns c performed (uploadRepresentativeDoc client id i)
      (fun _ y => m.Uploading c performed (done ++ [i]) y) x := by
  rw [reruns, wp_uploadRepresentativeDoc]
  by_cases hdoing : i ∈ done ∧ (m.registered c i).proxyPending
  · have huploaded := hx.uploaded i hdoing.1 hdoing.2
    have hidle : ¬ (x.working.partyIds.row i).proxyPending := by simp [Party.proxyPending, huploaded]
    rw [if_neg hidle]
    exact hx.skip fun _ => hdoing.1
  have hpending : (x.working.partyIds.row i).proxyPending = (m.registered c i).proxyPending :=
    proxyPending_congr hx.same.base (hx.parties i hi) (hx.untouched i hdoing)
  by_cases hopen : (m.registered c i).proxyPending
  · have hresource : m.resource ⟨client, (x.working.partyIds.row i).proxyCall id⟩ = m.proxyResource c i := by
      rw [hclient, hid, ← companyId_congr hx.same.base, ← hx.same.contractId, ← proxyResource_of (hx.parties i hi),
        hx.same.proxyResource]
    have hnew : i ∉ done := fun h => hdoing ⟨h, hopen⟩
    rw [if_pos (hpending.trans hopen)]
    apply callThen_answered
    by_cases hagain : m.resource ⟨client, (x.working.partyIds.row i).proxyCall id⟩ ∈ x.seen
    · obtain ⟨e, he⟩ := proxyReply_again hagain
      rw [he, resultMeets_error]
      intro hfresh
      rw [hresource] at hagain
      rcases hx.made _ hagain with hbefore | ⟨kind, hkind, hhead⟩ | ⟨j, hj, hpending', hsame⟩
      · exact hfresh.proxies i hi hopen hbefore
      · rw [proxyResource_head, Option.some.injEq] at hhead
        revert hkind
        rw [← hhead]
        simp [linkKinds]
      · obtain rfl := hfresh.distinct i hi j (hdone j hj) hopen hpending' hsame
        exact hnew hj
    · rw [proxyReply_new hagain, resultMeets_ok]
      apply writeThen_answered
      have hname : CharField.truthy (some (m.name (m.resource ⟨client, (x.working.partyIds.row i).proxyCall id⟩))) := by
        simpa using m.name_ne _
      apply hx.upload hopen (by rwa [hresource] at hagain) ?_ hname
      intro r
      rw [m.mem_answer, hresource]
  · rw [if_neg (by rw [hpending]; exact hopen)]
    exact hx.skip fun h => absurd h hopen

theorem Linking.resolveProfile (hx : m.Linking c performed x) (hparties : x.working.partyIds = c.partyIds)
    (hunits : x.working.unitIds = c.unitIds) (hprofile : x.working.brokerageProfileId = c.brokerageProfileId)
    (hvalid : c.Valid env) :
    m.reruns c performed (resolveProfile env) (fun _ y => m.Linking c performed y) x := by
  obtain ⟨profile, hfound, hchecks⟩ := hvalid.profile
  have hchecks' (d : Contract) (hp : d.partyIds = c.partyIds) (hu : d.unitIds = c.unitIds) :
      validateForSubmission env profile d = .ok () := by
    rw [← hchecks, validateForSubmission, validateForSubmission, Contract.parties, Contract.parties, Contract.units,
      Contract.units, hp, hu]
  rw [reruns, Ejar.resolveProfile, wp_bind, findProfile, wp_bind, wp_get, hprofile]
  cases hown : c.brokerageProfileId with
  | some own =>
    rw [hown] at hfound
    obtain rfl : own = profile := Option.some.inj hfound
    simp only [Prog.pure_eq, wp_ret, wp_bind, wp_get, wp_ofExcept, hchecks' _ hparties hunits, resultMeets_ok]
    exact hx
  | none =>
    rw [hown, Option.none_or] at hfound
    rw [hfound]
    simp only [wp_bind, wp_writeContract, Prog.pure_eq, wp_ret]
    apply writeThen_answered
    have hchecked := hchecks' ((RecordWrite.contract { brokerageProfileId := some (some profile) }).apply x.working)
      hparties hunits
    simp only [wp_get, wp_ofExcept, hchecked, resultMeets_ok]
    exact hx.write (same_of_base rfl rfl rfl) fun _ => rfl

theorem Linking.buildClient (hx : m.Linking c performed x) (hvalid : c.Valid env) :
    m.reruns c performed (buildClient env) (fun client y => m.Linking c performed y ∧ client = c.companyId) x := by
  simp only [reruns, Ejar.buildClient, wp_bind, wp_get, wp_ofExcept, Prog.pure_eq, wp_ret, hvalid.credentials,
    resultMeets_ok]
  exact ⟨hx, companyId_congr hx.same.base⟩

theorem Rerun.stepUploadSignedDoc (hx : m.Rerun c performed docKinds x) (hclient : client = c.companyId)
    {id : String} (hid : id = m.contractId c) (hvalid : c.Valid env) :
    m.reruns c performed (stepUploadSignedDoc client id)
      (fun _ y => m.Rerun c performed infoKinds y ∧ m.signedResource c ∉ performed) x := by
  have hdoc : x.working.signedDoc.truthy := by
    have hsame := congrArg Contract.signedDoc hx.same.base
    exact (congrArg BinaryField.truthy hsame).trans hvalid.signedDoc
  have hresource : m.resource ⟨client, x.working.signedDocCall id⟩ = m.signedResource c := by
    rw [hclient, hid, ← companyId_congr hx.same.base, ← hx.same.contractId]
    exact hx.same.signedResource
  have hhead : (m.resource ⟨client, x.working.signedDocCall id⟩).head? = some "upload_signed_doc" := rfl
  rw [reruns, wp_stepUploadSignedDoc hdoc]
  apply callThen_answered
  by_cases hagain : m.resource ⟨client, x.working.signedDocCall id⟩ ∈ x.seen
  · obtain ⟨e, he⟩ := docReply_again hagain
    rw [he, resultMeets_error]
    intro hfresh
    have hbefore := hx.mem_of_kind hagain hhead (by simp [docKinds, linkKinds])
    rw [hresource] at hbefore
    exact hfresh.signed hbefore
  · rw [docReply_new hagain, resultMeets_ok]
    have hlater : m.Rerun c performed infoKinds x := hx.mono (List.subset_append_right _ _)
    refine ⟨hlater.answer (by simp [infoKinds]) hhead, ?_⟩
    intro hbefore
    rw [← hresource] at hbefore
    exact hagain (hx.kept _ hbefore)

theorem Rerun.stepAddFinancialInfo {id : String} (hx : m.Rerun c performed infoKinds x) :
    m.reruns c performed (stepAddFinancialInfo client id) (fun _ y => m.Rerun c performed infoKinds y) x := by
  obtain ⟨attrs, hattrs⟩ := buildFinancialAttributes_ok x.working
  rw [reruns, wp_stepAddFinancialInfo, hattrs, resultMeets_ok]
  apply callThen_answered
  rw [infoReply_answer, resultMeets_ok]
  exact hx.answer (by simp [infoKinds] : "add_financial_info" ∈ infoKinds) rfl

theorem Rerun.stepAddRentalFee {id : String} {profile : BrokerageProfile} (hx : m.Rerun c performed infoKinds x) :
    m.reruns c performed (stepAddRentalFee client profile id) (fun _ y => m.Rerun c performed infoKinds y) x := by
  rw [reruns, wp_stepAddRentalFee]
  cases buildRentalFeeAttributes x.working (some profile) with
  | none => exact hx
  | some attrs =>
    apply callThen_answered
    rw [infoReply_answer, resultMeets_ok]
    exact hx.answer (by simp [infoKinds] : "add_rental_fee" ∈ infoKinds) rfl

theorem Rerun.stepSubmit (hx : m.Rerun c performed infoKinds x) (hclient : client = c.companyId) {id : String}
    (hid : id = m.contractId c) : m.reruns c performed (stepSubmit client id)
      (fun _ y => m.submitResource c ∉ performed ∧ m.submitResource c ∈ y.seen) x := by
  have hresource : m.resource ⟨client, .submitContract id⟩ = m.submitResource c := by
    rw [hclient, hid, submitResource]
  rw [reruns, wp_stepSubmit]
  apply callThen_answered
  by_cases hagain : m.resource ⟨client, .submitContract id⟩ ∈ x.seen
  · obtain ⟨e, he⟩ := submitReply_again hagain
    rw [he, resultMeets_error]
    intro hfresh
    have hbefore := hx.mem_of_kind hagain rfl (by simp [infoKinds, docKinds, linkKinds])
    rw [hresource] at hbefore
    exact hfresh.submit hbefore
  · rw [submitReply_new hagain, resultMeets_ok]
    constructor
    · intro hbefore
      rw [← hresource] at hbefore
      exact hagain (hx.kept _ hbefore)
    · exact (m.mem_answer _ _ _).mpr (Or.inr hresource.symm)

/-- Each row of the parties has its id. -/
def HasIds (f : Party → CharField) (c : Contract) (y : Session Contract (List Resource)) : Prop :=
  ∀ i ∈ c.partyIds.ids, (f (y.working.partyIds.row i)).truthy

/-- What is known after each commit of the rerun. -/
def rerunOutline (m : Remote) (c : Contract) (performed : List Resource) : Outline (List Resource) where
  start _ client y := m.Linking c performed y ∧ client = c.companyId
  entities _ client y := m.Linking c performed y ∧ HasIds Party.ejarEntityId c y ∧ client = c.companyId
  created _ client id y := m.Linking c performed y ∧ HasIds Party.ejarEntityId c y ∧ client = c.companyId ∧
    id = m.contractId c
  units _ client id y := m.Linking c performed y ∧ HasIds Party.ejarEntityId c y ∧ client = c.companyId ∧
    id = m.contractId c
  parties _ client id y := m.Linking c performed y ∧ HasIds Party.ejarPartyId c y ∧ client = c.companyId ∧
    id = m.contractId c
  proxyDocs _ client id y := m.Rerun c performed docKinds y ∧ m.ProxiesFresh c performed ∧ client = c.companyId ∧
    id = m.contractId c
  signedDoc _ client id y := m.Rerun c performed infoKinds y ∧ (m.ProxiesFresh c performed ∧
    m.signedResource c ∉ performed) ∧ client = c.companyId ∧ id = m.contractId c
  financialInfo _ client id y := m.Rerun c performed infoKinds y ∧ (m.ProxiesFresh c performed ∧
    m.signedResource c ∉ performed) ∧ client = c.companyId ∧ id = m.contractId c
  rentalFee _ client id y := m.Rerun c performed infoKinds y ∧ (m.ProxiesFresh c performed ∧
    m.signedResource c ∉ performed) ∧ client = c.companyId ∧ id = m.contractId c
  submit _ y := m.Fresh c performed ∧ m.submitResource c ∈ y.seen

theorem reruns_commit {α : Type} {p : Pipeline α} {N : α → Session Contract (List Resource) → Prop}
    {P : α → Session Contract (List Resource) → Prop} (hp : m.reruns c performed p N x)
    (hP : ∀ a y, N a y → P a ⟨y.working, y.working, y.seen⟩) :
    m.reruns c performed p (fun a => atCommit m.answered (fun _ => True) (P a)) x :=
  wp_mono (fun a y hy => atCommit_answered (hP a y hy)) (fun _ _ hy => hy) (fun _ hy => hy) hp

theorem Linking.resolvePartyEntities (hx : m.Linking c performed x) (hclient : client = c.companyId)
    (hparties : ∀ i ∈ c.partyIds.ids, (c.partyIds.row i).validateForSubmission = .ok ()) :
    m.reruns c performed (resolvePartyEntities client)
      (fun _ y => m.Linking c performed y ∧ HasIds Party.ejarEntityId c y) x := by
  have hids : x.working.partyIds.ids = c.partyIds.ids := (congrArg (fun d : Contract => d.partyIds.ids) hx.same.base :)
  rw [reruns, Ejar.resolvePartyEntities, wp_bind, wp_get, hids]
  exact reruns_each (fun i hi y hy => hy.resolvePartyEntity hclient (hparties i hi)) hx

theorem Linking.attachUnits {id : String} (hx : m.Linking c performed x) (hentities : HasIds Party.ejarEntityId c x)
    (hvalid : c.Valid env) : m.reruns c performed (attachUnits client id)
      (fun _ y => m.Linking c performed y ∧ HasIds Party.ejarEntityId c y) x := by
  have hids : x.working.unitIds.ids = c.unitIds.ids := (congrArg (fun d : Contract => d.unitIds.ids) hx.same.base :)
  rw [reruns, Ejar.attachUnits, wp_bind, wp_get, hids]
  apply wp_forEach_inv (I := fun y => m.Linking c performed y ∧ HasIds Party.ejarEntityId c y) ?_ ⟨hx, hentities⟩
  rintro i hi y ⟨hy, hids⟩
  refine wp_mono (fun _ z hz => ⟨hz.1, ?_⟩) (fun _ _ hz => hz) (fun _ hz => hz)
    (hy.stepAttachUnit (hvalid.units i hi))
  rw [HasIds, hz.2]
  exact hids

theorem Linking.addParties {id : String} (hx : m.Linking c performed x) (hentities : HasIds Party.ejarEntityId c x)
    (hclient : client = c.companyId) (hid : id = m.contractId c) : m.reruns c performed (addParties client id)
      (fun _ y => m.Linking c performed y ∧ HasIds Party.ejarPartyId c y) x := by
  have hids : x.working.partyIds.ids = c.partyIds.ids := (congrArg (fun d : Contract => d.partyIds.ids) hx.same.base :)
  rw [reruns, Ejar.addParties, wp_bind, wp_get, hids]
  have hloop : m.reruns c performed (Prog.forEach c.partyIds.ids (Ejar.stepAddParty client id))
      (fun _ y => (m.Linking c performed y ∧ HasIds Party.ejarEntityId c y) ∧ HasIds Party.ejarPartyId c y) x := by
    apply reruns_each (I := fun y => m.Linking c performed y ∧ HasIds Party.ejarEntityId c y) ?_ ⟨hx, hentities⟩
    rintro i hi y ⟨hy, hids⟩
    refine wp_mono (fun _ z hz => ?_) (fun _ _ hz => hz) (fun _ hz => hz) (hy.stepAddParty hclient hid (hids i hi))
    obtain ⟨⟨hz, hparty⟩, hkeeps, hkeeps'⟩ := hz
    exact ⟨⟨⟨hz, fun j hj => hkeeps' j (hids j hj)⟩, hparty⟩, hkeeps⟩
  exact wp_mono (fun _ y hy => ⟨hy.1.1, hy.2⟩) (fun _ _ hy => hy) (fun _ hy => hy) hloop

theorem Linking.uploadProxyDocs {id : String} (hx : m.Linking c performed x) (hparties : HasIds Party.ejarPartyId c x)
    (hclient : client = c.companyId) (hid : id = m.contractId c) : m.reruns c performed (uploadProxyDocs client id)
      (fun _ y => m.Rerun c performed docKinds y ∧ m.ProxiesFresh c performed) x := by
  have hids : x.working.partyIds.ids = c.partyIds.ids := (congrArg (fun d : Contract => d.partyIds.ids) hx.same.base :)
  have hstart : m.Uploading c performed [] x := by
    refine ⟨hx.same, hparties, by simp, fun i _ => hx.docs i, hx.kept, ?_, by simp, by simp, by simp⟩
    intro r hr
    rcases hx.made r hr with hr | hr
    · exact Or.inl hr
    · exact Or.inr (Or.inl hr)
  rw [reruns, Ejar.uploadProxyDocs, wp_bind, wp_get, hids]
  have hloop : m.reruns c performed (Prog.forEach c.partyIds.ids (uploadRepresentativeDoc client id))
      (fun _ y => m.Uploading c performed c.partyIds.ids y) x := by
    apply wp_forEach (I := fun done y => m.Uploading c performed done y) ?_ hstart
    intro done i rest hrest y hy
    apply hy.uploadRepresentativeDoc ?_ (by simp [hrest]) hclient hid
    intro j hj
    simp [hrest, hj]
  refine wp_mono (fun _ y hy => ?_) (fun _ _ hy => hy) (fun _ hy => hy) hloop
  refine ⟨⟨hy.same, hy.kept, ?_⟩, ⟨hy.fresh, hy.distinct⟩⟩
  intro r hr
  rcases hy.made r hr with hr | ⟨kind, hkind, hhead⟩ | ⟨i, -, -, rfl⟩
  · exact Or.inl hr
  · exact Or.inr ⟨kind, List.mem_cons_of_mem _ hkind, hhead⟩
  · exact Or.inr ⟨_, List.mem_cons_self, m.proxyResource_head c i⟩

theorem Linking.runPipeline (hx : m.Linking c performed x) (hparties : x.working.partyIds = c.partyIds)
    (hunits : x.working.unitIds = c.unitIds) (hprofile : x.working.brokerageProfileId = c.brokerageProfileId)
    (hvalid : c.Valid env) : m.reruns c performed (runPipeline env)
      (fun _ y => m.Fresh c performed ∧ m.submitResource c ∈ y.seen ∧ y.committed.ejarStatus = .submitted) x := by
  have hchecks : ∀ i ∈ c.partyIds.ids, (c.partyIds.row i).validateForSubmission = .ok () := by
    obtain ⟨profile, -, hchecks⟩ := hvalid.profile
    obtain ⟨_, -, hchecks⟩ := bind_eq_ok.mp hchecks
    obtain ⟨_, hchecks, -⟩ := bind_eq_ok.mp hchecks
    intro i hi
    exact forM_ok hchecks _ (List.mem_map.mpr ⟨i, hi, rfl⟩)
  apply wp_runPipeline (m.rerunOutline c performed)
  · refine wp_mono (fun _ y hy => ?_) (fun _ _ hy => hy) (fun _ hy => hy)
      (hx.resolveProfile hparties hunits hprofile hvalid)
    exact hy.buildClient hvalid
  · rintro profile client y ⟨hy, hclient⟩
    exact reruns_commit (hy.resolvePartyEntities hclient hchecks) fun _ z hz => ⟨hz.1.commit, hz.2, hclient⟩
  · rintro profile client y ⟨hy, hids, hclient⟩
    refine reruns_commit (hy.stepCreateContract hclient profile) fun _ z hz => ⟨hz.1.commit, ?_, hclient, hz.2.1⟩
    intro i hi
    have hid := hids i hi
    rwa [← hz.2.2] at hid
  · rintro profile client id y ⟨hy, hids, hclient, hid⟩
    exact reruns_commit (hy.attachUnits hids hvalid) fun _ z hz => ⟨hz.1.commit, hz.2, hclient, hid⟩
  · rintro profile client id y ⟨hy, hids, hclient, hid⟩
    exact reruns_commit (hy.addParties hids hclient hid) fun _ z hz => ⟨hz.1.commit, hz.2, hclient, hid⟩
  · rintro profile client id y ⟨hy, hids, hclient, hid⟩
    exact reruns_commit (hy.uploadProxyDocs hids hclient hid) fun _ z hz => ⟨hz.1.commit, hz.2, hclient, hid⟩
  · rintro profile client id y ⟨hy, hfresh, hclient, hid⟩
    exact reruns_commit (hy.stepUploadSignedDoc hclient hid hvalid) fun _ z hz =>
      ⟨hz.1.commit, ⟨hfresh, hz.2⟩, hclient, hid⟩
  · rintro profile client id y ⟨hy, hfresh, hclient, hid⟩
    exact reruns_commit hy.stepAddFinancialInfo fun _ z hz => ⟨hz.commit, hfresh, hclient, hid⟩
  · rintro profile client id y ⟨hy, hfresh, hclient, hid⟩
    exact reruns_commit hy.stepAddRentalFee fun _ z hz => ⟨hz.commit, hfresh, hclient, hid⟩
  · rintro profile client id y ⟨hy, ⟨hproxies, hsigned⟩, hclient, hid⟩
    refine wp_mono (fun _ z hz => ?_) (fun _ _ hz => hz) (fun _ hz => hz) (hy.stepSubmit hclient hid)
    exact ⟨⟨hproxies, hsigned, hz.1⟩, hz.2⟩
  · rintro id y ⟨hfresh, hsubmit⟩
    rw [finalize, wp_bind, wp_writeContract]
    apply writeThen_answered
    rw [wp_bind, wp_commitNow]
    refine ⟨trivial, fun seen hs => ?_⟩
    obtain rfl : seen = y.seen := hs
    exact ⟨hfresh, hsubmit, rfl⟩

theorem executeFullSubmission_reruns (hvalid : c.Valid env) : m.reruns c performed (executeFullSubmission env)
    (fun _ y => m.Fresh c performed ∧ m.submitResource c ∈ y.seen ∧ y.committed.ejarStatus = .submitted)
    ⟨c, c, performed⟩ := by
  have hstart : m.Linking c performed ⟨c, c, performed⟩ :=
    ⟨⟨Same.refl m c, fun _ hr => hr, fun _ hr => Or.inl hr⟩, fun _ => rfl⟩
  apply wp_executeFullSubmission (M := fun y => m.Linking c performed y ∧ y.working.partyIds = c.partyIds ∧
    y.working.unitIds = c.unitIds ∧ y.working.brokerageProfileId = c.brokerageProfileId)
    (F := fun _ _ => ¬ m.Fresh c performed)
  · apply writeThen_answered
    have hwritten := hstart.write (u := .contract { ejarStatus := some .submitting
                                                    submitAttempt := some (c.submitAttempt + 1)
                                                    submitError := some none })
      (same_of_base rfl rfl rfl) fun _ => rfl
    exact atCommit_answered ⟨hwritten.commit, rfl, rfl, rfl⟩
  · rintro y ⟨hy, hparties, hunits, hprofile⟩
    exact hy.runPipeline hparties hunits hprofile hvalid
  · intro exc y hy
    apply writeThen_answered
    exact atCommit_answered hy

/-- The rerun in which every call is answered. -/
def rerun (m : Remote) (env : Env) (c : Contract) (performed : List Resource) :
    Outcome Exc SubmissionResult × Session Contract (List Resource) :=
  (executeFullSubmission env).run RecordWrite.apply (fun performed request => some (m.answer performed request))
    ⟨c, c, performed⟩

/-- It ends with the contract submitted on both sides. -/
def Resumes (m : Remote) (env : Env) (c : Contract) (performed : List Resource) : Prop :=
  (∃ submitted, (m.rerun env c performed).1 = .ret submitted) ∧
    (m.rerun env c performed).2.committed.ejarStatus = .submitted ∧
    m.submitResource c ∈ (m.rerun env c performed).2.seen

theorem rerun_exec (m : Remote) (env : Env) (c : Contract) (performed : List Resource) :
    Exec RecordWrite.apply m.answered (executeFullSubmission env) ⟨c, c, performed⟩ (m.rerun env c performed).1
      (m.rerun env c performed).2 :=
  Prog.run_exec _ _ _ _

theorem resumes_iff (hvalid : c.Valid env) : m.Resumes env c performed ↔ m.Fresh c performed := by
  have hend := wp_sound (executeFullSubmission_reruns (m := m) hvalid) (m.rerun_exec env c performed)
  have hcut : (m.rerun env c performed).1 ≠ .cut := Prog.run_not_cut (fun _ _ => rfl) _ _
  rw [Resumes]
  cases hresult : (m.rerun env c performed).1 with
  | ret submitted =>
    rw [hresult] at hend
    obtain ⟨hfresh, hsubmit, hstatus⟩ := hend
    exact ⟨fun _ => hfresh, fun _ => ⟨⟨submitted, rfl⟩, hstatus, hsubmit⟩⟩
  | raise e =>
    rw [hresult] at hend
    have hstale : ¬ m.Fresh c performed := hend
    constructor
    · rintro ⟨⟨submitted, hret⟩, -⟩
      cases hret
    · exact fun hfresh => absurd hfresh hstale
  | cut => exact absurd hresult hcut

theorem Attempts.rerun {c₀ : Contract} (h : m.Attempts c₀ c performed) (env : Env) :
    m.Attempts c₀ (m.rerun env c performed).2.committed (m.rerun env c performed).2.seen := by
  have hrun := (m.rerun_exec env c performed).mono fun _ _ _ hs => m.answered_unreliable hs
  exact .attempt env h hrun

end Remote

/-- After any attempts nothing has been done twice, nor is it by the rerun in
which every call is answered; and this rerun ends submitted just when the
documents without an id and the submission are still to be done. -/
theorem submission_resumable_iff {m : Remote} {c₀ c : Contract} {performed : List Resource}
    (h : m.Attempts c₀ c performed) {env : Env} (hvalid : c.Valid env) :
    ((m.rerun env c performed).2.seen.Nodup ∧ ∀ r ∈ (m.rerun env c performed).2.seen, m.StepResource c₀ r) ∧
      m.Resumes env c performed ↔ m.Fresh c performed := by
  obtain ⟨-, hnodup, hsteps⟩ := (h.rerun env).once
  rw [Remote.resumes_iff hvalid]
  exact ⟨fun h => h.2, fun hfresh => ⟨⟨hnodup, hsteps⟩, hfresh⟩⟩

theorem Contract.valid_of_checks {c : Contract} {env : Env} (hprofile : c.brokerageProfileId.any fun profile =>
      (validateForSubmission env profile c).isOk) (hcredentials : env.credentials = .ok ())
    (hsigned : c.signedDoc.truthy) (hunits : ∀ i ∈ c.unitIds.ids, (c.unitIds.row i).registered) : c.Valid env := by
  obtain ⟨profile, hsome, hok⟩ := (Option.any_eq_true _ _).mp hprofile
  refine ⟨⟨profile, by rw [hsome]; rfl, ?_⟩, hcredentials, hsigned, hunits⟩
  cases hchecks : validateForSubmission env profile c with
  | error e =>
    rw [hchecks] at hok
    cases hok
  | ok _ => rfl

theorem sampleContract_valid : (sampleContract "EJ/1").Valid sampleEnv := by
  apply Contract.valid_of_checks ?_ rfl
  all_goals decide +kernel

theorem submission_resumable_first :
    ((sampleRemote.rerun sampleEnv (sampleContract "EJ/1") []).2.seen.Nodup ∧
        ∀ r ∈ (sampleRemote.rerun sampleEnv (sampleContract "EJ/1") []).2.seen,
          sampleRemote.StepResource (sampleContract "EJ/1") r) ∧
      sampleRemote.Resumes sampleEnv (sampleContract "EJ/1") [] := by
  apply (submission_resumable_iff .none sampleContract_valid).mpr
  have hnone : ∀ i ∈ (sampleContract "EJ/1").partyIds.ids,
      (sampleRemote.registered (sampleContract "EJ/1") i).proxyPending = false := by
    decide +kernel
  refine ⟨⟨by simp, ?_⟩, by simp, by simp⟩
  intro i hi j _ hpending
  rw [hnone i hi] at hpending
  cases hpending

/-- The first attempt on the sample contract, where the financial information
does not get through. -/
def stoppedRun : Outcome Exc SubmissionResult × Session Contract (List Resource) :=
  (executeFullSubmission sampleEnv).run RecordWrite.apply
    (fun performed request =>
      match request.call with
      | .addFinancialInformation .. => some (.timeout, performed)
      | _ => some (sampleRemote.answer performed request))
    ⟨sampleContract "EJ/1", sampleContract "EJ/1", []⟩

theorem stoppedRun_attempts :
    sampleRemote.Attempts (sampleContract "EJ/1") stoppedRun.2.committed stoppedRun.2.seen := by
  apply Remote.Attempts.attempt sampleEnv .none
  apply (Prog.run_exec _ _ _ _).mono
  rintro performed (u | _ | ⟨request, reply⟩ | request) performed' hs
  · exact hs
  · exact hs
  · obtain ⟨client, call⟩ := request
    cases call with
    | addFinancialInformation id attrs =>
      obtain ⟨rfl, rfl⟩ := Prod.mk.inj (Option.some.inj hs)
      exact Or.inr ⟨by decide, Or.inl rfl⟩
    | _ => exact Or.inl (Option.some.inj hs).symm
  · exact hs.elim

theorem stoppedRun_valid : stoppedRun.2.committed.Valid sampleEnv := by
  apply Contract.valid_of_checks ?_ rfl
  all_goals decide +kernel

/-- Stopped after the signed document, the submission is not resumed by the
rerun: the upload is answered with a conflict. -/
theorem submission_not_resumable : ¬ ∀ (m : Remote) (c₀ c : Contract) (performed : List Resource),
    m.Attempts c₀ c performed → ∀ env, c₀.Valid env → c.Valid env →
      ((m.rerun env c performed).2.seen.Nodup ∧ ∀ r ∈ (m.rerun env c performed).2.seen, m.StepResource c₀ r) ∧
        m.Resumes env c performed := by
  intro h
  obtain ⟨-, hresumes⟩ := h _ _ _ _ stoppedRun_attempts sampleEnv sampleContract_valid stoppedRun_valid
  have hfresh := (Remote.resumes_iff stoppedRun_valid).mp hresumes
  have hsigned : sampleRemote.signedResource stoppedRun.2.committed ∈ stoppedRun.2.seen := by
    decide +kernel
  exact hfresh.signed hsigned

end Ejar
