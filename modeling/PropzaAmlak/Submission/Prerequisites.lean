import PropzaAmlak.Ejar.PipelineRule

/-! Submission attempts one after another: a stored id is evidence that Ejar
accepted the call it came from, so that nothing is submitted before its
prerequisites. -/

namespace Ejar

open Tx

/-- Every answer that Ejar gives to a call it takes carries an id. -/
def answersWithId (_ : Trace) : Event RecordWrite Request Reply → Prop
  | .call _ reply => reply.accepted → reply.carriesId
  | _ => True

abbrev answering : Observer RecordWrite Request Reply Trace := record answersWithId

/-- A call of `submit_contract`, whether it is answered or not. -/
def submits (id : String) : Event RecordWrite Request Reply → Prop
  | .call request _ => request.call = .submitContract id
  | .lost request => request.call = .submitContract id
  | _ => False

/-- Ejar took the call. -/
def Accepted (t : Trace) (call : ApiCall) : Prop :=
  ∃ request reply, .call request reply ∈ t ∧ request.call = call ∧ reply.accepted

/-- Ejar took the call after `before`, and `u` was written next. -/
def AcceptedThen (t before : Trace) (call : ApiCall) (u : RecordWrite) : Prop :=
  ∃ request reply after, t = before ++ .call request reply :: .write u :: after ∧
    request.call = call ∧ reply.accepted

def ApiCall.createsEntity : ApiCall → Prop
  | .createIndividualEntity _ => True
  | .createOrganizationEntity _ => True
  | _ => False

/-- The entity id `v` of party `i` was stored from a call Ejar took. -/
def EntityStored (t : Trace) (i : Nat) (v : CharField) : Prop :=
  ∃ before call, call.createsEntity ∧
    AcceptedThen t before call (.party i { ejarEntityId := some v, syncState := some .synced })

/-- Ejar took party `i` for the contract `id`, under an entity it had before. -/
def PartyStored (t : Trace) (id : String) (i : Nat) : Prop :=
  ∃ before attrs v, EntityStored before i attrs.entityId ∧
    AcceptedThen t before (.addParty id attrs)
      (.party i { ejarPartyId := some v, syncState := some .synced })

def UnitStored (t : Trace) (id : String) (i : Nat) : Prop :=
  ∃ before propertyId unitId v, AcceptedThen t before (.attachUnit id propertyId unitId)
    (.unit i { ejarContractUnitId := some v, syncState := some .synced })

/-- A remote id, once stored, stays. Rows of the one record that are not on the
other do not count. -/
structure RemoteKept (c c' : Contract) : Prop where
  contractId : c.ejarContractId.truthy → c'.ejarContractId = c.ejarContractId
  party : ∀ i ∈ c.partyIds.ids, i ∈ c'.partyIds.ids →
    ((c.partyIds.row i).ejarEntityId.truthy →
      (c'.partyIds.row i).ejarEntityId = (c.partyIds.row i).ejarEntityId) ∧
    ((c.partyIds.row i).ejarPartyId.truthy →
      (c'.partyIds.row i).ejarPartyId = (c.partyIds.row i).ejarPartyId)
  unit : ∀ i ∈ c.unitIds.ids, i ∈ c'.unitIds.ids → (c.unitIds.row i).ejarContractUnitId.truthy →
    (c'.unitIds.row i).ejarContractUnitId = (c.unitIds.row i).ejarContractUnitId

def Party.unlinked (p : Party) : Prop := ¬ p.ejarEntityId.truthy ∧ ¬ p.ejarPartyId.truthy

/-- What happens to a contract between two attempts: any field a user, a job or
a status reset may write, and any rows added or removed. Ids of removed rows do
not come back. -/
structure Edited (past : List Contract) (c c' : Contract) : Prop where
  contractId : c'.ejarContractId = c.ejarContractId
  party : ∀ i ∈ c'.partyIds.ids,
    (i ∈ c.partyIds.ids ∧ (c'.partyIds.row i).ejarEntityId = (c.partyIds.row i).ejarEntityId ∧
      (c'.partyIds.row i).ejarPartyId = (c.partyIds.row i).ejarPartyId) ∨
    ((∀ d ∈ past, i ∉ d.partyIds.ids) ∧ (c'.partyIds.row i).unlinked)
  unit : ∀ i ∈ c'.unitIds.ids,
    (i ∈ c.unitIds.ids ∧
      (c'.unitIds.row i).ejarContractUnitId = (c.unitIds.row i).ejarContractUnitId) ∨
    ((∀ d ∈ past, i ∉ d.unitIds.ids) ∧ ¬ (c'.unitIds.row i).ejarContractUnitId.truthy)

structure Unlinked (c : Contract) : Prop where
  contractId : ¬ c.ejarContractId.truthy
  party : ∀ i ∈ c.partyIds.ids, (c.partyIds.row i).unlinked
  unit : ∀ i ∈ c.unitIds.ids, ¬ (c.unitIds.row i).ejarContractUnitId.truthy

/-- One attempt on a contract saved as `c`, which leaves it saved as `c'`. -/
def Attempt (c : Contract) (o : Outcome Exc SubmissionResult) (c' : Contract) (s : Trace) : Prop :=
  ∃ env w, Exec RecordWrite.apply answering (executeFullSubmission env) ⟨c, c, []⟩ o ⟨c', w, s⟩

/-- The states a contract was saved in, the last of them, and what all its
attempts did. -/
inductive History : List Contract → Contract → Trace → Prop where
  | start {c} (hc : Unlinked c) : History [c] c []
  | edit {past c t c'} (h : History past c t) (hc' : Edited past c c') : History (past ++ [c']) c' t
  | attempt {past c t o c' s} (h : History past c t) (ha : Attempt c o c' s) :
    History (past ++ snapshots RecordWrite.apply c s) c' (t ++ s)

/-- What is behind a call of `submit_contract` for the contract `id`, made after
`before` in an attempt that found the record as `c`. -/
structure Prerequisites (past : List Contract) (c : Contract) (t before : Trace) (id : String) :
    Prop where
  nonempty : id ≠ ""
  stored : (committedAfter RecordWrite.apply c c before).ejarContractId = some id
  first : ∀ d ∈ past ++ snapshots RecordWrite.apply c before,
    d.ejarContractId.truthy → d.ejarContractId = some id
  parties : ∀ i ∈ c.partyIds.ids, PartyStored (t ++ before) id i
  units : ∀ i ∈ c.unitIds.ids, UnitStored (t ++ before) id i
  signedDoc : ∃ content filename, Accepted before (.uploadSignedDocument id content filename)
  financialInfo : ∃ attrs, Accepted before (.addFinancialInformation id attrs)
  rentalFee : c.brokerageFee ≠ 0 → ∃ attrs, Accepted before (.addRentalFee id attrs)

namespace Prerequisite

variable {t t' : Trace} {e : Event RecordWrite Request Reply} {c d : Contract} {i : Nat} {id : String}

theorem accepted_append {call : ApiCall} (h : Accepted t call) (t' : Trace) :
    Accepted (t ++ t') call := by
  obtain ⟨request, reply, hmem, h⟩ := h
  exact ⟨request, reply, List.mem_append_left t' hmem, h⟩

theorem acceptedThen_append {before : Trace} {call : ApiCall} {u : RecordWrite}
    (h : AcceptedThen t before call u) (t' : Trace) : AcceptedThen (t ++ t') before call u := by
  obtain ⟨request, reply, after, rfl, h⟩ := h
  exact ⟨request, reply, after ++ t', by simp, h⟩

theorem entityStored_append {v : CharField} (h : EntityStored t i v) (t' : Trace) :
    EntityStored (t ++ t') i v := by
  obtain ⟨before, call, hcall, h⟩ := h
  exact ⟨before, call, hcall, acceptedThen_append h t'⟩

theorem partyStored_append (h : PartyStored t id i) (t' : Trace) : PartyStored (t ++ t') id i := by
  obtain ⟨before, attrs, v, hentity, h⟩ := h
  exact ⟨before, attrs, v, hentity, acceptedThen_append h t'⟩

theorem unitStored_append (h : UnitStored t id i) (t' : Trace) : UnitStored (t ++ t') id i := by
  obtain ⟨before, propertyId, unitId, v, h⟩ := h
  exact ⟨before, propertyId, unitId, v, acceptedThen_append h t'⟩

/-- Every id on the record came from a call Ejar took, and the ids of parties and
units from calls for the contract id on the record. -/
structure Evidence (t : Trace) (c : Contract) : Prop where
  entity : ∀ i ∈ c.partyIds.ids, (c.partyIds.row i).ejarEntityId.truthy →
    EntityStored t i (c.partyIds.row i).ejarEntityId
  party : ∀ i ∈ c.partyIds.ids, (c.partyIds.row i).ejarPartyId.truthy →
    ∃ id, id ≠ "" ∧ c.ejarContractId = some id ∧ PartyStored t id i
  unit : ∀ i ∈ c.unitIds.ids, (c.unitIds.row i).ejarContractUnitId.truthy →
    ∃ id, id ≠ "" ∧ c.ejarContractId = some id ∧ UnitStored t id i

theorem Evidence.append (h : Evidence t c) (t' : Trace) : Evidence (t ++ t') c where
  entity i hi hid := entityStored_append (h.entity i hi hid) t'
  party i hi hid := by
    obtain ⟨id, hne, hc, hstored⟩ := h.party i hi hid
    exact ⟨id, hne, hc, partyStored_append hstored t'⟩
  unit i hi hid := by
    obtain ⟨id, hne, hc, hstored⟩ := h.unit i hi hid
    exact ⟨id, hne, hc, unitStored_append hstored t'⟩

/-- Evidence for a record carries over to one whose ids are the old ones or none. -/
theorem Evidence.of_rows (h : Evidence t c) (hcontract : d.ejarContractId = c.ejarContractId)
    (hparty : ∀ i ∈ d.partyIds.ids, (i ∈ c.partyIds.ids ∧
      (d.partyIds.row i).ejarEntityId = (c.partyIds.row i).ejarEntityId ∧
      (d.partyIds.row i).ejarPartyId = (c.partyIds.row i).ejarPartyId) ∨ (d.partyIds.row i).unlinked)
    (hunit : ∀ i ∈ d.unitIds.ids, (i ∈ c.unitIds.ids ∧
      (d.unitIds.row i).ejarContractUnitId = (c.unitIds.row i).ejarContractUnitId) ∨
      ¬ (d.unitIds.row i).ejarContractUnitId.truthy) : Evidence t d where
  entity i hi hid := by
    rcases hparty i hi with ⟨hmem, hentity, -⟩ | hblank
    · rw [hentity] at hid ⊢
      exact h.entity i hmem hid
    · exact absurd hid hblank.1
  party i hi hid := by
    rcases hparty i hi with ⟨hmem, -, hparty⟩ | hblank
    · rw [hparty] at hid
      rw [hcontract]
      exact h.party i hmem hid
    · exact absurd hid hblank.2
  unit i hi hid := by
    rcases hunit i hi with ⟨hmem, hunit⟩ | hblank
    · rw [hunit] at hid
      rw [hcontract]
      exact h.unit i hmem hid
    · exact absurd hid hblank

theorem evidence_unlinked (h : Unlinked c) : Evidence t c where
  entity i hi hid := absurd hid (h.party i hi).1
  party i hi hid := absurd hid (h.party i hi).2
  unit i hi hid := absurd hid (h.unit i hi)

theorem Evidence.edited {past : List Contract} (h : Evidence t c) (hd : Edited past c d) :
    Evidence t d := by
  refine h.of_rows hd.contractId (fun i hi => ?_) (fun i hi => ?_)
  · exact (hd.party i hi).imp_right And.right
  · exact (hd.unit i hi).imp_right And.right

theorem Evidence.write_entity (h : Evidence t c) {v : CharField} (hv : EntityStored t i v) :
    Evidence t ((RecordWrite.party i { ejarEntityId := some v, syncState := some .synced }).apply c) where
  entity j hj hid := by
    by_cases hji : j = i
    · subst hji
      simpa [RecordWrite.apply, Party.set] using hv
    · simp only [RecordWrite.apply, Records.modify_row_of_ne _ _ hji] at hid ⊢
      exact h.entity j hj hid
  party j hj hid := by
    refine h.party j hj ?_
    by_cases hji : j = i
    · subst hji
      simpa [RecordWrite.apply, Party.set] using hid
    · simpa [RecordWrite.apply, hji] using hid
  unit j hj hid := h.unit j hj hid

theorem Evidence.write_party (h : Evidence t c) {v : CharField} (hne : id ≠ "")
    (hid : c.ejarContractId = some id) (hv : PartyStored t id i) :
    Evidence t ((RecordWrite.party i { ejarPartyId := some v, syncState := some .synced }).apply c) where
  entity j hj hid := by
    by_cases hji : j = i
    · subst hji
      simp only [RecordWrite.apply, Records.modify_row_self, Party.set, Option.getD_none] at hid ⊢
      exact h.entity j hj hid
    · simp only [RecordWrite.apply, Records.modify_row_of_ne _ _ hji] at hid ⊢
      exact h.entity j hj hid
  party j hj hparty := by
    by_cases hji : j = i
    · subst hji
      exact ⟨id, hne, hid, hv⟩
    · simp only [RecordWrite.apply, Records.modify_row_of_ne _ _ hji] at hparty
      exact h.party j hj hparty
  unit j hj hid := h.unit j hj hid

theorem Evidence.write_unit (h : Evidence t c) {v : CharField} (hne : id ≠ "")
    (hid : c.ejarContractId = some id) (hv : UnitStored t id i) :
    Evidence t ((RecordWrite.unit i
      { ejarContractUnitId := some v, syncState := some .synced }).apply c) where
  entity j hj hid := h.entity j hj hid
  party j hj hid := h.party j hj hid
  unit j hj hunit := by
    by_cases hji : j = i
    · subst hji
      exact ⟨id, hne, hid, hv⟩
    · simp only [RecordWrite.apply, Records.modify_row_of_ne _ _ hji] at hunit
      exact h.unit j hj hunit

theorem Evidence.write_proxyDoc (h : Evidence t c) {v : CharField} :
    Evidence t ((RecordWrite.party i { ejarProxyDocId := some v }).apply c) := by
  refine h.of_rows rfl (fun j hj => .inl ⟨hj, ?_⟩) (fun j hj => .inl ⟨hj, rfl⟩)
  by_cases hji : j = i
  · subst hji
    simp [RecordWrite.apply, Party.set]
  · simp [RecordWrite.apply, hji]

theorem Evidence.write_contract (h : Evidence t c) {vals : ContractVals}
    (hvals : vals.ejarContractId.isSome → ¬ c.ejarContractId.truthy) :
    Evidence t ((RecordWrite.contract vals).apply c) := by
  have hsame : ∀ {id}, id ≠ "" → c.ejarContractId = some id →
      ((RecordWrite.contract vals).apply c).ejarContractId = some id := by
    intro id hne hid
    cases hv : vals.ejarContractId with
    | none => simpa [RecordWrite.apply, Contract.set, hv] using hid
    | some v => exact absurd (by simp [hid, hne]) (hvals (by simp [hv]))
  refine ⟨fun i hi hid => h.entity i hi hid, fun i hi hid => ?_, fun i hi hid => ?_⟩
  · obtain ⟨id, hne, hc, hstored⟩ := h.party i hi hid
    exact ⟨id, hne, hsame hne hc, hstored⟩
  · obtain ⟨id, hne, hc, hstored⟩ := h.unit i hi hid
    exact ⟨id, hne, hsame hne hc, hstored⟩

/-- Every call of `submit_contract` in the attempt had its prerequisites. -/
def Sound (past : List Contract) (c : Contract) (t s : Trace) : Prop :=
  ∀ before e after id, s = before ++ e :: after → submits id e → Prerequisites past c t before id

theorem Sound.append {past : List Contract} {s : Trace} (hs : Sound past c t s)
    (he : ∀ id, submits id e → Prerequisites past c t s id) : Sound past c t (s ++ [e]) := by
  intro before e' after id hsplit hsubmit
  rcases List.eq_nil_or_concat after with rfl | ⟨after, e'', rfl⟩
  · obtain ⟨rfl, hlast⟩ := List.append_inj' hsplit rfl
    rw [List.singleton_inj] at hlast
    exact he id (hlast ▸ hsubmit)
  · have hprefix : s ++ [e] = (before ++ e' :: after) ++ [e''] := by simpa using hsplit
    obtain ⟨hinit, -⟩ := List.append_inj' hprefix rfl
    exact hs before e' after id hinit hsubmit

/-- The invariant of an attempt that found the record as `c` after the history
`t`. -/
structure Inv (past : List Contract) (c : Contract) (t : Trace) (y : Session Contract Trace) :
    Prop where
  working : Evidence (t ++ y.seen) y.working
  committed : Evidence (t ++ y.seen) y.committed
  sound : Sound past c t y.seen

variable {past : List Contract} {x : Session Contract Trace} {request : Request}

theorem Inv.append (hx : Inv past c t x) (he : ∀ id, submits id e → Prerequisites past c t x.seen id)
    (hd : Evidence (t ++ (x.seen ++ [e])) d) : Inv past c t ⟨x.committed, d, x.seen ++ [e]⟩ := by
  refine ⟨hd, ?_, hx.sound.append he⟩
  rw [← List.append_assoc]
  exact hx.committed.append [e]

theorem Inv.append_call (hx : Inv past c t x)
    (he : ∀ id, submits id e → Prerequisites past c t x.seen id) :
    Inv past c t ⟨x.committed, x.working, x.seen ++ [e]⟩ := by
  refine hx.append he ?_
  rw [← List.append_assoc]
  exact hx.working.append [e]

theorem Inv.append_commit (hx : Inv past c t x) :
    Inv past c t ⟨x.working, x.working, x.seen ++ [.commit]⟩ := by
  have hworking : Evidence (t ++ (x.seen ++ [.commit])) x.working := by
    rw [← List.append_assoc]
    exact hx.working.append [.commit]
  exact ⟨hworking, hworking, hx.sound.append fun _ h => h.elim⟩

theorem link_then {α : Type} {read : Reply → Except Exc α} {val : α → Json} {u : α → RecordWrite}
    {N : α → Session Contract Trace → Prop} (hx : Inv past c t x)
    (hcall : ∀ id, request.call ≠ .submitContract id)
    (hread : ∀ {reply a}, read reply = .ok a → reply.accepted ∧ (reply.carriesId → (val a).truthy))
    (hwrite : ∀ reply a, reply.accepted → (val a).truthy →
      Evidence (t ++ (x.seen ++ [.call request reply] ++ [.write (u a)])) ((u a).apply x.working))
    (hN : ∀ a y, (val a).truthy → y.working = (u a).apply x.working → Inv past c t y → N a y) :
    callThen answering request read (fun a => writeThen answering (u a) (N a))
      (fun _ => Inv past c t) (Inv past c t) x := by
  have hcalled : ∀ reply, Inv past c t ⟨x.committed, x.working, x.seen ++ [.call request reply]⟩ :=
    fun reply => hx.append_call fun id h => absurd h (hcall id)
  refine callThen_of hx ?_ ?_ ?_
  · rintro reply s a ⟨hok, rfl⟩ hr s' ⟨-, rfl⟩
    have haccepted := (hread hr).1
    have hid := (hread hr).2 (hok haccepted)
    exact hN a _ hid rfl ((hcalled reply).append (fun _ h => h.elim) (hwrite reply a haccepted hid))
  · rintro reply s e ⟨-, rfl⟩ -
    exact hcalled reply
  · rintro s ⟨-, rfl⟩
    exact hx.append_call fun id h => absurd h (hcall id)

theorem plain_then {α : Type} {read : Reply → Except Exc α} {N : α → Session Contract Trace → Prop}
    (hx : Inv past c t x) (hcall : ∀ id, request.call = .submitContract id →
      Prerequisites past c t x.seen id)
    (hN : ∀ reply a, read reply = .ok a →
      Inv past c t ⟨x.committed, x.working, x.seen ++ [.call request reply]⟩ →
      N a ⟨x.committed, x.working, x.seen ++ [.call request reply]⟩) :
    callThen answering request read N (fun _ => Inv past c t) (Inv past c t) x := by
  have hcalled : ∀ reply, Inv past c t ⟨x.committed, x.working, x.seen ++ [.call request reply]⟩ :=
    fun reply => hx.append_call hcall
  refine callThen_of hx ?_ ?_ ?_
  · rintro reply s a ⟨-, rfl⟩ hr
    exact hN reply a hr (hcalled reply)
  · rintro reply s e ⟨-, rfl⟩ -
    exact hcalled reply
  · rintro s ⟨-, rfl⟩
    exact hx.append_call hcall

theorem entityCall_createsEntity {party : Party} {call : ApiCall} (h : entityCall party = .ok call) :
    call.createsEntity := by
  rcases entityCall_cases h with ⟨attrs, rfl⟩ | ⟨attrs, rfl⟩
  · trivial
  · trivial

theorem createsEntity_not_submit {call : ApiCall} (h : call.createsEntity) (id : String) :
    call ≠ .submitContract id := by
  rintro rfl
  exact h

theorem acceptedThen_last {reply : Reply} {u : RecordWrite} (hreply : reply.accepted) (s s' : Trace) :
    AcceptedThen (s ++ (s' ++ [.call request reply] ++ [.write u])) (s ++ s') request.call u :=
  ⟨request, reply, [], by simp, rfl, hreply⟩

variable {client : Nat} {ejarContractId : String}

theorem resolvePartyEntity_inv {partyId : Nat} (hx : Inv past c t x) :
    wp RecordWrite.apply answering (resolvePartyEntity client partyId)
      (fun _ => Inv past c t) (fun _ => Inv past c t) (Inv past c t) x := by
  by_cases hid : (x.working.partyIds.row partyId).ejarEntityId.truthy
  · rw [wp_resolvePartyEntity_skip hid]
    exact hx
  rw [wp_resolvePartyEntity hid, wp_stepCreateEntity]
  cases hcall : entityCall (x.working.partyIds.row partyId) with
  | error e => exact hx
  | ok call =>
    rw [resultMeets_ok]
    have hcreates := entityCall_createsEntity hcall
    refine link_then hx (createsEntity_not_submit hcreates) entityReply_ok
      (fun reply id hreply hid => ?_) (fun _ _ _ _ hy => hy)
    exact Evidence.write_entity (by simpa using hx.working.append _)
      ⟨t ++ x.seen, call, hcreates, acceptedThen_last hreply t x.seen⟩

/-- The record is known to Ejar as `id`, and saved so. -/
def KnownAs (id : String) (y : Session Contract Trace) : Prop :=
  id ≠ "" ∧ y.working.ejarContractId = some id ∧ y.committed.ejarContractId = some id

theorem knownAs_lasting (id : String) : Lasting (KnownAs id) := by
  rintro y z h ⟨hne, hworking, hcommitted⟩
  have htruthy : y.working.ejarContractId.truthy := by simp [hworking, hne]
  refine ⟨hne, (h.keeps.contractId htruthy).trans hworking, ?_⟩
  rcases h.committed_keeps with hsame | hkeeps
  · rw [hsame, hcommitted]
  · exact (hkeeps.contractId htruthy).trans hworking

theorem stepCreateContract_inv {profile : BrokerageProfile} (hx : Inv past c t x) :
    wp RecordWrite.apply answering (stepCreateContract client profile)
      (fun id y => Inv past c t y ∧ id ≠ "" ∧ y.working.ejarContractId = some id)
      (fun _ => Inv past c t) (Inv past c t) x := by
  by_cases hid : x.working.ejarContractId.truthy
  · rw [wp_stepCreateContract_skip hid]
    obtain ⟨id, hc, hne⟩ := CharField.truthy_iff.mp hid
    have hstr : x.working.ejarContractId.str = id := by rw [hc]; rfl
    rw [hstr]
    exact ⟨hx, hne, hc⟩
  rw [wp_stepCreateContract hid]
  cases buildContractAttributes x.working (some profile) with
  | error e => exact hx
  | ok attrs =>
    rw [resultMeets_ok]
    refine link_then hx (fun id => by simp) contractReply_ok (fun reply created hreply hcreated => ?_) ?_
    · exact Evidence.write_contract (by simpa using hx.working.append _) fun _ => hid
    · intro created y hcreated hworking hy
      refine ⟨hy, Json.text_ne_empty hcreated, ?_⟩
      rw [hworking, ← CharField.ofJson_of_truthy hcreated]
      rfl

theorem stepAttachUnit_inv {unitId : Nat} (hx : Inv past c t x) (hid : KnownAs ejarContractId x) :
    wp RecordWrite.apply answering (stepAttachUnit client ejarContractId unitId)
      (fun _ y => Inv past c t y ∧ (y.working.unitIds.row unitId).ejarContractUnitId.truthy)
      (fun _ => Inv past c t) (Inv past c t) x := by
  by_cases hlinked : (x.working.unitIds.row unitId).ejarContractUnitId.truthy
  · rw [wp_stepAttachUnit_skip hlinked]
    exact ⟨hx, hlinked⟩
  by_cases hreg : (x.working.unitIds.row unitId).registered
  · rw [wp_stepAttachUnit hlinked hreg]
    refine link_then hx (fun id => by simp) linkReply_ok (fun reply linkedId hreply _ => ?_) ?_
    · exact Evidence.write_unit (by simpa using hx.working.append _) hid.1 hid.2.1
        ⟨t ++ x.seen, _, _, _, acceptedThen_last hreply t x.seen⟩
    · intro linkedId y hlinkedId hworking hy
      refine ⟨hy, ?_⟩
      rw [hworking]
      simpa [RecordWrite.apply, ContractUnit.set] using CharField.ofJson_truthy hlinkedId
  · exact wp_stepAttachUnit_unregistered hlinked hreg fun _ => hx

theorem stepAddParty_inv {partyId : Nat} (hi : partyId ∈ x.working.partyIds.ids)
    (hx : Inv past c t x) (hid : KnownAs ejarContractId x) :
    wp RecordWrite.apply answering (stepAddParty client ejarContractId partyId)
      (fun _ y => Inv past c t y ∧ (y.working.partyIds.row partyId).ejarPartyId.truthy)
      (fun _ => Inv past c t) (Inv past c t) x := by
  by_cases hlinked : (x.working.partyIds.row partyId).ejarPartyId.truthy
  · rw [wp_stepAddParty_skip hlinked]
    exact ⟨hx, hlinked⟩
  by_cases hentity : (x.working.partyIds.row partyId).ejarEntityId.truthy
  · rw [wp_stepAddParty hlinked hentity]
    have hstored := hx.working.entity partyId hi hentity
    refine link_then hx (fun id => by simp) linkReply_ok (fun reply linkedId hreply _ => ?_) ?_
    · exact Evidence.write_party (by simpa using hx.working.append _) hid.1 hid.2.1
        ⟨t ++ x.seen, _, _, hstored, acceptedThen_last hreply t x.seen⟩
    · intro linkedId y hlinkedId hworking hy
      refine ⟨hy, ?_⟩
      rw [hworking]
      simpa [RecordWrite.apply, Party.set] using CharField.ofJson_truthy hlinkedId
  · exact wp_stepAddParty_noEntity hlinked hentity fun _ => hx

theorem uploadRepresentativeDoc_inv {partyId : Nat} (hx : Inv past c t x) :
    throughout RecordWrite.apply answering (uploadRepresentativeDoc client ejarContractId partyId)
      (Inv past c t) x := by
  rw [throughout, wp_uploadRepresentativeDoc]
  dsimp only
  split
  · refine plain_then hx (fun id h => ?_) ?_
    · cases h
    rintro reply docId - hy s ⟨-, rfl⟩
    refine hy.append (fun _ h => h.elim) (Evidence.write_proxyDoc ?_)
    simpa using hx.working.append _
  · exact hx

theorem accepted_last {reply : Reply} (hreply : reply.accepted) (s : Trace) :
    Accepted (s ++ [.call request reply]) request.call :=
  ⟨request, reply, by simp, rfl, hreply⟩

theorem stepUploadSignedDoc_inv (hx : Inv past c t x) :
    wp RecordWrite.apply answering (stepUploadSignedDoc client ejarContractId)
      (fun _ y => Inv past c t y ∧
        ∃ content filename, Accepted y.seen (.uploadSignedDocument ejarContractId content filename))
      (fun _ => Inv past c t) (Inv past c t) x := by
  by_cases hdoc : x.working.signedDoc.truthy
  · rw [wp_stepUploadSignedDoc hdoc]
    refine plain_then hx (fun id h => ?_) fun reply _ hread hy => ?_
    · cases h
    exact ⟨hy, _, _, accepted_last (docReply_ok hread) x.seen⟩
  · exact wp_stepUploadSignedDoc_missing hdoc fun _ => hx

theorem stepAddFinancialInfo_inv (hx : Inv past c t x) :
    wp RecordWrite.apply answering (stepAddFinancialInfo client ejarContractId)
      (fun _ y => Inv past c t y ∧
        ∃ attrs, Accepted y.seen (.addFinancialInformation ejarContractId attrs))
      (fun _ => Inv past c t) (Inv past c t) x := by
  rw [wp_stepAddFinancialInfo]
  cases buildFinancialAttributes x.working with
  | error e => exact hx
  | ok attrs =>
    rw [resultMeets_ok]
    refine plain_then hx (fun id h => ?_) fun reply _ hread hy => ?_
    · cases h
    exact ⟨hy, attrs, accepted_last (infoReply_ok hread) x.seen⟩

theorem stepAddRentalFee_inv {profile : BrokerageProfile} (hx : Inv past c t x) :
    wp RecordWrite.apply answering (stepAddRentalFee client profile ejarContractId)
      (fun _ y => Inv past c t y ∧ (x.working.brokerageFee ≠ 0 →
        ∃ attrs, Accepted y.seen (.addRentalFee ejarContractId attrs)))
      (fun _ => Inv past c t) (Inv past c t) x := by
  rw [wp_stepAddRentalFee]
  cases hattrs : buildRentalFeeAttributes x.working (some profile) with
  | none => exact ⟨hx, fun hfee => by simp [buildRentalFeeAttributes, hfee] at hattrs⟩
  | some attrs =>
    refine plain_then hx (fun id h => ?_) fun reply _ hread hy => ?_
    · cases h
    exact ⟨hy, fun _ => ⟨attrs, accepted_last (infoReply_ok hread) x.seen⟩⟩

def unitDone (i : Nat) (y : Session Contract Trace) : Prop :=
  (y.working.unitIds.row i).ejarContractUnitId.truthy

def partyDone (i : Nat) (y : Session Contract Trace) : Prop :=
  (y.working.partyIds.row i).ejarPartyId.truthy

theorem unitDone_lasting (i : Nat) : Lasting (unitDone i) := fun _ _ h => h.keeps.contractUnitId_truthy

theorem partyDone_lasting (i : Nat) : Lasting (partyDone i) := fun _ _ h => h.keeps.partyId_truthy

/-- What a step needs to know and does not change goes along with the invariant. -/
theorem wp_known {α : Type} {p : Pipeline α} {F : Session Contract Trace → Prop}
    {D : α → Session Contract Trace → Prop} (hF : Lasting F) (hFx : F x)
    (hkept : always answering p (Grows x) x)
    (hp : wp RecordWrite.apply answering p (fun a y => Inv past c t y ∧ D a y)
      (fun _ => Inv past c t) (Inv past c t) x) :
    wp RecordWrite.apply answering p (fun a y => (Inv past c t y ∧ F y) ∧ D a y)
      (fun _ => Inv past c t) (Inv past c t) x :=
  wp_mono (fun _ _ hy => ⟨⟨hy.1.1, hy.2⟩, hy.1.2⟩) (fun _ _ h => h) (fun _ h => h)
    (wp_carry hF hFx hkept hp)

theorem resolvePartyEntities_inv (hx : Inv past c t x) :
    throughout RecordWrite.apply answering (resolvePartyEntities client) (Inv past c t) x :=
  throughout_bind hx fun _ _ hy => throughout_forEach (fun _ _ _ hz => resolvePartyEntity_inv hz) hy

theorem attachUnits_inv (hx : Inv past c t x) (hid : KnownAs ejarContractId x) :
    wp RecordWrite.apply answering (attachUnits client ejarContractId)
      (fun _ y => Inv past c t y ∧ eachRow (·.unitIds.ids) unitDone y)
      (fun _ => Inv past c t) (Inv past c t) x := by
  refine wp_mono (fun _ _ hy => ⟨hy.1.1, hy.2⟩) (fun _ _ h => h) (fun _ h => h)
    (wp_rows (I := fun y => Inv past c t y ∧ KnownAs ejarContractId y) Keeps.unitIds_ids
      unitDone_lasting ⟨hx, hid⟩ (fun i y _ hy => ?_)
      fun i y => (Grows.kept y).stepAttachUnit (.refl y))
  exact wp_known (knownAs_lasting _) hy.2 ((Grows.kept y).stepAttachUnit (.refl y))
    (stepAttachUnit_inv hy.1 hy.2)

theorem addParties_inv (hx : Inv past c t x) (hid : KnownAs ejarContractId x) :
    wp RecordWrite.apply answering (addParties client ejarContractId)
      (fun _ y => Inv past c t y ∧ eachRow (·.partyIds.ids) partyDone y)
      (fun _ => Inv past c t) (Inv past c t) x := by
  refine wp_mono (fun _ _ hy => ⟨hy.1.1, hy.2⟩) (fun _ _ h => h) (fun _ h => h)
    (wp_rows (I := fun y => Inv past c t y ∧ KnownAs ejarContractId y) Keeps.partyIds_ids
      partyDone_lasting ⟨hx, hid⟩ (fun i y hi hy => ?_)
      fun i y => (Grows.kept y).stepAddParty (.refl y))
  exact wp_known (knownAs_lasting _) hy.2 ((Grows.kept y).stepAddParty (.refl y))
    (stepAddParty_inv hi hy.1 hy.2)

theorem uploadProxyDocs_inv (hx : Inv past c t x) :
    throughout RecordWrite.apply answering (uploadProxyDocs client ejarContractId) (Inv past c t) x :=
  throughout_bind hx fun _ _ hy => throughout_forEach (fun _ _ _ hz => uploadRepresentativeDoc_inv hz) hy

theorem Inv.append_contract (hx : Inv past c t x) (vals : ContractVals)
    (hvals : vals.ejarContractId = none) : Inv past c t ⟨x.committed,
      (RecordWrite.contract vals).apply x.working, x.seen ++ [.write (.contract vals)]⟩ := by
  refine hx.append (fun _ h => h.elim) (Evidence.write_contract ?_ (by simp [hvals]))
  rw [← List.append_assoc]
  exact hx.working.append _

theorem writeContract_inv {vals : ContractVals} (hx : Inv past c t x)
    (hvals : vals.ejarContractId = none) :
    throughout RecordWrite.apply answering (writeContract vals) (Inv past c t) x := by
  rw [throughout, wp_writeContract]
  rintro s ⟨-, rfl⟩
  exact hx.append_contract vals hvals

theorem ofExcept_inv {α : Type} (v : Except Exc α) (hx : Inv past c t x) :
    throughout RecordWrite.apply answering (Prog.ofExcept v) (Inv past c t) x := by
  rw [throughout, wp_ofExcept]
  cases v <;> exact hx

theorem resolveProfile_inv (env : Env) (hx : Inv past c t x) :
    throughout RecordWrite.apply answering (resolveProfile env) (Inv past c t) x := by
  refine throughout_bind (throughout_bind hx fun contract y hy => ?_) fun profile y hy => ?_
  · split
    · exact hy
    · exact throughout_bind (writeContract_inv hy rfl) fun _ z hz => hz
    · exact hy
  · refine throughout_bind hy fun contract z hz => ?_
    cases profile with
    | none => exact hz
    | some profile => exact throughout_bind (ofExcept_inv _ hz) fun _ w hw => hw

theorem buildClient_inv (env : Env) (hx : Inv past c t x) :
    throughout RecordWrite.apply answering (buildClient env) (Inv past c t) x :=
  throughout_bind hx fun _ _ hy => throughout_bind (ofExcept_inv _ hy) fun _ _ hz => hz

/-- What the attempt has done so far, at the commits on its way. -/
def created (c : Contract) (id : String) (y : Session Contract Trace) : Prop :=
  Grows ⟨c, c, []⟩ y ∧ KnownAs id y

def withUnits (c : Contract) (id : String) (y : Session Contract Trace) : Prop :=
  created c id y ∧ eachRow (·.unitIds.ids) unitDone y

def withParties (c : Contract) (id : String) (y : Session Contract Trace) : Prop :=
  withUnits c id y ∧ eachRow (·.partyIds.ids) partyDone y

def withSignedDoc (c : Contract) (id : String) (y : Session Contract Trace) : Prop :=
  withParties c id y ∧ ∃ content filename, Accepted y.seen (.uploadSignedDocument id content filename)

def withFinancialInfo (c : Contract) (id : String) (y : Session Contract Trace) : Prop :=
  withSignedDoc c id y ∧ ∃ attrs, Accepted y.seen (.addFinancialInformation id attrs)

def withRentalFee (c : Contract) (id : String) (y : Session Contract Trace) : Prop :=
  withFinancialInfo c id y ∧
    (c.brokerageFee ≠ 0 → ∃ attrs, Accepted y.seen (.addRentalFee id attrs))

theorem accepted_grows {y z : Session Contract Trace} (h : Grows y z) {call : ApiCall}
    (hcall : Accepted y.seen call) : Accepted z.seen call := by
  obtain ⟨s, hs⟩ := h.seen_prefix
  rw [← hs]
  exact accepted_append hcall s

theorem grows_lasting (y : Session Contract Trace) : Lasting (Grows y) := fun _ _ h hy => hy.trans h

theorem created_lasting (c : Contract) (id : String) : Lasting (created c id) :=
  (grows_lasting _).and (knownAs_lasting id)

theorem withUnits_lasting (c : Contract) (id : String) : Lasting (withUnits c id) :=
  (created_lasting c id).and (eachRow_lasting Keeps.unitIds_ids unitDone_lasting)

theorem withParties_lasting (c : Contract) (id : String) : Lasting (withParties c id) :=
  (withUnits_lasting c id).and (eachRow_lasting Keeps.partyIds_ids partyDone_lasting)

theorem withSignedDoc_lasting (c : Contract) (id : String) : Lasting (withSignedDoc c id) := by
  rintro y z h ⟨hparties, content, filename, hcall⟩
  exact ⟨withParties_lasting c id y z h hparties, content, filename, accepted_grows h hcall⟩

theorem withFinancialInfo_lasting (c : Contract) (id : String) : Lasting (withFinancialInfo c id) := by
  rintro y z h ⟨hdoc, attrs, hcall⟩
  exact ⟨withSignedDoc_lasting c id y z h hdoc, attrs, accepted_grows h hcall⟩

theorem prerequisites (hpast : ∀ d ∈ past, RemoteKept d c) (hx : Inv past c t x)
    (hdone : withRentalFee c id x) : Prerequisites past c t x.seen id := by
  obtain ⟨⟨⟨⟨⟨⟨hgrows, hne, hworking, hcommitted⟩, hunits⟩, hparties⟩, hdoc⟩, hinfo⟩, hfee⟩ := hdone
  obtain ⟨s, hseen, -, hsaved, -, hsnapshots⟩ := hgrows.events
  rw [List.nil_append] at hseen
  subst hseen
  have hsame : ∀ {id'}, x.working.ejarContractId = some id' → id' = id := fun h =>
    Option.some.inj (h.symm.trans hworking)
  have hkeeps : ∀ {d}, Keeps d x.working → d.ejarContractId.truthy → d.ejarContractId = some id :=
    fun h hd => (h.contractId hd).symm.trans hworking
  refine ⟨hne, hsaved ▸ hcommitted, fun d hd htruthy => ?_, fun i hi => ?_, fun i hi => ?_, hdoc,
    hinfo, hfee⟩
  · rcases List.mem_append.mp hd with hd | hd
    · have hc := (hpast d hd).contractId htruthy
      rw [← hc] at htruthy ⊢
      exact hkeeps hgrows.keeps htruthy
    · exact hkeeps (hsnapshots d hd).2 htruthy
  · rw [← hgrows.keeps.partyIds_ids] at hi
    obtain ⟨id', -, hid', hstored⟩ := hx.working.party i hi (hparties i hi)
    exact hsame hid' ▸ hstored
  · rw [← hgrows.keeps.unitIds_ids] at hi
    obtain ⟨id', -, hid', hstored⟩ := hx.working.unit i hi (hunits i hi)
    exact hsame hid' ▸ hstored

theorem stepSubmit_inv (hpast : ∀ d ∈ past, RemoteKept d c) (hx : Inv past c t x)
    (hdone : withRentalFee c ejarContractId x) :
    throughout RecordWrite.apply answering (stepSubmit client ejarContractId) (Inv past c t) x := by
  rw [throughout, wp_stepSubmit]
  refine plain_then hx (fun id hid => ?_) fun _ _ _ hy => hy
  obtain rfl := ApiCall.submitContract.inj hid
  exact prerequisites hpast hx hdone

def prerequisiteOutline (past : List Contract) (c : Contract) (t : Trace) : Outline Trace where
  start _ _ y := Inv past c t y ∧ Grows ⟨c, c, []⟩ y
  entities _ _ y := Inv past c t y ∧ Grows ⟨c, c, []⟩ y
  created _ _ id y := Inv past c t y ∧ created c id y
  units _ _ id y := Inv past c t y ∧ withUnits c id y
  parties _ _ id y := Inv past c t y ∧ withParties c id y
  proxyDocs _ _ id y := Inv past c t y ∧ withParties c id y
  signedDoc _ _ id y := Inv past c t y ∧ withSignedDoc c id y
  financialInfo _ _ id y := Inv past c t y ∧ withFinancialInfo c id y
  rentalFee _ _ id y := Inv past c t y ∧ withRentalFee c id y
  submit _ y := Inv past c t y

/-- A step that adds the fact `G` to the facts so far, up to its commit. -/
theorem wp_stage {α : Type} {p : Pipeline α} {F : Session Contract Trace → Prop}
    {B G : α → Session Contract Trace → Prop} (hF : Lasting F) (hFx : F x)
    (hkept : always answering p (Grows x) x)
    (hG : ∀ a y, B a y → G a ⟨y.working, y.working, y.seen ++ [.commit]⟩)
    (hp : wp RecordWrite.apply answering p (fun a y => Inv past c t y ∧ B a y)
      (fun _ => Inv past c t) (Inv past c t) x) :
    wp RecordWrite.apply answering p
      (fun a => atCommit answering (Inv past c t) fun y => Inv past c t y ∧ F y ∧ G a y)
      (fun _ => Inv past c t) (Inv past c t) x := by
  refine wp_mono (fun a y hy => ⟨hy.1.1, ?_⟩) (fun _ _ h => h) (fun _ h => h) (wp_known hF hFx hkept hp)
  rintro s ⟨-, rfl⟩
  exact ⟨hy.1.1.append_commit, hF y _ (.commit y) hy.1.2, hG a y hy.2⟩

theorem wp_stage_inv {α : Type} {p : Pipeline α} {F : Session Contract Trace → Prop}
    (hF : Lasting F) (hFx : F x) (hkept : always answering p (Grows x) x)
    (hp : throughout RecordWrite.apply answering p (Inv past c t) x) :
    wp RecordWrite.apply answering p
      (fun _ => atCommit answering (Inv past c t) fun y => Inv past c t y ∧ F y)
      (fun _ => Inv past c t) (Inv past c t) x := by
  refine wp_mono (fun _ y hy => ⟨hy.1, ?_⟩) (fun _ _ h => h) (fun _ h => h) (wp_carry hF hFx hkept hp)
  rintro s ⟨-, rfl⟩
  exact ⟨hy.1.append_commit, hF y _ (.commit y) hy.2⟩

theorem finalize_inv (env : Env) (hx : Inv past c t x) :
    throughout RecordWrite.apply answering (finalize env ejarContractId) (Inv past c t) x := by
  refine throughout_bind (writeContract_inv hx rfl) fun _ y hy => ⟨hy, ?_⟩
  rintro s ⟨-, rfl⟩
  exact hy.append_commit

theorem runPipeline_inv (env : Env) (hpast : ∀ d ∈ past, RemoteKept d c) (hx : Inv past c t x)
    (hgrows : Grows ⟨c, c, []⟩ x) :
    throughout RecordWrite.apply answering (runPipeline env) (Inv past c t) x := by
  refine wp_runPipeline (prerequisiteOutline past c t) ?_ ?_ ?_ ?_ ?_ ?_ ?_ ?_ ?_ ?_ ?_
  · have hprofile := wp_carry (grows_lasting _) hgrows ((Grows.kept x).resolveProfile env (.refl x))
      (resolveProfile_inv env hx)
    refine wp_mono (fun _ y hy => ?_) (fun _ _ h => h) (fun _ h => h) hprofile
    exact wp_carry (grows_lasting _) hy.2 (Kept.buildClient env (.refl y)) (buildClient_inv env hy.1)
  · intro profile client y hy
    exact wp_stage_inv (grows_lasting _) hy.2 ((Grows.kept y).resolvePartyEntities (.refl y))
      (resolvePartyEntities_inv hy.1)
  · intro profile client y hy
    exact wp_stage (grows_lasting _) hy.2 ((Grows.kept y).stepCreateContract (.refl y))
      (fun id z hz => ⟨hz.1, hz.2, hz.2⟩) (stepCreateContract_inv hy.1)
  · intro profile client id y hy
    exact wp_stage (created_lasting c id) hy.2 ((Grows.kept y).attachUnits (.refl y))
      (fun _ z hz => hz) (attachUnits_inv hy.1 hy.2.2)
  · intro profile client id y hy
    exact wp_stage (withUnits_lasting c id) hy.2 ((Grows.kept y).addParties (.refl y))
      (fun _ z hz => hz) (addParties_inv hy.1 hy.2.1.2)
  · intro profile client id y hy
    exact wp_stage_inv (withParties_lasting c id) hy.2 ((Grows.kept y).uploadProxyDocs (.refl y))
      (uploadProxyDocs_inv hy.1)
  · intro profile client id y hy
    refine wp_stage (withParties_lasting c id) hy.2 ((Grows.kept y).stepUploadSignedDoc (.refl y)) ?_
      (stepUploadSignedDoc_inv hy.1)
    rintro _ z ⟨content, filename, hcall⟩
    exact ⟨content, filename, accepted_append hcall _⟩
  · intro profile client id y hy
    refine wp_stage (withSignedDoc_lasting c id) hy.2 ((Grows.kept y).stepAddFinancialInfo (.refl y)) ?_
      (stepAddFinancialInfo_inv hy.1)
    rintro _ z ⟨attrs, hcall⟩
    exact ⟨attrs, accepted_append hcall _⟩
  · intro profile client id y hy
    refine wp_stage (withFinancialInfo_lasting c id) hy.2 ((Grows.kept y).stepAddRentalFee (.refl y)) ?_
      (stepAddRentalFee_inv hy.1)
    intro _ z hfee hne
    have hbase := congrArg Contract.brokerageFee hy.2.1.1.1.1.1.keeps.base
    obtain ⟨attrs, hcall⟩ := hfee (by simpa only [Contract.base] using hbase ▸ hne)
    exact ⟨attrs, accepted_append hcall _⟩
  · intro profile client id y hy
    exact stepSubmit_inv hpast hy.1 hy.2
  · intro id y hy
    exact finalize_inv env hy

theorem executeFullSubmission_inv (env : Env) (hpast : ∀ d ∈ past, RemoteKept d c)
    (hc : Evidence t c) : throughout RecordWrite.apply answering (executeFullSubmission env)
      (Inv past c t) ⟨c, c, []⟩ := by
  have hstart : Inv past c t ⟨c, c, []⟩ := by
    have hnone : Sound past c t [] := fun before e after id h => by simp at h
    exact ⟨by simpa using hc, by simpa using hc, hnone⟩
  refine wp_executeFullSubmission (M := fun y => Inv past c t y ∧ Grows ⟨c, c, []⟩ y) ?_
    (fun hy => runPipeline_inv env hpast hy.1 hy.2) ?_
  · rintro s ⟨-, rfl⟩
    have hentered := hstart.append_contract
      { ejarStatus := some .submitting, submitAttempt := some (c.submitAttempt + 1)
        submitError := some none } rfl
    refine ⟨hentered, ?_⟩
    rintro s ⟨-, rfl⟩
    refine ⟨hentered.append_commit, Grows.trans ?_ (.commit ⟨c, _, _⟩)⟩
    have hkept : Kept answering (Grows ⟨c, c, []⟩) := Grows.kept _
    exact hkept.write (.refl _) ⟨trivial, rfl⟩ (Keeps.of_contract rfl (by simp))
  · rintro exc y hy s ⟨-, rfl⟩
    have hreset := hy.append_contract
      { ejarStatus := some .ready, submitError := some (some (exc.cut 2048)) } rfl
    refine ⟨hreset, ?_⟩
    rintro s ⟨-, rfl⟩
    exact hreset.append_commit

/-- What holds of every history: the states the contract was saved in only gained
remote ids, and there is evidence for those it has. -/
structure Recorded (past : List Contract) (c : Contract) (t : Trace) : Prop where
  saved : c ∈ past
  kept : ∀ d ∈ past, RemoteKept d c
  pairs : past.Pairwise RemoteKept
  evidence : Evidence t c

theorem remoteKept_of_keeps (h : Keeps c d) : RemoteKept c d where
  contractId := h.contractId
  party i _ _ := ⟨h.entityId i, h.partyId i⟩
  unit i _ _ := h.contractUnitId i

theorem remoteKept_keeps {d' : Contract} (h : RemoteKept d c) (hk : Keeps c d') : RemoteKept d d' where
  contractId := Keeps.kept h.contractId hk.contractId
  party i hi hi' := by
    rw [hk.partyIds_ids] at hi'
    exact ⟨Keeps.kept (h.party i hi hi').1 (hk.entityId i),
      Keeps.kept (h.party i hi hi').2 (hk.partyId i)⟩
  unit i hi hi' := by
    rw [hk.unitIds_ids] at hi'
    exact Keeps.kept (h.unit i hi hi') (hk.contractUnitId i)

theorem remoteKept_edited {d' : Contract} (h : RemoteKept d c) (hd : d ∈ past)
    (hedit : Edited past c d') : RemoteKept d d' where
  contractId hid := hedit.contractId.trans (h.contractId hid)
  party i hi hi' := by
    rcases hedit.party i hi' with ⟨hmem, hentity, hparty⟩ | ⟨hfresh, -⟩
    · rw [hentity, hparty]
      exact h.party i hi hmem
    · exact absurd hi (hfresh d hd)
  unit i hi hi' := by
    rcases hedit.unit i hi' with ⟨hmem, hunit⟩ | ⟨hfresh, -⟩
    · rw [hunit]
      exact h.unit i hi hmem
    · exact absurd hi (hfresh d hd)

theorem attempt_recorded {o : Outcome Exc SubmissionResult} {c' : Contract} {s : Trace}
    (h : Recorded past c t) (ha : Attempt c o c' s) :
    Sound past c t s ∧ Recorded (past ++ snapshots RecordWrite.apply c s) c' (t ++ s) := by
  obtain ⟨env, w, hexec⟩ := ha
  have hmeets : ∀ {I : Session Contract Trace → Prop},
      always answering (executeFullSubmission env) I ⟨c, c, []⟩ → I ⟨c', w, s⟩ := by
    intro I hI
    have hend := wp_sound hI hexec
    cases o <;> exact hend
  have hinv := hmeets (executeFullSubmission_inv env h.kept h.evidence)
  have hgrows := hmeets ((Grows.kept ⟨c, c, []⟩).executeFullSubmission env (.refl _))
  obtain ⟨s', hseen, -, hsaved, hpairs, hall⟩ := hgrows.events
  rw [List.nil_append] at hseen
  subst hseen
  have hsaved : c' = committedAfter RecordWrite.apply c c s := hsaved
  have hkept : Keeps c c' := by
    rcases hgrows.committed_keeps with hsame | hkeeps
    · rw [show c' = c from hsame]
      exact .refl c
    · exact hkeeps
  refine ⟨hinv.sound, ?_, fun d hd => ?_, ?_, hinv.committed⟩
  · rcases committedAfter_mem RecordWrite.apply c c s with hsame | hmem
    · rw [hsaved, hsame]
      exact List.mem_append_left _ h.saved
    · rw [hsaved]
      exact List.mem_append_right _ hmem
  · rcases List.mem_append.mp hd with hd | hd
    · exact remoteKept_keeps (h.kept d hd) hkept
    · rw [hsaved]
      exact remoteKept_of_keeps (Grows.snapshot_keeps hpairs hd)
  · refine List.pairwise_append.mpr ⟨h.pairs, hpairs.imp remoteKept_of_keeps, fun d hd d' hd' => ?_⟩
    exact remoteKept_keeps (h.kept d hd) (hall d' hd').1

theorem history_recorded (h : History past c t) : Recorded past c t := by
  induction h with
  | @start c hc =>
    have hself : RemoteKept c c := remoteKept_of_keeps (.refl c)
    exact ⟨List.mem_singleton_self c, fun d hd => List.mem_singleton.mp hd ▸ hself,
      List.pairwise_singleton _ c, evidence_unlinked hc⟩
  | @edit past c t c' h hc' ih =>
    refine ⟨by simp, fun d hd => ?_, ?_, ih.evidence.edited hc'⟩
    · rcases List.mem_append.mp hd with hd | hd
      · exact remoteKept_edited (ih.kept d hd) hd hc'
      · rw [List.mem_singleton.mp hd]
        exact remoteKept_of_keeps (.refl c')
    · refine List.pairwise_append.mpr ⟨ih.pairs, List.pairwise_singleton _ c', fun d hd d' hd' => ?_⟩
      rw [List.mem_singleton.mp hd']
      exact remoteKept_edited (ih.kept d hd) hd hc'
  | attempt h ha ih => exact (attempt_recorded ih ha).2

end Prerequisite

/-- After any history of a contract, stored remote ids stay through the next
attempt, and every call of `submit_contract` in it has its prerequisites. -/
theorem submit_has_prerequisites {past : List Contract} {c c' : Contract} {t s : Trace}
    {o : Outcome Exc SubmissionResult} (h : History past c t) (ha : Attempt c o c' s) :
    (past ++ snapshots RecordWrite.apply c s).Pairwise RemoteKept ∧
      ∀ before e after id, s = before ++ e :: after → submits id e →
        Prerequisites past c t before id := by
  have hattempt := Prerequisite.attempt_recorded (Prerequisite.history_recorded h) ha
  exact ⟨hattempt.2.pairs, hattempt.1⟩

/-- An attempt at the sample contract, saved as `c`, where the upload of signed
documents is up or down. -/
def uploadRun (up : Bool) (c : Contract) : Outcome Exc SubmissionResult × Session Contract Trace :=
  (executeFullSubmission sampleEnv).replay RecordWrite.apply
    (fun _ request =>
      match up, request.call with
      | false, .uploadSignedDocument .. => .response 503 none "down"
      | _, _ => .response 201 (some (.obj [("data", .obj [("id", .str "ejar-1")])])) "")
    ⟨c, c, []⟩

theorem uploadRun_attempt (up : Bool) (c : Contract) :
    Attempt c (uploadRun up c).1 (uploadRun up c).2.committed (uploadRun up c).2.seen := by
  refine ⟨sampleEnv, (uploadRun up c).2.working,
    Prog.replay_exec (fun _ _ => trivial) (fun _ => trivial) (fun _ request => ?_) _ _⟩
  have hid : Reply.carriesId (.response 201 (some (.obj [("data", .obj [("id", .str "ejar-1")])])) "") :=
    ⟨.str "ejar-1", rfl, rfl⟩
  cases up with
  | true => exact fun _ => hid
  | false =>
    cases hcall : request.call with
    | uploadSignedDocument _ _ _ =>
      intro haccepted
      cases haccepted
    | _ => exact fun _ => hid

def failedUpload : Outcome Exc SubmissionResult × Session Contract Trace :=
  uploadRun false (sampleContract "EJ/1")

def rerun : Outcome Exc SubmissionResult × Session Contract Trace :=
  uploadRun true failedUpload.2.committed

def submitsAs (id : String) : Event RecordWrite Request Reply → Bool
  | .call ⟨_, .submitContract contractId⟩ _ => contractId == id
  | _ => false

theorem submit_has_prerequisites_rerun : ∃ before, before <+: rerun.2.seen ∧
    Prerequisites
      ([sampleContract "EJ/1"] ++ snapshots RecordWrite.apply (sampleContract "EJ/1") failedUpload.2.seen)
      failedUpload.2.committed failedUpload.2.seen before "ejar-1" := by
  have hstart : Unlinked (sampleContract "EJ/1") := by
    refine ⟨by decide +kernel, fun i hi => ?_, fun i hi => ?_⟩
    · exact (by decide +kernel : ∀ i ∈ (sampleContract "EJ/1").partyIds.ids,
        ¬ ((sampleContract "EJ/1").partyIds.row i).ejarEntityId.truthy ∧
        ¬ ((sampleContract "EJ/1").partyIds.row i).ejarPartyId.truthy) i hi
    · exact (by decide +kernel : ∀ i ∈ (sampleContract "EJ/1").unitIds.ids,
        ¬ ((sampleContract "EJ/1").unitIds.row i).ejarContractUnitId.truthy) i hi
  have hany : rerun.2.seen.any (submitsAs "ejar-1") = true := by decide +kernel
  obtain ⟨e, he, hsubmit⟩ := List.any_eq_true.mp hany
  obtain ⟨before, after, hsplit⟩ := List.append_of_mem he
  refine ⟨before, ⟨e :: after, hsplit.symm⟩, ?_⟩
  have hhistory := (History.start hstart).attempt (uploadRun_attempt false (sampleContract "EJ/1"))
  refine (submit_has_prerequisites hhistory (uploadRun_attempt true failedUpload.2.committed)).2
    before e after "ejar-1" hsplit ?_
  unfold submitsAs at hsubmit
  split at hsubmit
  · rw [eq_of_beq hsubmit]
    rfl
  · cases hsubmit

end Ejar
