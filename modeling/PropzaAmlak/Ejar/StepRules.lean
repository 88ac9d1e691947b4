import PropzaAmlak.Tx.Logic
import PropzaAmlak.Ejar.Replies

/-! What each step of the pipeline may do, as a rule for its weakest
precondition: the call it makes, what it takes from the reply, what it writes. -/

namespace Ejar

open Tx

variable {τ α β : Type} {obs : Observer RecordWrite Request Reply τ} {x : Session Contract τ}

/-- One call, with `read` for what becomes of the reply. -/
def callThen (obs : Observer RecordWrite Request Reply τ) (request : Request)
    (read : Reply → Except Exc α) (N : α → Session Contract τ → Prop)
    (E : Exc → Session Contract τ → Prop) (C : Session Contract τ → Prop)
    (x : Session Contract τ) : Prop :=
  C x ∧
    (∀ reply s, obs x.seen (.call request reply) s →
      resultMeets (read reply) (N · ⟨x.committed, x.working, s⟩) (E · ⟨x.committed, x.working, s⟩)) ∧
    ∀ s, obs x.seen (.lost request) s → C ⟨x.committed, x.working, s⟩

/-- One write. -/
def writeThen (obs : Observer RecordWrite Request Reply τ) (u : RecordWrite)
    (N : Session Contract τ → Prop) (x : Session Contract τ) : Prop :=
  ∀ s, obs x.seen (.write u) s → N ⟨x.committed, u.apply x.working, s⟩

section

variable {N : α → Session Contract τ → Prop} {E : Exc → Session Contract τ → Prop}
  {C : Session Contract τ → Prop}

theorem callThen_of {request : Request} {read : Reply → Except Exc α} (hC : C x)
    (hok : ∀ reply s a, obs x.seen (.call request reply) s → read reply = .ok a →
      N a ⟨x.committed, x.working, s⟩)
    (herror : ∀ reply s e, obs x.seen (.call request reply) s → read reply = .error e →
      E e ⟨x.committed, x.working, s⟩)
    (hlost : ∀ s, obs x.seen (.lost request) s → C ⟨x.committed, x.working, s⟩) :
    callThen obs request read N E C x := by
  refine ⟨hC, fun reply s hs => ?_, hlost⟩
  cases hread : read reply with
  | ok a => exact hok reply s a hs hread
  | error e => exact herror reply s e hs hread

theorem resultMeets_bind {v : Except Exc β} {f : β → Except Exc α} {N : α → Prop} {E : Exc → Prop} :
    resultMeets (v >>= f) N E ↔ resultMeets v (fun b => resultMeets (f b) N E) E := by
  cases v <;> exact Iff.rfl

theorem callThen_bind {request : Request} {read : Reply → Except Exc β} {f : β → Except Exc α} :
    callThen obs request (fun reply => read reply >>= f) N E C x ↔
      callThen obs request read (fun b y => resultMeets (f b) (N · y) (E · y)) E C x := by
  simp only [callThen, resultMeets_bind]

theorem wp_makeRequest {client : Nat} {call : ApiCall} {N : Json → Session Contract τ → Prop} :
    wp RecordWrite.apply obs (makeRequest client call) N E C x ↔
      callThen obs ⟨client, call⟩ (readReply ⟨client, call⟩) N E C x := by
  simp only [makeRequest, wp_bind, wp_request, wp_ofExcept, callThen]

/-- A try block that makes one call and whose handler has no further effects. -/
theorem wp_exceptConflict {p : Pipeline α} {request : Request} {read : Reply → Except Exc α}
    {handler : Exc → Pipeline α} {h : Exc → Except Exc α}
    (hp : ∀ {N : α → Session Contract τ → Prop} {E : Exc → Session Contract τ → Prop},
      wp RecordWrite.apply obs p N E C x ↔ callThen obs request read N E C x)
    (hh : ∀ exc, handler exc = Prog.ofExcept (h exc)) :
    wp RecordWrite.apply obs (exceptConflict p handler) N E C x ↔
      callThen obs request (fun reply => orConflict (read reply) h) N E C x := by
  simp only [exceptConflict, wp_tryCatch, hp, callThen]
  refine and_congr_right fun _ => and_congr_left fun _ =>
    forall_congr' fun reply => forall_congr' fun s => imp_congr_right fun _ => ?_
  cases hread : read reply with
  | ok a => exact Iff.rfl
  | error e =>
    by_cases hcls : e.cls = .ejarConflictError
    · simp [resultMeets, orConflict, hcls, hh]
    · simp [resultMeets, orConflict, hcls]

theorem wp_writeContract {vals : ContractVals} {N : Unit → Session Contract τ → Prop} :
    wp RecordWrite.apply obs (writeContract vals) N E C x ↔
      writeThen obs (.contract vals) (N ()) x := by
  simp only [writeContract, wp_bind, wp_put, wp_get, wp_ofExcept, checkStateTransition_ok, ite_self]
  exact Iff.rfl

end

section

variable {N : Unit → Session Contract τ → Prop} {E : Exc → Session Contract τ → Prop}
  {C : Session Contract τ → Prop} {client : Nat}

theorem wp_stepCreateEntity {partyId : Nat} :
    wp RecordWrite.apply obs (stepCreateEntity client partyId) N E C x ↔
      resultMeets (entityCall (x.working.partyIds.row partyId))
        (fun call => callThen obs ⟨client, call⟩ (entityReply ⟨client, call⟩)
          (fun entityId => writeThen obs
            (.party partyId { ejarEntityId := some (.ofJson entityId), syncState := some .synced })
            (N ())) E C x)
        (E · x) := by
  simp only [stepCreateEntity, wp_bind, wp_get, wp_ofExcept, wp_put]
  cases entityCall (x.working.partyIds.row partyId) with
  | error e => exact Iff.rfl
  | ok call =>
    refine Iff.trans (wp_exceptConflict (h := fun exc => do
      let entityId ← existingId exc
      if entityId.truthy then .ok (.obj [("data", .obj [("id", entityId)])]) else .error exc)
      wp_makeRequest fun exc => ?_) callThen_bind.symm
    cases existingId exc with
    | error e => rfl
    | ok entityId => cases hid : entityId.truthy <;> simp [hid, Prog.ofExcept, bind, Except.bind, Prog.bind]

theorem wp_resolvePartyEntity_skip {partyId : Nat}
    (hid : (x.working.partyIds.row partyId).ejarEntityId.truthy) :
    wp RecordWrite.apply obs (resolvePartyEntity client partyId) N E C x ↔ N () x := by
  simp only [resolvePartyEntity, wp_bind, wp_get, hid, ↓reduceIte, Prog.pure_eq, wp_ret]

theorem wp_resolvePartyEntity {partyId : Nat}
    (hid : ¬ (x.working.partyIds.row partyId).ejarEntityId.truthy) :
    wp RecordWrite.apply obs (resolvePartyEntity client partyId) N E C x ↔
      wp RecordWrite.apply obs (stepCreateEntity client partyId) N E C x := by
  simp only [resolvePartyEntity, wp_bind, wp_get, hid, Bool.false_eq_true, ↓reduceIte]

theorem wp_stepCreateContract_skip {profile : BrokerageProfile}
    {N : String → Session Contract τ → Prop} (hid : x.working.ejarContractId.truthy) :
    wp RecordWrite.apply obs (stepCreateContract client profile) N E C x ↔
      N x.working.ejarContractId.str x := by
  simp only [stepCreateContract, wp_bind, wp_get, hid, ↓reduceIte, Prog.pure_eq, wp_ret]

theorem wp_stepCreateContract {profile : BrokerageProfile}
    {N : String → Session Contract τ → Prop} (hid : ¬ x.working.ejarContractId.truthy) :
    wp RecordWrite.apply obs (stepCreateContract client profile) N E C x ↔
      resultMeets (buildContractAttributes x.working (some profile))
        (fun attrs => callThen obs ⟨client, .createContract attrs⟩
          (contractReply ⟨client, .createContract attrs⟩)
          (fun created => writeThen obs
            (.contract { ejarContractId := some (.ofJson created.1)
                         ejarContractNumber := some (.ofJson created.2) })
            (N created.1.text)) E C x)
        (E · x) := by
  simp only [stepCreateContract, wp_bind, wp_get, hid, Bool.false_eq_true, ↓reduceIte, wp_ofExcept,
    wp_writeContract, Prog.pure_eq, wp_ret]
  cases buildContractAttributes x.working (some profile) with
  | error e => exact Iff.rfl
  | ok attrs =>
    refine Iff.trans (wp_exceptConflict (h := fun exc => do
      let ejarId ← existingId exc
      if ejarId.truthy then
        .ok (.obj [("data", .obj [("id", ejarId), ("attributes", exc.existingResource.orElse (.obj []))])])
      else .error exc)
      wp_makeRequest fun exc => ?_) ?_
    · cases existingId exc with
      | error e => rfl
      | ok ejarId => cases hid : ejarId.truthy <;> simp [hid, Prog.ofExcept, bind, Except.bind, Prog.bind]
    · refine Iff.trans ?_ callThen_bind.symm
      simp only [resultMeets_bind]
      exact Iff.rfl

/-- The unit refers to a property and a unit of the Ejar portfolio. -/
def ContractUnit.registered (unit : ContractUnit) : Bool :=
  unit.ejarPropertyId.truthy && unit.ejarUnitId.truthy

theorem wp_returnedId {call : ApiCall} {N : Except Exc Json → Session Contract τ → Prop} :
    wp RecordWrite.apply obs (do
        let resp ← makeRequest client call
        pure (respId resp)) N E C x ↔
      callThen obs ⟨client, call⟩ (fun reply => (readReply ⟨client, call⟩ reply).map respId) N E C x := by
  simp only [wp_bind, wp_makeRequest, callThen, Prog.pure_eq, wp_ret]
  refine and_congr_right fun _ => and_congr_left fun _ =>
    forall_congr' fun reply => forall_congr' fun s => imp_congr_right fun _ => ?_
  cases readReply ⟨client, call⟩ reply <;> exact Iff.rfl

theorem wp_linkCall {call : ApiCall} {N : Json → Session Contract τ → Prop} :
    wp RecordWrite.apply obs
        (exceptConflict (do
            let resp ← makeRequest client call
            pure (respId resp))
          fun exc => pure (existingId exc))
        (fun linkedId y => resultMeets linkedId (N · y) (E · y)) E C x ↔
      callThen obs ⟨client, call⟩ (linkReply ⟨client, call⟩) N E C x := by
  refine Iff.trans (wp_exceptConflict (h := fun exc => .ok (existingId exc)) wp_returnedId
    fun exc => rfl) ?_
  exact callThen_bind.symm

theorem wp_stepAttachUnit_skip {ejarContractId : String} {unitId : Nat}
    (hid : (x.working.unitIds.row unitId).ejarContractUnitId.truthy) :
    wp RecordWrite.apply obs (stepAttachUnit client ejarContractId unitId) N E C x ↔ N () x := by
  simp only [stepAttachUnit, wp_bind, wp_get, hid, ↓reduceIte, Prog.pure_eq, wp_ret]

theorem wp_stepAttachUnit {ejarContractId : String} {unitId : Nat}
    (hid : ¬ (x.working.unitIds.row unitId).ejarContractUnitId.truthy)
    (hreg : (x.working.unitIds.row unitId).registered) :
    wp RecordWrite.apply obs (stepAttachUnit client ejarContractId unitId) N E C x ↔
      let unit := x.working.unitIds.row unitId
      let request : Request :=
        ⟨client, .attachUnit ejarContractId unit.ejarPropertyId unit.ejarUnitId⟩
      callThen obs request (linkReply request)
        (fun linkedId => writeThen obs
          (.unit unitId { ejarContractUnitId := some (.ofJson linkedId), syncState := some .synced })
          (N ())) E C x := by
  have hmissing : (!(x.working.unitIds.row unitId).ejarPropertyId.truthy ||
      !(x.working.unitIds.row unitId).ejarUnitId.truthy) = false := by
    simpa [ContractUnit.registered] using hreg
  simp only [stepAttachUnit, wp_bind, wp_get, hid, hmissing, Bool.false_eq_true, ↓reduceIte,
    wp_ofExcept, wp_put]
  exact wp_linkCall

theorem wp_stepAttachUnit_unregistered {ejarContractId : String} {unitId : Nat}
    (hid : ¬ (x.working.unitIds.row unitId).ejarContractUnitId.truthy)
    (hreg : ¬ (x.working.unitIds.row unitId).registered) (hE : ∀ e, E e x) :
    wp RecordWrite.apply obs (stepAttachUnit client ejarContractId unitId) N E C x := by
  have hmissing : (!(x.working.unitIds.row unitId).ejarPropertyId.truthy ||
      !(x.working.unitIds.row unitId).ejarUnitId.truthy) = true := by
    simpa [ContractUnit.registered, Bool.and_eq_true, imp_iff_not_or] using hreg
  simp only [stepAttachUnit, wp_bind, wp_get, hid, hmissing, Bool.false_eq_true, ↓reduceIte]
  exact hE _

theorem wp_stepAddParty_skip {ejarContractId : String} {partyId : Nat}
    (hid : (x.working.partyIds.row partyId).ejarPartyId.truthy) :
    wp RecordWrite.apply obs (stepAddParty client ejarContractId partyId) N E C x ↔ N () x := by
  simp only [stepAddParty, wp_bind, wp_get, hid, ↓reduceIte, Prog.pure_eq, wp_ret]

/-- The attributes of a party that has its entity. -/
def Party.attributes (party : Party) : PartyAttributes :=
  { role := party.role.str, protectIdentity := false,
    isRepresentative := party.role.isRepresentative, entityId := party.ejarEntityId,
    entityType := party.entityType.endpointType }

theorem buildPartyAttributes_ok {party : Party} (hentity : party.ejarEntityId.truthy) :
    buildPartyAttributes party party.ejarEntityId = .ok party.attributes := by
  obtain ⟨s, hs, hne⟩ := CharField.truthy_iff.mp hentity
  have hrole : (FieldValue.char party.role.str).truthy = true := by
    cases party.role <;> rfl
  have hid : (FieldValue.ofChar party.ejarEntityId).truthy = true := by
    simp [hs, FieldValue.ofChar, FieldValue.truthy, hne]
  simp only [buildPartyAttributes, require, hid, hrole, Bool.not_true, Bool.false_and,
    Bool.false_eq_true, ↓reduceIte]
  rfl

theorem wp_stepAddParty {ejarContractId : String} {partyId : Nat}
    (hid : ¬ (x.working.partyIds.row partyId).ejarPartyId.truthy)
    (hentity : (x.working.partyIds.row partyId).ejarEntityId.truthy) :
    wp RecordWrite.apply obs (stepAddParty client ejarContractId partyId) N E C x ↔
      let request : Request :=
        ⟨client, .addParty ejarContractId (x.working.partyIds.row partyId).attributes⟩
      callThen obs request (linkReply request)
        (fun linkedId => writeThen obs
          (.party partyId { ejarPartyId := some (.ofJson linkedId), syncState := some .synced })
          (N ())) E C x := by
  simp only [stepAddParty, wp_bind, wp_get, hid, hentity, Bool.not_true, Bool.false_eq_true,
    ↓reduceIte, wp_ofExcept, wp_put, buildPartyAttributes_ok hentity]
  exact wp_linkCall

theorem wp_stepAddParty_noEntity {ejarContractId : String} {partyId : Nat}
    (hid : ¬ (x.working.partyIds.row partyId).ejarPartyId.truthy)
    (hentity : ¬ (x.working.partyIds.row partyId).ejarEntityId.truthy) (hE : ∀ e, E e x) :
    wp RecordWrite.apply obs (stepAddParty client ejarContractId partyId) N E C x := by
  have hmissing : (x.working.partyIds.row partyId).ejarEntityId.truthy = false := by
    simpa using hentity
  simp only [stepAddParty, wp_bind, wp_get, hid, hmissing, Bool.not_false, Bool.false_eq_true,
    ↓reduceIte]
  exact hE _

/-- A representative whose proxy document is still to be uploaded. -/
def Party.proxyPending (party : Party) : Bool :=
  party.role.isRepresentative && !party.ejarProxyDocId.truthy && party.proxyDoc.truthy &&
    party.ejarPartyId.truthy

def Party.proxyCall (party : Party) (ejarContractId : String) : ApiCall :=
  .uploadProxyDocument ejarContractId party.ejarPartyId (party.proxyDoc.getD [])
    (party.proxyDocFilename.orText ("proxy_" ++ party.ejarPartyId.str ++ ".pdf"))
    (party.proxyDocType.getD .paperPoa).str

theorem wp_uploadRepresentativeDoc {ejarContractId : String} {partyId : Nat} :
    wp RecordWrite.apply obs (uploadRepresentativeDoc client ejarContractId partyId) N E C x ↔
      let party := x.working.partyIds.row partyId
      let request : Request := ⟨client, party.proxyCall ejarContractId⟩
      if party.proxyPending then
        callThen obs request (proxyReply request)
          (fun docId => writeThen obs (.party partyId { ejarProxyDocId := some (.ofJson docId) })
            (N ())) E C x
      else N () x := by
  simp only [uploadRepresentativeDoc, wp_bind, wp_get]
  cases hrole : (x.working.partyIds.row partyId).role.isRepresentative with
  | false => simp [Party.proxyPending, hrole]
  | true =>
    cases hdoc : (x.working.partyIds.row partyId).ejarProxyDocId.truthy with
    | true => simp [Party.proxyPending, hrole, hdoc, stepUploadProxyDoc, wp_bind]
    | false =>
      cases hfile : (x.working.partyIds.row partyId).proxyDoc.truthy with
      | false => simp [Party.proxyPending, hrole, hdoc, hfile, stepUploadProxyDoc, wp_bind]
      | true =>
        cases hparty : (x.working.partyIds.row partyId).ejarPartyId.truthy with
        | false => simp [Party.proxyPending, hrole, hdoc, hfile, hparty, stepUploadProxyDoc, wp_bind]
        | true =>
          simp only [Party.proxyPending, hrole, hdoc, hfile, hparty, stepUploadProxyDoc, wp_bind,
            wp_get, Bool.not_true, Bool.not_false, Bool.or_false, Bool.and_self, Bool.false_eq_true,
            ↓reduceIte, wp_makeRequest, wp_ofExcept, wp_put]
          exact callThen_bind.symm

theorem wp_stepUploadSignedDoc_missing {ejarContractId : String}
    (hdoc : ¬ x.working.signedDoc.truthy) (hE : ∀ e, E e x) :
    wp RecordWrite.apply obs (stepUploadSignedDoc client ejarContractId) N E C x := by
  have hmissing : x.working.signedDoc.truthy = false := by simpa using hdoc
  simp only [stepUploadSignedDoc, wp_bind, wp_get, hmissing, Bool.not_false, ↓reduceIte]
  exact hE _

def Contract.signedDocCall (contract : Contract) (ejarContractId : String) : ApiCall :=
  .uploadSignedDocument ejarContractId (contract.signedDoc.getD [])
    (contract.signedDocFilename.orText ("contract_" ++ contract.name ++ ".pdf"))

theorem wp_stepUploadSignedDoc {ejarContractId : String} (hdoc : x.working.signedDoc.truthy) :
    wp RecordWrite.apply obs (stepUploadSignedDoc client ejarContractId) N E C x ↔
      let request : Request := ⟨client, x.working.signedDocCall ejarContractId⟩
      callThen obs request (docReply request) N E C x := by
  simp only [stepUploadSignedDoc, wp_bind, wp_get, hdoc, Bool.not_true, Bool.false_eq_true,
    ↓reduceIte, wp_makeRequest, Prog.pure_eq, wp_ret]
  refine Iff.trans ?_ callThen_bind.symm
  exact Iff.rfl

theorem wp_ignoredConflict {call : ApiCall} :
    wp RecordWrite.apply obs
        (exceptConflict (do
            let _ ← makeRequest client call
            pure ())
          fun _ => pure ()) N E C x ↔
      callThen obs ⟨client, call⟩ (infoReply ⟨client, call⟩) N E C x := by
  have hcall : ∀ {N : Unit → Session Contract τ → Prop} {E : Exc → Session Contract τ → Prop},
      wp RecordWrite.apply obs (do
        let _ ← makeRequest client call
        pure ()) N E C x ↔ callThen obs ⟨client, call⟩ (docReply ⟨client, call⟩) N E C x := by
    intro N E
    simp only [wp_bind, wp_makeRequest, Prog.pure_eq, wp_ret]
    refine Iff.trans ?_ callThen_bind.symm
    exact Iff.rfl
  exact wp_exceptConflict (h := fun _ => .ok ()) hcall fun _ => rfl

theorem wp_stepAddFinancialInfo {ejarContractId : String} :
    wp RecordWrite.apply obs (stepAddFinancialInfo client ejarContractId) N E C x ↔
      resultMeets (buildFinancialAttributes x.working)
        (fun attrs =>
          let request : Request := ⟨client, .addFinancialInformation ejarContractId attrs⟩
          callThen obs request (infoReply request) N E C x)
        (E · x) := by
  simp only [stepAddFinancialInfo, wp_bind, wp_get, wp_ofExcept, wp_ignoredConflict]

theorem wp_stepAddRentalFee {profile : BrokerageProfile} {ejarContractId : String} :
    wp RecordWrite.apply obs (stepAddRentalFee client profile ejarContractId) N E C x ↔
      match buildRentalFeeAttributes x.working (some profile) with
      | none => N () x
      | some attrs =>
        let request : Request := ⟨client, .addRentalFee ejarContractId attrs⟩
        callThen obs request (infoReply request) N E C x := by
  simp only [stepAddRentalFee, wp_bind, wp_get]
  cases buildRentalFeeAttributes x.working (some profile) with
  | none => exact Iff.rfl
  | some attrs => exact wp_ignoredConflict

theorem wp_stepSubmit {ejarContractId : String} :
    wp RecordWrite.apply obs (stepSubmit client ejarContractId) N E C x ↔
      let request : Request := ⟨client, .submitContract ejarContractId⟩
      callThen obs request (submitReply request) N E C x := by
  simp only [stepSubmit, wp_bind, wp_makeRequest, wp_ofExcept, Prog.pure_eq, wp_ret]
  refine Iff.trans ?_ callThen_bind.symm
  simp only [resultMeets_bind]
  exact Iff.rfl

end

end Ejar
