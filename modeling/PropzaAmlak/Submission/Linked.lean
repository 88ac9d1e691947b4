import PropzaAmlak.Ejar.PipelineRule

/-! Which replies leave a submitted contract without remote ids. -/

namespace Ejar

open Tx

/-- A run of `execute_full_submission` on a contract saved as `c`, which ends
with `c'` saved, with everything it wrote, committed and called. -/
def SubmissionRun (env : Env) (c : Contract) (o : Outcome Exc SubmissionResult) (c' : Contract)
    (trace : Trace) : Prop :=
  ∃ w, Exec RecordWrite.apply (record fun _ _ => True) (executeFullSubmission env) ⟨c, c, []⟩ o
    ⟨c', w, trace⟩

def succeeds : Outcome Exc SubmissionResult → Bool
  | .ret _ => true
  | _ => false

def Linked (c : Contract) : Prop :=
  c.ejarContractId.truthy ∧
    (∀ p ∈ c.parties, p.ejarEntityId.truthy ∧ p.ejarPartyId.truthy) ∧
    ∀ u ∈ c.units, u.ejarContractUnitId.truthy

def storesId (v : Option CharField) : Prop := ∃ s, v = some s ∧ s.truthy

/-- If the write sets 'synced', it stores a non-empty remote id with it. -/
def RecordWrite.syncsWithId : RecordWrite → Prop
  | .contract _ | .activity _ => True
  | .party _ v => v.syncState = some .synced → storesId v.ejarEntityId ∨ storesId v.ejarPartyId
  | .unit _ v => v.syncState = some .synced → storesId v.ejarContractUnitId

/-- The call creates the remote contract. -/
def Request.creates (request : Request) : Prop :=
  match request.call with
  | .createContract _ => True
  | _ => False

/-- The reply is taken for a success but brings no id to store. -/
def idless (request : Request) (reply : Reply) : Prop :=
  match request.call with
  | .createIndividualEntity _ | .createOrganizationEntity _ =>
    ∃ id, entityReply request reply = .ok id ∧ ¬ (CharField.ofJson id).truthy
  | .createContract _ =>
    ∃ created, contractReply request reply = .ok created ∧ ¬ (CharField.ofJson created.1).truthy
  | .attachUnit .. | .addParty .. =>
    ∃ id, linkReply request reply = .ok id ∧ ¬ (CharField.ofJson id).truthy
  | _ => False

namespace Linking

def badSync : Event RecordWrite Request Reply → Prop
  | .write u => ¬ u.syncsWithId
  | _ => False

def idlessLink : Event RecordWrite Request Reply → Prop
  | .call request reply => ¬ request.creates ∧ idless request reply
  | _ => False

def idlessCreation : Event RecordWrite Request Reply → Prop
  | .call request reply => request.creates ∧ idless request reply
  | _ => False

def creation : Event RecordWrite Request Reply → Prop
  | .call request _ => request.creates
  | _ => False

def Synced (t : Trace) : Prop := (∃ e ∈ t, badSync e) ↔ ∃ e ∈ t, idlessLink e

def NoCreation (t : Trace) : Prop := ∀ e ∈ t, ¬ creation e

def Created (c : Contract) (t : Trace) : Prop :=
  c.ejarContractId.truthy ↔ ¬ ∃ e ∈ t, idlessCreation e

variable {t : Trace} {c : Contract} {e : Event RecordWrite Request Reply}

theorem exists_mem_concat {P : Event RecordWrite Request Reply → Prop} :
    (∃ e' ∈ t ++ [e], P e') ↔ (∃ e' ∈ t, P e') ∨ P e := by
  simp [or_and_right, exists_or]

theorem Synced.append (ht : Synced t) (he : badSync e ↔ idlessLink e) : Synced (t ++ [e]) := by
  unfold Synced at ht ⊢
  rw [exists_mem_concat, exists_mem_concat, he, ht]

theorem Synced.append_link {w : Event RecordWrite Request Reply} (ht : Synced t)
    (hcall : ¬ badSync e) (hwrite : ¬ idlessLink w) (he : badSync w ↔ idlessLink e) :
    Synced (t ++ [e] ++ [w]) := by
  simp only [Synced, exists_mem_concat] at ht ⊢
  simp only [hcall, hwrite, or_false, he, ht]

theorem idlessCreation_creation (he : idlessCreation e) : creation e := by
  cases e with
  | call request reply => exact he.1
  | _ => exact he

theorem NoCreation.created (ht : NoCreation t) (hc : c.ejarContractId.truthy) : Created c t :=
  iff_of_true hc fun ⟨e, he, hidless⟩ => ht e he (idlessCreation_creation hidless)

/-- What only the creation of the remote contract and a write of its id change. -/
def Stable (K : Contract → Trace → Prop) : Prop :=
  ∀ c c' t e, K c t → ¬ creation e → c'.ejarContractId = c.ejarContractId → K c' (t ++ [e])

theorem noCreation_stable : Stable fun _ t => NoCreation t := by
  intro c c' t e ht he _ e' he'
  rcases List.mem_append.mp he' with he' | he'
  · exact ht e' he'
  · rwa [List.mem_singleton.mp he']

theorem created_stable : Stable Created := by
  intro c c' t e ht he hc
  have hidless : ¬ idlessCreation e := fun h => he (idlessCreation_creation h)
  unfold Created at ht ⊢
  rw [exists_mem_concat, hc, ht]
  simp [hidless]

def Inv (K : Contract → Trace → Prop) (y : Session Contract Trace) : Prop :=
  Synced y.seen ∧ K y.working y.seen

abbrev traced : Observer RecordWrite Request Reply Trace := record fun _ _ => True

section

variable {K : Contract → Trace → Prop} {x : Session Contract Trace} {request : Request}

theorem Inv.append (hK : Stable K) (hx : Inv K x) {c d : Contract} (hbad : ¬ badSync e)
    (hidless : ¬ idlessLink e) (hcreation : ¬ creation e)
    (hc : d.ejarContractId = x.working.ejarContractId) : Inv K ⟨c, d, x.seen ++ [e]⟩ :=
  ⟨hx.1.append (iff_of_false hbad hidless), hK _ _ _ _ hx.2 hcreation hc⟩

theorem link_then (hK : Stable K) (hx : Inv K x) {read : Reply → Except Exc Json}
    {u : Json → RecordWrite} {D : Contract → Prop} (hcreates : ¬ request.creates)
    (hidless : ∀ reply, idless request reply ↔
      ∃ id, read reply = .ok id ∧ ¬ (CharField.ofJson id).truthy)
    (hsync : ∀ id, (u id).syncsWithId ↔ (CharField.ofJson id).truthy)
    (hc : ∀ id, ((u id).apply x.working).ejarContractId = x.working.ejarContractId)
    (hD : ∀ id, (CharField.ofJson id).truthy → D ((u id).apply x.working)) :
    callThen traced request read
      (fun id => writeThen traced (u id) fun y =>
        Inv K y ∧ ((∃ e ∈ y.seen, idlessLink e) ∨ D y.working))
      (fun _ => Inv K) (Inv K) x := by
  refine callThen_of hx ?_ ?_ ?_
  · rintro reply s id ⟨-, rfl⟩ hread s' ⟨-, rfl⟩
    have hreply : idless request reply ↔ ¬ (CharField.ofJson id).truthy := by
      rw [hidless]
      simp [hread]
    have hcall : ¬ creation (.call request reply) := hcreates
    refine ⟨⟨hx.1.append_link (e := .call request reply) (w := .write (u id)) (by exact not_false)
      (by exact not_false) ?_, ?_⟩, ?_⟩
    · change ¬ (u id).syncsWithId ↔ ¬ request.creates ∧ idless request reply
      rw [hsync, ← hreply]
      exact (and_iff_right hcreates).symm
    · exact hK _ _ _ _ (hK _ _ _ _ hx.2 hcall rfl) (by exact not_false) (hc id)
    · by_cases hid : (CharField.ofJson id).truthy
      · exact .inr (hD id hid)
      · exact .inl ⟨.call request reply, by simp, hcreates, hreply.mpr hid⟩
  · rintro reply s e ⟨-, rfl⟩ hread
    refine hx.append hK (by exact not_false) (fun h => ?_) hcreates rfl
    obtain ⟨id, hid, -⟩ := (hidless reply).mp h.2
    rw [hread] at hid
    cases hid
  · rintro s ⟨-, rfl⟩
    exact hx.append hK (by exact not_false) (by exact not_false) (by exact not_false) rfl

theorem plain_then {α : Type} (hK : Stable K) (hx : Inv K x) {read : Reply → Except Exc α}
    (hcreates : ¬ request.creates) (hidless : ∀ reply, ¬ idless request reply)
    {N : α → Session Contract Trace → Prop}
    (hN : ∀ a y, Inv K y → y.working = x.working → N a y) :
    callThen traced request read N (fun _ => Inv K) (Inv K) x := by
  have hcall : ∀ reply, Inv K ⟨x.committed, x.working, x.seen ++ [.call request reply]⟩ := fun reply =>
    hx.append hK (by exact not_false) (fun h => hidless reply h.2) hcreates rfl
  refine callThen_of hx ?_ ?_ ?_
  · rintro reply s a ⟨-, rfl⟩ -
    exact hN a _ (hcall reply) rfl
  · rintro reply s e ⟨-, rfl⟩ -
    exact hcall reply
  · rintro s ⟨-, rfl⟩
    exact hx.append hK (by exact not_false) (by exact not_false) (by exact not_false) rfl

end

theorem entityCall_not_creates {party : Party} {call : ApiCall} (hcall : entityCall party = .ok call)
    (client : Nat) : ¬ (⟨client, call⟩ : Request).creates := by
  rcases entityCall_cases hcall with ⟨attrs, rfl⟩ | ⟨attrs, rfl⟩
  · exact id
  · exact id

theorem idless_entity {party : Party} {call : ApiCall} (hcall : entityCall party = .ok call)
    (client : Nat) (reply : Reply) :
    idless ⟨client, call⟩ reply ↔
      ∃ id, entityReply ⟨client, call⟩ reply = .ok id ∧ ¬ (CharField.ofJson id).truthy := by
  rcases entityCall_cases hcall with ⟨attrs, rfl⟩ | ⟨attrs, rfl⟩
  · exact Iff.rfl
  · exact Iff.rfl

/-- What a loop over rows has done to a row, unless the trace shows a reply
without id. -/
def rowDone (D : Contract → Nat → Prop) (i : Nat) (y : Session Contract Trace) : Prop :=
  (∃ e ∈ y.seen, idlessLink e) ∨ D y.working i

def hasEntity (c : Contract) (i : Nat) : Prop := (c.partyIds.row i).ejarEntityId.truthy

def hasParty (c : Contract) (i : Nat) : Prop := (c.partyIds.row i).ejarPartyId.truthy

def hasContractUnit (c : Contract) (i : Nat) : Prop := (c.unitIds.row i).ejarContractUnitId.truthy

variable {client : Nat} {ejarContractId : String} {x : Session Contract Trace}

theorem resolvePartyEntity_inv {partyId : Nat} (hx : Inv (fun _ t => NoCreation t) x) :
    wp RecordWrite.apply traced (resolvePartyEntity client partyId)
      (fun _ y => Inv (fun _ t => NoCreation t) y ∧ rowDone hasEntity partyId y)
      (fun _ => Inv fun _ t => NoCreation t) (Inv fun _ t => NoCreation t) x := by
  by_cases hid : (x.working.partyIds.row partyId).ejarEntityId.truthy
  · rw [wp_resolvePartyEntity_skip hid]
    exact ⟨hx, .inr hid⟩
  rw [wp_resolvePartyEntity hid, wp_stepCreateEntity]
  cases hcall : entityCall (x.working.partyIds.row partyId) with
  | error e => exact hx
  | ok call =>
    rw [resultMeets_ok]
    refine link_then noCreation_stable hx (D := fun c => hasEntity c partyId)
      (entityCall_not_creates hcall client) (idless_entity hcall client) (fun id => ?_)
      (fun id => rfl) (fun id hid => ?_)
    · simp [RecordWrite.syncsWithId, storesId]
    · simpa [hasEntity, RecordWrite.apply, Party.set] using hid

theorem stepAttachUnit_inv {unitId : Nat} (hx : Inv Created x) :
    wp RecordWrite.apply traced (stepAttachUnit client ejarContractId unitId)
      (fun _ y => Inv Created y ∧ rowDone hasContractUnit unitId y)
      (fun _ => Inv Created) (Inv Created) x := by
  by_cases hid : (x.working.unitIds.row unitId).ejarContractUnitId.truthy
  · rw [wp_stepAttachUnit_skip hid]
    exact ⟨hx, .inr hid⟩
  by_cases hreg : (x.working.unitIds.row unitId).registered
  · rw [wp_stepAttachUnit hid hreg]
    refine link_then created_stable hx (D := fun c => hasContractUnit c unitId) (by exact not_false)
      (fun reply => Iff.rfl) (fun id => ?_) (fun id => rfl) (fun id hid => ?_)
    · simp [RecordWrite.syncsWithId, storesId]
    · simpa [hasContractUnit, RecordWrite.apply, ContractUnit.set] using hid
  · exact wp_stepAttachUnit_unregistered hid hreg fun _ => hx

theorem stepAddParty_inv {partyId : Nat} (hx : Inv Created x) :
    wp RecordWrite.apply traced (stepAddParty client ejarContractId partyId)
      (fun _ y => Inv Created y ∧ rowDone hasParty partyId y)
      (fun _ => Inv Created) (Inv Created) x := by
  by_cases hid : (x.working.partyIds.row partyId).ejarPartyId.truthy
  · rw [wp_stepAddParty_skip hid]
    exact ⟨hx, .inr hid⟩
  by_cases hentity : (x.working.partyIds.row partyId).ejarEntityId.truthy
  · rw [wp_stepAddParty hid hentity]
    refine link_then created_stable hx (D := fun c => hasParty c partyId) (by exact not_false)
      (fun reply => Iff.rfl) (fun id => ?_) (fun id => rfl) (fun id hid => ?_)
    · simp [RecordWrite.syncsWithId, storesId]
    · simpa [hasParty, RecordWrite.apply, Party.set] using hid
  · exact wp_stepAddParty_noEntity hid hentity fun _ => hx

theorem uploadRepresentativeDoc_inv {partyId : Nat} (hx : Inv Created x) :
    throughout RecordWrite.apply traced (uploadRepresentativeDoc client ejarContractId partyId)
      (Inv Created) x := by
  rw [throughout, wp_uploadRepresentativeDoc]
  dsimp only
  split
  · refine plain_then created_stable hx (by exact not_false) (fun _ => by exact not_false) ?_
    rintro docId y hy - s ⟨-, rfl⟩
    refine hy.append created_stable (fun h => h ?_) (by exact not_false) (by exact not_false) rfl
    simp [RecordWrite.syncsWithId]
  · exact hx

/-- A property of rows that stored ids keep. -/
def RowProperty (D : Contract → Nat → Prop) : Prop := ∀ c c' i, Keeps c c' → D c i → D c' i

theorem hasEntity_rows : RowProperty hasEntity := fun _ _ _ h => h.entityId_truthy

theorem hasParty_rows : RowProperty hasParty := fun _ _ _ h => h.partyId_truthy

theorem hasContractUnit_rows : RowProperty hasContractUnit := fun _ _ _ h => h.contractUnitId_truthy

theorem rowDone_lasting {D : Contract → Nat → Prop} (hD : RowProperty D) (i : Nat) :
    Lasting (rowDone D i) := by
  rintro y z h (⟨e, he, hidless⟩ | hi)
  · exact .inl ⟨e, h.seen_prefix.subset he, hidless⟩
  · exact .inr (hD _ _ i h.keeps hi)

def allParties (D : Contract → Nat → Prop) : Session Contract Trace → Prop :=
  eachRow (·.partyIds.ids) (rowDone D)

def allUnits (D : Contract → Nat → Prop) : Session Contract Trace → Prop :=
  eachRow (·.unitIds.ids) (rowDone D)

theorem allParties_lasting {D : Contract → Nat → Prop} (hD : RowProperty D) :
    Lasting (allParties D) :=
  eachRow_lasting Keeps.partyIds_ids (rowDone_lasting hD)

theorem allUnits_lasting {D : Contract → Nat → Prop} (hD : RowProperty D) : Lasting (allUnits D) :=
  eachRow_lasting Keeps.unitIds_ids (rowDone_lasting hD)

theorem resolvePartyEntities_inv (hx : Inv (fun _ t => NoCreation t) x) :
    wp RecordWrite.apply traced (resolvePartyEntities client)
      (fun _ y => Inv (fun _ t => NoCreation t) y ∧ allParties hasEntity y)
      (fun _ => Inv fun _ t => NoCreation t) (Inv fun _ t => NoCreation t) x :=
  wp_rows Keeps.partyIds_ids (rowDone_lasting hasEntity_rows) hx (fun _ _ _ hy => resolvePartyEntity_inv hy)
    fun _ y => (Grows.kept y).resolvePartyEntity (Grows.refl y)

theorem attachUnits_inv (hx : Inv Created x) :
    wp RecordWrite.apply traced (attachUnits client ejarContractId)
      (fun _ y => Inv Created y ∧ allUnits hasContractUnit y)
      (fun _ => Inv Created) (Inv Created) x :=
  wp_rows Keeps.unitIds_ids (rowDone_lasting hasContractUnit_rows) hx (fun _ _ _ hy => stepAttachUnit_inv hy)
    fun _ y => (Grows.kept y).stepAttachUnit (Grows.refl y)

theorem addParties_inv (hx : Inv Created x) :
    wp RecordWrite.apply traced (addParties client ejarContractId)
      (fun _ y => Inv Created y ∧ allParties hasParty y)
      (fun _ => Inv Created) (Inv Created) x :=
  wp_rows Keeps.partyIds_ids (rowDone_lasting hasParty_rows) hx (fun _ _ _ hy => stepAddParty_inv hy)
    fun _ y => (Grows.kept y).stepAddParty (Grows.refl y)

theorem uploadProxyDocs_inv (hx : Inv Created x) :
    throughout RecordWrite.apply traced (uploadProxyDocs client ejarContractId) (Inv Created) x :=
  throughout_bind hx fun _ _ hy =>
    throughout_forEach (fun _ _ _ hz => uploadRepresentativeDoc_inv hz) hy

theorem stepCreateContract_inv {profile : BrokerageProfile}
    (hx : Inv (fun _ t => NoCreation t) x) :
    wp RecordWrite.apply traced (stepCreateContract client profile)
      (fun _ => Inv Created) (fun _ y => Synced y.seen) (fun y => Synced y.seen) x := by
  by_cases hid : x.working.ejarContractId.truthy
  · rw [wp_stepCreateContract_skip hid]
    exact ⟨hx.1, hx.2.created hid⟩
  rw [wp_stepCreateContract hid]
  cases buildContractAttributes x.working (some profile) with
  | error e => exact hx.1
  | ok attrs =>
    rw [resultMeets_ok]
    have hcall : ∀ reply, Synced (x.seen ++ [.call ⟨client, .createContract attrs⟩ reply]) := fun reply =>
      hx.1.append (iff_of_false (by exact not_false) fun h => h.1 trivial)
    refine callThen_of hx.1 ?_ ?_ ?_
    · rintro reply s created ⟨-, rfl⟩ hread s' ⟨-, rfl⟩
      refine ⟨(hcall reply).append (iff_of_false (fun h => h trivial) (by exact not_false)), ?_⟩
      have hnone : ¬ ∃ e ∈ x.seen, idlessCreation e := fun ⟨e, he, h⟩ =>
        hx.2 e he (idlessCreation_creation h)
      have hreply : idlessCreation (.call ⟨client, .createContract attrs⟩ reply) ↔
          ¬ (CharField.ofJson created.1).truthy := by
        simp [idlessCreation, Request.creates, idless, hread]
      have hwrite : ∀ v, ¬ idlessCreation (.write v) := fun _ => by exact not_false
      simp only [Created, exists_mem_concat, hnone, hreply, hwrite, false_or, or_false, not_not]
      exact Iff.rfl
    · rintro reply s e ⟨-, rfl⟩ -
      exact hcall reply
    · rintro s ⟨-, rfl⟩
      exact hx.1.append (iff_of_false (by exact not_false) (by exact not_false))

theorem writeContract_inv {vals : ContractVals} {K : Contract → Trace → Prop} (hK : Stable K)
    (hx : Inv K x) (hvals : vals.ejarContractId = none) :
    throughout RecordWrite.apply traced (writeContract vals) (Inv K) x := by
  rw [throughout, wp_writeContract]
  rintro s ⟨-, rfl⟩
  refine hx.append hK (fun h => h trivial) (by exact not_false) (by exact not_false) ?_
  simp [RecordWrite.apply, Contract.set, hvals]

theorem ofExcept_inv {α : Type} {K : Contract → Trace → Prop} (v : Except Exc α) (hx : Inv K x) :
    throughout RecordWrite.apply traced (Prog.ofExcept v) (Inv K) x := by
  rw [throughout, wp_ofExcept]
  cases v <;> exact hx

theorem resolveProfile_inv (env : Env) {K : Contract → Trace → Prop} (hK : Stable K) (hx : Inv K x) :
    throughout RecordWrite.apply traced (resolveProfile env) (Inv K) x := by
  refine throughout_bind (throughout_bind hx fun contract y hy => ?_) fun profile y hy => ?_
  · split
    · exact hy
    · exact throughout_bind (writeContract_inv hK hy rfl) fun _ z hz => hz
    · exact hy
  · refine throughout_bind hy fun contract z hz => ?_
    cases profile with
    | none => exact hz
    | some profile => exact throughout_bind (ofExcept_inv _ hz) fun _ w hw => hw

theorem buildClient_inv (env : Env) {K : Contract → Trace → Prop} (hx : Inv K x) :
    throughout RecordWrite.apply traced (buildClient env) (Inv K) x :=
  throughout_bind hx fun _ _ hy => throughout_bind (ofExcept_inv _ hy) fun _ _ hz => hz

theorem stepUploadSignedDoc_inv (hx : Inv Created x) :
    throughout RecordWrite.apply traced (stepUploadSignedDoc client ejarContractId) (Inv Created) x := by
  by_cases hdoc : x.working.signedDoc.truthy
  · rw [throughout, wp_stepUploadSignedDoc hdoc]
    exact plain_then created_stable hx (by exact not_false) (fun _ => by exact not_false)
      fun _ _ hy _ => hy
  · exact wp_stepUploadSignedDoc_missing hdoc fun _ => hx

theorem stepAddFinancialInfo_inv (hx : Inv Created x) :
    throughout RecordWrite.apply traced (stepAddFinancialInfo client ejarContractId)
      (Inv Created) x := by
  rw [throughout, wp_stepAddFinancialInfo]
  cases buildFinancialAttributes x.working with
  | error e => exact hx
  | ok attrs =>
    exact plain_then created_stable hx (by exact not_false) (fun _ => by exact not_false)
      fun _ _ hy _ => hy

theorem stepAddRentalFee_inv {profile : BrokerageProfile} (hx : Inv Created x) :
    throughout RecordWrite.apply traced (stepAddRentalFee client profile ejarContractId)
      (Inv Created) x := by
  rw [throughout, wp_stepAddRentalFee]
  cases buildRentalFeeAttributes x.working (some profile) with
  | none => exact hx
  | some attrs =>
    exact plain_then created_stable hx (by exact not_false) (fun _ => by exact not_false)
      fun _ _ hy _ => hy

theorem stepSubmit_inv (hx : Inv Created x) :
    throughout RecordWrite.apply traced (stepSubmit client ejarContractId) (Inv Created) x := by
  rw [throughout, wp_stepSubmit]
  exact plain_then created_stable hx (by exact not_false) (fun _ => by exact not_false)
    fun _ _ hy _ => hy

/-- A successful run has visited every row. -/
structure Finished (y : Session Contract Trace) : Prop where
  committed : y.committed = y.working
  inv : Inv Created y
  entities : allParties hasEntity y
  parties : allParties hasParty y
  units : allUnits hasContractUnit y

/-- What holds after each commit: the invariant, and the rows visited so far. -/
def linkedOutline : Outline Trace where
  start _ _ y := Inv (fun _ t => NoCreation t) y
  entities _ _ y := Inv (fun _ t => NoCreation t) y ∧ allParties hasEntity y
  created _ _ _ y := Inv Created y ∧ allParties hasEntity y
  units _ _ _ y := Inv Created y ∧ allParties hasEntity y ∧ allUnits hasContractUnit y
  parties _ _ _ y := Inv Created y ∧
    (allParties hasEntity y ∧ allUnits hasContractUnit y) ∧ allParties hasParty y
  proxyDocs _ _ _ y := Inv Created y ∧
    (allParties hasEntity y ∧ allUnits hasContractUnit y) ∧ allParties hasParty y
  signedDoc _ _ _ y := Inv Created y ∧
    (allParties hasEntity y ∧ allUnits hasContractUnit y) ∧ allParties hasParty y
  financialInfo _ _ _ y := Inv Created y ∧
    (allParties hasEntity y ∧ allUnits hasContractUnit y) ∧ allParties hasParty y
  rentalFee _ _ _ y := Inv Created y ∧
    (allParties hasEntity y ∧ allUnits hasContractUnit y) ∧ allParties hasParty y
  submit _ y := Inv Created y ∧
    (allParties hasEntity y ∧ allUnits hasContractUnit y) ∧ allParties hasParty y

theorem atCommit_inv {K : Contract → Trace → Prop} {F : Session Contract Trace → Prop}
    (hK : Stable K) (hF : Lasting F) (hx : Inv K x) (hFx : F x) :
    atCommit traced (fun y => Synced y.seen) (fun y => Inv K y ∧ F y) x := by
  refine ⟨hx.1, ?_⟩
  rintro s ⟨-, rfl⟩
  exact ⟨hx.append hK (by exact not_false) (by exact not_false) (by exact not_false) rfl,
    hF x _ (.commit x) hFx⟩

theorem wp_stage {α : Type} {p : Pipeline α} {K : Contract → Trace → Prop}
    {F : Session Contract Trace → Prop} (hK : Stable K) (hF : Lasting F) (hFx : F x)
    (hkept : always traced p (Grows x) x)
    (hp : wp RecordWrite.apply traced p (fun _ => Inv K) (fun _ y => Synced y.seen)
      (fun y => Synced y.seen) x) :
    wp RecordWrite.apply traced p
      (fun _ => atCommit traced (fun y => Synced y.seen) fun y => Inv K y ∧ F y)
      (fun _ y => Synced y.seen) (fun y => Synced y.seen) x :=
  wp_mono (fun _ _ hy => atCommit_inv hK hF hy.1 hy.2) (fun _ _ h => h) (fun _ h => h)
    (wp_carry hF hFx hkept hp)

theorem wp_stage_rows {α : Type} {p : Pipeline α} {K : Contract → Trace → Prop}
    {F G : Session Contract Trace → Prop} (hK : Stable K) (hF : Lasting F) (hG : Lasting G)
    (hFx : F x) (hkept : always traced p (Grows x) x)
    (hp : wp RecordWrite.apply traced p (fun _ y => Inv K y ∧ G y) (fun _ => Inv K) (Inv K) x) :
    wp RecordWrite.apply traced p
      (fun _ => atCommit traced (fun y => Synced y.seen) fun y => Inv K y ∧ F y ∧ G y)
      (fun _ y => Synced y.seen) (fun y => Synced y.seen) x :=
  wp_mono (fun _ _ hy => atCommit_inv hK (hF.and hG) hy.1.1 ⟨hy.2, hy.1.2⟩) (fun _ _ hy => hy.1)
    (fun _ hy => hy.1) (wp_carry hF hFx hkept hp)

theorem runPipeline_finishes (env : Env) (hx : Inv (fun _ t => NoCreation t) x) :
    wp RecordWrite.apply traced (runPipeline env) (fun _ => Finished) (fun _ y => Synced y.seen)
      (fun y => Synced y.seen) x := by
  have hrows : Lasting fun y => (allParties hasEntity y ∧ allUnits hasContractUnit y) ∧
      allParties hasParty y :=
    ((allParties_lasting hasEntity_rows).and (allUnits_lasting hasContractUnit_rows)).and
      (allParties_lasting hasParty_rows)
  have hsynced : ∀ {α : Type} {p : Pipeline α} {K : Contract → Trace → Prop} {y},
      throughout RecordWrite.apply traced p (Inv K) y →
      wp RecordWrite.apply traced p (fun _ => Inv K) (fun _ y => Synced y.seen)
        (fun y => Synced y.seen) y := fun hp =>
    wp_mono (fun _ _ h => h) (fun _ _ h => h.1) (fun _ h => h.1) hp
  refine wp_runPipeline linkedOutline ?_ ?_ ?_ ?_ ?_ ?_ ?_ ?_ ?_ ?_ ?_
  · refine wp_mono (fun _ y hy => ?_) (fun _ _ h => h) (fun _ h => h)
      (hsynced (resolveProfile_inv env noCreation_stable hx))
    exact hsynced (buildClient_inv env hy)
  · intro profile client y hy
    refine wp_mono (fun _ z hz => ⟨hz.1, fun s hs => ⟨(hz.2 s hs).1, (hz.2 s hs).2.2⟩⟩)
      (fun _ _ h => h) (fun _ h => h) (wp_stage_rows (F := fun _ => True) noCreation_stable
        (fun _ _ _ _ => trivial) (allParties_lasting hasEntity_rows) trivial
        ((Grows.kept y).resolvePartyEntities (.refl y)) (resolvePartyEntities_inv hy))
  · intro profile client y hy
    exact wp_stage created_stable (allParties_lasting hasEntity_rows) hy.2
      ((Grows.kept y).stepCreateContract (.refl y)) (stepCreateContract_inv hy.1)
  · intro profile client id y hy
    exact wp_stage_rows created_stable (allParties_lasting hasEntity_rows)
      (allUnits_lasting hasContractUnit_rows) hy.2 ((Grows.kept y).attachUnits (.refl y))
      (attachUnits_inv hy.1)
  · intro profile client id y hy
    exact wp_stage_rows created_stable
      ((allParties_lasting hasEntity_rows).and (allUnits_lasting hasContractUnit_rows))
      (allParties_lasting hasParty_rows) hy.2 ((Grows.kept y).addParties (.refl y))
      (addParties_inv hy.1)
  · intro profile client id y hy
    exact wp_stage created_stable hrows hy.2 ((Grows.kept y).uploadProxyDocs (.refl y))
      (hsynced (uploadProxyDocs_inv hy.1))
  · intro profile client id y hy
    exact wp_stage created_stable hrows hy.2 ((Grows.kept y).stepUploadSignedDoc (.refl y))
      (hsynced (stepUploadSignedDoc_inv hy.1))
  · intro profile client id y hy
    exact wp_stage created_stable hrows hy.2 ((Grows.kept y).stepAddFinancialInfo (.refl y))
      (hsynced (stepAddFinancialInfo_inv hy.1))
  · intro profile client id y hy
    exact wp_stage created_stable hrows hy.2 ((Grows.kept y).stepAddRentalFee (.refl y))
      (hsynced (stepAddRentalFee_inv hy.1))
  · intro profile client id y hy
    exact wp_carry hrows hy.2 ((Grows.kept y).stepSubmit (.refl y)) (hsynced (stepSubmit_inv hy.1))
  · intro id y hy
    rw [finalize, wp_bind]
    refine wp_mono (fun _ z hz => ?_) (fun _ _ h => h) (fun _ h => h) (wp_carry hrows hy.2
      ((Grows.kept y).writeContract (.refl y) rfl (by simp))
      (hsynced (writeContract_inv created_stable hy.1 rfl)))
    have hend := atCommit_inv created_stable hrows hz.1 hz.2
    refine ⟨hend.1, fun s hs => ?_⟩
    obtain ⟨hinv, ⟨hentities, hunits⟩, hparties⟩ := hend.2 s hs
    exact ⟨rfl, hinv, hentities, hparties, hunits⟩

theorem executeFullSubmission_finishes (env : Env) (hx : Inv (fun _ t => NoCreation t) x) :
    wp RecordWrite.apply traced (executeFullSubmission env) (fun _ => Finished)
      (fun _ y => Synced y.seen) (fun y => Synced y.seen) x := by
  have hwrite : ∀ vals : ContractVals, ¬ badSync (.write (.contract vals)) := fun _ h => h trivial
  refine wp_executeFullSubmission (M := Inv fun _ t => NoCreation t) (F := fun _ y => Synced y.seen)
    ?_ (runPipeline_finishes env) ?_
  · rintro s ⟨-, rfl⟩
    refine ⟨hx.1.append (iff_of_false (hwrite _) (by exact not_false)), fun s hs => ?_⟩
    obtain ⟨-, rfl⟩ := hs
    exact (hx.append noCreation_stable (hwrite _) (by exact not_false) (by exact not_false)
      (c := x.committed) (d := x.working) rfl).append noCreation_stable (by exact not_false)
      (by exact not_false) (by exact not_false) rfl
  · rintro exc y hy s ⟨-, rfl⟩
    have hwritten := hy.append (iff_of_false (hwrite
      { ejarStatus := some .ready, submitError := some (some (exc.cut 2048)) }) (by exact not_false))
    refine ⟨hwritten, ?_⟩
    rintro s ⟨-, rfl⟩
    exact hwritten.append (iff_of_false (by exact not_false) (by exact not_false))

theorem exists_badSync : (∃ e ∈ t, badSync e) ↔ ∃ u, .write u ∈ t ∧ ¬ u.syncsWithId := by
  constructor
  · rintro ⟨e, he, hbad⟩
    cases e with
    | write u => exact ⟨u, he, hbad⟩
    | _ => exact hbad.elim
  · rintro ⟨u, hu, hbad⟩
    exact ⟨.write u, hu, hbad⟩

theorem exists_idlessLink : (∃ e ∈ t, idlessLink e) ↔
    ∃ request reply, .call request reply ∈ t ∧ ¬ request.creates ∧ idless request reply := by
  constructor
  · rintro ⟨e, he, hidless⟩
    cases e with
    | call request reply => exact ⟨request, reply, he, hidless⟩
    | _ => exact hidless.elim
  · rintro ⟨request, reply, hcall, hidless⟩
    exact ⟨.call request reply, hcall, hidless⟩

theorem exists_idlessCreation : (∃ e ∈ t, idlessCreation e) ↔
    ∃ request reply, .call request reply ∈ t ∧ request.creates ∧ idless request reply := by
  constructor
  · rintro ⟨e, he, hidless⟩
    cases e with
    | call request reply => exact ⟨request, reply, he, hidless⟩
    | _ => exact hidless.elim
  · rintro ⟨request, reply, hcall, hidless⟩
    exact ⟨.call request reply, hcall, hidless⟩

theorem Synced.writes_iff (ht : Synced t) : (∀ u, .write u ∈ t → u.syncsWithId) ↔
    ∀ request reply, .call request reply ∈ t → idless request reply → request.creates := by
  unfold Synced at ht
  rw [exists_badSync, exists_idlessLink] at ht
  constructor
  · intro hwrites request reply hcall hidless
    by_contra hcreates
    obtain ⟨u, hu, hbad⟩ := ht.mpr ⟨request, reply, hcall, hcreates, hidless⟩
    exact hbad (hwrites u hu)
  · intro hcalls u hu
    by_contra hbad
    obtain ⟨request, reply, hcall, hcreates, hidless⟩ := ht.mp ⟨u, hu, hbad⟩
    exact hcreates (hcalls request reply hcall hidless)

/-- Where every link was taken from a reply with an id, only the contract's own
id may be missing. -/
theorem Finished.linked_iff {y : Session Contract Trace} (hy : Finished y)
    (hlinks : ∀ request reply, .call request reply ∈ y.seen → idless request reply →
      request.creates) :
    Linked y.committed ↔
      ∀ request reply, .call request reply ∈ y.seen → idless request reply → ¬ request.creates := by
  have hnone : ¬ ∃ e ∈ y.seen, idlessLink e := by
    rw [exists_idlessLink]
    rintro ⟨request, reply, hcall, hcreates, hidless⟩
    exact hcreates (hlinks request reply hcall hidless)
  have hrow : ∀ {D : Contract → Nat → Prop} {i}, rowDone D i y → D y.working i := fun h =>
    h.resolve_left hnone
  have hcreated : y.working.ejarContractId.truthy ↔ _ := hy.inv.2
  rw [exists_idlessCreation] at hcreated
  rw [hy.committed]
  constructor
  · rintro ⟨hid, -, -⟩ request reply hcall hidless hcreates
    exact hcreated.mp hid ⟨request, reply, hcall, hcreates, hidless⟩
  · intro hcalls
    refine ⟨hcreated.mpr ?_, fun p hp => ?_, fun u hu => ?_⟩
    · rintro ⟨request, reply, hcall, hcreates, hidless⟩
      exact hcalls request reply hcall hidless hcreates
    · obtain ⟨i, hi, rfl⟩ := Records.mem_toList.mp hp
      exact ⟨hrow (hy.entities i hi), hrow (hy.parties i hi)⟩
    · obtain ⟨i, hi, rfl⟩ := Records.mem_toList.mp hu
      exact hrow (hy.units i hi)

end Linking

/-- A successful submission leaves every remote id stored, and 'synced' is only
written with an id, exactly if no reply lacks the id the pipeline takes from it;
the reply to the creation of the contract counts only when the submission
succeeds. -/
theorem submission_linked_iff {env : Env} {c c' : Contract} {o : Outcome Exc SubmissionResult}
    {trace : Trace} (hrun : SubmissionRun env c o c' trace) :
    ((succeeds o → Linked c') ∧ ∀ u, .write u ∈ trace → u.syncsWithId) ↔
      ∀ request reply, .call request reply ∈ trace → idless request reply →
        request.creates ∧ ¬ succeeds o := by
  obtain ⟨w, hexec⟩ := hrun
  have hstart : Linking.Inv (fun _ t => Linking.NoCreation t) ⟨c, c, []⟩ := by
    simp [Linking.Inv, Linking.Synced, Linking.NoCreation]
  have hmeets := wp_sound (Linking.executeFullSubmission_finishes env hstart) hexec
  cases o with
  | raise e =>
    have hsynced : Linking.Synced trace := hmeets
    simpa [succeeds] using hsynced.writes_iff
  | cut =>
    have hsynced : Linking.Synced trace := hmeets
    simpa [succeeds] using hsynced.writes_iff
  | ret result =>
    have hy : Linking.Finished ⟨c', w, trace⟩ := hmeets
    simp only [succeeds, forall_const, not_true, and_false]
    rw [hy.inv.1.writes_iff]
    constructor
    · rintro ⟨hlinked, hlinks⟩ request reply hcall hidless
      exact (hy.linked_iff hlinks).mp hlinked request reply hcall hidless
        (hlinks request reply hcall hidless)
    · intro hcalls
      have hlinks : ∀ request reply, .call request reply ∈ trace → idless request reply →
          request.creates := fun request reply hcall hidless =>
        (hcalls request reply hcall hidless).elim
      exact ⟨(hy.linked_iff hlinks).mpr fun request reply hcall hidless _ =>
        hcalls request reply hcall hidless, hlinks⟩

/-- The submission of the sample contract to a service that answers `unit` to
`attach_unit` and an id to everything else. -/
def sampleRun (unit : Json) : Outcome Exc SubmissionResult × Session Contract Trace :=
  (executeFullSubmission sampleEnv).replay RecordWrite.apply
    (fun _ request =>
      match request.call with
      | .attachUnit .. => .response 201 (some unit) ""
      | _ => .response 201 (some (.obj [("data", .obj [("id", .str "ejar-1")])])) "")
    ⟨sampleContract "EJ/1", sampleContract "EJ/1", []⟩

theorem sampleRun_run (unit : Json) : SubmissionRun sampleEnv (sampleContract "EJ/1")
    (sampleRun unit).1 (sampleRun unit).2.committed (sampleRun unit).2.seen := by
  have hexec : Exec RecordWrite.apply (record fun _ _ => True) (executeFullSubmission sampleEnv)
      ⟨sampleContract "EJ/1", sampleContract "EJ/1", []⟩ (sampleRun unit).1 (sampleRun unit).2 :=
    Prog.replay_exec (fun _ _ => trivial) (fun _ => trivial) (fun _ _ => trivial) _ _
  -- the run itself is not to be unfolded
  generalize sampleRun unit = run at hexec ⊢
  exact ⟨run.2.working, hexec⟩

theorem submission_linked_iff_sampleRun :
    ((succeeds (sampleRun (.obj [])).1 → Linked (sampleRun (.obj [])).2.committed) ∧
      ∀ u, .write u ∈ (sampleRun (.obj [])).2.seen → u.syncsWithId) ↔
      ∀ request reply, .call request reply ∈ (sampleRun (.obj [])).2.seen → idless request reply →
        request.creates ∧ ¬ succeeds (sampleRun (.obj [])).1 :=
  submission_linked_iff (sampleRun_run (.obj []))

/-- Answered 201 without a body, `attach_unit` leaves the unit of a submitted
contract without id. -/
theorem submission_not_linked : ¬ ∀ env c o c' trace, SubmissionRun env c o c' trace →
    (succeeds o → Linked c') ∧ ∀ u, .write u ∈ trace → u.syncsWithId := by
  intro h
  have hlinked := (h _ _ _ _ _ (sampleRun_run (.obj []))).1 (by decide +kernel)
  have hunit : ((sampleRun (.obj [])).2.committed.unitIds.row 0).ejarContractUnitId.truthy = false := by
    decide +kernel
  have hmem : (sampleRun (.obj [])).2.committed.unitIds.row 0 ∈
      (sampleRun (.obj [])).2.committed.units := by
    refine Records.mem_toList.mpr ⟨0, ?_, rfl⟩
    decide +kernel
  have htruthy := hlinked.2.2 _ hmem
  rw [hunit] at htruthy
  cases htruthy

end Ejar
