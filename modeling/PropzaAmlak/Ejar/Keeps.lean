import PropzaAmlak.Ejar.StepRules

/-! The pipeline writes an id only where there is none: whatever it does, remote
ids that are stored stay, and the data the user entered is not touched. -/

namespace Ejar

open Tx

def Party.base (p : Party) : Party :=
  { p with ejarEntityId := none, ejarPartyId := none, ejarProxyDocId := none, syncState := .pending }

def ContractUnit.base (u : ContractUnit) : ContractUnit :=
  { u with ejarContractUnitId := none, syncState := .pending }

/-- The contract without what the pipeline writes. -/
def Contract.base (c : Contract) : Contract :=
  { c with
    ejarStatus := .draft, brokerageProfileId := none, ejarContractId := none
    ejarContractNumber := none, submitAttempt := 0, submitError := none, ejarLastSync := none
    partyIds := ⟨c.partyIds.ids, fun i => (c.partyIds.row i).base⟩
    unitIds := ⟨c.unitIds.ids, fun i => (c.unitIds.row i).base⟩ }

theorem base_party (c : Contract) (i : Nat) (v : PartyVals) : ((RecordWrite.party i v).apply c).base = c.base := by
  simp only [RecordWrite.apply, Contract.base, Records.modify_ids]
  congr 2
  funext j
  by_cases hj : j = i
  · subst hj
    simp [Party.set, Party.base]
  · simp [hj]

theorem base_unit (c : Contract) (i : Nat) (v : UnitVals) : ((RecordWrite.unit i v).apply c).base = c.base := by
  simp only [RecordWrite.apply, Contract.base, Records.modify_ids]
  congr 2
  funext j
  by_cases hj : j = i
  · subst hj
    simp [ContractUnit.set, ContractUnit.base]
  · simp [hj]

structure Keeps (c c' : Contract) : Prop where
  base : c'.base = c.base
  contractId : c.ejarContractId.truthy → c'.ejarContractId = c.ejarContractId
  entityId : ∀ i, (c.partyIds.row i).ejarEntityId.truthy →
    (c'.partyIds.row i).ejarEntityId = (c.partyIds.row i).ejarEntityId
  partyId : ∀ i, (c.partyIds.row i).ejarPartyId.truthy →
    (c'.partyIds.row i).ejarPartyId = (c.partyIds.row i).ejarPartyId
  proxyDocId : ∀ i, (c.partyIds.row i).ejarProxyDocId.truthy →
    (c'.partyIds.row i).ejarProxyDocId = (c.partyIds.row i).ejarProxyDocId
  contractUnitId : ∀ i, (c.unitIds.row i).ejarContractUnitId.truthy →
    (c'.unitIds.row i).ejarContractUnitId = (c.unitIds.row i).ejarContractUnitId

namespace Keeps

variable {c c' c'' : Contract}

theorem refl (c : Contract) : Keeps c c :=
  ⟨rfl, fun _ => rfl, fun _ _ => rfl, fun _ _ => rfl, fun _ _ => rfl, fun _ _ => rfl⟩

theorem kept {v v' v'' : CharField} (h : v.truthy → v' = v) (h' : v'.truthy → v'' = v')
    (hv : v.truthy) : v'' = v := by
  have hv' := h hv
  rw [h' (by rwa [hv']), hv']

theorem trans (h : Keeps c c') (h' : Keeps c' c'') : Keeps c c'' where
  base := h'.base.trans h.base
  contractId := kept h.contractId h'.contractId
  entityId i := kept (h.entityId i) (h'.entityId i)
  partyId i := kept (h.partyId i) (h'.partyId i)
  proxyDocId i := kept (h.proxyDocId i) (h'.proxyDocId i)
  contractUnitId i := kept (h.contractUnitId i) (h'.contractUnitId i)

theorem partyIds_ids (h : Keeps c c') : c'.partyIds.ids = c.partyIds.ids := by
  simpa only [Contract.base] using congrArg (fun c : Contract => c.partyIds.ids) h.base

theorem unitIds_ids (h : Keeps c c') : c'.unitIds.ids = c.unitIds.ids := by
  simpa only [Contract.base] using congrArg (fun c : Contract => c.unitIds.ids) h.base

theorem entityId_truthy (h : Keeps c c') {i : Nat} (hi : (c.partyIds.row i).ejarEntityId.truthy) :
    (c'.partyIds.row i).ejarEntityId.truthy := by
  rwa [h.entityId i hi]

theorem partyId_truthy (h : Keeps c c') {i : Nat} (hi : (c.partyIds.row i).ejarPartyId.truthy) :
    (c'.partyIds.row i).ejarPartyId.truthy := by
  rwa [h.partyId i hi]

theorem contractUnitId_truthy (h : Keeps c c') {i : Nat}
    (hi : (c.unitIds.row i).ejarContractUnitId.truthy) :
    (c'.unitIds.row i).ejarContractUnitId.truthy := by
  rwa [h.contractUnitId i hi]

theorem contractId_truthy (h : Keeps c c') (hi : c.ejarContractId.truthy) :
    c'.ejarContractId.truthy := by
  rwa [h.contractId hi]

/-- A party row that differs from the old one in ids that were empty. -/
theorem of_party {i : Nat} {v : PartyVals}
    (hentity : v.ejarEntityId.isSome → ¬ (c.partyIds.row i).ejarEntityId.truthy)
    (hparty : v.ejarPartyId.isSome → ¬ (c.partyIds.row i).ejarPartyId.truthy)
    (hproxy : v.ejarProxyDocId.isSome → ¬ (c.partyIds.row i).ejarProxyDocId.truthy) :
    Keeps c ((RecordWrite.party i v).apply c) where
  base := base_party c i v
  contractId _ := rfl
  entityId j hj := by
    by_cases hji : j = i
    · subst hji
      cases hv : v.ejarEntityId with
      | none => simp [RecordWrite.apply, Party.set, hv]
      | some _ => exact absurd hj (hentity (by simp [hv]))
    · simp [RecordWrite.apply, hji]
  partyId j hj := by
    by_cases hji : j = i
    · subst hji
      cases hv : v.ejarPartyId with
      | none => simp [RecordWrite.apply, Party.set, hv]
      | some _ => exact absurd hj (hparty (by simp [hv]))
    · simp [RecordWrite.apply, hji]
  proxyDocId j hj := by
    by_cases hji : j = i
    · subst hji
      cases hv : v.ejarProxyDocId with
      | none => simp [RecordWrite.apply, Party.set, hv]
      | some _ => exact absurd hj (hproxy (by simp [hv]))
    · simp [RecordWrite.apply, hji]
  contractUnitId _ _ := rfl

theorem of_unit {i : Nat} {v : UnitVals}
    (hid : v.ejarContractUnitId.isSome → ¬ (c.unitIds.row i).ejarContractUnitId.truthy) :
    Keeps c ((RecordWrite.unit i v).apply c) where
  base := base_unit c i v
  contractId _ := rfl
  entityId _ _ := rfl
  partyId _ _ := rfl
  proxyDocId _ _ := rfl
  contractUnitId j hj := by
    by_cases hji : j = i
    · subst hji
      cases hv : v.ejarContractUnitId with
      | none => simp [RecordWrite.apply, ContractUnit.set, hv]
      | some _ => exact absurd hj (hid (by simp [hv]))
    · simp [RecordWrite.apply, hji]

theorem of_contract {v : ContractVals} (hbase : (c.set v).base = c.base)
    (hid : v.ejarContractId.isSome → ¬ c.ejarContractId.truthy) :
    Keeps c ((RecordWrite.contract v).apply c) where
  base := hbase
  contractId hc := by
    cases hv : v.ejarContractId with
    | none => simp [RecordWrite.apply, Contract.set, hv]
    | some _ => exact absurd hc (hid (by simp [hv]))
  entityId _ _ := rfl
  partyId _ _ := rfl
  proxyDocId _ _ := rfl
  contractUnitId _ _ := rfl

end Keeps

/-- A property of sessions that calls, commits and writes that keep what is stored
preserve. -/
structure Kept {τ : Type} (obs : Observer RecordWrite Request Reply τ)
    (I : Session Contract τ → Prop) : Prop where
  write : ∀ {x u s}, I x → obs x.seen (.write u) s → Keeps x.working (u.apply x.working) →
    I ⟨x.committed, u.apply x.working, s⟩
  commit : ∀ {x s}, I x → obs x.seen .commit s → I ⟨x.working, x.working, s⟩
  call : ∀ {x q r s}, I x → obs x.seen (.call q r) s → I ⟨x.committed, x.working, s⟩
  lost : ∀ {x q s}, I x → obs x.seen (.lost q) s → I ⟨x.committed, x.working, s⟩

section

variable {τ : Type} {obs : Observer RecordWrite Request Reply τ} {I : Session Contract τ → Prop}
  {client : Nat} {ejarContractId : String} {x : Session Contract τ}

/-- `I` holds wherever the run of `p` stops. -/
abbrev always {α : Type} (obs : Observer RecordWrite Request Reply τ) (p : Pipeline α)
    (I : Session Contract τ → Prop) (x : Session Contract τ) : Prop :=
  throughout RecordWrite.apply obs p I x

theorem Kept.ofExcept {α : Type} (v : Except Exc α) (hx : I x) :
    always obs (Prog.ofExcept v) I x := by
  rw [always, throughout, wp_ofExcept]
  cases v <;> exact hx

namespace Kept

theorem callThen {α : Type} (hI : Kept obs I) (hx : I x) {request : Request}
    {read : Reply → Except Exc α} {N : α → Session Contract τ → Prop}
    (hN : ∀ a y, I y → y.working = x.working → N a y) :
    Ejar.callThen obs request read N (fun _ => I) I x :=
  callThen_of hx (fun _ _ a hs _ => hN a _ (hI.call hx hs) rfl) (fun _ _ _ hs _ => hI.call hx hs)
    fun _ hs => hI.lost hx hs

theorem writeContract {vals : ContractVals} (hI : Kept obs I) (hx : I x)
    (hbase : (x.working.set vals).base = x.working.base)
    (hid : vals.ejarContractId.isSome → ¬ x.working.ejarContractId.truthy) :
    always obs (Ejar.writeContract vals) I x := by
  rw [always, throughout, wp_writeContract]
  exact fun _ hs => hI.write hx hs (Keeps.of_contract hbase hid)

theorem commitNow (hI : Kept obs I) (hx : I x) : always obs Prog.commitNow I x :=
  ⟨hx, fun _ hs => hI.commit hx hs⟩

theorem resolveProfile (hI : Kept obs I) (env : Env) (hx : I x) :
    always obs (resolveProfile env) I x := by
  refine throughout_bind (throughout_bind hx fun contract y hy => ?_) fun profile y hy => ?_
  · split
    · exact hy
    · exact throughout_bind (hI.writeContract hy rfl (by simp)) fun _ z hz => hz
    · exact hy
  · refine throughout_bind hy fun contract z hz => ?_
    cases profile with
    | none => exact hz
    | some profile => exact throughout_bind (Kept.ofExcept _ hz) fun _ w hw => hw

theorem buildClient (env : Env) (hx : I x) : always obs (buildClient env) I x :=
  throughout_bind hx fun _ _ hy => throughout_bind (Kept.ofExcept _ hy) fun _ _ hz => hz

theorem resolvePartyEntity {partyId : Nat} (hI : Kept obs I) (hx : I x) :
    always obs (resolvePartyEntity client partyId) I x := by
  by_cases hid : (x.working.partyIds.row partyId).ejarEntityId.truthy
  · rw [always, throughout, wp_resolvePartyEntity_skip hid]
    exact hx
  rw [always, throughout, wp_resolvePartyEntity hid, wp_stepCreateEntity]
  cases entityCall (x.working.partyIds.row partyId) with
  | error e => exact hx
  | ok call =>
    rw [resultMeets_ok]
    refine hI.callThen hx fun entityId y hy hworking s hs => hI.write hy hs ?_
    exact Keeps.of_party (by simpa [hworking] using hid) (by simp) (by simp)

theorem resolvePartyEntities (hI : Kept obs I) (hx : I x) :
    always obs (resolvePartyEntities client) I x :=
  throughout_bind hx fun _ _ hy => throughout_forEach (fun _ _ _ hz => hI.resolvePartyEntity hz) hy

theorem stepCreateContract {profile : BrokerageProfile} (hI : Kept obs I) (hx : I x) :
    always obs (stepCreateContract client profile) I x := by
  by_cases hid : x.working.ejarContractId.truthy
  · rw [always, throughout, wp_stepCreateContract_skip hid]
    exact hx
  · rw [always, throughout, wp_stepCreateContract hid]
    cases buildContractAttributes x.working (some profile) with
    | error e => exact hx
    | ok attrs =>
      rw [resultMeets_ok]
      refine hI.callThen hx fun created y hy hworking s hs => hI.write hy hs ?_
      exact Keeps.of_contract rfl (by simpa [hworking] using hid)

theorem stepAttachUnit {unitId : Nat} (hI : Kept obs I) (hx : I x) :
    always obs (stepAttachUnit client ejarContractId unitId) I x := by
  by_cases hid : (x.working.unitIds.row unitId).ejarContractUnitId.truthy
  · rw [always, throughout, wp_stepAttachUnit_skip hid]
    exact hx
  by_cases hreg : (x.working.unitIds.row unitId).registered
  · rw [always, throughout, wp_stepAttachUnit hid hreg]
    refine hI.callThen hx fun linkedId y hy hworking s hs => hI.write hy hs ?_
    exact Keeps.of_unit (by simpa [hworking] using hid)
  · exact wp_stepAttachUnit_unregistered hid hreg fun _ => hx

theorem attachUnits (hI : Kept obs I) (hx : I x) :
    always obs (attachUnits client ejarContractId) I x :=
  throughout_bind hx fun _ _ hy => throughout_forEach (fun _ _ _ hz => hI.stepAttachUnit hz) hy

theorem stepAddParty {partyId : Nat} (hI : Kept obs I) (hx : I x) :
    always obs (stepAddParty client ejarContractId partyId) I x := by
  by_cases hid : (x.working.partyIds.row partyId).ejarPartyId.truthy
  · rw [always, throughout, wp_stepAddParty_skip hid]
    exact hx
  by_cases hentity : (x.working.partyIds.row partyId).ejarEntityId.truthy
  · rw [always, throughout, wp_stepAddParty hid hentity]
    refine hI.callThen hx fun linkedId y hy hworking s hs => hI.write hy hs ?_
    exact Keeps.of_party (by simp) (by simpa [hworking] using hid) (by simp)
  · exact wp_stepAddParty_noEntity hid hentity fun _ => hx

theorem addParties (hI : Kept obs I) (hx : I x) :
    always obs (addParties client ejarContractId) I x :=
  throughout_bind hx fun _ _ hy => throughout_forEach (fun _ _ _ hz => hI.stepAddParty hz) hy

theorem uploadRepresentativeDoc {partyId : Nat} (hI : Kept obs I) (hx : I x) :
    always obs (uploadRepresentativeDoc client ejarContractId partyId) I x := by
  rw [always, throughout, wp_uploadRepresentativeDoc]
  dsimp only
  split
  · rename_i hpending
    refine hI.callThen hx fun docId y hy hworking s hs => hI.write hy hs ?_
    refine Keeps.of_party (by simp) (by simp) fun _ hdoc => ?_
    rw [hworking] at hdoc
    simp [Party.proxyPending, hdoc] at hpending
  · exact hx

theorem uploadProxyDocs (hI : Kept obs I) (hx : I x) :
    always obs (uploadProxyDocs client ejarContractId) I x :=
  throughout_bind hx fun _ _ hy =>
    throughout_forEach (fun _ _ _ hz => hI.uploadRepresentativeDoc hz) hy

theorem stepUploadSignedDoc (hI : Kept obs I) (hx : I x) :
    always obs (stepUploadSignedDoc client ejarContractId) I x := by
  by_cases hdoc : x.working.signedDoc.truthy
  · rw [always, throughout, wp_stepUploadSignedDoc hdoc]
    exact hI.callThen hx fun _ _ hy _ => hy
  · exact wp_stepUploadSignedDoc_missing hdoc fun _ => hx

theorem stepAddFinancialInfo (hI : Kept obs I) (hx : I x) :
    always obs (stepAddFinancialInfo client ejarContractId) I x := by
  rw [always, throughout, wp_stepAddFinancialInfo]
  cases buildFinancialAttributes x.working with
  | error e => exact hx
  | ok attrs => exact hI.callThen hx fun _ _ hy _ => hy

theorem stepAddRentalFee {profile : BrokerageProfile} (hI : Kept obs I) (hx : I x) :
    always obs (stepAddRentalFee client profile ejarContractId) I x := by
  rw [always, throughout, wp_stepAddRentalFee]
  cases buildRentalFeeAttributes x.working (some profile) with
  | none => exact hx
  | some attrs => exact hI.callThen hx fun _ _ hy _ => hy

theorem stepSubmit (hI : Kept obs I) (hx : I x) :
    always obs (stepSubmit client ejarContractId) I x := by
  rw [always, throughout, wp_stepSubmit]
  exact hI.callThen hx fun _ _ hy _ => hy

theorem finalize {env : Env} (hI : Kept obs I) (hx : I x) :
    always obs (finalize env ejarContractId) I x := by
  refine throughout_bind (hI.writeContract hx rfl (by simp)) fun _ y hy => ?_
  exact throughout_bind (hI.commitNow hy) fun _ z hz => hz

theorem runPipeline (hI : Kept obs I) (env : Env) (hx : I x) : always obs (runPipeline env) I x := by
  refine throughout_bind (hI.resolveProfile env hx) fun profile y hy => ?_
  refine throughout_bind (Kept.buildClient env hy) fun client y hy => ?_
  refine throughout_bind (hI.resolvePartyEntities hy) fun _ y hy => ?_
  refine throughout_bind (hI.commitNow hy) fun _ y hy => ?_
  refine throughout_bind (hI.stepCreateContract hy) fun ejarContractId y hy => ?_
  refine throughout_bind (hI.commitNow hy) fun _ y hy => ?_
  refine throughout_bind (hI.attachUnits hy) fun _ y hy => ?_
  refine throughout_bind (hI.commitNow hy) fun _ y hy => ?_
  refine throughout_bind (hI.addParties hy) fun _ y hy => ?_
  refine throughout_bind (hI.commitNow hy) fun _ y hy => ?_
  refine throughout_bind (hI.uploadProxyDocs hy) fun _ y hy => ?_
  refine throughout_bind (hI.commitNow hy) fun _ y hy => ?_
  refine throughout_bind (hI.stepUploadSignedDoc hy) fun _ y hy => ?_
  refine throughout_bind (hI.commitNow hy) fun _ y hy => ?_
  refine throughout_bind (hI.stepAddFinancialInfo hy) fun _ y hy => ?_
  refine throughout_bind (hI.commitNow hy) fun _ y hy => ?_
  refine throughout_bind (hI.stepAddRentalFee hy) fun _ y hy => ?_
  refine throughout_bind (hI.commitNow hy) fun _ y hy => ?_
  refine throughout_bind (hI.stepSubmit hy) fun _ y hy => ?_
  exact hI.finalize hy

theorem executeFullSubmission (hI : Kept obs I) (env : Env) (hx : I x) :
    always obs (executeFullSubmission env) I x := by
  refine throughout_bind hx fun contract y hy => ?_
  refine throughout_bind (hI.writeContract hy rfl (by simp)) fun _ y hy => ?_
  refine throughout_bind (hI.commitNow hy) fun _ y hy => ?_
  refine throughout_tryCatch (hI.runPipeline env hy) fun exc y hy => ?_
  refine throughout_bind (hI.writeContract hy rfl (by simp)) fun _ y hy => ?_
  exact throughout_bind (hI.commitNow hy) fun _ y hy => hy

end Kept

end

end Ejar
