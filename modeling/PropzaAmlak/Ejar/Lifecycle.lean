import PropzaAmlak.Tx.Program
import PropzaAmlak.Ejar.Client
import PropzaAmlak.Ejar.Transition

/-! `services/lifecycle_service.py`: the submission of one contract, with its API
calls, its writes and its commits in the order of the source. Sync-log rows and
chatter messages are left out. -/

namespace Ejar

open Tx

abbrev Pipeline := Prog Contract RecordWrite Request Reply Exc

/-- What an attempt reads besides the contract: the date and time, the profile
that a search by company finds, and whether the company's credentials resolve. -/
structure Env where
  today : Date
  now : Datetime
  companyProfile : Option BrokerageProfile
  credentials : Except Exc Unit

/-- `contract.write(vals)` in the open transaction. -/
def writeContract (vals : ContractVals) : Pipeline Unit := do
  Prog.put (.contract vals)
  let record ← Prog.get
  Prog.ofExcept (if vals.ejarStatus.isSome then checkStateTransition record else .ok ())

def makeRequest (companyId : Nat) (call : ApiCall) : Pipeline Json := do
  let reply ← Prog.request ⟨companyId, call⟩
  Prog.ofExcept (readReply ⟨companyId, call⟩ reply)

/-- `try: p except EjarConflictError as exc: handler(exc)` -/
def exceptConflict {α : Type} (p : Pipeline α) (handler : Exc → Pipeline α) : Pipeline α :=
  p.tryCatch fun exc => if exc.cls = .ejarConflictError then handler exc else throw exc

/-- `resp.get('data', {})` -/
def respData (resp : Json) : Except Exc Json := pyGet resp "data" (.obj [])

/-- `resp.get('data', {}).get('id', '')` -/
def respId (resp : Json) : Except Exc Json := do
  let data ← respData resp
  pyGet data "id" (.str "")

/-- `(exc.existing_resource or {}).get('id', '')` -/
def existingId (exc : Exc) : Except Exc Json :=
  pyGet (exc.existingResource.orElse (.obj [])) "id" (.str "")

/-- The profile of the contract, or else the one of its company, which is then
written to the contract. -/
def findProfile (env : Env) : Pipeline (Option BrokerageProfile) := do
  let contract ← Prog.get
  match contract.brokerageProfileId, env.companyProfile with
  | some profile, _ => pure (some profile)
  | none, some profile => do
    writeContract { brokerageProfileId := some (some profile) }
    pure (some profile)
  | none, none => pure none

def validateForSubmission (env : Env) (profile : BrokerageProfile) (contract : Contract) :
    Except Exc Unit := do
  profile.validateForSubmission env.today
  contract.parties.forM Party.validateForSubmission
  contract.units.forM ContractUnit.validateForSubmission

def resolveProfile (env : Env) : Pipeline BrokerageProfile := do
  let profile ← findProfile env
  let contract ← Prog.get
  match profile with
  | none => throw { cls := .userError
                    message := "لم يُعثر على ملف مكتب الوساطة للشركة " ++ contract.companyName ++
                      ". يرجى إنشاء ملف وساطة أولاً." }
  | some profile => do
    Prog.ofExcept (validateForSubmission env profile contract)
    pure profile

/-- `_build_client`: the client is known by the company whose credentials it
sends. -/
def buildClient (env : Env) : Pipeline Nat := do
  let contract ← Prog.get
  Prog.ofExcept env.credentials
  pure contract.companyId

def entityCall (party : Party) : Except Exc ApiCall :=
  match party.entityType with
  | .individual => (buildIndividualEntityAttributes party).map .createIndividualEntity
  | .organization => (buildOrganizationEntityAttributes party).map .createOrganizationEntity

theorem entityCall_cases {party : Party} {call : ApiCall} (h : entityCall party = .ok call) :
    (∃ attrs, call = .createIndividualEntity attrs) ∨ ∃ attrs, call = .createOrganizationEntity attrs := by
  unfold entityCall at h
  split at h
  · cases hattrs : buildIndividualEntityAttributes party with
    | error e => simp [hattrs, Except.map] at h
    | ok attrs =>
      rw [hattrs] at h
      exact .inl ⟨attrs, (Except.ok.inj h).symm⟩
  · cases hattrs : buildOrganizationEntityAttributes party with
    | error e => simp [hattrs, Except.map] at h
    | ok attrs =>
      rw [hattrs] at h
      exact .inr ⟨attrs, (Except.ok.inj h).symm⟩

def stepCreateEntity (client partyId : Nat) : Pipeline Unit := do
  let contract ← Prog.get
  let call ← Prog.ofExcept (entityCall (contract.partyIds.row partyId))
  let resp ← exceptConflict (makeRequest client call) fun exc => do
    let entityId ← Prog.ofExcept (existingId exc)
    if entityId.truthy then pure (.obj [("data", .obj [("id", entityId)])]) else throw exc
  let entityId ← Prog.ofExcept (respId resp)
  Prog.put (.party partyId
    { ejarEntityId := some (.ofJson entityId), syncState := some .synced })

def resolvePartyEntity (client partyId : Nat) : Pipeline Unit := do
  let contract ← Prog.get
  if (contract.partyIds.row partyId).ejarEntityId.truthy then pure ()
  else stepCreateEntity client partyId

def resolvePartyEntities (client : Nat) : Pipeline Unit := do
  let contract ← Prog.get
  Prog.forEach contract.partyIds.ids (resolvePartyEntity client)

/-- Returns the contract id in the form the later calls put it in URLs and
keys. -/
def stepCreateContract (client : Nat) (profile : BrokerageProfile) : Pipeline String := do
  let contract ← Prog.get
  if contract.ejarContractId.truthy then pure contract.ejarContractId.str
  else do
    let attrs ← Prog.ofExcept (buildContractAttributes contract (some profile))
    let resp ← exceptConflict (makeRequest client (.createContract attrs)) fun exc => do
      let ejarId ← Prog.ofExcept (existingId exc)
      if ejarId.truthy then
        pure (.obj [("data", .obj [("id", ejarId),
          ("attributes", exc.existingResource.orElse (.obj []))])])
      else throw exc
    let ejarId ← Prog.ofExcept (respId resp)
    let data ← Prog.ofExcept (respData resp)
    let attrsResp ← Prog.ofExcept (pyGet data "attributes" (.obj []))
    let ejarNumber ← Prog.ofExcept (pyGet attrsResp "contract_number" (.str ""))
    writeContract { ejarContractId := some (.ofJson ejarId)
                    ejarContractNumber := some (.ofJson ejarNumber) }
    pure ejarId.text

/-- On a conflict the id comes from the existing resource, not from `data`. -/
def stepAttachUnit (client : Nat) (ejarContractId : String) (unitId : Nat) : Pipeline Unit := do
  let contract ← Prog.get
  let unit := contract.unitIds.row unitId
  if unit.ejarContractUnitId.truthy then pure ()
  else if !unit.ejarPropertyId.truthy || !unit.ejarUnitId.truthy then
    throw { cls := .ejarPayloadError
            message := "Unit " ++ unit.unitLabel.str ++ " is missing ejar_property_id / ejar_unit_id. " ++
              "Register the property and unit in the Ejar portfolio before submitting."
            odooField := "ejar_unit_id", odooModel := "ejar.contract.unit" }
  else do
    let call := .attachUnit ejarContractId unit.ejarPropertyId unit.ejarUnitId
    let contractUnitId ← exceptConflict
      (do
        let resp ← makeRequest client call
        pure (respId resp))
      fun exc => pure (existingId exc)
    let contractUnitId ← Prog.ofExcept contractUnitId
    Prog.put (.unit unitId
      { ejarContractUnitId := some (.ofJson contractUnitId), syncState := some .synced })

def stepAddParty (client : Nat) (ejarContractId : String) (partyId : Nat) : Pipeline Unit := do
  let contract ← Prog.get
  let party := contract.partyIds.row partyId
  if party.ejarPartyId.truthy then pure ()
  else if !party.ejarEntityId.truthy then
    throw { cls := .ejarPayloadError
            message := "Party " ++ party.displayName.str ++ " has no ejar_entity_id before add_party"
            odooField := "ejar_entity_id", odooModel := "ejar.contract.party" }
  else do
    let attrs ← Prog.ofExcept (buildPartyAttributes party party.ejarEntityId)
    let ejarPartyId ← exceptConflict
      (do
        let resp ← makeRequest client (.addParty ejarContractId attrs)
        pure (respId resp))
      fun exc => pure (existingId exc)
    let ejarPartyId ← Prog.ofExcept ejarPartyId
    Prog.put (.party partyId
      { ejarPartyId := some (.ofJson ejarPartyId), syncState := some .synced })

def stepUploadProxyDoc (client : Nat) (ejarContractId : String) (partyId : Nat) : Pipeline Unit := do
  let contract ← Prog.get
  let party := contract.partyIds.row partyId
  if party.ejarProxyDocId.truthy || !party.proxyDoc.truthy then pure ()
  else if !party.ejarPartyId.truthy then pure ()
  else do
    let resp ← makeRequest client (.uploadProxyDocument ejarContractId party.ejarPartyId
      (party.proxyDoc.getD []) (party.proxyDocFilename.orText ("proxy_" ++ party.ejarPartyId.str ++ ".pdf"))
      (party.proxyDocType.getD .paperPoa).str)
    let docId ← Prog.ofExcept (respId resp)
    Prog.put (.party partyId { ejarProxyDocId := some (.ofJson docId) })

def stepUploadSignedDoc (client : Nat) (ejarContractId : String) : Pipeline Unit := do
  let contract ← Prog.get
  if !contract.signedDoc.truthy then
    throw { cls := .ejarPayloadError, message := "Signed document is missing"
            odooField := "signed_doc", odooModel := "ejar.contract" }
  else do
    let _ ← makeRequest client (.uploadSignedDocument ejarContractId (contract.signedDoc.getD [])
      (contract.signedDocFilename.orText ("contract_" ++ contract.name ++ ".pdf")))
    pure ()

def stepAddFinancialInfo (client : Nat) (ejarContractId : String) : Pipeline Unit := do
  let contract ← Prog.get
  let attrs ← Prog.ofExcept (buildFinancialAttributes contract)
  exceptConflict
    (do
      let _ ← makeRequest client (.addFinancialInformation ejarContractId attrs)
      pure ())
    fun _ => pure ()

def stepAddRentalFee (client : Nat) (profile : BrokerageProfile) (ejarContractId : String) :
    Pipeline Unit := do
  let contract ← Prog.get
  match buildRentalFeeAttributes contract (some profile) with
  | none => pure ()
  | some attrs =>
    exceptConflict
      (do
        let _ ← makeRequest client (.addRentalFee ejarContractId attrs)
        pure ())
      fun _ => pure ()

/-- The body of the answer is read for the log. -/
def stepSubmit (client : Nat) (ejarContractId : String) : Pipeline Unit := do
  let resp ← makeRequest client (.submitContract ejarContractId)
  let _ ← Prog.ofExcept (respData resp)
  pure ()

def attachUnits (client : Nat) (ejarContractId : String) : Pipeline Unit := do
  let contract ← Prog.get
  Prog.forEach contract.unitIds.ids (stepAttachUnit client ejarContractId)

def addParties (client : Nat) (ejarContractId : String) : Pipeline Unit := do
  let contract ← Prog.get
  Prog.forEach contract.partyIds.ids (stepAddParty client ejarContractId)

def uploadRepresentativeDoc (client : Nat) (ejarContractId : String) (partyId : Nat) :
    Pipeline Unit := do
  let contract ← Prog.get
  if (contract.partyIds.row partyId).role.isRepresentative then
    stepUploadProxyDoc client ejarContractId partyId
  else pure ()

def uploadProxyDocs (client : Nat) (ejarContractId : String) : Pipeline Unit := do
  let contract ← Prog.get
  Prog.forEach contract.partyIds.ids (uploadRepresentativeDoc client ejarContractId)

/-- The dict that a successful submission returns. -/
structure SubmissionResult where
  success : Bool
  ejarContractId : String
  ejarContractNumber : String
  message : String

def finalize (env : Env) (ejarContractId : String) : Pipeline SubmissionResult := do
  writeContract { ejarStatus := some .submitted, ejarLastSync := some (some env.now),
                  submitError := some none }
  Prog.commitNow
  let contract ← Prog.get
  pure { success := true, ejarContractId, ejarContractNumber := contract.ejarContractNumber.orText "",
         message := "تم الإرسال بنجاح" }

def runPipeline (env : Env) : Pipeline SubmissionResult := do
  let profile ← resolveProfile env
  let client ← buildClient env
  resolvePartyEntities client
  Prog.commitNow
  let ejarContractId ← stepCreateContract client profile
  Prog.commitNow
  attachUnits client ejarContractId
  Prog.commitNow
  addParties client ejarContractId
  Prog.commitNow
  uploadProxyDocs client ejarContractId
  Prog.commitNow
  stepUploadSignedDoc client ejarContractId
  Prog.commitNow
  stepAddFinancialInfo client ejarContractId
  Prog.commitNow
  stepAddRentalFee client profile ejarContractId
  Prog.commitNow
  stepSubmit client ejarContractId
  finalize env ejarContractId

/-- `str(exc)[:n]` -/
def Exc.cut (exc : Exc) (n : Nat) : String := String.ofList (exc.message.toList.take n)

/-- The status is not looked at before 'submitting' is written. -/
def executeFullSubmission (env : Env) : Pipeline SubmissionResult := do
  let contract ← Prog.get
  writeContract { ejarStatus := some .submitting, submitAttempt := some (contract.submitAttempt + 1),
                  submitError := some none }
  Prog.commitNow
  (runPipeline env).tryCatch fun exc => do
    writeContract { ejarStatus := some .ready, submitError := some (some (exc.cut 2048)) }
    Prog.commitNow
    throw exc

/-- A contract that passes every check, for runs on fixed inputs. -/
def sampleContract (name : String) : Contract where
  companyId := 1
  companyName := "Alpha"
  name := name
  ejarStatus := .ready
  brokerageProfileId := some {
    crNumber := some "1010000000", unifiedNumber := some "7000000000", licenseNumber := some "L-1"
    representativePartnerId := some { saNationalId := some "1000000001" }
    officeNameAr := some "مكتب" }
  partyIds := Records.ofRows
    [{ role := .lessor, idNumber := some "1000000002", mobile := some "0500000001"
       fullNameAr := some "مؤجر", iban := some "SA0000000000000000000000" },
     { role := .tenant, idNumber := some "1000000003", mobile := some "0500000002"
       fullNameAr := some "مستأجر" }]
    { role := .tenant }
  unitIds := Records.ofRows
    [{ deedNumber := some "D-1", nationalAddressCode := some "ABCD1234", area := 100
       ejarPropertyId := some "prop-1", ejarUnitId := some "unit-1" }] {}
  startDate := some .january1
  endDate := some .nextJanuary1
  rentAmount := 50000
  signedDoc := some [37, 80, 68, 70]

def sampleEnv : Env where
  today := .january1
  now := 0
  companyProfile := none
  credentials := .ok ()

end Ejar
