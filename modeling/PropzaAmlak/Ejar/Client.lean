import PropzaAmlak.Tx.Program
import PropzaAmlak.Ejar.Payload

/-! `services/ejar_client.py`: the calls the pipeline makes, with their
endpoints, bodies and idempotency keys, and `_make_request`. -/

namespace Ejar

/-- The client methods the pipeline and the poll use, with their arguments. -/
inductive ApiCall where
  | createIndividualEntity (attributes : IndividualEntityAttributes)
  | createOrganizationEntity (attributes : OrganizationEntityAttributes)
  | createContract (attributes : ContractAttributes)
  | attachUnit (contractId : String) (propertyId unitId : CharField)
  | addParty (contractId : String) (attributes : PartyAttributes)
  | uploadProxyDocument (contractId : String) (partyId : CharField) (fileContent : List UInt8)
      (filename docType : String)
  | uploadSignedDocument (contractId : String) (fileContent : List UInt8) (filename : String)
  | addFinancialInformation (contractId : String) (attributes : FinancialAttributes)
  | addRentalFee (contractId : String) (attributes : RentalFeeAttributes)
  | submitContract (contractId : String)
  | getContract (contractId : String)

/-- A call by the client of one company. -/
structure Request where
  companyId : Nat
  call : ApiCall

/-- What comes back of a request: a response with its status, its parsed JSON if
it is JSON and its text, or one of the failures `_make_request` tells apart. -/
inductive Reply where
  | response (statusCode : Nat) (json : Option Json) (text : String)
  | circuitOpen (retryAfter : Nat)
  | timeout
  | connectionError
  | requestException (text : String)

namespace ApiCall

def method : ApiCall → String
  | getContract _ => "GET"
  | _ => "POST"

def endpoint : ApiCall → String
  | createIndividualEntity _ => "/individual_entities"
  | createOrganizationEntity _ => "/organization_entities"
  | createContract _ => "/contracts"
  | attachUnit contractId _ _ => "/contracts/" ++ contractId ++ "/units"
  | addParty contractId _ => "/contracts/" ++ contractId ++ "/parties"
  | uploadProxyDocument contractId partyId _ _ _ =>
    "/contracts/" ++ contractId ++ "/parties/" ++ partyId.str ++ "/proxy_documents"
  | uploadSignedDocument contractId _ _ => "/contracts/" ++ contractId ++ "/signed_documents"
  | addFinancialInformation contractId _ => "/contracts/" ++ contractId ++ "/financial_information"
  | addRentalFee contractId _ => "/contracts/" ++ contractId ++ "/rental_fee"
  | submitContract contractId => "/contracts/" ++ contractId ++ "/submit"
  | getContract contractId => "/contracts/" ++ contractId

/-- The parts handed to `_build_idempotency_key`, as `str` prints them; `hash`
is `sha256(content).hexdigest()`. A GET carries no key. -/
def idempotencyParts (hash : List UInt8 → String) (companyId : Nat) : ApiCall → List String
  | createIndividualEntity attributes =>
    ["create_individual_entity", toString companyId, attributes.idNumber.str, attributes.idType]
  | createOrganizationEntity attributes =>
    ["create_org_entity", toString companyId, attributes.crNumber, attributes.unifiedNumber]
  | createContract attributes =>
    ["create_contract", toString companyId, attributes.contractStartDate,
      attributes.contractEndDate, attributes.contractType]
  | attachUnit contractId propertyId unitId =>
    ["attach_unit", toString companyId, contractId, unitId.str, propertyId.str]
  | addParty contractId attributes =>
    ["add_party", toString companyId, contractId, attributes.role, attributes.entityId.str]
  | uploadProxyDocument contractId partyId fileContent _ _ =>
    ["upload_proxy_doc", toString companyId, contractId, partyId.str,
      String.ofList ((hash fileContent).toList.take 16)]
  | uploadSignedDocument contractId fileContent _ =>
    ["upload_signed_doc", toString companyId, contractId,
      String.ofList ((hash fileContent).toList.take 16)]
  | addFinancialInformation contractId _ => ["add_financial_info", toString companyId, contractId]
  | addRentalFee contractId _ => ["add_rental_fee", toString companyId, contractId]
  | submitContract contractId => ["submit_contract", toString companyId, contractId]
  | getContract _ => []

end ApiCall

/-- `_build_idempotency_key`: the hash of the parts joined by colons. -/
def buildIdempotencyKey (sha256 : String → String) (parts : List String) : String :=
  sha256 (":".intercalate parts)

/-- `response.json()`, or the text under `_raw` when it is not JSON. -/
def responseBody (json : Option Json) (text : String) : Json :=
  json.getD (.obj [("_raw", .str text)])

/-- What `_make_request` does with a reply. -/
def readReply (request : Request) (reply : Reply) : Except Exc Json :=
  let target := request.call.method ++ " " ++ request.call.endpoint
  match reply with
  | .response statusCode json text =>
    (raiseForEjarStatus statusCode (responseBody json text)).map fun _ => responseBody json text
  | .circuitOpen retryAfter =>
    .error { cls := .ejarCircuitOpenError, retryAfter
             message := "Circuit open for company " ++ toString request.companyId ++
               " — retry in " ++ toString retryAfter ++ "s" }
  | .timeout => .error { cls := .ejarTimeoutError, message := "Request timed out: " ++ target }
  | .connectionError => .error { cls := .ejarNetworkError, message := "Connection error: " ++ target }
  | .requestException text =>
    .error { cls := .ejarNetworkError, message := "Request failed: " ++ target ++ " — " ++ text }

/-- A request Ejar answered 2xx or 409. -/
def Reply.accepted : Reply → Bool
  | .response statusCode _ _ => (200 ≤ statusCode && statusCode < 300) || statusCode == 409
  | _ => false

theorem readReply_ok {request : Request} {reply : Reply} {body : Json}
    (hbody : readReply request reply = .ok body) :
    ∃ statusCode json text, reply = .response statusCode json text ∧
      200 ≤ statusCode ∧ statusCode < 300 ∧ body = responseBody json text := by
  cases reply with
  | response statusCode json text =>
    simp only [readReply] at hbody
    cases hraise : raiseForEjarStatus statusCode (responseBody json text) with
    | error e => simp [hraise, Except.map] at hbody
    | ok _ =>
      have hstatus := raiseForEjarStatus_ok_iff.mp hraise
      simp only [hraise, Except.map, Except.ok.injEq] at hbody
      exact ⟨statusCode, json, text, rfl, hstatus.1, hstatus.2, hbody.symm⟩
  | _ => simp [readReply] at hbody

theorem readReply_conflict {request : Request} {reply : Reply} {e : Exc}
    (he : readReply request reply = .error e) (hcls : e.cls = .ejarConflictError) :
    ∃ json text existing, reply = .response 409 json text ∧
      pyGet (responseBody json text) "data" .null = .ok existing ∧
      e.existingResource = existing.orElse (.obj []) := by
  cases reply with
  | response statusCode json text =>
    simp only [readReply] at he
    cases hraise : raiseForEjarStatus statusCode (responseBody json text) with
    | ok _ => simp [hraise, Except.map] at he
    | error e' =>
      simp only [hraise, Except.map, Except.error.injEq] at he
      subst he
      obtain ⟨hstatus, existing, hexisting, hresource⟩ := raiseForEjarStatus_conflict hraise hcls
      exact ⟨json, text, existing, by rw [hstatus], hexisting, hresource⟩
  | _ =>
    simp only [readReply, Except.error.injEq] at he
    subst he
    cases hcls

end Ejar
