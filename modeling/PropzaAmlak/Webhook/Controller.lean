import PropzaAmlak.Tx.Execution
import PropzaAmlak.Webhook.SyncLog

/-! From the request to what it leaves in the database:
`services/webhook_validator.py`, `process_webhook` of
`services/webhook_processor.py` and `controllers/ejar_webhook.py`. -/

namespace Ejar

open Tx

/-- `json.loads` of the decoded body, or the text of its error; `int` of a text;
and the HMAC-SHA256 of a body under a secret. -/
structure Platform where
  loads : List UInt8 → Except String Json
  int : String → Option Int
  hexdigest : String → List UInt8 → String

/-- A request to the endpoint, with the time at which it comes in and the value
of `uuid4()`. -/
structure Delivery where
  signature : Option String
  timestamp : Option String
  correlationId : Option String := none
  body : List UInt8
  now : Datetime
  uuid4 : String

/-- `headers.get('X-Correlation-ID') or str(uuid4())` -/
def Delivery.correlation (d : Delivery) : String :=
  match d.correlationId with
  | some text => if text = "" then d.uuid4 else text
  | none => d.uuid4

def timestampWindowSeconds : Nat := 300

def requireElse (c : Bool) (cls : ExcClass) (message : String) : Except Exc Unit :=
  if c then .ok () else .error { cls, message }

def readTimestamp (P : Platform) (timestamp : Option String) : Except Exc Int :=
  match timestamp with
  | none => .error { cls := .ejarWebhookTimestampMissing, message := "Missing X-Webhook-Timestamp header" }
  | some text =>
    if text = "" then
      .error { cls := .ejarWebhookTimestampMissing, message := "Missing X-Webhook-Timestamp header" }
    else match P.int text with
      | some n => .ok n
      | none => .error { cls := .ejarWebhookTimestampMissing
                         message := "Invalid X-Webhook-Timestamp format: " ++ text }

def readBody (P : Platform) (body : List UInt8) : Except Exc Json :=
  if body.isEmpty then .error { cls := .ejarWebhookInvalidJSON, message := "Empty request body" }
  else match P.loads body with
    | .ok v => .ok v
    | .error e => .error { cls := .ejarWebhookInvalidJSON, message := "Failed to parse JSON: " ++ e }

def secretParam (companyId : Json) : String := "ejar.webhook.secret.company_" ++ companyId.text

/-- `get_param`, where an empty value counts as none. -/
def findSecret (params : String → Option String) (companyId : Json) : Except Exc String :=
  match params (secretParam companyId) with
  | some secret =>
    if secret = "" then
      .error { cls := .ejarWebhookConfigMissing
               message := "Webhook secret not configured for company " ++ companyId.text }
    else .ok secret
  | none => .error { cls := .ejarWebhookConfigMissing
                     message := "Webhook secret not configured for company " ++ companyId.text }

/-- `hmac.compare_digest`, which takes no text outside ASCII. -/
def compareDigest (signature expected : String) : Except Exc Bool :=
  if signature.toList.all fun c => c.val < 128 then .ok (signature == expected)
  else .error { cls := .typeError
                message := "comparing strings with non-ASCII characters is not supported" }

/-- The fields of the dict; `webhook_dict.get` has failed on anything else. -/
def dictFields : Json → List (String × Json)
  | .obj fields => fields
  | _ => []

def validate (P : Platform) (params : String → Option String) (signature timestamp : Option String)
    (body : List UInt8) (now : Datetime) (companyId : Json := .null) : Except Exc WebhookData := do
  let requestTime ← readTimestamp P timestamp
  let delta := (now - requestTime).natAbs
  requireElse (delta ≤ timestampWindowSeconds) .ejarWebhookReplayAttack
    ("Timestamp outside window: " ++ toString delta ++ "s delta (max " ++
      toString timestampWindowSeconds ++ "s)")
  let webhookDict ← readBody P body
  let companyId ← if companyId.truthy then pure companyId else pyGet webhookDict "company_id" .null
  requireElse companyId.truthy .ejarWebhookConfigMissing "Missing company_id in payload"
  let signature := signature.getD ""
  requireElse (signature != "") .ejarWebhookSignatureMissing "Missing X-Webhook-Signature header"
  let secret ← findSecret params companyId
  let same ← compareDigest signature (P.hexdigest secret body)
  requireElse same .ejarWebhookSignatureInvalid "Signature mismatch"
  let data := Json.setItem (dictFields webhookDict) "_validated_at" (.int now)
  let data := Json.setItem data "_timestamp" (.int requestTime)
  return Json.setItem data "_company_id" companyId

def isDuplicate (logs : List SyncLog) (idempotencyKey : Json) (now : Datetime) : Bool :=
  idempotencyKey.truthy &&
    logs.any fun row => keyMatches idempotencyKey row.idempotencyKey && decide (now - 24 * 3600 ≤ row.createDate)

/-- `browse(ids)`. A text or a dict stands for ids that are no numbers, which no
record has. -/
def browse (ids : Json) : Except Exc (List Int) :=
  if ids.truthy then
    match ids with
    | .int n => .ok [n]
    | .arr xs => .ok (xs.filterMap fun | .int n => some n | _ => none)
    | .str _ => .ok []
    | .obj _ => .ok []
    | v => .error { cls := .typeError, message := "'" ++ v.typeName ++ "' object is not iterable" }
  else .ok []

/-- Steps 3 and 4 on more than one id: the handler ends at its `message_post`. -/
def processSeveral (data : WebhookData) (ids : List Int) : Pipeline Unit := do
  let handler ← Prog.ofExcept (webhookHandler data)
  handler
  throw { cls := .valueError
          message := "Expected singleton: ejar.contract(" ++ ", ".intercalate (ids.map toString) ++ ")" }

/-- The program on one contract. No handler calls the service, so that none is
cut off. -/
def runOn (p : Pipeline Unit) (contract : Contract) : Except Exc Unit × Contract :=
  match p.run RecordWrite.apply (fun (_ : Unit) _ => none) ⟨contract, contract, ()⟩ with
  | (.ret _, x) => (.ok (), x.working)
  | (.raise e, x) => (.error e, x.working)
  | (.cut, x) => (.error { cls := .ejarNetworkError, message := "" }, x.working)

namespace Database

def has (db : Database) (id : Int) : Bool := (db.contracts id).isSome

/-- The program on every contract of the ids. -/
def onContracts (db : Database) (ids : List Int) (p : Pipeline Unit) : Except Exc Unit × Database :=
  (match ids.find? db.has >>= db.contracts with
    | some contract => (runOn p contract).1
    | none => .ok (),
   { db with contracts := fun id =>
       if id ∈ ids then (db.contracts id).map fun contract => (runOn p contract).2 else db.contracts id })

/-- The row found by its texts is written to, where that has an effect. -/
def writeLog (db : Database) (p : SyncLog → Bool) (vals : List (String × Json)) : Database :=
  { db with syncLogs := SyncLog.writeLatest p vals db.syncLogs }

@[simp] theorem writeLog_eq (db : Database) (p : SyncLog → Bool) (vals : List (String × Json)) :
    db.writeLog p vals = db := by
  simp [writeLog]

end Database

def webhookAction (data : WebhookData) : String := "webhook_" ++ (data.get "event_type").text

def receiptRow (data : WebhookData) (correlationId : String) (now : Datetime) : SyncLog where
  action := webhookAction data
  contractId := data.get "contract_id"
  companyId := data.get "_company_id"
  direction := .inbound
  httpStatus := 202
  correlationId := some correlationId
  idempotencyKey := .ofJson (data.get "idempotency_key")
  status := "pending"
  createDate := now

/-- Steps 2 to 5. -/
def processContract (db : Database) (data : WebhookData) (correlationId : String) (now : Datetime) :
    Except Exc Unit × Database :=
  match browse (data.get "contract_id") with
  | .error e => (.error e, db)
  | .ok ids =>
    if ids.any db.has then
      db.onContracts ids (if ids.length = 1 then processEvent data correlationId now
        else processSeveral data ids)
    else (.error { cls := .ejarWebhookContractNotFound
                   message := "Contract " ++ (data.get "contract_id").text ++ " not found" }, db)

/-- `type(e).__name__` of an `EjarWebhookError` -/
def ExcClass.webhookName : ExcClass → String
  | .ejarWebhookSignatureInvalid => "EjarWebhookSignatureInvalid"
  | .ejarWebhookSignatureMissing => "EjarWebhookSignatureMissing"
  | .ejarWebhookTimestampMissing => "EjarWebhookTimestampMissing"
  | .ejarWebhookReplayAttack => "EjarWebhookReplayAttack"
  | .ejarWebhookInvalidJSON => "EjarWebhookInvalidJSON"
  | .ejarWebhookConfigMissing => "EjarWebhookConfigMissing"
  | .ejarWebhookContractNotFound => "EjarWebhookContractNotFound"
  | .ejarWebhookUnknownEventType => "EjarWebhookUnknownEventType"
  | .ejarWebhookIdempotencyKeyMissing => "EjarWebhookIdempotencyKeyMissing"
  | _ => "EjarWebhookError"

def processWebhook (creates : String → Bool) (db : Database) (data : WebhookData)
    (correlationId : String) (now : Datetime) : Except Exc Unit × Database :=
  let named := fun row : SyncLog => row.correlationId == some correlationId
  match logCall creates (receiptRow data correlationId now) db with
  | (.error e, db) => (.error e, db)
  | (.ok (), db) =>
    match processContract db data correlationId now with
    | (.ok (), db) =>
      (.ok (), db.writeLog (fun row => named row && row.action == webhookAction data)
        [("status", .str "success")])
    | (.error e, db) =>
      (.error e, if e.cls.isWebhookError then
        db.writeLog named [("status", .str "error"), ("error_type", .str e.cls.webhookName),
          ("error_message", .str e.message), ("is_permanent_error", .bool e.cls.isPermanent)]
        else db)

/-- What became of a delivery. -/
inductive Verdict where
  | refused (e : Exc)
  | duplicate (data : WebhookData)
  | processed (data : WebhookData) (result : Except Exc Unit)

/-- `webhook_handler` up to its response. The processor has no `with_delay`, so
that the event is always processed here. -/
def receive (P : Platform) (creates : String → Bool) (db : Database) (d : Delivery) : Verdict × Database :=
  match validate P db.params d.signature d.timestamp d.body d.now with
  | .error e => (.refused e, db)
  | .ok data =>
    if isDuplicate db.syncLogs (data.get "idempotency_key") d.now then (.duplicate data, db)
    else
      let (result, db) := processWebhook creates db data d.correlation d.now
      (.processed data result, db)

inductive InboxOp where
  | deliver (d : Delivery)
  | call (row : SyncLog)
  | store (id : Int) (contract : Contract)

/-- A delivery comes in, a call to Ejar is logged, or someone saves a contract. -/
def Database.apply (P : Platform) (db : Database) : InboxOp → Database
  | .deliver d => (receive P appends db d).2
  | .call row => { db with syncLogs := db.syncLogs ++ [{ row with direction := .outbound }] }
  | .store id contract => { db with contracts := Function.update db.contracts id (some contract) }

end Ejar
