import PropzaAmlak.Webhook.ControllerRules

/-! What an accepted webhook leaves behind. -/

namespace Ejar

open Tx

/-- A delivery that has everything it takes to be processed. -/
structure Due (P : Platform) (db : Database) (d : Delivery) (data : WebhookData) : Prop where
  valid : validate P db.params d.signature d.timestamp d.body d.now = .ok data
  known : ∃ handler, webhookHandler data = .ok handler
  fresh : isDuplicate db.syncLogs (data.get "idempotency_key") d.now = false
  contract : ∃ id c, namedIds data = [id] ∧ db.contracts id = some c ∧
    toString c.companyId = (data.get "_company_id").text

/-- The status after the handler of the event. -/
def statusAfter (data : WebhookData) (status : EjarStatus) : EjarStatus :=
  match data.get "event_type" with
  | .str "contract.approved" => .approved
  | .str "contract.rejected" => .rejected
  | _ => status

def finalStatus : Except Exc Unit → String
  | .error e => if e.cls.isWebhookError then "error" else "success"
  | .ok _ => "success"

structure TakesEffect (before after : Database) (data : WebhookData) (correlationId : String)
    (now : Datetime) (result : Except Exc Unit) : Prop where
  contract : ∀ id ∈ namedIds data, ∀ c, before.contracts id = some c → ∃ c', after.contracts id = some c' ∧
    c'.ejarStatus = statusAfter data c.ejarStatus ∧
    c'.webhookUuid = .ofJson (data.get "webhook_id") ∧ c'.webhookDeliveredAt = some now ∧
    c'.webhookEventType = .ofJson (data.get "event_type") ∧ c'.webhookCorrelationId = some correlationId
  row : ∃ row, after.syncLogs = before.syncLogs ++ [row] ∧ row.correlationId = some correlationId ∧
    row.status = finalStatus result

/-- What the creation of the row raises. -/
def wrongStatus : Exc where
  cls := .valueError
  message := "Wrong value for ejar.sync.log.status: 'pending'"

theorem processWebhook_checksSelection (db : Database) (data : WebhookData) (correlationId : String)
    (now : Datetime) :
    processWebhook checksSelection db data correlationId now = (.error wrongStatus, db) :=
  processWebhook_refused (by decide)

theorem not_takesEffect_self (db : Database) (data : WebhookData) (correlationId : String) (now : Datetime)
    (result : Except Exc Unit) : ¬ TakesEffect db db data correlationId now result := by
  intro heffect
  obtain ⟨row, hrows, _⟩ := heffect.row
  have hlength := congrArg List.length hrows
  simp at hlength

/-- An accepted delivery ends in the error of its own log row, before the handler
and without a trace. -/
theorem accepted_webhook_lost {P : Platform} {db : Database} {d : Delivery} {data : WebhookData}
    (hdue : Due P db d data) :
    receive P checksSelection db d = (.processed data (.error wrongStatus), db) ∧
      ¬ TakesEffect db (receive P checksSelection db d).2 data d.correlation d.now (.error wrongStatus) := by
  have hreceive : receive P checksSelection db d = (.processed data (.error wrongStatus), db) := by
    rw [receive_valid hdue.valid, processWebhook_checksSelection]
    simp [hdue.fresh]
  refine ⟨hreceive, ?_⟩
  rw [hreceive]
  exact not_takesEffect_self db data d.correlation d.now _

/-- An approval as company 1 receives it. -/
def approvalBody : List UInt8 :=
  "\x7b\"company_id\": 1, \"event_type\": \"contract.approved\", \"contract_id\": 7, \"ejar_contract_number\": \"EJ-7\", \"webhook_id\": \"w-1\", \"idempotency_key\": \"k-1\"\x7d".toUTF8.toList

def approvalDict : List (String × Json) :=
  [("company_id", .int 1), ("event_type", .str "contract.approved"), ("contract_id", .int 7),
    ("ejar_contract_number", .str "EJ-7"), ("webhook_id", .str "w-1"), ("idempotency_key", .str "k-1")]

def approvalPlatform : Platform :=
  .ofBody approvalBody approvalDict "s3cret-1" "ec4189be256f3d82b603ceaddd3a8a535c21ee62e68b88d4461786b3c25b94df"

def approvalDelivery (now : Datetime) : Delivery where
  signature := some "ec4189be256f3d82b603ceaddd3a8a535c21ee62e68b88d4461786b3c25b94df"
  timestamp := some "1754000000"
  body := approvalBody
  now := now
  uuid4 := "9a3c1c1e-6f0b-4a52-8d0e-0d6f5b0f3c11"

def approvalParams (name : String) : Option String :=
  if name = "ejar.webhook.secret.company_1" then some "s3cret-1" else none

def approvalData (now : Datetime) : WebhookData :=
  approvalDict ++ [("_validated_at", .int now), ("_timestamp", .int 1754000000), ("_company_id", .int 1)]

/-- Contract 7 of the given company waits for the approval. -/
def approvalDatabase (companyId : Nat) : Database where
  contracts id :=
    if id = 7 then some { sampleContract "EJR/2025/0007" with companyId := companyId, ejarStatus := .submitted }
    else none
  syncLogs := []
  params := approvalParams

theorem approval_valid {now : Datetime} (hnow : (now - 1754000000).natAbs ≤ 300) :
    validate approvalPlatform approvalParams (approvalDelivery now).signature (approvalDelivery now).timestamp
      (approvalDelivery now).body now = .ok (approvalData now) := by
  have hbody : approvalBody.isEmpty = false := by decide +kernel
  have hdigits : readDigits "1754000000" = some 1754000000 := by decide +kernel
  have hparam : approvalParams (secretParam (.int 1)) = some "s3cret-1" := by decide +kernel
  exact validate_ofBody hbody hdigits hnow rfl rfl hparam (by decide) (by decide) (by simp)

theorem approval_due : Due approvalPlatform (approvalDatabase 1) (approvalDelivery 1754000010)
    (approvalData 1754000010) where
  valid := approval_valid (by decide)
  known := ⟨_, rfl⟩
  fresh := by decide +kernel
  contract := ⟨7, _, rfl, rfl, by decide +kernel⟩

theorem accepted_webhook_lost_approval :
    receive approvalPlatform checksSelection (approvalDatabase 1) (approvalDelivery 1754000010) =
        (.processed (approvalData 1754000010) (.error wrongStatus), approvalDatabase 1) ∧
      ¬ TakesEffect (approvalDatabase 1)
        (receive approvalPlatform checksSelection (approvalDatabase 1) (approvalDelivery 1754000010)).2
        (approvalData 1754000010) (approvalDelivery 1754000010).correlation 1754000010 (.error wrongStatus) :=
  accepted_webhook_lost approval_due

/-- The approval of an existing contract of the company is lost. -/
theorem approval_takes_no_effect :
    Due approvalPlatform (approvalDatabase 1) (approvalDelivery 1754000010) (approvalData 1754000010) ∧
      ∀ result, ¬ TakesEffect (approvalDatabase 1)
        (receive approvalPlatform checksSelection (approvalDatabase 1) (approvalDelivery 1754000010)).2
        (approvalData 1754000010) (approvalDelivery 1754000010).correlation 1754000010 result := by
  refine ⟨approval_due, fun result => ?_⟩
  have hreceive : (receive approvalPlatform checksSelection (approvalDatabase 1)
      (approvalDelivery 1754000010)).2 = approvalDatabase 1 := by
    rw [receive_valid approval_due.valid, processWebhook_checksSelection]
    split
    all_goals rfl
  rw [hreceive]
  exact not_takesEffect_self _ _ _ _ result

end Ejar
