import PropzaAmlak.Ejar.Lifecycle

/-! The event handlers of `services/webhook_processor.py`, on the contract they
are given. Chatter messages are left out. -/

namespace Ejar

open Tx

/-- The dict that the validator returns. -/
abbrev WebhookData := List (String × Json)

/-- `webhook_data.get(key)` -/
def WebhookData.get (data : WebhookData) (key : String) (default : Json := .null) : Json :=
  (Json.lookup data key).getD default

/-- `p.ejar_party_id == v`, where an empty field is `False`, which equals 0. -/
def CharField.equals : CharField → Json → Bool
  | some s, .str t => s == t
  | none, .bool b => !b
  | none, .int n => n == 0
  | none, .float q _ _ => q == 0
  | _, _ => false

def handleContractApproved (data : WebhookData) : Pipeline Unit :=
  writeContract { ejarStatus := some .approved
                  ejarContractNumber := some (.ofJson (data.get "ejar_contract_number")) }

def handleContractRejected (data : WebhookData) : Pipeline Unit :=
  writeContract { ejarStatus := some .rejected
                  rejectionReason := some (.ofJson (data.get "reason" (.str ""))) }

/-- One round of the loop over `parties`. -/
def acknowledgeParty (partyData : Json) : Pipeline Unit := do
  let ejarPartyId ← Prog.ofExcept (pyGet partyData "ejar_party_id" .null)
  let contract ← Prog.get
  Prog.forEach (contract.partyIds.ids.filter fun i =>
      (contract.partyIds.row i).ejarPartyId.equals ejarPartyId)
    fun i => Prog.put (.party i { syncState := some .synced })

def handleAcknowledgementCompleted (data : WebhookData) : Pipeline Unit := do
  let partiesData ← Prog.ofExcept (pyIter (data.get "parties" (.arr [])))
  Prog.forEach partiesData acknowledgeParty

/-- The last two only post a message. -/
def handleDocumentVerification (_ : WebhookData) : Pipeline Unit := pure ()

def handleStatusUpdate (_ : WebhookData) : Pipeline Unit := pure ()

/-- `handler_map.get(event_type)`, and what follows if there is no handler. -/
def webhookHandler (data : WebhookData) : Except Exc (Pipeline Unit) :=
  match data.get "event_type" with
  | .str "contract.approved" => .ok (handleContractApproved data)
  | .str "contract.rejected" => .ok (handleContractRejected data)
  | .str "acknowledgement.completed" => .ok (handleAcknowledgementCompleted data)
  | .str "document.verification" => .ok (handleDocumentVerification data)
  | .str "status.update" => .ok (handleStatusUpdate data)
  | .arr _ => .error { cls := .typeError, message := "unhashable type: 'list'" }
  | .obj _ => .error { cls := .typeError, message := "unhashable type: 'dict'" }
  | event => .error { cls := .ejarWebhookUnknownEventType, message := "Unknown event: " ++ event.text }

/-- Steps 3 to 5 of `process_webhook`. -/
def processEvent (data : WebhookData) (correlationId : String) (now : Datetime) : Pipeline Unit := do
  let handler ← Prog.ofExcept (webhookHandler data)
  handler
  writeContract { webhookUuid := some (.ofJson (data.get "webhook_id"))
                  webhookDeliveredAt := some (some now)
                  webhookEventType := some (.ofJson (data.get "event_type"))
                  webhookCorrelationId := some (some correlationId) }

end Ejar
