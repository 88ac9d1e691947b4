import PropzaAmlak.Webhook.Handlers

/-! `models/ejar_sync_log.py`, and the tables that the processing of a webhook
reads and writes. -/

namespace Ejar

inductive Direction where
  | outbound
  | inbound
deriving DecidableEq

structure SyncLog where
  action : String
  contractId : Json
  companyId : Json
  direction : Direction := .outbound
  httpStatus : Nat := 0
  correlationId : CharField := none
  idempotencyKey : CharField := none
  status : String := "success"
  createDate : Datetime

namespace SyncLog

/-- The selection of the field `status`. -/
def statusSelection : List String := ["success", "error", "retry", "skipped"]

/-- `super().write(vals)`, on the fields that are kept here. -/
def superWrite (vals : List (String × Json)) (row : SyncLog) : SyncLog :=
  match vals.lookup "status" with
  | some v => { row with status := v.text }
  | none => row

def write (vals : List (String × Json)) (row : SyncLog) : SyncLog :=
  if vals.all fun v => v.1 == "active" then row.superWrite vals else row

@[simp] theorem write_eq (vals : List (String × Json)) (row : SyncLog) : row.write vals = row := by
  unfold write
  split
  · rename_i hsafe
    have hlookup : vals.lookup "status" = none := by
      rw [List.lookup_eq_none_iff]
      intro v hv
      have hactive := List.all_eq_true.mp hsafe v hv
      simp only [beq_iff_eq] at hactive
      simp [hactive]
    simp only [superWrite, hlookup]
  · rfl

/-- `search(p, limit=1)` and, where it finds a row, `write(vals)`. The rows stand
in the order in which they were created. -/
def writeLatest (p : SyncLog → Bool) (vals : List (String × Json)) : List SyncLog → List SyncLog
  | [] => []
  | row :: rows =>
    if rows.any p then row :: writeLatest p vals rows
    else if p row then row.write vals :: rows
    else row :: rows

@[simp] theorem writeLatest_eq (p : SyncLog → Bool) (vals : List (String × Json)) (rows : List SyncLog) :
    writeLatest p vals rows = rows := by
  induction rows with
  | nil => rfl
  | cons row rows ih => simp [writeLatest, ih]

end SyncLog

structure Database where
  contracts : Int → Option Contract
  syncLogs : List SyncLog
  params : String → Option String

/-- `log_call`, where `creates` tells the statuses with which Odoo creates a row. -/
def logCall (creates : String → Bool) (row : SyncLog) (db : Database) : Except Exc Unit × Database :=
  if creates row.status then (.ok (), { db with syncLogs := db.syncLogs ++ [row] })
  else (.error { cls := .valueError
                 message := "Wrong value for ejar.sync.log.status: '" ++ row.status ++ "'" }, db)

/-- Odoo creates a row only with a status of the selection. -/
def checksSelection (status : String) : Bool := status ∈ SyncLog.statusSelection

/-- Every `log_call` is an append. -/
def appends (_ : String) : Bool := true

/-- `[('idempotency_key', '=', key)]`; a list is searched with `in` instead. -/
def keyMatches (key : Json) (stored : CharField) : Bool :=
  match key with
  | .arr keys => keys.any fun k => CharField.ofJson k == stored
  | key => CharField.ofJson key == stored

end Ejar
