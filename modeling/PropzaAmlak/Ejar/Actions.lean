import PropzaAmlak.Ejar.Queue
import PropzaAmlak.Webhook.Handlers

/-! What users, wizards, jobs, crons and webhooks do to a contract. Chatter
messages and the actions returned to the web client are left out. -/

namespace Ejar

open Tx

/-- Whether the addon `queue_job` can be imported, as the submit wizard tests it; whether
`job` can be imported from it; and whether `env.get("queue.job")` counts as true, which
an empty recordset does not. -/
structure Installation where
  queueJobInstalled : Bool
  queueJobAvailable : Bool
  queueJobFound : Bool

def assertNotTerminal (c : Contract) : TaskProg Unit :=
  if c.ejarStatus.terminal then userError "لا يمكن تعديل عقد في حالة نهائية" else pure ()

def readyStateErrors (c : Contract) : List String :=
  (if c.hasLessor then [] else ["لم يُضَف المؤجر"]) ++
  (if c.hasTenant then [] else ["لم يُضَف المستأجر"]) ++
  (if c.hasUnit then [] else ["لم تُضَف أي وحدة"]) ++
  (if c.signedDoc.truthy then [] else ["لم يُرفع العقد الموقّع"]) ++
  (if c.brokerageProfileId.isSome then [] else ["لم يُحدَّد ملف مكتب الوساطة"])

def validateReadyState (c : Contract) : TaskProg Unit :=
  if (readyStateErrors c).isEmpty then pure ()
  else userError ("العقد غير مكتمل بعد:\n• " ++ "\n• ".intercalate (readyStateErrors c))

/-- `_set_status` -/
def setStatus (newStatus : EjarStatus) : TaskProg Unit := writeRecord { ejarStatus := some newStatus }

def actionStartBuilding : TaskProg Unit := do
  let w ← Prog.get
  assertNotTerminal w.contract
  if w.contract.ejarStatus ≠ .draft then userError "يمكن بدء الإعداد فقط من حالة المسودة"
  else setStatus .building

def actionMarkReady : TaskProg Unit := do
  let w ← Prog.get
  assertNotTerminal w.contract
  if w.contract.ejarStatus ≠ .building then userError "العقد يجب أن يكون في مرحلة الإعداد"
  else do
    validateReadyState w.contract
    setStatus .ready

def actionSubmitToEjar : TaskProg Unit := do
  let w ← Prog.get
  assertNotTerminal w.contract
  if w.contract.ejarStatus ≠ .ready ∧ w.contract.ejarStatus ≠ .building then
    userError "يمكن إرسال العقود الجاهزة أو التي في مرحلة الإعداد فقط"
  else if w.contract.ejarStatus = .building ∧ w.contract.isReadyToSubmit then setStatus .ready
  else pure ()

def actionResetToDraft : TaskProg Unit := do
  let w ← Prog.get
  if w.contract.ejarStatus ≠ .rejected then userError "يمكن إعادة الضبط للمسودة فقط من حالة الرفض"
  else setStatus .draft

def actionCancel : TaskProg Unit := do
  let w ← Prog.get
  if w.contract.ejarStatus.terminal then userError "لا يمكن إلغاء عقد في حالة نهائية"
  else setStatus .cancelled

/-- `action_upload` of the upload wizard. -/
def uploadDocWizard (signedDoc : BinaryField) (signedDocFilename : CharField) : TaskProg Unit :=
  if !signedDoc.truthy then userError "يرجى اختيار ملف PDF للرفع"
  else do
    let w ← Prog.get
    writeRecord { signedDoc := some signedDoc
                  signedDocFilename := some (some (signedDocFilename.orText (w.contract.name ++ ".pdf"))) }
    let w ← Prog.get
    if w.contract.ejarStatus = .building ∧ w.contract.isReadyToSubmit then setStatus .ready
    else pure ()

/-- `has_active_job` -/
def hasActiveJob (inst : Installation) (w : World) : Bool :=
  w.contract.activeJobUuid.truthy && inst.queueJobFound &&
    match w.jobs.find? fun job => some job.uuid = w.contract.activeJobUuid with
    | some job => job.state = .pending || job.state = .enqueued || job.state = .started
    | none => false

def actionSubmitAsync (inst : Installation) (now : Datetime) (uuid : String) : TaskProg Unit := do
  let w ← Prog.get
  validateReadyState w.contract
  if !inst.queueJobAvailable then
    userError "وحدة queue_job غير مثبتة. يرجى تثبيتها أو استخدام الإرسال المتزامن."
  else if hasActiveJob inst w then
    userError ("توجد مهمة إرسال قيد التنفيذ بالفعل (" ++ w.contract.activeJobUuid.str ++ ")")
  else do
    writeRecord { ejarStatus := some .submitting, submitError := some none, jobLastError := some none
                  submitAttempt := some (w.contract.submitAttempt + 1)
                  jobEnqueuedAt := some (some now), jobChannel := some (some channelContracts) }
    Prog.commitNow
    let jobUuid ← withDelay .submission maxSubmissionRetries uuid
    writeRecord { activeJobUuid := some (some jobUuid) }

def actionCancelPendingJob (inst : Installation) : TaskProg Unit := do
  let w ← Prog.get
  if !w.contract.activeJobUuid.truthy then userError "لا توجد مهمة نشطة لهذا العقد"
  else if !inst.queueJobFound then userError "queue_job غير مثبت"
  else
    match w.jobs.find? fun job => some job.uuid = w.contract.activeJobUuid &&
        (job.state = .pending || job.state = .enqueued) with
    | none => userError "المهمة ليست في حالة الانتظار ولا يمكن إلغاؤها"
    | some job => do
      Prog.put (.setJobState job.uuid .cancelled)
      writeRecord { ejarStatus := some .ready, activeJobUuid := some none, jobChannel := some none }

/-- `_mark_dead_letter` -/
def markDeadLetter (reason : String) : TaskProg Unit := do
  let cut := String.ofList (reason.toList.take 2048)
  writeRecord { ejarStatus := some .ready, submitError := some (some cut)
                jobLastError := some (some cut), activeJobUuid := some none, jobChannel := some none }
  let w ← Prog.get
  let reason := String.ofList (reason.toList.take 200)
  Prog.put (.record (.activity ("فشل إرسال العقد " ++ w.contract.name ++ ": " ++ reason)))

def handleSubmissionExc (exc : Exc) : TaskProg Unit := do
  writeRecord { jobLastError := some (some (exc.cut 2048)) }
  if exc.cls.isPermanent then do
    markDeadLetter exc.message
    throw (.failedJobError exc.message)
  else throw (classifyEjarException exc)

def jobExecuteFullSubmission (env : Env) : TaskProg Unit := do
  let w ← Prog.get
  if w.contract.ejarStatus = .submitted ∨ w.contract.ejarStatus = .approved then pure ()
  else do
    let result ← onContract (executeFullSubmission env)
    match result with
    | .ok _ => writeRecord { jobLastError := some none }
    | .error exc =>
      if exc.cls.isEjarAPIError then handleSubmissionExc exc
      else throw (.retryableJobError exc.message)

structure PollResult where
  ejarState : Json
  ejarContractNumber : Json
  rejectionReason : Json

def pollContractStatus (env : Env) : Pipeline PollResult := do
  let contract ← Prog.get
  if !contract.ejarContractId.truthy then pure ⟨.str "", .str "", .str ""⟩
  else do
    let client ← buildClient env
    let response ← makeRequest client (.getContract contract.ejarContractId.str)
    let data ← Prog.ofExcept (respData response)
    let attrs ← Prog.ofExcept (pyGet data "attributes" (.obj []))
    let ejarState ← Prog.ofExcept (pyGet attrs "state" (.str ""))
    let ejarNumber ← Prog.ofExcept (pyGet attrs "contract_number" (.str ""))
    let rejectionReason ← Prog.ofExcept (pyGet attrs "rejection_reason" (.str ""))
    pure ⟨ejarState, ejarNumber, rejectionReason⟩

/-- `state_map.get(ejar_state)` -/
def stateMap : Json → Except Exc (Option EjarStatus)
  | .str "registered" => .ok (some .approved)
  | .str "active" => .ok (some .approved)
  | .str "expired" => .ok (some .expired)
  | .str "terminated" => .ok (some .cancelled)
  | .str "rejected" => .ok (some .rejected)
  | .arr _ => .error { cls := .typeError, message := "unhashable type: 'list'" }
  | .obj _ => .error { cls := .typeError, message := "unhashable type: 'dict'" }
  | _ => .ok none

/-- What is written before a new status. -/
def pollDetails (newStatus : EjarStatus) (result : PollResult) : Pipeline Unit :=
  match newStatus with
  | .rejected => writeContract { rejectionReason := some (.ofJson result.rejectionReason) }
  | .approved =>
    if result.ejarContractNumber.truthy then
      writeContract { ejarContractNumber := some (.ofJson result.ejarContractNumber) }
    else pure ()
  | _ => pure ()

def pollEjarStatus (env : Env) : Pipeline Unit := do
  let result ← pollContractStatus env
  let contract ← Prog.get
  writeContract { ejarLastSync := some (some env.now), pollCount := some (contract.pollCount + 1) }
  let newStatus ← Prog.ofExcept (stateMap result.ejarState)
  match newStatus with
  | none => pure ()
  | some newStatus =>
    if newStatus = contract.ejarStatus then pure ()
    else do
      pollDetails newStatus result
      writeContract { ejarStatus := some newStatus }

/-- `now + timedelta(minutes=30)` -/
def halfHourLater (now : Datetime) : Datetime := now + 1800

def jobPollEjarStatus (env : Env) : TaskProg Unit := do
  let w ← Prog.get
  if w.contract.ejarStatus ≠ .submitted then pure ()
  else if !w.contract.ejarContractId.truthy then pure ()
  else do
    let result ← onContract (pollEjarStatus env)
    match result with
    | .ok _ => writeRecord { nextPollAt := some (some (halfHourLater env.now)) }
    | .error exc =>
      if exc.cls.isEjarAPIError then throw (classifyEjarException exc)
      else throw (.retryableJobError exc.message)

def actionCheckEjarStatus (inst : Installation) (env : Env) (uuid : String) : TaskProg Unit := do
  let w ← Prog.get
  if !w.contract.ejarContractId.truthy then userError "لا يوجد معرّف عقد إيجار للاستعلام عنه"
  else if !inst.queueJobAvailable then do
    let result ← onContract (pollEjarStatus env)
    orRaise result
  else do
    let jobUuid ← withDelay .poll maxPollRetries uuid
    writeRecord { activeJobUuid := some (some jobUuid) }

/-- One round of `_cron_poll_submitted_contracts`; without `queue_job` exceptions
are logged, and what was written before them stays. -/
def cronPollSubmittedContract (inst : Installation) (env : Env) (uuid : String) : TaskProg Unit := do
  let w ← Prog.get
  if w.contract.ejarStatus ≠ .submitted ∨ (∃ t ∈ w.contract.nextPollAt, env.now < t) then pure ()
  else if !inst.queueJobAvailable then do
    let result ← onContract (pollEjarStatus env)
    match result with
    | .ok _ => writeRecord { nextPollAt := some (some (halfHourLater env.now)) }
    | .error _ => pure ()
  else do
    let jobUuid ← withDelay .poll maxPollRetries uuid
    writeRecord { activeJobUuid := some (some jobUuid), nextPollAt := some (some (halfHourLater env.now)) }

/-- One round of `_cron_cleanup_dead_letter_jobs`. -/
def cronCleanupDeadLetterJob (inst : Installation) (excInfo : String) : TaskProg Unit := do
  let w ← Prog.get
  if !inst.queueJobFound then pure ()
  else if w.contract.ejarStatus ≠ .submitting ∨ !w.contract.activeJobUuid.truthy then pure ()
  else
    match w.jobs.find? fun job => some job.uuid = w.contract.activeJobUuid &&
        (job.state = .failed || job.state = .cancelled) with
    | none => pure ()
    | some _ =>
      let reason := String.ofList (excInfo.toList.take 500)
      markDeadLetter (if reason ≠ "" then reason else "استنفدت جميع محاولات إعادة الإرسال")

def jobUploadSignedDocument (inst : Installation) (env : Env) (doc : List UInt8) (filename : String)
    (triggerSubmission : Bool) (uuid : String) : TaskProg Unit := do
  let w ← Prog.get
  if !w.contract.ejarContractId.truthy then
    throw (.failedJobError ("Contract " ++ w.contract.name ++ " has no ejar_contract_id — " ++
      "cannot upload document before contract is created on Ejar"))
  else do
    let result ← onContract (do
      let client ← buildClient env
      makeRequest client (.uploadSignedDocument w.contract.ejarContractId.str doc filename))
    match result with
    | .error exc =>
      if exc.cls.isEjarAPIError then throw (classifyEjarException exc)
      else throw (.retryableJobError exc.message)
    | .ok _ => do
      writeRecord { signedDoc := some (some doc), signedDocFilename := some (some filename) }
      let w ← Prog.get
      if triggerSubmission && w.contract.isReadyToSubmit then actionSubmitAsync inst env.now uuid
      else pure ()

/-- The labels of the checks of the submit wizard that fail. -/
def missingItems (c : Contract) : List String :=
  (if c.brokerageProfileId.isSome then [] else ["ملف مكتب الوساطة"]) ++
  (if c.hasLessor then [] else ["المؤجر"]) ++
  (if c.hasTenant then [] else ["المستأجر"]) ++
  (if c.hasUnit then [] else ["وحدة عقارية"]) ++
  (if c.signedDoc.truthy then [] else ["العقد الموقّع (PDF)"]) ++
  (if c.startDate.isSome ∧ c.endDate.isSome ∧ 0 < c.rentAmount then [] else ["التواريخ وقيمة الإيجار"])

/-- `action_confirm_submit` of the submit wizard. -/
def actionConfirmSubmit (inst : Installation) (env : Env) (confirmed : Bool) (uuid : String) :
    TaskProg Unit := do
  let w ← Prog.get
  if !(missingItems w.contract).isEmpty then
    userError ("لا يمكن الإرسال. العناصر الناقصة:\n• " ++ "\n• ".intercalate (missingItems w.contract))
  else if !confirmed then userError "يرجى تأكيد الإرسال أولاً بتحديد مربع التأكيد"
  else if inst.queueJobInstalled then actionSubmitAsync inst env.now uuid
  else do
    let result ← onContract (executeFullSubmission env)
    match result with
    | .ok _ => pure ()
    | .error exc => userError ("فشل الإرسال إلى إيجار:\n" ++ exc.message)

/-- A write from outside the addon, such as a form or a remote call. -/
def externalWrite (vals : ContractVals) : TaskProg Unit := writeRecord vals

/-- A delivery that reaches a handler; the controller answers whatever happens,
so that what was written before an exception stays. -/
def webhookDelivery (data : WebhookData) (correlationId : String) (now : Datetime) : TaskProg Unit := do
  let _ ← onContract (processEvent data correlationId now)
  pure ()

/-- All that can be started on a contract. A job names its row in the queue. -/
inductive Task where
  | startBuilding
  | markReady
  | submitToEjar
  | resetToDraft
  | cancel
  | uploadDocWizard (signedDoc : BinaryField) (signedDocFilename : CharField)
  | submitWizard (env : Env) (confirmed : Bool) (uuid : String)
  | submitAsync (now : Datetime) (uuid : String)
  | cancelPendingJob
  | checkEjarStatus (env : Env) (uuid : String)
  | cronPoll (env : Env) (uuid : String)
  | cronCleanup (excInfo : String)
  | submissionJob (job : String) (env : Env)
  | pollJob (job : String) (env : Env)
  | uploadJob (job : String) (env : Env) (doc : List UInt8) (filename : String)
      (triggerSubmission : Bool) (uuid : String)
  | webhook (data : WebhookData) (correlationId : String) (now : Datetime)
  | write (vals : ContractVals)

def Task.body (inst : Installation) : Task → TaskProg Unit
  | startBuilding => actionStartBuilding
  | markReady => actionMarkReady
  | submitToEjar => actionSubmitToEjar
  | resetToDraft => actionResetToDraft
  | cancel => actionCancel
  | uploadDocWizard signedDoc signedDocFilename => Ejar.uploadDocWizard signedDoc signedDocFilename
  | submitWizard env confirmed uuid => actionConfirmSubmit inst env confirmed uuid
  | submitAsync now uuid => actionSubmitAsync inst now uuid
  | cancelPendingJob => actionCancelPendingJob inst
  | checkEjarStatus env uuid => actionCheckEjarStatus inst env uuid
  | cronPoll env uuid => cronPollSubmittedContract inst env uuid
  | cronCleanup excInfo => cronCleanupDeadLetterJob inst excInfo
  | submissionJob _ env => jobExecuteFullSubmission env
  | pollJob _ env => jobPollEjarStatus env
  | uploadJob _ env doc filename triggerSubmission uuid =>
    jobUploadSignedDocument inst env doc filename triggerSubmission uuid
  | webhook data correlationId now => webhookDelivery data correlationId now
  | write vals => externalWrite vals

/-- The queue row of a job, with its kind. -/
def Task.job : Task → Option (String × JobKind)
  | submissionJob job _ => some (job, .submission)
  | pollJob job _ => some (job, .poll)
  | uploadJob job .. => some (job, .upload)
  | _ => none

/-- The runner takes up jobs that wait, and marks them started. -/
def Task.start (t : Task) (w : World) : Option World :=
  match t.job with
  | none => some w
  | some (uuid, kind) =>
    match w.jobs.find? fun job => job.uuid = uuid && job.kind = kind &&
        (job.state = .pending || job.state = .enqueued) with
    | none => none
    | some _ => some { w with jobs := setState uuid .started w.jobs }

/-- The state and the retry count of a job after an attempt; a job whose worker
died is put back. -/
def Job.after (job : Job) : Outcome TaskExc Unit → Job
  | .ret _ => { job with state := .done, retry := job.retry + 1 }
  | .raise (.retryableJobError _) =>
    { job with
      state := if job.maxRetries ≠ 0 ∧ job.maxRetries ≤ job.retry + 1 then .failed else .pending
      retry := job.retry + 1 }
  | .raise _ => { job with state := .failed, retry := job.retry + 1 }
  | .cut => { job with state := .pending }

def Task.finish (t : Task) (o : Outcome TaskExc Unit) (w : World) : World :=
  match t.job with
  | none => w
  | some (uuid, _) =>
    { w with jobs := w.jobs.map fun job => if job.uuid = uuid then job.after o else job }

/-- Everything that may happen to one contract, in any order and interleaving. -/
def system (inst : Installation) : System World WorldWrite Request Reply TaskExc Unit Task where
  app := WorldWrite.apply
  start := Task.start
  body := Task.body inst
  finish := Task.finish

end Ejar
