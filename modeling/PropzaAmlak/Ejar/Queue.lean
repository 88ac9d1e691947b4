import PropzaAmlak.Tx.Process
import PropzaAmlak.Ejar.Lifecycle

/-! The contract together with its rows in `queue.job`, and the policies of
`services/job_policies.py`. -/

namespace Ejar

open Tx

inductive JobKind where
  | submission
  | poll
  | upload
deriving DecidableEq

inductive JobState where
  | pending
  | enqueued
  | started
  | done
  | failed
  | cancelled
deriving DecidableEq

/-- A row of `queue.job` for the contract. -/
structure Job where
  uuid : String
  kind : JobKind
  state : JobState := .pending
  retry : Nat := 0
  maxRetries : Nat

structure World where
  contract : Contract
  jobs : List Job := []

inductive WorldWrite where
  | record (u : RecordWrite)
  | enqueue (job : Job)
  | setJobState (uuid : String) (state : JobState)

def setState (uuid : String) (state : JobState) (jobs : List Job) : List Job :=
  jobs.map fun job => if job.uuid = uuid then { job with state := state } else job

def WorldWrite.apply : WorldWrite → World → World
  | record u, w => { w with contract := u.apply w.contract }
  | enqueue job, w => { w with jobs := w.jobs ++ [job] }
  | setJobState uuid state, w => { w with jobs := setState uuid state w.jobs }

/-- What a job method or an action raises: an exception of the addon, or one of
the two that the job runner tells apart. -/
inductive TaskExc where
  | exc (e : Exc)
  | retryableJobError (message : String)
  | failedJobError (message : String)

abbrev TaskProg := Prog World WorldWrite Request Reply TaskExc

/-- A program on the contract, as part of a task. -/
def onContract {α : Type} (p : Pipeline α) : TaskProg (Except Exc α) :=
  (p.zoom World.contract WorldWrite.record).attempt

def orRaise {α : Type} : Except Exc α → TaskProg α
  | .ok a => .ret a
  | .error e => .raise (.exc e)

def writeRecord (vals : ContractVals) : TaskProg Unit := do
  let written ← onContract (writeContract vals)
  orRaise written

def userError {α : Type} (message : String) : TaskProg α :=
  .raise (.exc { cls := .userError, message })

def maxSubmissionRetries : Nat := 5

def maxPollRetries : Nat := 20

def channelContracts : String := "root.ejar.contracts"

/-- `classify_ejar_exception` -/
def classifyEjarException (exc : Exc) : TaskExc :=
  match exc.cls with
  | .ejarNetworkError | .ejarTimeoutError | .ejarRateLimitError | .ejarServerError
  | .ejarCircuitOpenError | .ejarAuthError | .ejarTokenExpiredError =>
    .retryableJobError exc.message
  | .ejarValidationError | .ejarForbiddenError | .ejarNotFoundError | .ejarPayloadError
  | .ejarConfigurationError | .ejarTokenError =>
    .failedJobError exc.message
  | _ => .retryableJobError exc.message

/-- `with_delay(identity_key=...)`: a job of the kind that has not been started is
returned instead of a new one. -/
def withDelay (kind : JobKind) (maxRetries : Nat) (uuid : String) : TaskProg String := do
  let w ← Prog.get
  match w.jobs.find? fun job => job.kind = kind && (job.state = .pending || job.state = .enqueued) with
  | some job => pure job.uuid
  | none => do
    Prog.put (.enqueue { uuid, kind, maxRetries })
    pure uuid

end Ejar
