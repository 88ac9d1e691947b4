import PropzaAmlak.JobQueue.ManagerRuns

/-! The runner and the table of the jobs, which the workers and the users change
while the runner is at it. -/

namespace JobQueue

structure Row where
  state : JobState
  channel : Option String
  seq : Int
  dateCreated : Int
  priority : Int
  eta : Option Eta
  retry : Option Int
  maxRetries : Option Int

namespace Row

/-- The columns of `select_jobs`. -/
def data (u : String) (row : Row) : JobData :=
  ⟨row.channel, u, row.seq, row.dateCreated, row.priority, row.eta, row.state⟩

/-! The methods of `Job`. `waiting` says whether a job that it depends on is not
done. -/

def setPending (waiting resetRetry : Bool) (job : Row) : Row :=
  { job with
    state := if waiting then .waitDependencies else .pending
    retry := if resetRetry then some 0 else job.retry }

def setStarted (job : Row) : Row := { job with state := .started }

def setDone (job : Row) : Row := { job with state := .done }

def setCancelled (job : Row) : Row := { job with state := .cancelled }

def setFailed (job : Row) : Row := { job with state := .failed }

/-- What `set_job_enqueued` makes of a row. -/
def setEnqueued (row : Row) : Row := { row with state := .enqueued }

def postpone (eta : Option Eta) (job : Row) : Row := { job with eta := eta }

/-- `job.store()`: the row is written, or made again where it is gone. -/
def store (job : Row) : Option Row → Row
  | none => job
  | some row =>
    { row with
      state := job.state, priority := job.priority, eta := job.eta, retry := job.retry, maxRetries := job.maxRetries }

def TooManyRetries (row : Row) : Prop := ∃ n ∈ row.maxRetries, n ≠ 0 ∧ ∃ k ∈ row.retry, k > n

instance (row : Row) : Decidable row.TooManyRetries :=
  match hn : row.maxRetries, hk : row.retry with
  | some n, some k => decidable_of_iff (n ≠ 0 ∧ k > n) (by simp [TooManyRetries, hn, hk])
  | none, _ => isFalse (by simp [TooManyRetries, hn])
  | some n, none => isFalse (by simp [TooManyRetries, hk])

/-- What `requeue_dead_jobs` makes of a row. -/
def requeueDead (row : Row) : Row :=
  { row with
    state := if row.TooManyRetries then .failed else .pending
    retry := if row.state = .started then some (row.retry.getD 0 + 1) else row.retry }

/-- The job is with a worker, or on its way to one. -/
def Active (row : Row) : Prop := row.state = .enqueued ∨ row.state = .started

instance (row : Row) : Decidable row.Active := inferInstanceAs (Decidable (_ ∨ _))

end Row

/-- `NOT_DONE`. -/
def JobState.NotDone : JobState → Prop
  | .waitDependencies | .pending | .enqueued | .started | .failed => True
  | .done | .cancelled => False

instance : DecidablePred JobState.NotDone
  | .waitDependencies | .pending | .enqueued | .started | .failed => isTrue trivial
  | .done | .cancelled => isFalse id

/-- The rows of uuids that are not listed mean nothing. -/
structure Rows where
  uuids : Finset String
  row : String → Row

namespace Rows

variable {rows : Rows} {u v : String}

def find (rows : Rows) (u : String) : Option Row := if u ∈ rows.uuids then some (rows.row u) else none

def put (rows : Rows) (u : String) : Option Row → Rows
  | none => ⟨rows.uuids.erase u, rows.row⟩
  | some row => ⟨insert u rows.uuids, Function.update rows.row u row⟩

@[simp] theorem find_put_self {row : Option Row} : (rows.put u row).find u = row := by
  cases row <;> simp [put, find]

theorem find_put_of_ne {row : Option Row} (h : v ≠ u) : (rows.put u row).find v = rows.find v := by
  cases row <;> simp [put, find, h]

def active (rows : Rows) : Finset String := rows.uuids.filter fun u => (rows.row u).Active

theorem mem_active : u ∈ rows.active ↔ ∃ row ∈ rows.find u, row.Active := by
  rw [active, Finset.mem_filter, find]
  split <;> rename_i h <;> simp [h]

end Rows

/-- What others than the runner do to a row. The job of a worker holds what it
was loaded with when it was started. -/
inductive RowAction where
  | delay (job : Row) (waiting : Bool)
  | runjob
  | performed (job : Row)
  | postponed (job : Row) (eta : Option Eta) (waiting : Bool)
  | failed (job : Row)
  | buttonDone
  | buttonCancelled
  | requeue (waiting : Bool)
  | enqueueWaiting
  | cancelDependent
  | edit (channel : Option String) (priority : Int) (eta : Option Eta) (maxRetries : Option Int)
  | unlink

/-- The row as it is written, if it is. A job is performed in one transaction
that has seen the row as started, and which fails if the row was changed since. -/
def RowAction.writes : RowAction → Option Row → Option (Option Row)
  | .delay job waiting, none => some (job.setPending waiting false)
  | .delay _ _, some _ => none
  | .postponed job eta waiting, row => some (((job.postpone eta).setPending waiting false).store row)
  | .failed job, row => some (job.setFailed.store row)
  | _, none => none
  | .runjob, some row => if row.state = .enqueued then some (some row.setStarted) else none
  | .performed job, some row => if row.state = .started then some (some (job.setDone.store (some row))) else none
  | .buttonDone, some row => some (some row.setDone)
  | .buttonCancelled, some row => some (some row.setCancelled)
  | .requeue waiting, some row =>
    if row.state = .waitDependencies then none else some (some (row.setPending waiting true))
  | .enqueueWaiting, some row =>
    if row.state = .waitDependencies then some (some { row with state := .pending }) else none
  | .cancelDependent, some row =>
    if row.state = .waitDependencies then some (some { row with state := .cancelled }) else none
  | .edit channel priority eta maxRetries, some row =>
    some (some { row with channel := channel, priority := priority, eta := eta, maxRetries := maxRetries })
  | .unlink, some _ => some none

/-- The trigger `queue_job_notify`. -/
def Notifies (old new : Option Row) : Prop := new.isSome ∨ ∀ row ∈ old, row.state ≠ .done

instance (old new : Option Row) : Decidable (Notifies old new) :=
  match old with
  | none => isTrue (Or.inr (by simp))
  | some row => decidable_of_iff (new.isSome ∨ row.state ≠ .done) (by simp [Notifies])

/-- Without a connection the runner gets no notifications. -/
inductive Phase where
  | closed
  | listening
  | ready
deriving DecidableEq

structure Runner where
  dbName : String
  rows : Rows
  phase : Phase
  notifies : List String
  manager : Manager
  /-- The jobs that `run_jobs` has got from the manager and has still to send. -/
  sending : List Ref

namespace Runner

variable {w : Runner} {u : String} {r : Ref} {now : Int}

def uuid (w : Runner) (r : Ref) : String := (w.manager.channels.job r).uuid

/-- A row is written, and the trigger fires. -/
def write (u : String) (row : Option Row) (w : Runner) : Runner :=
  { w with
    rows := w.rows.put u row
    notifies := if w.phase ≠ .closed ∧ Notifies (w.rows.find u) row then u :: w.notifies else w.notifies }

def writeRow (u : String) (a : RowAction) (w : Runner) : Runner :=
  match a.writes (w.rows.find u) with
  | none => w
  | some row => w.write u row

/-- `close_databases`. -/
def closeDatabases (w : Runner) : Runner :=
  { w with phase := .closed, notifies := [], sending := [], manager := w.manager.removeDb w.dbName }

/-- `notify` for the rows of these uuids that are not done. -/
def notifyAll (dbName : String) (rows : Rows) : List String → Manager → Except Manager Manager
  | [], m => .ok m
  | u :: us, m =>
    if (rows.row u).state.NotDone then
      match m.notify dbName ((rows.row u).data u) with
      | .ok m => notifyAll dbName rows us m
      | .error m => .error m
    else notifyAll dbName rows us m

/-- An exception closes the databases, to start over. -/
def orClose (w : Runner) : Except Manager Manager → Runner
  | .ok m => { w with manager := m }
  | .error m => closeDatabases { w with manager := m }

/-- One notification, with the row as it is now. -/
def processNotification (u : String) (w : Runner) : Runner :=
  let w := { w with notifies := w.notifies.erase u }
  match w.rows.find u with
  | some row => w.orClose (w.manager.notify w.dbName (row.data u))
  | none => { w with manager := w.manager.removeJob u }

/-- `run_jobs` takes the jobs from the root channel one by one, and the root is paused by
its throttle only after the last of them is sent. Here it takes them at once; where the
sending of one fails, the databases are closed with the root paused already. -/
def getJobsToRun (now : Int) (w : Runner) : Runner :=
  let result := w.manager.getJobsToRun now
  { w with manager := result.2, sending := result.1 }

/-- `set_job_enqueued` for the next job to send. -/
def send (w : Runner) : Runner :=
  match w.sending with
  | [] => w
  | r :: rest =>
    let sent := { w with sending := rest }
    match w.rows.find (w.uuid r) with
    | none => sent
    | some row => sent.write (w.uuid r) (some row.setEnqueued)

inductive Event where
  | row (u : String) (a : RowAction)
  | requeueDead (u : String)
  | processNotification (u : String)
  | getJobsToRun (now : Int)
  | send
  | getWakeupTime
  | collect (u : String)
  | closeDatabases
  | listen
  | initializeDatabases (order : List String)

/-- The main loop is not at `run_jobs`. -/
def Free (w : Runner) : Prop := w.phase = .ready ∧ w.sending = []

instance : Decidable w.Free := inferInstanceAs (Decidable (_ ∧ _))

/-- What is not possible changes nothing. The rows are selected in any order. -/
def step (w : Runner) : Event → Runner
  | .row u a => w.writeRow u a
  | .requeueDead u =>
    match w.rows.find u with
    | some row => if w.Free ∧ row.Active then w.write u (some row.requeueDead) else w
    | none => w
  | .processNotification u => if w.Free ∧ u ∈ w.notifies then w.processNotification u else w
  | .getJobsToRun now => if w.Free then w.getJobsToRun now else w
  | .send => if w.phase = .ready then w.send else w
  | .getWakeupTime => if w.Free then { w with manager := w.manager.getWakeupTime.2 } else w
  | .collect u => { w with manager := w.manager.collect u }
  | .closeDatabases => w.closeDatabases
  | .listen => if w.phase = .closed then { w with phase := .listening } else w
  | .initializeDatabases order =>
    if w.phase = .listening ∧ order.Nodup ∧ order.toFinset = w.rows.uuids then
      { w with phase := .ready }.orClose (notifyAll w.dbName w.rows order w.manager)
    else w

end Runner

end JobQueue
