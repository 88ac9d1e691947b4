import PropzaAmlak.JobQueue.RunnerSafety

/-! Jobs that depend on others: they wait until a worker that is done with one of
these finds all of them done. -/

namespace JobQueue

namespace Rows

/-- Those of the jobs that have a row are all in this state. -/
def AllIn (rows : Rows) (state : JobState) (uuids : Finset String) : Prop :=
  ∀ p ∈ uuids, ∀ row ∈ rows.find p, row.state = state

instance (rows : Rows) (state : JobState) (uuids : Finset String) : Decidable (rows.AllIn state uuids) :=
  inferInstanceAs (Decidable (∀ p ∈ uuids, ∀ row ∈ rows.find p, row.state = state))

end Rows

/-- What workers and users do, as far as jobs that depend on others are concerned; each
is a transaction of its own, and overlaps no other. A worker has loaded its job with
whether one of those it depends on was not done; `order` is the order in which the rows
of an `UPDATE` are written. -/
inductive Deed where
  | delay (jobs : List (String × Row))
  | runjob (u : String)
  | performed (u : String) (waiting : Bool) (job : Row)
  | postponed (u : String) (waiting : Bool) (job : Row) (eta : Option Eta)
  | failed (u : String) (waiting : Bool) (job : Row)
  | died (u : String) (waiting : Bool)
  | enqueueWaiting (u : String) (order : List String)
  | lost (u : String)
  | buttonDone (u : String) (order : List String)
  | buttonCancelled (u : String) (order : List String)
  | requeue (u : String)
  | other (e : Runner.Event)

/-- The table and the runner, and the workers: those that have a job, and those
that have committed it as done and have still to look for jobs that wait for it. -/
structure Board where
  runner : Runner
  /-- The uuids given so far. -/
  created : Finset String
  workers : List (String × Bool)
  finished : List String

namespace Runner

/-- Events that are the same whatever a job depends on. -/
def Event.Plain : Event → Prop
  | .row _ (.edit _ _ _ _) | .row _ .unlink => True
  | .row _ _ => False
  | _ => True

instance : DecidablePred Event.Plain
  | .row _ (.edit _ _ _ _) | .row _ .unlink => isTrue trivial
  | .row _ (.delay _ _) | .row _ .runjob | .row _ (.performed _) => isFalse id
  | .row _ (.postponed _ _ _) | .row _ (.failed _) => isFalse id
  | .row _ .buttonDone | .row _ .buttonCancelled | .row _ (.requeue _) => isFalse id
  | .row _ .enqueueWaiting | .row _ .cancelDependent => isFalse id
  | .requeueDead _ | .processNotification _ | .getJobsToRun _ | .send | .getWakeupTime => isTrue trivial
  | .collect _ | .closeDatabases | .listen | .initializeDatabases _ => isTrue trivial

/-- Several rows are written. -/
def writeAll (writes : List (String × RowAction)) : List Event := writes.map fun x => .row x.1 x.2

end Runner

namespace Board

open Runner

variable (dependsOn : String → Finset String)

def rows (b : Board) : Rows := b.runner.rows

/-- `any(j.state != DONE for j in self.depends_on)`. -/
def Waiting (rows : Rows) (u : String) : Prop := ¬ rows.AllIn .done (dependsOn u)

instance (rows : Rows) (u : String) : Decidable (Waiting dependsOn rows u) := inferInstanceAs (Decidable (¬ _))

/-- The jobs that `_get_common_dependent_jobs_query` writes. -/
def dependents (state : JobState) (u : String) (rows : Rows) : Finset String :=
  rows.uuids.filter fun c => u ∈ rows.uuids ∧ u ∈ dependsOn c ∧ (rows.row c).state = .waitDependencies ∧
    rows.AllIn state (dependsOn c)

/-- `order` lists the jobs to write once the row of `u` is written. -/
def Lists (state : JobState) (u : String) (rows : Rows) (order : List String) : Prop :=
  order.Nodup ∧ order.toFinset = dependents dependsOn state u rows

instance (state : JobState) (u : String) (rows : Rows) (order : List String) :
    Decidable (Lists dependsOn state u rows order) :=
  inferInstanceAs (Decidable (_ ∧ _))

/-- What is required for a deed. A graph of jobs is stored as a whole. -/
def Possible (b : Board) : Deed → Prop
  | .delay jobs => (jobs.map Prod.fst).Nodup ∧
      ∀ job ∈ jobs, job.1 ∉ b.created ∧ ∀ p ∈ dependsOn job.1, p ∈ jobs.map Prod.fst
  | .runjob u => ∃ row ∈ b.rows.find u, row.state = .enqueued
  | .performed u waiting _ => (u, waiting) ∈ b.workers ∧ ∃ row ∈ b.rows.find u, row.state = .started
  | .postponed u waiting _ _ => (u, waiting) ∈ b.workers
  | .failed u waiting _ => (u, waiting) ∈ b.workers
  | .died u waiting => (u, waiting) ∈ b.workers
  | .enqueueWaiting u order => u ∈ b.finished ∧ Lists dependsOn .done u b.rows order
  | .lost u => u ∈ b.finished
  | .buttonDone u order => u ∈ b.rows.uuids ∧
      Lists dependsOn .done u (b.runner.step (.row u .buttonDone)).rows order
  | .buttonCancelled u order => u ∈ b.rows.uuids ∧
      Lists dependsOn .cancelled u (b.runner.step (.row u .buttonCancelled)).rows order
  | .requeue u => u ∈ b.rows.uuids
  | .other e => e.Plain

instance (b : Board) : DecidablePred (b.Possible dependsOn)
  | .delay _ | .enqueueWaiting _ _ | .buttonDone _ _ | .buttonCancelled _ _ => inferInstanceAs (Decidable (_ ∧ _))
  | .runjob u => inferInstanceAs (Decidable (∃ row ∈ b.rows.find u, row.state = .enqueued))
  | .performed u waiting _ =>
    inferInstanceAs (Decidable ((u, waiting) ∈ b.workers ∧ ∃ row ∈ b.rows.find u, row.state = .started))
  | .postponed u waiting _ _ | .failed u waiting _ | .died u waiting =>
    inferInstanceAs (Decidable ((u, waiting) ∈ b.workers))
  | .lost u => inferInstanceAs (Decidable (u ∈ b.finished))
  | .requeue u => inferInstanceAs (Decidable (u ∈ b.rows.uuids))
  | .other e => inferInstanceAs (Decidable e.Plain)

/-- The rows that a deed writes. -/
def writes (b : Board) : Deed → List (String × RowAction)
  | .delay jobs => jobs.map fun job => (job.1, .delay job.2 (decide (dependsOn job.1 ≠ ∅)))
  | .runjob u => [(u, .runjob)]
  | .performed u _ job => [(u, .performed job)]
  | .postponed u waiting job eta => [(u, .postponed job eta waiting)]
  | .failed u _ job => [(u, .failed job)]
  | .enqueueWaiting _ order => order.map fun c => (c, .enqueueWaiting)
  | .buttonDone u order => (u, .buttonDone) :: order.map fun c => (c, .enqueueWaiting)
  | .buttonCancelled u order => (u, .buttonCancelled) :: order.map fun c => (c, .cancelDependent)
  | .requeue u => [(u, .requeue (decide (Waiting dependsOn b.rows u)))]
  | .died _ _ | .lost _ | .other _ => []

def events (b : Board) : Deed → List Event
  | .other e => [e]
  | d => writeAll (b.writes dependsOn d)

def createdAfter (b : Board) : Deed → Finset String
  | .delay jobs => b.created ∪ (jobs.map Prod.fst).toFinset
  | _ => b.created

def workersAfter (b : Board) : Deed → List (String × Bool)
  | .runjob u => (u, decide (Waiting dependsOn b.rows u)) :: b.workers
  | .performed u waiting _ => b.workers.erase (u, waiting)
  | .postponed u waiting _ _ => b.workers.erase (u, waiting)
  | .failed u waiting _ => b.workers.erase (u, waiting)
  | .died u waiting => b.workers.erase (u, waiting)
  | _ => b.workers

def finishedAfter (b : Board) : Deed → List String
  | .performed u _ _ => u :: b.finished
  | .enqueueWaiting u _ => b.finished.erase u
  | .lost u => b.finished.erase u
  | _ => b.finished

/-- What is not possible changes nothing. -/
def step (b : Board) (d : Deed) : Board :=
  if b.Possible dependsOn d then
    { runner := Tx.after Runner.step b.runner (b.events dependsOn d)
      created := b.createdAfter d
      workers := b.workersAfter dependsOn d
      finished := b.finishedAfter d }
  else b

end Board

end JobQueue
