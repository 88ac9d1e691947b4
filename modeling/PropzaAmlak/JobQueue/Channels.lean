import Mathlib.Data.List.Infix
import PropzaAmlak.JobQueue.Channel

/-! The hierarchy of channels. Jobs move downstream: what runs in a channel waits
or runs in its parent, and what runs in the root channel is sent to be executed. -/

namespace JobQueue

open ChannelQueue Channel

/-- The children of a channel in the order they are made in, each with its own
children. -/
inductive Subchannels where
  | none
  | more (name : String) (children siblings : Subchannels)

structure Channels where
  channel : Path → Channel
  job : Jobs

namespace Channel

variable {c : Channel} {r x : Ref} {jobs : Jobs}

def discard (r : Ref) (c : Channel) : Channel :=
  { c with queue := c.queue.remove r, running := c.running.erase r, failed := c.failed.erase r }

def pend (jobs : Jobs) (r : Ref) (c : Channel) : Channel :=
  { c with queue := c.queue.add jobs r, running := c.running.erase r, failed := c.failed.erase r }

def run (r : Ref) (c : Channel) : Channel :=
  { c with queue := c.queue.remove r, running := insert r c.running, failed := c.failed.erase r }

def fail (r : Ref) (c : Channel) : Channel :=
  { c with queue := c.queue.remove r, running := c.running.erase r, failed := insert r c.failed }

end Channel

namespace Channels

variable {s : Channels} {r x : Ref} {p q : Path} {n : String}

def modify (p : Path) (f : Channel → Channel) (s : Channels) : Channels :=
  { s with channel := Function.update s.channel p (f (s.channel p)) }

/-- `remove`, in the channel at `p` and then in those it lies under. -/
def remove (r : Ref) : Path → Channels → Channels
  | [], s => s.modify [] (discard r)
  | n :: p, s => remove r p (s.modify (n :: p) (discard r))

def removeFromParent (r : Ref) : Path → Channels → Channels
  | [], s => s
  | _ :: parent, s => remove r parent s

def setDone (r : Ref) (p : Path) (s : Channels) : Channels := remove r p s

def setPending (r : Ref) (p : Path) (s : Channels) : Channels :=
  if (s.channel p).queue.Contains r then s else removeFromParent r p (s.modify p (pend s.job r))

def setRunning (r : Ref) : Path → Channels → Channels
  | [], s => if r ∈ (s.channel []).running then s else s.modify [] (Channel.run r)
  | n :: p, s =>
    if r ∈ (s.channel (n :: p)).running then s else setRunning r p (s.modify (n :: p) (Channel.run r))

def setFailed (r : Ref) (p : Path) (s : Channels) : Channels :=
  if r ∈ (s.channel p).failed then s else removeFromParent r p (s.modify p (fail r))

/-- `self._queue.add(job)` for each job that a child yields. -/
def enqueue (p : Path) (taken : List Ref) (s : Channels) : Channels :=
  s.modify p fun c => { c with queue := taken.foldl (ChannelQueue.add s.job) c.queue }

def yieldAt (now : Int) (p : Path) (s : Channels) : List Ref × Channels :=
  let y := (s.channel p).yieldJobs now s.job
  (y.taken, { channel := Function.update s.channel p y.channel, job := y.jobs })

/-- A child never looks at the queue of its parent, so what it yields is put
there when it has yielded all. -/
def passOn (now : Int) (name : String) (p : Path) (s : Channels) : Channels :=
  let yielded := yieldAt now (name :: p) s
  enqueue p yielded.1 yielded.2

def fromChildren (now : Int) : Path → Subchannels → Channels → Channels
  | _, .none, s => s
  | p, .more name children siblings, s =>
    fromChildren now p siblings (passOn now name p (fromChildren now (name :: p) children s))

def getJobsToRun (now : Int) (children : Subchannels) (s : Channels) : List Ref × Channels :=
  yieldAt now [] (fromChildren now [] children s)

/-- `get_wakeup_time` of a channel, with what it asks of its children. -/
def wakeupAt (p : Path) (ofChildren : Int → Channels → Int × Channels) (wakeupTime : Int) (s : Channels) :
    Int × Channels :=
  let c := s.channel p
  if ¬ c.HasCapacity then (wakeupTime, s)
  else if c.pauseUntil ≠ 0 then
    (if wakeupTime = 0 then c.pauseUntil else min wakeupTime c.pauseUntil, s)
  else
    let asked := c.queue.getWakeupTime s.job wakeupTime
    ofChildren asked.1 (s.modify p fun c => { c with queue := asked.2 })

def wakeupOfChildren : Path → Subchannels → Int → Channels → Int × Channels
  | _, .none, wakeupTime, s => (wakeupTime, s)
  | p, .more name children siblings, wakeupTime, s =>
    let asked := wakeupAt (name :: p) (wakeupOfChildren (name :: p) children) wakeupTime s
    wakeupOfChildren p siblings asked.1 asked.2

def getWakeupTime (children : Subchannels) (s : Channels) : Int × Channels :=
  wakeupAt [] (wakeupOfChildren [] children) 0 s

end Channels

end JobQueue
