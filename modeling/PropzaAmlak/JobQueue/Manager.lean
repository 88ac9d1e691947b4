import Mathlib.Data.List.Basic
import PropzaAmlak.JobQueue.Edits

/-! The channel manager: it finds the channel of a job by its name and keeps the
jobs in step with their rows. -/

namespace JobQueue

open ChannelQueue Channel Channels

inductive JobState where
  | waitDependencies
  | pending
  | enqueued
  | started
  | done
  | cancelled
  | failed
deriving DecidableEq

/-- The columns that `select_jobs` reads. -/
structure JobData where
  channel : Option String
  uuid : String
  seq : Int
  dateCreated : Int
  priority : Int
  eta : Option Eta
  state : JobState

namespace Subchannels

/-- Whether there is a channel under these names, outermost first. -/
def contains : Subchannels → List String → Bool
  | _, [] => true
  | none, _ :: _ => false
  | more name children siblings, n :: rest =>
    if name = n then children.contains rest else siblings.contains (n :: rest)

def single : List String → Subchannels
  | [] => none
  | n :: rest => more n (single rest) none

/-- Makes the channels that are missing on the way. -/
def addPath : Subchannels → List String → Subchannels
  | tree, [] => tree
  | none, n :: rest => single (n :: rest)
  | more name children siblings, n :: rest =>
    if name = n then more name (children.addPath rest) siblings
    else more name children (siblings.addPath (n :: rest))

def paths : Path → Subchannels → List Path
  | _, none => []
  | p, more name children siblings => (name :: p) :: (paths (name :: p) children ++ paths p siblings)

end Subchannels

namespace Subchannels

variable {tree : Subchannels} {p q : Path} {n : String} {names rest : List String}

theorem has_of_contains (h : tree.contains names) (hne : names ≠ []) : tree.Has p (names.reverse ++ p) := by
  induction tree generalizing p names with
  | none =>
    cases names with
    | nil => exact (hne rfl).elim
    | cons n rest => simp [contains] at h
  | more name children siblings ihChildren ihSiblings =>
    cases names with
    | nil => exact (hne rfl).elim
    | cons n rest =>
      rw [contains] at h
      by_cases hname : name = n
      · subst hname
        rw [if_pos rfl] at h
        rw [List.reverse_cons, List.append_assoc, List.singleton_append]
        cases rest with
        | nil => exact Or.inl rfl
        | cons m rest => exact Or.inr (Or.inl (ihChildren h (List.cons_ne_nil _ _)))
      · rw [if_neg hname] at h
        exact Or.inr (Or.inr (ihSiblings h (List.cons_ne_nil _ _)))

theorem contains_single : (single names).contains names := by
  induction names with
  | nil => rfl
  | cons n rest ih => rwa [single, contains, if_pos rfl]

theorem contains_addPath (tree : Subchannels) (names : List String) : (tree.addPath names).contains names := by
  induction tree generalizing names with
  | none =>
    cases names with
    | nil => rfl
    | cons n rest => exact contains_single
  | more name children siblings ihChildren ihSiblings =>
    cases names with
    | nil => rfl
    | cons n rest =>
      rw [addPath]
      by_cases hname : name = n
      · rw [if_pos hname, contains, if_pos hname]
        exact ihChildren rest
      · rw [if_neg hname, contains, if_neg hname]
        exact ihSiblings (n :: rest)

theorem has_addPath (h : tree.Has p q) : (tree.addPath names).Has p q := by
  induction tree generalizing p names with
  | none => exact h.elim
  | more name children siblings ihChildren ihSiblings =>
    cases names with
    | nil => exact h
    | cons n rest =>
      rw [addPath]
      split
      · exact h.imp_right fun h => h.imp_left ihChildren
      · exact h.imp_right fun h => h.imp_right ihSiblings

theorem distinct_single : (single names).Distinct := by
  induction names with
  | nil => trivial
  | cons n rest ih => exact ⟨by simp [Subchannels.names], ih, trivial⟩

theorem mem_names_addPath {m : String} (h : m ∈ (tree.addPath (n :: rest)).names) : m = n ∨ m ∈ tree.names := by
  induction tree with
  | none =>
    rw [addPath, single, Subchannels.names, List.mem_cons] at h
    simpa [Subchannels.names] using h
  | more name children siblings _ ihSiblings =>
    rw [addPath] at h
    split at h
    · exact Or.inr h
    · rcases List.mem_cons.mp h with rfl | h
      · exact Or.inr List.mem_cons_self
      · exact (ihSiblings h).imp_right (List.mem_cons_of_mem _)

theorem distinct_addPath (h : tree.Distinct) : (tree.addPath names).Distinct := by
  induction tree generalizing names with
  | none =>
    cases names with
    | nil => trivial
    | cons n rest => exact distinct_single
  | more name children siblings ihChildren ihSiblings =>
    obtain ⟨hnot, hchildren, hsiblings⟩ := h
    cases names with
    | nil => exact ⟨hnot, hchildren, hsiblings⟩
    | cons n rest =>
      rw [addPath]
      split
      · exact ⟨hnot, ihChildren hchildren, hsiblings⟩
      · rename_i hname
        refine ⟨fun hmem => ?_, hchildren, ihSiblings hsiblings⟩
        rcases mem_names_addPath hmem with rfl | hmem
        · exact hname rfl
        · exact hnot hmem

/-- The channels that a channel lies under are there too. -/
theorem Has.of_suffix {q' : Path} (h : tree.Has p q) (hp : p <:+ q') (hq : q' <:+ q) : q' = p ∨ tree.Has p q' := by
  induction tree generalizing p with
  | none => exact h.elim
  | more name children siblings ihChildren ihSiblings =>
    have hchild : name :: p <:+ q → q' = p ∨ name :: p <:+ q' := by
      intro hsuf
      by_cases hlen : q'.length ≤ p.length
      · have hle := hp.length_le
        exact Or.inl (hp.eq_of_length (by omega)).symm
      · exact Or.inr (List.suffix_of_suffix_length_le hsuf hq (by rw [List.length_cons]; omega))
    rcases h with rfl | h | h
    · rcases hchild List.suffix_rfl with heq | hsuf
      · exact Or.inl heq
      · exact Or.inr (Or.inl (hq.eq_of_length (Nat.le_antisymm hq.length_le hsuf.length_le)))
    · rcases hchild h.suffix with heq | hsuf
      · exact Or.inl heq
      · rcases ihChildren h hsuf with heq | h
        · exact Or.inr (Or.inl heq)
        · exact Or.inr (Or.inr (Or.inl h))
    · exact (ihSiblings h hp).imp_right fun h => Or.inr (Or.inr h)

/-- The channel at `p` is the root channel or one below it. -/
def IsChannel (tree : Subchannels) (p : Path) : Prop := p = [] ∨ tree.Has [] p

theorem IsChannel.of_suffix (h : tree.IsChannel q) (hp : p <:+ q) : tree.IsChannel p := by
  rcases h with rfl | h
  · exact Or.inl (List.suffix_nil.mp hp)
  · exact h.of_suffix (List.nil_suffix) hp

theorem isChannel_of_contains (h : tree.contains names) : tree.IsChannel names.reverse := by
  by_cases hne : names = []
  · exact Or.inl (by rw [hne, List.reverse_nil])
  · have hhas := has_of_contains (p := []) h hne
    rw [List.append_nil] at hhas
    exact Or.inr hhas

end Subchannels

/-- `name.split(".")`. -/
def splitName (name : String) : List String := (name.toList.splitOn '.').map String.ofList

/-- The names below the root channel, outermost first. -/
def namesOf (channelName : String) : List String :=
  if "root.".toList.isPrefixOf channelName.toList then (splitName channelName).tail else splitName channelName

structure Manager where
  channels : Channels
  children : Subchannels
  jobsByUuid : String → Option Ref
  next : Ref

namespace Manager

variable {m : Manager} {r x : Ref} {p q : Path} {uuid dbName : String} {now : Int}

/-- The nearest parent that has a channel: `path` is innermost first. -/
def fallback (children : Subchannels) : Path → Path
  | [] => []
  | _ :: parent =>
    if parent ≠ [] ∧ children.contains parent.reverse then parent else fallback children parent

def channelNotFound (channelName : String) : String := "Channel " ++ channelName ++ " not found"

def getChannelByName (children : Subchannels) (channelName : Option String) (autocreate parentFallback : Bool) :
    Except String (Path × Subchannels) :=
  match channelName with
  | none => .ok ([], children)
  | some name =>
    if name = "" ∨ name = "root" then .ok ([], children)
    else
      let names := namesOf name
      if children.contains names then .ok (names.reverse, children)
      else if ¬ autocreate ∧ ¬ parentFallback then
        .error (channelNotFound (".".intercalate ("root" :: names)))
      else
        let parent := if parentFallback then fallback children names.reverse else []
        -- all the names are looked up below the parent, those of the parent itself too
        let path := names.reverse ++ parent
        .ok (path, children.addPath path.reverse)

/-- `del self._jobs_by_uuid[uuid]`. -/
def forget (uuid : String) (m : Manager) : Manager :=
  { m with jobsByUuid := Function.update m.jobsByUuid uuid none }

def removeJob (uuid : String) (m : Manager) : Manager :=
  match m.jobsByUuid uuid with
  | none => m
  | some r => { m with channels := m.channels.remove r (m.channels.job r).channel }.forget uuid

def newJob (dbName : String) (path : Path) (d : JobData) (m : Manager) : Manager :=
  { m with
    channels := { m.channels with
      job := Function.update m.channels.job m.next
        ⟨dbName, path, d.uuid, d.seq, d.dateCreated, d.priority, d.eta⟩ }
    jobsByUuid := Function.update m.jobsByUuid d.uuid (some m.next)
    next := m.next + 1 }

/-- The state transitions at the end of `notify`. -/
def setState (state : JobState) (r : Ref) (m : Manager) : Manager :=
  let path := (m.channels.job r).channel
  match state with
  | .done | .cancelled => { m with channels := setDone r path m.channels }
  | .pending => { m with channels := setPending r path m.channels }
  | .enqueued | .started => { m with channels := setRunning r path m.channels }
  | .failed => { m with channels := setFailed r path m.channels }
  | .waitDependencies => m

/-- Whether the columns that the scheduling goes by are those of the job. -/
def SameProperties (path : Path) (d : JobData) (job : ChannelJob) : Prop :=
  d.seq = job.seq ∧ d.priority = job.priority ∧ d.eta = job.eta ∧ path = job.channel

instance (path : Path) (d : JobData) (job : ChannelJob) : Decidable (SameProperties path d job) :=
  inferInstanceAs (Decidable (_ ∧ _))

/-- An assertion that fails leaves the manager behind as it is then. -/
def notify (dbName : String) (d : JobData) (m : Manager) : Except Manager Manager :=
  match getChannelByName m.children d.channel false true with
  | .error _ => .error m
  | .ok (path, children) =>
    let m := { m with children := children }
    match m.jobsByUuid d.uuid with
    | none => .ok ((m.newJob dbName path d).setState d.state m.next)
    | some r =>
      let job := m.channels.job r
      if job.dbName ≠ dbName ∨ job.dateCreated ≠ d.dateCreated then .error m
      else if SameProperties path d job then .ok (m.setState d.state r)
      else
        let m := m.removeJob d.uuid
        .ok ((m.newJob dbName path d).setState d.state m.next)

/-- `list(self._jobs_by_uuid.values())`. -/
def jobs (m : Manager) : List Ref :=
  (List.range m.next).filter fun r => m.jobsByUuid (m.channels.job r).uuid = some r

def removeDb (dbName : String) (m : Manager) : Manager :=
  m.jobs.foldl
    (fun m' r => if (m'.channels.job r).dbName = dbName then m'.removeJob (m'.channels.job r).uuid else m') m

def getJobsToRun (now : Int) (m : Manager) : List Ref × Manager :=
  let result := Channels.getJobsToRun now m.children m.channels
  (result.1, { m with channels := result.2 })

def getWakeupTime (m : Manager) : Int × Manager :=
  let result := Channels.getWakeupTime m.children m.channels
  (result.1, { m with channels := result.2 })

/-- The garbage collector may drop a job that no channel refers to from the weak
dictionary. -/
def collect (uuid : String) (m : Manager) : Manager :=
  match m.jobsByUuid uuid with
  | none => m
  | some r =>
    if ∃ p ∈ [] :: Subchannels.paths [] m.children, (m.channels.channel p).Refers r then m else m.forget uuid

inductive Action where
  | notify (dbName : String) (d : JobData)
  | removeJob (uuid : String)
  | removeDb (dbName : String)
  | getJobsToRun (now : Int)
  | getWakeupTime
  | collect (uuid : String)

def merge : Except Manager Manager → Manager
  | .ok m => m
  | .error m => m

def act (m : Manager) : Action → Manager
  | .notify dbName d => merge (m.notify dbName d)
  | .removeJob uuid => m.removeJob uuid
  | .removeDb dbName => m.removeDb dbName
  | .getJobsToRun now => (m.getJobsToRun now).2
  | .getWakeupTime => m.getWakeupTime.2
  | .collect uuid => m.collect uuid

end Manager

end JobQueue
