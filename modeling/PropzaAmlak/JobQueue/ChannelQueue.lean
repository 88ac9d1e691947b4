import Mathlib.Data.Finset.Option
import Mathlib.Data.Prod.Lex
import Mathlib.Order.WithBot
import Mathlib.Data.Int.Order.Basic
import Mathlib.Logic.Function.Basic
import PropzaAmlak.JobQueue.PriorityQueue

/-! Jobs in a channel's queue. Those with an eta wait apart until it is due. -/

namespace JobQueue

/-- The job objects of the runner, by the order they are made in. -/
abbrev Ref := Nat

/-- The names of a channel and of those it lies under, innermost first. The root
channel has none. -/
abbrev Path := List String

/-- In microseconds since the epoch. None is at the epoch itself, which would be taken
for no eta. -/
abbrev Eta := { t : Int // t ≠ 0 }

instance : Preorder Eta := @Subtype.preorder Int Int.instLinearOrder.toPreorder _

structure ChannelJob where
  dbName : String
  channel : Path
  uuid : String
  seq : Int
  dateCreated : Int
  priority : Int
  eta : Option Eta

abbrev SortingKey := WithBot Eta ×ₗ Int ×ₗ Int ×ₗ Int

def ChannelJob.sortingKeyIgnoringEta (job : ChannelJob) : Int ×ₗ Int ×ₗ Int :=
  toLex (job.priority, toLex (job.dateCreated, job.seq))

def ChannelJob.sortingKey (job : ChannelJob) : SortingKey := toLex (job.eta, job.sortingKeyIgnoringEta)

abbrev Jobs := Ref → ChannelJob

def Jobs.key (jobs : Jobs) (r : Ref) : SortingKey := (jobs r).sortingKey

def Jobs.setNoEta (jobs : Jobs) (r : Ref) : Jobs := Function.update jobs r { jobs r with eta := none }

def ChannelJob.Due (now : Int) (job : ChannelJob) : Prop := ∃ t ∈ job.eta, t.val ≤ now

instance (now : Int) (job : ChannelJob) : Decidable (job.Due now) :=
  inferInstanceAs (Decidable (∃ t ∈ job.eta, _))

structure ChannelQueue where
  queue : PriorityQueue Ref := .empty
  etaQueue : PriorityQueue Ref := .empty
  sequential : Bool := false

namespace ChannelQueue

variable {q : ChannelQueue} {jobs : Jobs} {r x : Ref} {now : Int} {fuel : Nat}

def len (q : ChannelQueue) : Nat := q.etaQueue.len + q.queue.len

def Contains (q : ChannelQueue) (r : Ref) : Prop := q.etaQueue.Contains r ∨ q.queue.Contains r

instance : Decidable (q.Contains r) := inferInstanceAs (Decidable (_ ∨ _))

def add (jobs : Jobs) (q : ChannelQueue) (r : Ref) : ChannelQueue :=
  if (jobs r).eta.isSome then { q with etaQueue := q.etaQueue.add jobs.key r }
  else { q with queue := q.queue.add jobs.key r }

def remove (q : ChannelQueue) (r : Ref) : ChannelQueue :=
  { q with etaQueue := q.etaQueue.remove r, queue := q.queue.remove r }

/-- The loop at the head of `pop`: the jobs that are due lose their eta and join
the others. -/
def admitDue (now : Int) : Nat → ChannelQueue → Jobs → ChannelQueue × Jobs
  | 0, q, jobs => (q, jobs)
  | fuel + 1, q, jobs =>
    if q.etaQueue.len = 0 then (q, jobs)
    else
      let looked := q.etaQueue.first jobs.key
      match looked.1 with
      | none => ({ q with etaQueue := looked.2 }, jobs)
      | some r =>
        if (jobs r).Due now then
          let popped := looked.2.pop jobs.key
          match popped.1 with
          | none => ({ q with etaQueue := popped.2 }, jobs)
          | some r =>
            let jobs := jobs.setNoEta r
            admitDue now fuel { q with etaQueue := popped.2, queue := q.queue.add jobs.key r } jobs
        else ({ q with etaQueue := looked.2 }, jobs)

structure Popped where
  job : Option Ref
  queue : ChannelQueue
  jobs : Jobs

/-- `self._queue.pop()`. -/
def popQueue (q : ChannelQueue) (jobs : Jobs) : Popped :=
  let popped := q.queue.pop jobs.key
  ⟨popped.1, { q with queue := popped.2 }, jobs⟩

def pop (now : Int) (q : ChannelQueue) (jobs : Jobs) : Popped :=
  let admitted := admitDue now q.etaQueue.len q jobs
  let q := admitted.1
  let jobs := admitted.2
  if q.sequential ∧ q.etaQueue.len ≠ 0 ∧ q.queue.len ≠ 0 then
    let etaJob := q.etaQueue.first jobs.key
    let job := q.queue.first jobs.key
    let q := { q with etaQueue := etaJob.2, queue := job.2 }
    match etaJob.1, job.1 with
    | some e, some j =>
      -- a sequential queue waits for the eta of a job that comes first without it
      if (jobs e).sortingKeyIgnoringEta < (jobs j).sortingKeyIgnoringEta then ⟨none, q, jobs⟩ else q.popQueue jobs
    | _, _ => q.popQueue jobs
  else q.popQueue jobs

def getWakeupTime (q : ChannelQueue) (jobs : Jobs) (wakeupTime : Int) : Int × ChannelQueue :=
  if q.etaQueue.len = 0 then (wakeupTime, q)
  else
    let looked := q.etaQueue.first jobs.key
    let q := { q with etaQueue := looked.2 }
    match looked.1.bind (fun r => (jobs r).eta) with
    | none => (wakeupTime, q)
    | some t => (if wakeupTime = 0 then t.val else min wakeupTime t, q)

/-! ### The jobs that are held -/

def held (q : ChannelQueue) : Finset Ref := q.etaQueue.live ∪ q.queue.live

/-- Each job waits on the side that its eta says, and both sides are heaps. -/
structure Tidy (jobs : Jobs) (q : ChannelQueue) : Prop where
  timed : ∀ r ∈ q.etaQueue.heap, (jobs r).eta.isSome
  untimed : ∀ r ∈ q.queue.heap, (jobs r).eta = none
  etaOrdered : q.etaQueue.Ordered jobs.key
  ordered : q.queue.Ordered jobs.key

theorem contains_iff : q.Contains r ↔ r ∈ q.held := by
  rw [Contains, PriorityQueue.contains_iff, PriorityQueue.contains_iff, held, Finset.mem_union]

theorem tidy_empty {b : Bool} : Tidy jobs { sequential := b } :=
  ⟨by simp [PriorityQueue.empty], by simp [PriorityQueue.empty], PriorityQueue.ordered_empty,
    PriorityQueue.ordered_empty⟩

@[simp] theorem held_add : (q.add jobs r).held = insert r q.held := by
  rw [add]
  split <;> ext x <;> simp only [held, PriorityQueue.live_add, Finset.mem_union, Finset.mem_insert] <;> tauto

@[simp] theorem held_remove : (q.remove r).held = q.held.erase r := by
  ext x
  simp only [held, remove, PriorityQueue.live_remove, Finset.mem_union, Finset.mem_erase]
  tauto

@[simp] theorem sequential_add : (q.add jobs r).sequential = q.sequential := by
  rw [add]
  split <;> rfl

@[simp] theorem sequential_remove : (q.remove r).sequential = q.sequential := rfl

theorem Tidy.add (h : Tidy jobs q) : Tidy jobs (q.add jobs r) := by
  rw [ChannelQueue.add]
  split
  · rename_i heta
    refine ⟨fun x hx => ?_, h.untimed, h.etaOrdered.add, h.ordered⟩
    rcases PriorityQueue.mem_heap_add.mp hx with rfl | hx
    · exact heta
    · exact h.timed x hx
  · rename_i heta
    refine ⟨h.timed, fun x hx => ?_, h.etaOrdered, h.ordered.add⟩
    rcases PriorityQueue.mem_heap_add.mp hx with rfl | hx
    · simpa using heta
    · exact h.untimed x hx

theorem Tidy.remove (h : Tidy jobs q) : Tidy jobs (q.remove r) := by
  constructor
  · simpa only [ChannelQueue.remove, PriorityQueue.heap_remove] using h.timed
  · simpa only [ChannelQueue.remove, PriorityQueue.heap_remove] using h.untimed
  · exact h.etaOrdered.remove
  · exact h.ordered.remove

theorem Tidy.congr {jobs' : Jobs} (h : Tidy jobs q) (heta : ∀ r ∈ q.etaQueue.heap, jobs' r = jobs r)
    (hqueue : ∀ r ∈ q.queue.heap, jobs' r = jobs r) : Tidy jobs' q := by
  constructor
  · intro r hr
    rw [heta r hr]
    exact h.timed r hr
  · intro r hr
    rw [hqueue r hr]
    exact h.untimed r hr
  · exact h.etaOrdered.congr fun r hr => by rw [Jobs.key, Jobs.key, heta r hr]
  · exact h.ordered.congr fun r hr => by rw [Jobs.key, Jobs.key, hqueue r hr]

theorem Tidy.mem_etaQueue (h : Tidy jobs q) : r ∈ q.etaQueue.live ↔ r ∈ q.held ∧ (jobs r).eta.isSome := by
  constructor
  · intro hr
    exact ⟨Finset.mem_union_left _ hr, h.timed r (PriorityQueue.mem_heap_of_live hr)⟩
  · rintro ⟨hr, heta⟩
    rcases Finset.mem_union.mp hr with hr | hr
    · exact hr
    · simp [h.untimed r (PriorityQueue.mem_heap_of_live hr)] at heta

theorem Tidy.mem_queue (h : Tidy jobs q) : r ∈ q.queue.live ↔ r ∈ q.held ∧ (jobs r).eta = none := by
  constructor
  · intro hr
    exact ⟨Finset.mem_union_right _ hr, h.untimed r (PriorityQueue.mem_heap_of_live hr)⟩
  · rintro ⟨hr, heta⟩
    rcases Finset.mem_union.mp hr with hr | hr
    · simpa [heta] using h.timed r (PriorityQueue.mem_heap_of_live hr)
    · exact hr

/-- The jobs of `held` that are due have lost their eta. -/
def ripe (now : Int) (held : Finset Ref) (jobs : Jobs) : Jobs := fun r =>
  if r ∈ held ∧ (jobs r).Due now then { jobs r with eta := none } else jobs r

theorem ripe_eq_self (h : ∀ r ∈ q.held, ¬ (jobs r).Due now) : ripe now q.held jobs = jobs := by
  funext r
  rw [ripe, if_neg fun hr => h r hr.1 hr.2]

theorem not_due_of_none (h : (jobs r).eta = none) : ¬ (jobs r).Due now := by
  rintro ⟨t, ht, -⟩
  simp [h] at ht

theorem ripe_of_none {held : Finset Ref} (h : (jobs r).eta = none) : ripe now held jobs r = jobs r := by
  rw [ripe, if_neg fun hr => not_due_of_none h hr.2]

theorem ripe_setNoEta {held : Finset Ref} (hr : r ∈ held) (hdue : (jobs r).Due now) :
    ripe now held (jobs.setNoEta r) = ripe now held jobs := by
  funext x
  by_cases hx : x = r
  · subst hx
    rw [ripe_of_none (by simp [Jobs.setNoEta]), ripe, if_pos ⟨hr, hdue⟩, Jobs.setNoEta, Function.update_self]
  · simp only [ripe, Jobs.setNoEta, Function.update_of_ne hx]

theorem not_due_ripe {held : Finset Ref} (hr : r ∈ held) : ¬ (ripe now held jobs r).Due now := by
  rw [ripe]
  split
  · rintro ⟨t, ht, -⟩
    cases ht
  · rename_i h
    exact fun hdue => h ⟨hr, hdue⟩

theorem due_of_key_le {x : Ref} (hle : jobs.key x ≤ jobs.key r) (hx : (jobs x).eta.isSome) (hr : (jobs r).Due now) :
    (jobs x).Due now := by
  obtain ⟨t, ht, hnow⟩ := hr
  obtain ⟨t', ht'⟩ := Option.isSome_iff_exists.mp hx
  have heta : (jobs x).eta = some t' := ht'
  have hkey : @LE.le (WithBot Eta) _ (jobs x).eta (jobs r).eta := by
    rcases Prod.Lex.toLex_le_toLex.mp hle with hlt | heq
    · exact le_of_lt hlt
    · exact le_of_eq heq.1
  rw [heta, Option.mem_def.mp ht] at hkey
  have hle : t' ≤ t := WithBot.coe_le_coe.mp hkey
  exact ⟨t', ht', le_trans hle hnow⟩

/-- What the loop at the head of `pop` leaves. -/
structure Admitted (now : Int) (q : ChannelQueue) (jobs : Jobs) (after : ChannelQueue × Jobs) : Prop where
  jobs_eq : after.2 = ripe now q.held jobs
  tidy : Tidy after.2 after.1
  sequential : after.1.sequential = q.sequential
  held : after.1.held = q.held
  etaHeap : after.1.etaQueue.heap ⊆ q.etaQueue.heap
  heap : ∀ r ∈ after.1.queue.heap, r ∈ q.queue.heap ∨ r ∈ q.etaQueue.heap

theorem Tidy.admitted_of_none_due (h : Tidy jobs q) (hdue : ∀ r ∈ q.etaQueue.live, ¬ (jobs r).Due now)
    {etaQueue : PriorityQueue Ref} (hlive : etaQueue.live = q.etaQueue.live)
    (hheap : etaQueue.heap ⊆ q.etaQueue.heap) (hord : etaQueue.Ordered jobs.key) :
    Admitted now q jobs ({ q with etaQueue := etaQueue }, jobs) where
  jobs_eq := by
    refine (ripe_eq_self fun r hr hd => ?_).symm
    rcases Finset.mem_union.mp hr with hr | hr
    · exact hdue r hr hd
    · exact not_due_of_none (h.mem_queue.mp hr).2 hd
  tidy := ⟨fun r hr => h.timed r (hheap hr), h.untimed, hord, h.ordered⟩
  sequential := rfl
  held := by rw [held, held, hlive]
  etaHeap := hheap
  heap := fun _ hr => Or.inl hr

/-- One job that is due is taken off the eta queue and joins the others. -/
theorem Tidy.move {etaQueue : PriorityQueue Ref} (h : Tidy jobs q) (hr : r ∈ q.etaQueue.live)
    (hlive : etaQueue.live = q.etaQueue.live.erase r) (hheap : etaQueue.heap ⊆ q.etaQueue.heap)
    (hnot : r ∉ etaQueue.heap) (hord : etaQueue.Ordered jobs.key) :
    Tidy (jobs.setNoEta r) { q with etaQueue := etaQueue, queue := q.queue.add (jobs.setNoEta r).key r } ∧
      ({ q with etaQueue := etaQueue, queue := q.queue.add (jobs.setNoEta r).key r } : ChannelQueue).held =
        q.held := by
  have hset : ∀ x, x ≠ r → jobs.setNoEta r x = jobs x := fun x hx => Function.update_of_ne hx _ _
  have heta := (h.mem_etaQueue.mp hr).2
  have htidy : Tidy (jobs.setNoEta r) { q with etaQueue := etaQueue } := by
    have hbefore : Tidy jobs { q with etaQueue := etaQueue } :=
      ⟨fun x hx => h.timed x (hheap hx), h.untimed, hord, h.ordered⟩
    refine hbefore.congr (fun x hx => hset x ?_) fun x hx => hset x ?_
    · rintro rfl
      exact hnot hx
    · rintro rfl
      simp [h.untimed x hx] at heta
  have hadd : ({ q with etaQueue := etaQueue } : ChannelQueue).add (jobs.setNoEta r) r =
      { q with etaQueue := etaQueue, queue := q.queue.add (jobs.setNoEta r).key r } := by
    rw [ChannelQueue.add, if_neg (by simp [Jobs.setNoEta])]
  refine ⟨hadd ▸ htidy.add, ?_⟩
  rw [← hadd, held_add, held, held, hlive, ← Finset.insert_union, Finset.insert_erase hr]

theorem admitDue_spec (h : Tidy jobs q) (hfuel : q.etaQueue.len ≤ fuel) :
    Admitted now q jobs (admitDue now fuel q jobs) := by
  induction fuel generalizing q jobs with
  | zero =>
    have hnil : q.etaQueue.live = ∅ := by
      rw [← Finset.card_eq_zero, ← PriorityQueue.len_eq]
      omega
    exact h.admitted_of_none_due (by simp [hnil]) rfl (List.Subset.refl _) h.etaOrdered
  | succ fuel ih =>
    have hfirst := PriorityQueue.live_first jobs.key q.etaQueue
    have hsub := PriorityQueue.heap_first_subset jobs.key q.etaQueue
    have hord := h.etaOrdered.first
    rw [admitDue]
    split
    · rename_i hlen
      have hnil : q.etaQueue.live = ∅ := by rw [← Finset.card_eq_zero, ← PriorityQueue.len_eq, hlen]
      exact h.admitted_of_none_due (by simp [hnil]) rfl (List.Subset.refl _) h.etaOrdered
    dsimp only
    split
    · rename_i hnone
      have hnil := PriorityQueue.first_eq_none.mp hnone
      exact h.admitted_of_none_due (by simp [hnil]) hfirst hsub hord
    rename_i r hr
    split
    · rename_i hdue
      split
      · rename_i hnone
        have hnil := PriorityQueue.pop_eq_none.mp hnone
        have hmem := PriorityQueue.first_mem hr
        simp [← hfirst, hnil] at hmem
      · rename_i x hx
        have hlive := PriorityQueue.live_pop hx
        have hpopsub := PriorityQueue.heap_pop_subset jobs.key (q.etaQueue.first jobs.key).2
        have hxlive := PriorityQueue.pop_mem hx
        rw [hfirst] at hlive hxlive
        have hxdue : (jobs x).Due now :=
          due_of_key_le (hord.pop_le hx (hfirst.symm ▸ PriorityQueue.first_mem hr)) (h.mem_etaQueue.mp hxlive).2 hdue
        obtain ⟨htidy, hheld⟩ := h.move hxlive hlive (fun y hy => hsub (hpopsub hy)) (PriorityQueue.notMem_heap_pop hx)
          hord.pop
        have hlen : ((q.etaQueue.first jobs.key).2.pop jobs.key).2.len ≤ fuel := by
          rw [PriorityQueue.len_eq] at hfuel ⊢
          rw [hlive, Finset.card_erase_of_mem hxlive]
          omega
        obtain ⟨hjobs, ht, hs, hh, he, hp⟩ := ih htidy hlen
        rw [hheld] at hjobs hh
        refine ⟨?_, ht, hs, hh, fun y hy => hsub (hpopsub (he hy)), fun y hy => ?_⟩
        · rw [hjobs]
          exact ripe_setNoEta (Finset.mem_union_left _ hxlive) hxdue
        · rcases hp y hy with hy | hy
          · rcases PriorityQueue.mem_heap_add.mp hy with rfl | hy
            · exact Or.inr (PriorityQueue.mem_heap_of_live hxlive)
            · exact Or.inl hy
          · exact Or.inr (hsub (hpopsub hy))
    · rename_i hdue
      refine h.admitted_of_none_due (fun x hx hxdue => hdue ?_) hfirst hsub hord
      have hmem := PriorityQueue.first_mem hr
      exact due_of_key_le (h.etaOrdered.first_le hr hx) (h.mem_etaQueue.mp hmem).2 hxdue

theorem Tidy.popQueue (h : Tidy jobs q) : Tidy jobs (q.popQueue jobs).queue :=
  ⟨h.timed, fun r hr => h.untimed r (PriorityQueue.heap_pop_subset _ _ hr), h.etaOrdered, h.ordered.pop⟩

theorem Tidy.popQueue_some (h : Tidy jobs q) (hr : (q.popQueue jobs).job = some r) :
    r ∈ q.held ∧ (jobs r).eta = none ∧ (q.popQueue jobs).queue.held = q.held.erase r ∧
      ∀ x ∈ q.held, (jobs x).eta = none → jobs.key r ≤ jobs.key x := by
  have hlive : r ∈ q.queue.live := PriorityQueue.pop_mem hr
  obtain ⟨hheld, heta⟩ := h.mem_queue.mp hlive
  refine ⟨hheld, heta, ?_, fun x hx hxeta => h.ordered.pop_le hr (h.mem_queue.mpr ⟨hx, hxeta⟩)⟩
  have hnot : r ∉ q.etaQueue.live := by
    intro hr'
    simpa [heta] using (h.mem_etaQueue.mp hr').2
  have hpop : (q.queue.pop jobs.key).2.live = q.queue.live.erase r := PriorityQueue.live_pop hr
  rw [held, held, Finset.erase_union_distrib, Finset.erase_eq_of_notMem hnot, ← hpop]
  rfl

theorem Tidy.popQueue_none (h : Tidy jobs q) (hnone : (q.popQueue jobs).job = none) :
    (q.popQueue jobs).queue.held = q.held ∧ ∀ x ∈ q.held, (jobs x).eta.isSome := by
  have hlive : q.queue.live = ∅ := PriorityQueue.pop_eq_none.mp hnone
  have hpop : (q.queue.pop jobs.key).2.live = ∅ := PriorityQueue.live_pop_of_none hnone
  constructor
  · rw [held, held, hlive, ← hpop]
    rfl
  · intro x hx
    cases heta : (jobs x).eta with
    | some t => rfl
    | none =>
      have hmem := h.mem_queue.mpr ⟨hx, heta⟩
      simp [hlive] at hmem

/-- The first of the jobs with an eta would be the first of all if it had none. -/
def Waits (held : Finset Ref) (jobs : Jobs) : Prop :=
  ∃ e ∈ held, (jobs e).eta.isSome ∧ (∀ x ∈ held, (jobs x).eta.isSome → jobs.key e ≤ jobs.key x) ∧
    ∀ x ∈ held, (jobs x).eta = none → (jobs e).sortingKeyIgnoringEta < (jobs x).sortingKeyIgnoringEta

theorem Waits.lt {held : Finset Ref} {e : Ref} (h : Waits held jobs) (he : e ∈ held) (heta : (jobs e).eta.isSome)
    (hmin : ∀ x ∈ held, (jobs x).eta.isSome → jobs.key e ≤ jobs.key x) (hx : x ∈ held) (hxeta : (jobs x).eta = none) :
    (jobs e).sortingKeyIgnoringEta < (jobs x).sortingKeyIgnoringEta := by
  obtain ⟨e', he', heta', hmin', hlt⟩ := h
  have hkey : jobs.key e = jobs.key e' := le_antisymm (hmin e' he' heta') (hmin' e he heta)
  have hign : (jobs e).sortingKeyIgnoringEta = (jobs e').sortingKeyIgnoringEta :=
    congrArg (fun k => (ofLex k).2) hkey
  rw [hign]
  exact hlt x hx hxeta

/-- What `pop` takes, and what it leaves. -/
structure PopSpec (now : Int) (q : ChannelQueue) (jobs : Jobs) (p : Popped) : Prop where
  jobs_eq : p.jobs = ripe now q.held jobs
  tidy : Tidy p.jobs p.queue
  sequential : p.queue.sequential = q.sequential
  held : p.queue.held = q.held \ p.job.toFinset
  etaHeap : p.queue.etaQueue.heap ⊆ q.etaQueue.heap
  heap : ∀ r ∈ p.queue.queue.heap, r ∈ q.queue.heap ∨ r ∈ q.etaQueue.heap
  some : ∀ r, p.job = some r → r ∈ q.held ∧ (p.jobs r).eta = none ∧
    (∀ x ∈ q.held, (p.jobs x).eta = none → p.jobs.key r ≤ p.jobs.key x) ∧ ¬ (q.sequential ∧ Waits q.held p.jobs)
  none : p.job = none → (∀ x ∈ q.held, (p.jobs x).eta.isSome) ∨ q.sequential ∧ Waits q.held p.jobs

/-- Taking the first of those without an eta is right unless it has to wait. -/
theorem Admitted.popQueue {after : ChannelQueue × Jobs} (ha : Admitted now q jobs after)
    (hwaits : ∀ r, r ∈ after.1.queue.live → ¬ (q.sequential ∧ Waits q.held after.2)) :
    PopSpec now q jobs (after.1.popQueue after.2) := by
  obtain ⟨q', jobs'⟩ := after
  obtain ⟨hjobs, htidy, hseq, hheld, heta, hheap⟩ := ha
  dsimp only at hjobs htidy hseq hheld heta hheap hwaits ⊢
  have hjob : ∀ r, (q'.popQueue jobs').job = Option.some r → r ∈ q.held ∧ (jobs' r).eta = Option.none ∧
      (q'.popQueue jobs').queue.held = q.held.erase r ∧
        ∀ x ∈ q.held, (jobs' x).eta = Option.none → jobs'.key r ≤ jobs'.key x := by
    intro r hr
    have h := htidy.popQueue_some hr
    rwa [hheld] at h
  refine ⟨hjobs, htidy.popQueue, hseq, ?_, heta, fun r hr => ?_, fun r hr => ?_, fun hnone => ?_⟩
  · cases hr : (q'.popQueue jobs').job with
    | none => rw [(htidy.popQueue_none hr).1, hheld, Option.toFinset_none, Finset.sdiff_empty]
    | some r => rw [(hjob r hr).2.2.1, Option.toFinset_some, Finset.sdiff_singleton_eq_erase]
  · exact hheap r (PriorityQueue.heap_pop_subset _ _ hr)
  · obtain ⟨h1, h2, -, h4⟩ := hjob r hr
    exact ⟨h1, h2, h4, hwaits r (htidy.mem_queue.mpr ⟨hheld.symm ▸ h1, h2⟩)⟩
  · left
    have h := (htidy.popQueue_none hnone).2
    rwa [hheld] at h

theorem pop_spec (now : Int) (h : Tidy jobs q) : PopSpec now q jobs (pop now q jobs) := by
  have ha : Admitted now q jobs (admitDue now q.etaQueue.len q jobs) := admitDue_spec h (Nat.le_refl _)
  rw [pop]
  dsimp only
  generalize admitDue now q.etaQueue.len q jobs = after at ha ⊢
  obtain ⟨q', jobs'⟩ := after
  obtain ⟨hjobs, htidy, hseq, hheld, heta, hheap⟩ := id ha
  dsimp only at hjobs htidy hseq hheld heta hheap ⊢
  by_cases hboth : q'.sequential ∧ q'.etaQueue.len ≠ 0 ∧ q'.queue.len ≠ 0
  · rw [if_pos hboth]
    obtain ⟨hsequential, hetaLen, hlen⟩ := hboth
    have hlive := PriorityQueue.live_first jobs'.key q'.queue
    have hetaLive := PriorityQueue.live_first jobs'.key q'.etaQueue
    -- looking at the two heads changes neither side
    have hlooked : Admitted now q jobs ({ q' with
        etaQueue := (q'.etaQueue.first jobs'.key).2
        queue := (q'.queue.first jobs'.key).2 }, jobs') := by
      refine ⟨hjobs, ⟨fun r hr => htidy.timed r (PriorityQueue.heap_first_subset _ _ hr),
        fun r hr => htidy.untimed r (PriorityQueue.heap_first_subset _ _ hr), htidy.etaOrdered.first,
        htidy.ordered.first⟩, hseq, ?_, fun r hr => heta (PriorityQueue.heap_first_subset _ _ hr),
        fun r hr => hheap r (PriorityQueue.heap_first_subset _ _ hr)⟩
      rw [← hheld, held, held, hlive, hetaLive]
    cases he : (q'.etaQueue.first jobs'.key).1 with
    | none =>
      rw [PriorityQueue.len_eq, PriorityQueue.first_eq_none.mp he] at hetaLen
      exact (hetaLen rfl).elim
    | some e =>
      cases hj : (q'.queue.first jobs'.key).1 with
      | none =>
        rw [PriorityQueue.len_eq, PriorityQueue.first_eq_none.mp hj] at hlen
        exact (hlen rfl).elim
      | some j =>
        have heMem := htidy.mem_etaQueue.mp (PriorityQueue.first_mem he)
        have hjMem := htidy.mem_queue.mp (PriorityQueue.first_mem hj)
        have heMin : ∀ x ∈ q.held, (jobs' x).eta.isSome → jobs'.key e ≤ jobs'.key x := by
          intro x hx hxeta
          exact htidy.etaOrdered.first_le he (htidy.mem_etaQueue.mpr ⟨hheld.symm ▸ hx, hxeta⟩)
        have hjMin : ∀ x ∈ q.held, (jobs' x).eta = none → jobs'.key j ≤ jobs'.key x := by
          intro x hx hxeta
          exact htidy.ordered.first_le hj (htidy.mem_queue.mpr ⟨hheld.symm ▸ hx, hxeta⟩)
        rw [hheld] at heMem hjMem
        dsimp only
        by_cases hlt : (jobs' e).sortingKeyIgnoringEta < (jobs' j).sortingKeyIgnoringEta
        · rw [if_pos hlt]
          refine ⟨hlooked.jobs_eq, hlooked.tidy, hlooked.sequential, ?_, hlooked.etaHeap, hlooked.heap, by simp, ?_⟩
          · rw [hlooked.held, Option.toFinset_none, Finset.sdiff_empty]
          · intro _
            refine Or.inr ⟨hseq ▸ hsequential, e, heMem.1, heMem.2, heMin, fun x hx hxeta => lt_of_lt_of_le hlt ?_⟩
            rcases Prod.Lex.toLex_le_toLex.mp (hjMin x hx hxeta) with hlt' | heq
            · rw [hjMem.2, hxeta] at hlt'
              exact (lt_irrefl _ hlt').elim
            · exact heq.2
        · rw [if_neg hlt]
          refine hlooked.popQueue fun r _ hwaits => hlt ?_
          exact hwaits.2.lt heMem.1 heMem.2 heMin hjMem.1 hjMem.2
  · rw [if_neg hboth]
    refine ha.popQueue fun r hr hwaits => hboth ⟨hseq.symm ▸ hwaits.1, ?_, ?_⟩
    · obtain ⟨e, he, heeta, -⟩ := hwaits.2
      have hmem := htidy.mem_etaQueue.mpr ⟨hheld.symm ▸ he, heeta⟩
      rw [PriorityQueue.len_eq]
      exact Finset.card_ne_zero_of_mem hmem
    · rw [PriorityQueue.len_eq]
      exact Finset.card_ne_zero_of_mem hr

/-- A wakeup is asked for by `t`. -/
def WakesBy (wakeupTime t : Int) : Prop := wakeupTime ≠ 0 ∧ wakeupTime ≤ t

theorem wakesBy_min {w : Int} {t : Int} (ht : t ≠ 0) :
    WakesBy (if w = 0 then t else min w t) t ∧ ∀ u, WakesBy w u → WakesBy (if w = 0 then t else min w t) u := by
  by_cases hw : w = 0
  · simp [hw, WakesBy, ht]
  · rw [if_neg hw]
    have hne : min w t ≠ 0 := by
      rcases min_choice w t with h | h <;> rw [h] <;> assumption
    exact ⟨⟨hne, min_le_right _ _⟩, fun u hu => ⟨hne, (min_le_left _ _).trans hu.2⟩⟩

theorem getWakeupTime_queue (q : ChannelQueue) (jobs : Jobs) (w : Int) :
    (q.getWakeupTime jobs w).2 = q ∨
      (q.getWakeupTime jobs w).2 = { q with etaQueue := (q.etaQueue.first jobs.key).2 } := by
  rw [getWakeupTime]
  split
  · exact Or.inl rfl
  · dsimp only
    split
    · exact Or.inr rfl
    · split <;> exact Or.inr rfl

theorem held_getWakeupTime (w : Int) : (q.getWakeupTime jobs w).2.held = q.held := by
  rcases getWakeupTime_queue q jobs w with h | h <;> rw [h]
  rw [held, held, PriorityQueue.live_first]

theorem sequential_getWakeupTime (w : Int) : (q.getWakeupTime jobs w).2.sequential = q.sequential := by
  rcases getWakeupTime_queue q jobs w with h | h <;> rw [h]

theorem etaHeap_getWakeupTime (w : Int) : (q.getWakeupTime jobs w).2.etaQueue.heap ⊆ q.etaQueue.heap := by
  rcases getWakeupTime_queue q jobs w with h | h <;> rw [h]
  · exact List.Subset.refl _
  · exact PriorityQueue.heap_first_subset _ _

theorem queue_getWakeupTime (w : Int) : (q.getWakeupTime jobs w).2.queue = q.queue := by
  rcases getWakeupTime_queue q jobs w with h | h <;> rw [h]

theorem Tidy.getWakeupTime (h : Tidy jobs q) (w : Int) : Tidy jobs (q.getWakeupTime jobs w).2 := by
  rcases getWakeupTime_queue q jobs w with hq | hq <;> rw [hq]
  · exact h
  · exact ⟨fun r hr => h.timed r (PriorityQueue.heap_first_subset _ _ hr), h.untimed, h.etaOrdered.first, h.ordered⟩

/-- The wakeup asked for is no later than before, nor than any eta in the queue. -/
theorem Tidy.wakesBy (h : Tidy jobs q) (w : Int) :
    (∀ t, WakesBy w t → WakesBy (q.getWakeupTime jobs w).1 t) ∧
      ∀ r ∈ q.held, ∀ t ∈ (jobs r).eta, WakesBy (q.getWakeupTime jobs w).1 t.val := by
  rw [ChannelQueue.getWakeupTime]
  split
  · rename_i hlen
    refine ⟨fun _ ht => ht, fun r hr t ht => ?_⟩
    have hmem := h.mem_etaQueue.mpr ⟨hr, by rw [Option.mem_def.mp ht]; rfl⟩
    rw [PriorityQueue.len_eq, Finset.card_eq_zero] at hlen
    simp [hlen] at hmem
  · rename_i hlen
    dsimp only
    cases hfirst : (q.etaQueue.first jobs.key).1 with
    | none =>
      rw [PriorityQueue.len_eq, PriorityQueue.first_eq_none.mp hfirst] at hlen
      exact (hlen rfl).elim
    | some e =>
      have heMem := h.mem_etaQueue.mp (PriorityQueue.first_mem hfirst)
      obtain ⟨t₀, ht₀⟩ := Option.isSome_iff_exists.mp heMem.2
      rw [Option.bind_some, ht₀]
      have hmin := wakesBy_min (w := w) t₀.property
      dsimp only
      refine ⟨hmin.2, fun r hr t ht => ⟨hmin.1.1, hmin.1.2.trans ?_⟩⟩
      have hle := h.etaOrdered.first_le hfirst (h.mem_etaQueue.mpr ⟨hr, by rw [Option.mem_def.mp ht]; rfl⟩)
      obtain ⟨t', ht', hle'⟩ := due_of_key_le hle heMem.2 ⟨t, ht, le_refl _⟩
      rw [Option.mem_def, ht₀] at ht'
      rwa [Option.some.inj ht']

end ChannelQueue

end JobQueue
