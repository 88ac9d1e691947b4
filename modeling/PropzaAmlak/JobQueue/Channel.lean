import PropzaAmlak.JobQueue.ChannelQueue

/-! One channel: its queue, the jobs that run in it, and the jobs it lets go
downstream while it has capacity. -/

namespace JobQueue

open ChannelQueue

structure Channel where
  queue : ChannelQueue := {}
  running : Finset Ref := ∅
  failed : Finset Ref := ∅
  pauseUntil : Int := 0
  capacity : Option Int := none
  throttle : Int := 0

namespace Channel

variable {c : Channel} {jobs : Jobs} {r x : Ref} {now t : Int} {fuel : Nat}

/-- A sequential channel blocks on failed jobs. No capacity, or a capacity of
zero, is no limit. -/
def HasCapacity (c : Channel) : Prop :=
  ¬ (c.queue.sequential ∧ c.failed.Nonempty) ∧ ∀ n ∈ c.capacity, n ≠ 0 → (c.running.card : Int) < n

instance : Decidable c.HasCapacity := inferInstanceAs (Decidable (_ ∧ _))

structure Yielded where
  taken : List Ref
  channel : Channel
  jobs : Jobs

def yieldWithin (now : Int) : Nat → Channel → Jobs → Yielded
  | 0, c, jobs => ⟨[], c, jobs⟩
  | fuel + 1, c, jobs =>
    if c.HasCapacity then
      let popped := c.queue.pop now jobs
      match popped.job with
      | none => ⟨[], { c with queue := popped.queue }, popped.jobs⟩
      | some r =>
        let c := { c with queue := popped.queue, running := insert r c.running }
        if c.throttle ≠ 0 then ⟨[r], { c with pauseUntil := now + c.throttle }, popped.jobs⟩
        else
          let rest := yieldWithin now fuel c popped.jobs
          { rest with taken := r :: rest.taken }
    else ⟨[], c, jobs⟩

/-- `get_jobs_to_run` once the jobs of the children are in the queue. -/
def yieldJobs (now : Int) (c : Channel) (jobs : Jobs) : Yielded :=
  if c.throttle ≠ 0 ∧ c.pauseUntil ≠ 0 then
    if now < c.pauseUntil then ⟨[], c, jobs⟩
    else yieldWithin now (c.queue.len + 1) { c with pauseUntil := 0 } jobs
  else yieldWithin now (c.queue.len + 1) c jobs

/-! ### What is yielded -/

/-- No job in the queue can be taken at `now`. -/
def Drained (now : Int) (c : Channel) (jobs : Jobs) : Prop :=
  (∀ x ∈ c.queue.held, ¬ (jobs x).Due now) ∧
    ((∀ x ∈ c.queue.held, (jobs x).eta.isSome) ∨ c.queue.sequential ∧ Waits c.queue.held jobs)

structure YieldSpec (now : Int) (c : Channel) (jobs : Jobs) (y : Yielded) : Prop where
  nodup : y.taken.Nodup
  mem : ∀ r ∈ y.taken, r ∈ c.queue.held
  held : y.channel.queue.held = c.queue.held \ y.taken.toFinset
  running : y.channel.running = c.running ∪ y.taken.toFinset
  failed : y.channel.failed = c.failed
  capacity : y.channel.capacity = c.capacity
  throttle : y.channel.throttle = c.throttle
  sequential : y.channel.queue.sequential = c.queue.sequential
  tidy : Tidy y.jobs y.channel.queue
  etaHeap : y.channel.queue.etaQueue.heap ⊆ c.queue.etaQueue.heap
  heap : ∀ r ∈ y.channel.queue.queue.heap, r ∈ c.queue.queue.heap ∨ r ∈ c.queue.etaQueue.heap
  jobs_eq : y.jobs = ripe now c.queue.held jobs ∨ y.jobs = jobs ∧ y.taken = []
  eta : ∀ r ∈ y.taken, (y.jobs r).eta = none
  sorted : y.taken.Pairwise fun a b => y.jobs.key a ≤ y.jobs.key b
  first : ∀ r ∈ y.taken, ∀ x ∈ y.channel.queue.held, (y.jobs x).eta = none → y.jobs.key r ≤ y.jobs.key x
  pause : y.channel.pauseUntil = c.pauseUntil ∨ y.channel.pauseUntil = 0 ∨ c.throttle ≠ 0
  limit : y.taken ≠ [] → c.HasCapacity ∧ ∀ n ∈ c.capacity, n ≠ 0 → (y.channel.running.card : Int) ≤ n

theorem ripe_ripe {held less : Finset Ref} (h : less ⊆ held) :
    ripe now less (ripe now held jobs) = ripe now held jobs := by
  funext r
  rw [ripe]
  split
  · rename_i hr
    exact (not_due_ripe (h hr.1) hr.2).elim
  · rfl

theorem yieldSpec_nil {y : Yielded} (hy : y.taken = []) (htidy : Tidy y.jobs y.channel.queue)
    (hheld : y.channel.queue.held = c.queue.held) (hseq : y.channel.queue.sequential = c.queue.sequential)
    (heta : y.channel.queue.etaQueue.heap ⊆ c.queue.etaQueue.heap)
    (hheap : ∀ r ∈ y.channel.queue.queue.heap, r ∈ c.queue.queue.heap ∨ r ∈ c.queue.etaQueue.heap)
    (hchannel : y.channel = { c with queue := y.channel.queue, pauseUntil := y.channel.pauseUntil })
    (hpause : y.channel.pauseUntil = c.pauseUntil ∨ y.channel.pauseUntil = 0 ∨ c.throttle ≠ 0)
    (hjobs : y.jobs = ripe now c.queue.held jobs ∨ y.jobs = jobs) : YieldSpec now c jobs y := by
  have hrunning : y.channel.running = c.running := by rw [hchannel]
  refine ⟨by simp [hy], by simp [hy], by simp [hy, hheld], by simp [hy, hrunning], by rw [hchannel], by rw [hchannel],
    by rw [hchannel], hseq, htidy, heta, hheap, ?_, by simp [hy], by simp [hy], by simp [hy], hpause,
    fun h => (h hy).elim⟩
  rcases hjobs with h | h
  · exact Or.inl h
  · exact Or.inr ⟨h, hy⟩

/-- A job more, ahead of those that the rest of the loop yields. -/
theorem YieldSpec.cons {y : Yielded} (h : Tidy jobs c.queue) (hcap : c.HasCapacity)
    (hjob : (c.queue.pop now jobs).job = some r)
    (hy : YieldSpec now { c with queue := (c.queue.pop now jobs).queue, running := insert r c.running }
      (c.queue.pop now jobs).jobs y) :
    YieldSpec now c jobs { y with taken := r :: y.taken } := by
  have hspec := pop_spec now h
  obtain ⟨hr, heta, hmin, -⟩ := hspec.some r hjob
  have hheld : (c.queue.pop now jobs).queue.held = c.queue.held.erase r := by
    rw [hspec.held, hjob, Option.toFinset_some, Finset.sdiff_singleton_eq_erase]
  have hmem : ∀ x ∈ y.taken, x ≠ r ∧ x ∈ c.queue.held := by
    intro x hx
    exact Finset.mem_erase.mp (hheld ▸ hy.mem x hx)
  -- nothing is due any more, so the rest of the loop takes no eta away
  have hjobs : y.jobs = ripe now c.queue.held jobs := by
    rcases hy.jobs_eq with hj | hj
    · rw [hj]
      dsimp only
      rw [hheld, hspec.jobs_eq, ripe_ripe (Finset.erase_subset _ _)]
    · rw [hj.1, hspec.jobs_eq]
  have hsame : y.jobs = (c.queue.pop now jobs).jobs := hjobs.trans hspec.jobs_eq.symm
  refine ⟨?_, ?_, ?_, ?_, hy.failed, hy.capacity, hy.throttle, hy.sequential.trans hspec.sequential, hy.tidy,
    List.Subset.trans hy.etaHeap hspec.etaHeap, fun x hx => ?_, Or.inl hjobs, ?_, ?_, ?_, hy.pause, ?_⟩
  · exact List.nodup_cons.mpr ⟨fun hx => (hmem r hx).1 rfl, hy.nodup⟩
  · intro x hx
    rcases List.mem_cons.mp hx with rfl | hx
    · exact hr
    · exact (hmem x hx).2
  · rw [hy.held]
    dsimp only
    rw [hheld, List.toFinset_cons, Finset.sdiff_insert, Finset.erase_sdiff_comm]
  · rw [hy.running, List.toFinset_cons]
    dsimp only
    rw [Finset.insert_union, Finset.union_insert]
  · rcases hy.heap x hx with hx | hx
    · exact hspec.heap x hx
    · exact Or.inr (hspec.etaHeap hx)
  · intro x hx
    rcases List.mem_cons.mp hx with rfl | hx
    · rw [hsame]
      exact heta
    · exact hy.eta x hx
  · refine List.pairwise_cons.mpr ⟨fun x hx => ?_, hy.sorted⟩
    have hxeta := hy.eta x hx
    rw [hsame] at hxeta ⊢
    exact hmin x (hmem x hx).2 hxeta
  · intro x hx z hz hzeta
    rcases List.mem_cons.mp hx with rfl | hx
    · rw [hy.held] at hz
      have hzheld := (Finset.mem_sdiff.mp hz).1
      dsimp only at hzheld
      rw [hheld] at hzheld
      rw [hsame] at hzeta ⊢
      exact hmin z (Finset.mem_of_mem_erase hzheld) hzeta
    · exact hy.first x hx z hz hzeta
  · refine fun _ => ⟨hcap, fun n hn hne => ?_⟩
    by_cases hnil : y.taken = []
    · have hlt := hcap.2 n hn hne
      have hcard := Finset.card_insert_le r c.running
      rw [hy.running, hnil, List.toFinset_nil, Finset.union_empty]
      dsimp only
      omega
    · exact (hy.limit hnil).2 n hn hne

theorem yieldWithin_spec (now : Int) (h : Tidy jobs c.queue) (hfuel : c.queue.held.card < fuel) :
    YieldSpec now c jobs (yieldWithin now fuel c jobs) ∧
      ((yieldWithin now fuel c jobs).channel.HasCapacity →
        Drained now (yieldWithin now fuel c jobs).channel (yieldWithin now fuel c jobs).jobs ∧
            (yieldWithin now fuel c jobs).channel.pauseUntil = c.pauseUntil ∨
          c.throttle ≠ 0 ∧ (yieldWithin now fuel c jobs).channel.pauseUntil = now + c.throttle) := by
  induction fuel generalizing c jobs with
  | zero => omega
  | succ fuel ih =>
    have hspec := pop_spec now h
    rw [yieldWithin]
    by_cases hcap : c.HasCapacity
    · rw [if_pos hcap]
      dsimp only
      cases hjob : (c.queue.pop now jobs).job with
      | none =>
        have hheld : (c.queue.pop now jobs).queue.held = c.queue.held := by
          rw [hspec.held, hjob, Option.toFinset_none, Finset.sdiff_empty]
        refine ⟨yieldSpec_nil rfl hspec.tidy hheld hspec.sequential hspec.etaHeap hspec.heap rfl (Or.inl rfl)
          (Or.inl hspec.jobs_eq),
          fun _ => Or.inl ⟨⟨fun x hx => ?_, ?_⟩, rfl⟩⟩
        · rw [hspec.jobs_eq]
          exact not_due_ripe (hheld ▸ hx)
        · dsimp only
          rw [hheld, hspec.sequential]
          exact hspec.none hjob
      | some r =>
        have hheld : (c.queue.pop now jobs).queue.held = c.queue.held.erase r := by
          rw [hspec.held, hjob, Option.toFinset_some, Finset.sdiff_singleton_eq_erase]
        dsimp only
        by_cases hthrottle : c.throttle ≠ 0
        · rw [if_pos hthrottle]
          refine ⟨YieldSpec.cons (y := ⟨[], _, _⟩) h hcap hjob ?_, fun _ => Or.inr ⟨hthrottle, rfl⟩⟩
          exact yieldSpec_nil rfl hspec.tidy rfl rfl (List.Subset.refl _) (fun _ hx => Or.inl hx) rfl
            (Or.inr (Or.inr hthrottle)) (Or.inr rfl)
        · rw [if_neg hthrottle]
          have hcard : (c.queue.pop now jobs).queue.held.card < fuel := by
            rw [hheld, Finset.card_erase_of_mem (hspec.some r hjob).1]
            have := Finset.card_pos.mpr ⟨r, (hspec.some r hjob).1⟩
            omega
          obtain ⟨hrest, hlast⟩ := ih (c := { c with
            queue := (c.queue.pop now jobs).queue
            running := insert r c.running }) hspec.tidy hcard
          exact ⟨hrest.cons h hcap hjob, hlast⟩
    · rw [if_neg hcap]
      refine ⟨yieldSpec_nil rfl h rfl rfl (List.Subset.refl _) (fun _ hx => Or.inl hx) rfl (Or.inl rfl) (Or.inr rfl),
        fun hc => (hcap hc).elim⟩

theorem YieldSpec.of_unpaused {y : Yielded} (h : YieldSpec now { c with pauseUntil := 0 } jobs y) :
    YieldSpec now c jobs y := by
  refine ⟨h.nodup, h.mem, h.held, h.running, h.failed, h.capacity, h.throttle, h.sequential, h.tidy, h.etaHeap, h.heap,
    h.jobs_eq,
    h.eta, h.sorted, h.first, Or.inr ?_, h.limit⟩
  rcases h.pause with hpause | hpause
  · exact Or.inl hpause
  · exact hpause

theorem held_card_lt : c.queue.held.card < c.queue.len + 1 := by
  have hunion := Finset.card_union_le c.queue.etaQueue.live c.queue.queue.live
  rw [ChannelQueue.len, PriorityQueue.len_eq, PriorityQueue.len_eq, held]
  omega

/-- Why a channel with capacity yields no more: it is out of jobs to take, or it
is paused. -/
def Spent (now : Int) (c : Channel) (jobs : Jobs) : Prop :=
  c.HasCapacity → Drained now c jobs ∧ (c.throttle = 0 ∨ c.pauseUntil = 0) ∨
    c.throttle ≠ 0 ∧ (c.pauseUntil = now + c.throttle ∨ now < c.pauseUntil ∧ c.pauseUntil ≠ 0)

theorem yieldJobs_spec (now : Int) (h : Tidy jobs c.queue) :
    YieldSpec now c jobs (yieldJobs now c jobs) ∧
      Spent now (yieldJobs now c jobs).channel (yieldJobs now c jobs).jobs := by
  rw [yieldJobs]
  by_cases hpaused : c.throttle ≠ 0 ∧ c.pauseUntil ≠ 0
  · rw [if_pos hpaused]
    by_cases hnow : now < c.pauseUntil
    · rw [if_pos hnow]
      exact ⟨yieldSpec_nil rfl h rfl rfl (List.Subset.refl _) (fun _ hx => Or.inl hx) rfl (Or.inl rfl) (Or.inr rfl),
        fun _ => Or.inr ⟨hpaused.1, Or.inr ⟨hnow, hpaused.2⟩⟩⟩
    · rw [if_neg hnow]
      obtain ⟨hspec, hlast⟩ := yieldWithin_spec now (c := { c with pauseUntil := 0 }) h held_card_lt
      refine ⟨hspec.of_unpaused, fun hcap => ?_⟩
      rcases hlast hcap with ⟨hdrained, hpause⟩ | ⟨hthrottle, hpause⟩
      · exact Or.inl ⟨hdrained, Or.inr hpause⟩
      · exact Or.inr ⟨by rwa [hspec.throttle], Or.inl (by rw [hpause, hspec.throttle])⟩
  · rw [if_neg hpaused]
    obtain ⟨hspec, hlast⟩ := yieldWithin_spec now h held_card_lt
    refine ⟨hspec, fun hcap => ?_⟩
    rcases hlast hcap with ⟨hdrained, hpause⟩ | ⟨hthrottle, hpause⟩
    · refine Or.inl ⟨hdrained, ?_⟩
      rw [hspec.throttle, hpause]
      by_cases hz : c.throttle = 0
      · exact Or.inl hz
      · exact Or.inr (not_not.mp fun hp => hpaused ⟨hz, hp⟩)
    · exact Or.inr ⟨by rwa [hspec.throttle], Or.inl (by rw [hpause, hspec.throttle])⟩

/-! ### When nothing is yielded -/

theorem yieldWithin_taken_eq_nil (h : c.HasCapacity → (c.queue.pop now jobs).job = none) :
    (yieldWithin now fuel c jobs).taken = [] := by
  cases fuel with
  | zero => rfl
  | succ fuel =>
    rw [yieldWithin]
    by_cases hcap : c.HasCapacity
    · rw [if_pos hcap]
      dsimp only
      rw [h hcap]
    · rw [if_neg hcap]

theorem Drained.pop_eq_none (h : Drained now c jobs) (htidy : Tidy jobs c.queue)
    (heta : ∀ x ∈ c.queue.held, ¬ (jobs x).Due t) : (c.queue.pop t jobs).job = none := by
  have hspec := pop_spec t htidy
  have hjobs := hspec.jobs_eq.trans (ripe_eq_self heta)
  cases hjob : (c.queue.pop t jobs).job with
  | none => rfl
  | some r =>
    obtain ⟨hr, hnone, -, hwaits⟩ := hspec.some r hjob
    rw [hjobs] at hnone hwaits
    rcases h.2 with hall | hseq
    · have hsome := hall r hr
      simp [hnone] at hsome
    · exact (hwaits hseq).elim

/-- A channel that has yielded all it could yields nothing more before its pause
is over and an eta in its queue is reached. -/
theorem Spent.yieldJobs_eq_nil (h : Spent now c jobs) (htidy : Tidy jobs c.queue)
    (hthrottle : c.pauseUntil ≠ 0 → c.throttle ≠ 0) (hne : c.throttle ≠ 0 → now + c.throttle ≠ 0)
    (hpause : c.HasCapacity → c.pauseUntil ≠ 0 → t < c.pauseUntil)
    (heta : c.HasCapacity → c.pauseUntil = 0 → ∀ x ∈ c.queue.held, ¬ (jobs x).Due t) :
    (yieldJobs t c jobs).taken = [] := by
  rw [yieldJobs]
  by_cases hcap : c.HasCapacity
  · by_cases hzero : c.pauseUntil = 0
    · rw [if_neg fun hp => hp.2 hzero]
      refine yieldWithin_taken_eq_nil fun _ => ?_
      rcases h hcap with ⟨hdrained, -⟩ | ⟨hth, heq | ⟨-, hp⟩⟩
      · exact hdrained.pop_eq_none htidy (heta hcap hzero)
      · exact (hne hth (heq ▸ hzero)).elim
      · exact (hp hzero).elim
    · rw [if_pos ⟨hthrottle hzero, hzero⟩, if_pos (hpause hcap hzero)]
  · split
    · split
      · rfl
      · exact yieldWithin_taken_eq_nil fun hc => (hcap hc).elim
    · exact yieldWithin_taken_eq_nil fun hc => (hcap hc).elim

end Channel

end JobQueue
