import PropzaAmlak.JobQueue.Places

/-! What `get_jobs_to_run` makes of the hierarchy. -/

namespace JobQueue

open ChannelQueue Channel Place

namespace Subchannels

variable {children siblings tree : Subchannels} {p q : Path} {n m : String}

/-- The channel at `q` is one of those under `p`. -/
def Has : Subchannels → Path → Path → Prop
  | none, _, _ => False
  | more name children siblings, p, q => q = name :: p ∨ Has children (name :: p) q ∨ Has siblings p q

def names : Subchannels → List String
  | none => []
  | more name _ siblings => name :: names siblings

def Distinct : Subchannels → Prop
  | none => True
  | more name children siblings => name ∉ siblings.names ∧ children.Distinct ∧ siblings.Distinct

theorem Has.name (h : tree.Has p q) : ∃ n ∈ tree.names, n :: p <:+ q := by
  induction tree generalizing p with
  | none => exact h.elim
  | more name children siblings ihChildren ihSiblings =>
    rcases h with rfl | h | h
    · exact ⟨name, List.mem_cons_self, List.suffix_rfl⟩
    · obtain ⟨m, -, hm⟩ := ihChildren h
      exact ⟨name, List.mem_cons_self, (List.suffix_cons m (name :: p)).trans hm⟩
    · obtain ⟨m, hmem, hm⟩ := ihSiblings h
      exact ⟨m, List.mem_cons_of_mem _ hmem, hm⟩

theorem Has.length_lt (h : tree.Has p q) : p.length < q.length := by
  obtain ⟨n, -, hn⟩ := h.name
  have hlen := hn.length_le
  rw [List.length_cons] at hlen
  omega

theorem Has.ne (h : tree.Has p q) : q ≠ p := by
  rintro rfl
  exact lt_irrefl _ h.length_lt

theorem Has.not_above (h : tree.Has (n :: p) p) : False := by
  have hlen := h.length_lt
  rw [List.length_cons] at hlen
  omega

/-- The channels under one child are not those under its siblings. -/
theorem Has.not_siblings (h : n :: p <:+ q) (hn : n ∉ siblings.names) : ¬ siblings.Has p q := by
  intro hq
  obtain ⟨m, hm, hsuf⟩ := hq.name
  have heq := eq_of_suffix h hsuf (by simp)
  exact hn ((List.cons.inj heq).1 ▸ hm)

theorem Has.suffix (h : tree.Has p q) : p <:+ q := by
  obtain ⟨n, -, hn⟩ := h.name
  exact (List.suffix_cons n p).trans hn

end Subchannels

namespace Channel

variable {c : Channel} {r : Ref}

/-- The channel refers to the job, be it as one that was removed. -/
def Refers (c : Channel) (r : Ref) : Prop :=
  r ∈ c.queue.queue.heap ∨ r ∈ c.queue.etaQueue.heap ∨ r ∈ c.running ∨ r ∈ c.failed

instance (c : Channel) (r : Ref) : Decidable (c.Refers r) := inferInstanceAs (Decidable (_ ∨ _))

theorem refers_of_sight (h : c.sight r ≠ nowhere) : c.Refers r := by
  by_contra hnot
  simp only [Refers, not_or] at hnot
  obtain ⟨hqueue, heta, hrunning, hfailed⟩ := hnot
  refine h ?_
  simp only [Channel.sight, nowhere, Sight.mk_inj, hrunning, hfailed, iff_self, and_true, iff_false, held,
    Finset.mem_union, not_or]
  exact ⟨fun hl => heta (PriorityQueue.mem_heap_of_live hl), fun hl => hqueue (PriorityQueue.mem_heap_of_live hl)⟩

theorem refers_of_held (h : r ∈ c.queue.held) : c.Refers r := by
  rcases Finset.mem_union.mp h with h | h
  · exact Or.inr (Or.inl (PriorityQueue.mem_heap_of_live h))
  · exact Or.inl (PriorityQueue.mem_heap_of_live h)

end Channel

namespace Channels

variable {s s' s'' : Channels} {r x : Ref} {p q own : Path} {place : Place} {now : Int} {taken : List Ref}
  {tree : Subchannels} {n : String}

/-- What holds of the queues all along: a job with an eta waits in no other
channel than its own. -/
structure Kept (s : Channels) : Prop where
  tidy : ∀ p, Tidy s.job (s.channel p).queue
  ownEta : ∀ p, ∀ r ∈ (s.channel p).queue.etaQueue.heap, (s.job r).channel = p
  throttled : ∀ p, (s.channel p).pauseUntil ≠ 0 → (s.channel p).throttle ≠ 0

def WellPlaced (s : Channels) : Prop :=
  ∀ r, ∃ place, s.At (s.job r).channel r place ∧ ∀ m, place = .flowing m → m ≤ (s.job r).channel.length + 1

theorem Kept.eq_of_held (h : s.Kept) (hx : x ∈ (s.channel p).queue.held) (heta : (s.job x).eta.isSome) :
    (s.job x).channel = p :=
  h.ownEta p x (PriorityQueue.mem_heap_of_live ((h.tidy p).mem_etaQueue.mpr ⟨hx, heta⟩))

/-- Only the channels in `C` change, and jobs lose their eta only in those of `J`. -/
structure Moves (C J : Path → Prop) (s s' : Channels) : Prop where
  channel : ∀ q, ¬ C q → s'.channel q = s.channel q
  job : ∀ x, s'.job x = s.job x ∨ (s.job x).eta.isSome ∧ J (s.job x).channel
  same : ∀ x, ∃ eta, s'.job x = { s.job x with eta := eta } ∧ (eta = (s.job x).eta ∨ eta = none)

theorem Moves.jobChannel {C J : Path → Prop} (h : Moves C J s s') : (s'.job x).channel = (s.job x).channel := by
  obtain ⟨eta, heta, -⟩ := h.same x
  rw [heta]

theorem Moves.refl {C J : Path → Prop} : Moves C J s s :=
  ⟨fun _ _ => rfl, fun _ => Or.inl rfl, fun x => ⟨(s.job x).eta, rfl, Or.inl rfl⟩⟩

theorem Moves.trans {C C' C'' J J' J'' : Path → Prop} (h : Moves C J s s') (h' : Moves C' J' s' s'')
    (hC : ∀ q, C q ∨ C' q → C'' q) (hJ : ∀ q, J q ∨ J' q → J'' q) : Moves C'' J'' s s'' := by
  refine ⟨fun q hq => ?_, fun x => ?_, fun x => ?_⟩
  · rw [h'.channel q fun hc => hq (hC q (Or.inr hc)), h.channel q fun hc => hq (hC q (Or.inl hc))]
  · rcases h'.job x with hx' | ⟨heta', hch'⟩
    · rcases h.job x with hx | ⟨heta, hch⟩
      · exact Or.inl (hx'.trans hx)
      · exact Or.inr ⟨heta, hJ _ (Or.inl hch)⟩
    · rcases h.job x with hx | ⟨heta, hch⟩
      · rw [hx] at heta' hch'
        exact Or.inr ⟨heta', hJ _ (Or.inr hch')⟩
      · exact Or.inr ⟨heta, hJ _ (Or.inl hch)⟩
  · obtain ⟨eta, heta, hnone⟩ := h.same x
    obtain ⟨eta', heta', hnone'⟩ := h'.same x
    refine ⟨eta', by rw [heta', heta], ?_⟩
    rw [heta] at hnone'
    rcases hnone' with rfl | hnone'
    · exact hnone
    · exact Or.inr hnone'

/-- What `get_jobs_to_run` makes of a channel. -/
structure Served (now : Int) (c c' : Channel) (jobs : Jobs) : Prop where
  spent : Spent now c' jobs
  first : ∀ r ∈ c'.running, r ∉ c.running → (jobs r).eta = none ∧
    ∀ x ∈ c'.queue.held, (jobs x).eta = none → jobs.key r ≤ jobs.key x
  limit : ∀ n ∈ c.capacity, n ≠ 0 → (c.running.card : Int) ≤ n → (c'.running.card : Int) ≤ n
  blocked : ¬ c.HasCapacity → c'.running = c.running
  running : c.running ⊆ c'.running
  failed : c'.failed = c.failed
  capacity : c'.capacity = c.capacity
  throttle : c'.throttle = c.throttle
  sequential : c'.queue.sequential = c.queue.sequential

/-! ### One channel -/

theorem channel_yieldAt : (yieldAt now p s).2.channel p = ((s.channel p).yieldJobs now s.job).channel := by
  simp [yieldAt]

theorem channel_yieldAt_of_ne (h : q ≠ p) : (yieldAt now p s).2.channel q = s.channel q := by
  simp [yieldAt, h]

theorem Kept.yields (now : Int) (h : s.Kept) :
    YieldSpec now (s.channel p) s.job ((s.channel p).yieldJobs now s.job) := (yieldJobs_spec now (h.tidy p)).1

theorem Kept.moves_yieldAt (now : Int) (h : s.Kept) : Moves (· = p) (· = p) s (yieldAt now p s).2 := by
  refine ⟨fun q hq => channel_yieldAt_of_ne hq, fun x => ?_, fun x => ?_⟩
  · rcases (h.yields now (p := p)).jobs_eq with hj | hj
    · have hx : (yieldAt now p s).2.job x = ripe now (s.channel p).queue.held s.job x := congrFun hj x
      rw [hx, ripe]
      split
      · rename_i hdue
        obtain ⟨t, ht, -⟩ := hdue.2
        have heta : (s.job x).eta.isSome := by rw [Option.mem_def.mp ht]; rfl
        exact Or.inr ⟨heta, h.eq_of_held hdue.1 heta⟩
      · exact Or.inl rfl
    · exact Or.inl (congrFun hj.1 x)
  · rcases (h.yields now (p := p)).jobs_eq with hj | hj
    · have hx : (yieldAt now p s).2.job x = ripe now (s.channel p).queue.held s.job x := congrFun hj x
      rw [hx, ripe]
      split
      · exact ⟨Option.none, rfl, Or.inr rfl⟩
      · exact ⟨(s.job x).eta, rfl, Or.inl rfl⟩
    · exact ⟨(s.job x).eta, congrFun hj.1 x, Or.inl rfl⟩

/-- Where no channel of `J` is concerned the jobs that a queue refers to stay the
same. -/
theorem Moves.job_of_heap {C J : Path → Prop} (h : Moves C J s s') (hk : s.Kept) (hp : ¬ J p) :
    (∀ r ∈ (s.channel p).queue.etaQueue.heap, s'.job r = s.job r) ∧
      ∀ r ∈ (s.channel p).queue.queue.heap, s'.job r = s.job r := by
  constructor
  · intro r hr
    rcases h.job r with hj | ⟨-, hj⟩
    · exact hj
    · exact (hp (hk.ownEta p r hr ▸ hj)).elim
  · intro r hr
    rcases h.job r with hj | ⟨heta, -⟩
    · exact hj
    · simp [(hk.tidy p).untimed r hr] at heta

theorem Moves.job_of_held {C J : Path → Prop} (h : Moves C J s s') (hk : s.Kept) (hp : ¬ J p)
    (hx : x ∈ (s.channel p).queue.held) : s'.job x = s.job x := by
  rcases Finset.mem_union.mp hx with hx | hx
  · exact (h.job_of_heap hk hp).1 x (PriorityQueue.mem_heap_of_live hx)
  · exact (h.job_of_heap hk hp).2 x (PriorityQueue.mem_heap_of_live hx)

theorem Kept.kept_yieldAt (now : Int) (h : s.Kept) : (yieldAt now p s).2.Kept := by
  have hm := h.moves_yieldAt now (p := p)
  have hy := h.yields now (p := p)
  refine ⟨fun q => ?_, fun q r hr => ?_, fun q hpause => ?_⟩
  · by_cases hq : q = p
    · subst hq
      rw [channel_yieldAt]
      exact hy.tidy
    · rw [channel_yieldAt_of_ne hq]
      obtain ⟨heta, hqueue⟩ := hm.job_of_heap h hq
      exact (h.tidy q).congr heta hqueue
  · rw [hm.jobChannel]
    by_cases hq : q = p
    · subst hq
      rw [channel_yieldAt] at hr
      exact h.ownEta q r (hy.etaHeap hr)
    · rw [channel_yieldAt_of_ne hq] at hr
      exact h.ownEta q r hr
  · by_cases hq : q = p
    · subst hq
      rw [channel_yieldAt] at hpause ⊢
      rw [hy.throttle]
      rcases hy.pause with hp | hp | hp
      · exact h.throttled q (hp ▸ hpause)
      · exact (hpause hp).elim
      · exact hp
    · rw [channel_yieldAt_of_ne hq] at hpause ⊢
      exact h.throttled q hpause

theorem Kept.sight_yieldAt (h : s.Kept) :
    (yieldAt now p s).2.sight x q =
      if q = p ∧ x ∈ (yieldAt now p s).1 then ⟨False, True, x ∈ (s.channel p).failed⟩ else s.sight x q := by
  have hy := h.yields now (p := p)
  by_cases hq : q = p
  · subst hq
    rw [sight, channel_yieldAt, Channel.sight, hy.held, hy.running, hy.failed]
    have htaken : (yieldAt now q s).1 = ((s.channel q).yieldJobs now s.job).taken := rfl
    rw [htaken]
    by_cases hx : x ∈ ((s.channel q).yieldJobs now s.job).taken
    · simp [hx]
    · simp [hx, sight, Channel.sight]
  · rw [if_neg fun hc => hq hc.1, sight, channel_yieldAt_of_ne hq, sight]

theorem Kept.taken_held (h : s.Kept) (hr : r ∈ (Channels.yieldAt now p s).1) : r ∈ (s.channel p).queue.held :=
  (h.yields now (p := p)).mem r hr

theorem Kept.taken_eta (h : s.Kept) (hr : r ∈ (Channels.yieldAt now p s).1) :
    ((Channels.yieldAt now p s).2.job r).eta = none := (h.yields now (p := p)).eta r hr

/-! ### Handing the jobs on -/

/-- More jobs without an eta in the queue, and all else as it was. -/
structure Fed (c c' : Channel) : Prop where
  channel : c' = { c with queue := c'.queue }
  sequential : c'.queue.sequential = c.queue.sequential
  etaQueue : c'.queue.etaQueue = c.queue.etaQueue
  held : c.queue.held ⊆ c'.queue.held

theorem Fed.refl {c : Channel} : Fed c c := ⟨rfl, rfl, rfl, Finset.Subset.refl _⟩

theorem Fed.trans {c c' c'' : Channel} (h : Fed c c') (h' : Fed c' c'') : Fed c c'' := by
  refine ⟨?_, h'.sequential.trans h.sequential, h'.etaQueue.trans h.etaQueue, h.held.trans h'.held⟩
  rw [h'.channel, h.channel]

theorem foldl_add {jobs : Jobs} {queue : ChannelQueue} (h : Tidy jobs queue)
    (heta : ∀ r ∈ taken, (jobs r).eta = none) :
    Tidy jobs (taken.foldl (ChannelQueue.add jobs) queue) ∧
      (taken.foldl (ChannelQueue.add jobs) queue).held = queue.held ∪ taken.toFinset ∧
      (taken.foldl (ChannelQueue.add jobs) queue).etaQueue = queue.etaQueue ∧
      (taken.foldl (ChannelQueue.add jobs) queue).sequential = queue.sequential := by
  induction taken generalizing queue with
  | nil => exact ⟨h, by simp, rfl, rfl⟩
  | cons r taken ih =>
    obtain ⟨h1, h2, h3, h4⟩ := ih (h.add (r := r)) fun x hx => heta x (List.mem_cons_of_mem _ hx)
    rw [List.foldl_cons]
    refine ⟨h1, ?_, ?_, ?_⟩
    · rw [h2, held_add, List.toFinset_cons, Finset.insert_union, Finset.union_insert]
    · rw [h3, ChannelQueue.add, if_neg (by simp [heta r List.mem_cons_self])]
    · rw [h4, sequential_add]

theorem Kept.kept_enqueue (h : s.Kept) (heta : ∀ r ∈ taken, (s.job r).eta = none) :
    (enqueue p taken s).Kept ∧ Fed (s.channel p) ((enqueue p taken s).channel p) := by
  obtain ⟨htidy, hheld, hetaQueue, hseq⟩ := foldl_add (h.tidy p) heta
  refine ⟨⟨fun q => ?_, fun q r hr => ?_, fun q hpause => ?_⟩, ?_⟩
  · by_cases hq : q = p
    · subst hq
      rw [Channels.enqueue, channel_modify_self]
      exact htidy
    · rw [Channels.enqueue, channel_modify_of_ne hq]
      exact h.tidy q
  · by_cases hq : q = p
    · subst hq
      rw [Channels.enqueue, channel_modify_self] at hr
      dsimp only at hr
      rw [hetaQueue] at hr
      exact h.ownEta q r hr
    · rw [Channels.enqueue, channel_modify_of_ne hq] at hr
      exact h.ownEta q r hr
  · by_cases hq : q = p
    · subst hq
      rw [Channels.enqueue, channel_modify_self] at hpause ⊢
      exact h.throttled q hpause
    · rw [Channels.enqueue, channel_modify_of_ne hq] at hpause ⊢
      exact h.throttled q hpause
  · rw [Channels.enqueue, channel_modify_self]
    exact ⟨rfl, hseq, hetaQueue, by dsimp only; rw [hheld]; exact Finset.subset_union_left⟩

theorem Kept.sight_enqueue (h : s.Kept) (heta : ∀ r ∈ taken, (s.job r).eta = none) :
    (Channels.enqueue p taken s).sight x q =
      if q = p ∧ x ∈ taken then ⟨True, x ∈ (s.channel p).running, x ∈ (s.channel p).failed⟩ else s.sight x q := by
  obtain ⟨-, hheld, -, -⟩ := foldl_add (h.tidy p) heta
  by_cases hq : q = p
  · subst hq
    rw [Channels.enqueue, sight_modify_self, Channel.sight]
    dsimp only
    rw [hheld]
    by_cases hx : x ∈ taken
    · simp [hx]
    · simp [hx, sight, Channel.sight]
  · rw [Channels.enqueue, sight_modify_of_ne hq, if_neg fun hc => hq hc.1]

theorem Kept.served_yieldAt (h : s.Kept) :
    Served now (s.channel p) ((Channels.yieldAt now p s).2.channel p) (Channels.yieldAt now p s).2.job := by
  have hy := h.yields now (p := p)
  have hspent := (yieldJobs_spec now (h.tidy p)).2
  rw [channel_yieldAt]
  refine ⟨hspent, fun r hr hnot => ?_, fun n hn hne hle => ?_, fun hcap => ?_, ?_, hy.failed, hy.capacity, hy.throttle,
    hy.sequential⟩
  · rw [hy.running, Finset.mem_union, List.mem_toFinset] at hr
    have htaken := hr.resolve_left hnot
    exact ⟨hy.eta r htaken, hy.first r htaken⟩
  · by_cases hnil : ((s.channel p).yieldJobs now s.job).taken = []
    · rwa [hy.running, hnil, List.toFinset_nil, Finset.union_empty]
    · exact (hy.limit hnil).2 n hn hne
  · have hnil : ((s.channel p).yieldJobs now s.job).taken = [] := by
      by_contra hne
      exact hcap (hy.limit hne).1
    rw [hy.running, hnil, List.toFinset_nil, Finset.union_empty]
  · rw [hy.running]
    exact Finset.subset_union_left

theorem Fed.running {c c' : Channel} (h : Fed c c') : c'.running = c.running := by rw [h.channel]

theorem Fed.failed {c c' : Channel} (h : Fed c c') : c'.failed = c.failed := by rw [h.channel]

theorem Fed.capacity {c c' : Channel} (h : Fed c c') : c'.capacity = c.capacity := by rw [h.channel]

theorem Fed.throttle {c c' : Channel} (h : Fed c c') : c'.throttle = c.throttle := by rw [h.channel]

theorem Fed.hasCapacity {c c' : Channel} (h : Fed c c') : c'.HasCapacity ↔ c.HasCapacity := by
  rw [HasCapacity, HasCapacity, h.sequential, h.running, h.failed, h.capacity]

theorem Served.of_fed {c₀ c c' : Channel} {jobs : Jobs} (h : Served now c c' jobs) (hf : Fed c₀ c) :
    Served now c₀ c' jobs := by
  obtain ⟨hspent, hfirst, hlimit, hblocked, hrunning, hfailed, hcapacity, hthrottle, hseq⟩ := h
  rw [hf.running] at hfirst hlimit hblocked hrunning
  rw [hf.capacity] at hlimit hcapacity
  rw [hf.hasCapacity] at hblocked
  exact ⟨hspent, hfirst, hlimit, hblocked, hrunning, hfailed.trans hf.failed, hcapacity, hthrottle.trans hf.throttle,
    hseq.trans hf.sequential⟩

theorem spent_congr {c : Channel} {jobs jobs' : Jobs} (h : Spent now c jobs)
    (heq : ∀ x ∈ c.queue.held, jobs' x = jobs x) : Spent now c jobs' := by
  intro hcap
  refine (h hcap).imp_left fun hdrained => ⟨⟨fun x hx => ?_, ?_⟩, hdrained.2⟩
  · rw [heq x hx]
    exact hdrained.1.1 x hx
  · refine hdrained.1.2.imp (fun hall x hx => ?_) fun hwaits => ⟨hwaits.1, ?_⟩
    · rw [heq x hx]
      exact hall x hx
    · obtain ⟨e, he, heta, hmin, hlt⟩ := hwaits.2
      refine ⟨e, he, heq e he ▸ heta, fun x hx hxeta => ?_, fun x hx hxeta => ?_⟩
      · rw [Jobs.key, Jobs.key, heq e he, heq x hx]
        exact hmin x hx (heq x hx ▸ hxeta)
      · rw [heq e he, heq x hx]
        exact hlt x hx (heq x hx ▸ hxeta)

/-- What was made of a channel stays as long as only others move. -/
theorem Served.moves {C J : Path → Prop} {c : Channel} (h : Served now c (s.channel p) s.job) (hk : s.Kept)
    (hm : Moves C J s s') (hC : ¬ C p) (hJ : ¬ J p) : Served now c (s'.channel p) s'.job := by
  have hheld : ∀ x ∈ (s.channel p).queue.held, s'.job x = s.job x := fun x hx => hm.job_of_held hk hJ hx
  rw [hm.channel p hC]
  refine ⟨spent_congr h.spent hheld, fun r hr hnot => ?_, h.limit, h.blocked, h.running, h.failed, h.capacity,
    h.throttle, h.sequential⟩
  obtain ⟨heta, hfirst⟩ := h.first r hr hnot
  have hjob : s'.job r = s.job r := by
    rcases hm.job r with hj | ⟨hsome, -⟩
    · exact hj
    · simp [heta] at hsome
  refine ⟨hjob ▸ heta, fun x hx hxeta => ?_⟩
  rw [Jobs.key, Jobs.key, hjob, hheld x hx]
  exact hfirst x hx (hheld x hx ▸ hxeta)

theorem At.of_passed {n : String} (h : s.At own r place)
    (hqueued : r ∈ (s.channel (n :: p)).queue.held)
    (hsight : ∀ q, s'.sight r q =
      if q = p then ⟨True, r ∈ (s.channel p).running, r ∈ (s.channel p).failed⟩
      else if q = n :: p then ⟨False, True, r ∈ (s.channel (n :: p)).failed⟩ else s.sight r q) :
    s'.At own r (.flowing (p.length + 1)) ∧ place.Downstream (.flowing (p.length + 1)) := by
  have hplace := h.queued.mp hqueued
  cases place with
  | absent => simp [Place.sight, nowhere] at hplace
  | failed => simp [Place.sight] at hplace
  | flowing m =>
    obtain ⟨hsuf, hm⟩ := hplace
    rw [List.length_cons] at hm
    have hpsuf : p <:+ own := (List.suffix_cons n p).trans hsuf
    refine ⟨fun q => ?_, Or.inr ⟨m, _, rfl, rfl, by omega⟩⟩
    rw [hsight q]
    by_cases hq : q = p
    · subst hq
      rw [if_pos rfl, h.running, h.failed]
      simp only [Place.sight, Sight.mk_inj, hpsuf, true_and, iff_self, and_true]
      omega
    · rw [if_neg hq]
      by_cases hqn : q = n :: p
      · subst hqn
        rw [if_pos rfl, h.failed]
        simp only [Place.sight, Sight.mk_inj, hsuf, true_and, List.length_cons, true_iff, false_iff, iff_self, and_true]
        omega
      · rw [if_neg hqn, h q]
        have hne : q <:+ own → q.length ≠ p.length ∧ q.length ≠ p.length + 1 := by
          intro hqsuf
          refine ⟨fun hlen => hq (eq_of_suffix hqsuf hpsuf hlen), fun hlen => hqn ?_⟩
          exact eq_of_suffix hqsuf hsuf (by simpa using hlen)
        by_cases hqsuf : q <:+ own
        · have hlen := hne hqsuf
          simp only [Place.sight, Sight.mk_inj, hqsuf, true_and, iff_self, and_true]
          omega
        · simp [Place.sight, hqsuf]

/-! ### The whole hierarchy -/

def Mentions (s : Channels) (x : Ref) : Prop := ∃ p, (s.channel p).Refers x

theorem Kept.mentions_yieldAt (h : s.Kept) (hx : (Channels.yieldAt now p s).2.Mentions x) : s.Mentions x := by
  have hy := h.yields now (p := p)
  obtain ⟨q, hq⟩ := hx
  by_cases hqp : q = p
  · subst hqp
    rw [channel_yieldAt, Refers, hy.running, hy.failed, Finset.mem_union, List.mem_toFinset] at hq
    refine ⟨q, ?_⟩
    rcases hq with hq | hq | (hq | hq) | hq
    · rcases hy.heap x hq with hq | hq
      · exact Or.inl hq
      · exact Or.inr (Or.inl hq)
    · exact Or.inr (Or.inl (hy.etaHeap hq))
    · exact Or.inr (Or.inr (Or.inl hq))
    · exact refers_of_held (hy.mem x hq)
    · exact Or.inr (Or.inr (Or.inr hq))
  · rw [channel_yieldAt_of_ne hqp] at hq
    exact ⟨q, hq⟩

theorem mem_heap_foldl_add {jobs : Jobs} {queue : ChannelQueue}
    (hx : x ∈ (taken.foldl (ChannelQueue.add jobs) queue).queue.heap) : x ∈ queue.queue.heap ∨ x ∈ taken := by
  induction taken generalizing queue with
  | nil => exact Or.inl hx
  | cons r taken ih =>
    rcases ih hx with h | h
    · rw [ChannelQueue.add] at h
      split at h
      · exact Or.inl h
      · rcases PriorityQueue.mem_heap_add.mp h with rfl | h
        · exact Or.inr List.mem_cons_self
        · exact Or.inl h
    · exact Or.inr (List.mem_cons_of_mem _ h)

theorem mentions_enqueue {queue : ChannelQueue}
    (hqueue : taken.foldl (ChannelQueue.add s.job) (s.channel p).queue = queue)
    (heta : queue.etaQueue = (s.channel p).queue.etaQueue) (hx : (Channels.enqueue p taken s).Mentions x) :
    s.Mentions x ∨ x ∈ taken := by
  obtain ⟨q, hq⟩ := hx
  by_cases hqp : q = p
  · subst hqp
    rw [Channels.enqueue, channel_modify_self, Refers] at hq
    dsimp only at hq
    rcases hq with hq | hq | hq | hq
    · rcases mem_heap_foldl_add hq with hq | hq
      · exact Or.inl ⟨q, Or.inl hq⟩
      · exact Or.inr hq
    · rw [hqueue, heta] at hq
      exact Or.inl ⟨q, Or.inr (Or.inl hq)⟩
    · exact Or.inl ⟨q, Or.inr (Or.inr (Or.inl hq))⟩
    · exact Or.inl ⟨q, Or.inr (Or.inr (Or.inr hq))⟩
  · rw [Channels.enqueue, channel_modify_of_ne hqp] at hq
    exact Or.inl ⟨q, hq⟩

/-- What has become of the hierarchy when the channels of `D` have been served
and those of `C` have changed. -/
structure Passed (now : Int) (C D : Path → Prop) (s s' : Channels) : Prop where
  kept : s'.Kept
  downstream : ∀ x own place, s.At own x place → ∃ place', s'.At own x place' ∧ place.Downstream place'
  mentions : ∀ x, s'.Mentions x → s.Mentions x
  moves : Moves C D s s'
  served : ∀ q, D q → Served now (s.channel q) (s'.channel q) s'.job

theorem Passed.wellPlaced {C D : Path → Prop} (h : Passed now C D s s') (hp : s.WellPlaced) : s'.WellPlaced := by
  intro x
  obtain ⟨place, hat, hlevel⟩ := hp x
  obtain ⟨place', hat', hdown⟩ := h.downstream x _ place hat
  rw [h.moves.jobChannel]
  refine ⟨place', hat', fun m hm => ?_⟩
  rcases hdown with rfl | ⟨m₁, m₂, rfl, rfl, hle⟩
  · exact hlevel m hm
  · exact (Place.flowing.inj hm ▸ hle).trans (hlevel m₁ rfl)

theorem Kept.passed_passOn (now : Int) (h : s.Kept) :
    Passed now (fun q => q = n :: p ∨ q = p) (· = n :: p) s (passOn now n p s) ∧
      Fed (s.channel p) ((passOn now n p s).channel p) := by
  have hne : p ≠ n :: p := (List.cons_ne_self n p).symm
  have hy := h.kept_yieldAt now (p := n :: p)
  have hm := h.moves_yieldAt now (p := n :: p)
  have heta : ∀ r ∈ (Channels.yieldAt now (n :: p) s).1, ((Channels.yieldAt now (n :: p) s).2.job r).eta = none :=
    fun r hr => h.taken_eta hr
  obtain ⟨hkept, hfed⟩ := hy.kept_enqueue (p := p) heta
  rw [channel_yieldAt_of_ne hne] at hfed
  refine ⟨⟨hkept, fun x own place hat => ?_, fun x hx => ?_, ⟨fun q hq => ?_, hm.job, hm.same⟩, fun q hq => ?_⟩, hfed⟩
  · by_cases hx : x ∈ (Channels.yieldAt now (n :: p) s).1
    · refine ⟨_, hat.of_passed (h.taken_held hx) fun q => ?_⟩
      rw [passOn, hy.sight_enqueue heta, h.sight_yieldAt, channel_yieldAt_of_ne hne]
      simp only [hx, and_true]
    · refine ⟨place, hat.of_sight_eq fun q => ?_, Or.inl rfl⟩
      rw [passOn, hy.sight_enqueue heta, if_neg fun hc => hx hc.2, h.sight_yieldAt, if_neg fun hc => hx hc.2]
  · rcases mentions_enqueue rfl (foldl_add (hy.tidy p) heta).2.2.1 hx with hx | hx
    · exact h.mentions_yieldAt hx
    · exact ⟨n :: p, refers_of_held (h.taken_held hx)⟩
  · rw [passOn, enqueue, channel_modify_of_ne fun hc => hq (Or.inr hc), channel_yieldAt_of_ne fun hc => hq (Or.inl hc)]
  · subst hq
    have hchannel : (passOn now n p s).channel (n :: p) = (Channels.yieldAt now (n :: p) s).2.channel (n :: p) := by
      rw [passOn, enqueue, channel_modify_of_ne (Ne.symm hne)]
    rw [hchannel]
    exact h.served_yieldAt

theorem Passed.trans {C C' C'' D D' D'' : Path → Prop} (h : Passed now C D s s') (h' : Passed now C' D' s' s'')
    (hC : ∀ q, C q ∨ C' q → C'' q) (hD : ∀ q, D'' q ↔ D q ∨ D' q) (hfar : ∀ q, D q → ¬ C' q ∧ ¬ D' q)
    (hfed : ∀ q, D' q → Fed (s.channel q) (s'.channel q)) : Passed now C'' D'' s s'' := by
  refine ⟨h'.kept, fun x own place hat => ?_, fun x hx => h.mentions x (h'.mentions x hx),
    h.moves.trans h'.moves hC fun q hq => (hD q).mpr hq, fun q hq => ?_⟩
  · obtain ⟨place', hat', hdown⟩ := h.downstream x own place hat
    obtain ⟨place'', hat'', hdown'⟩ := h'.downstream x own place' hat'
    exact ⟨place'', hat'', hdown.trans hdown'⟩
  · rcases (hD q).mp hq with hq | hq
    · exact (h.served q hq).moves h.kept h'.moves (hfar q hq).1 (hfar q hq).2
    · exact (h'.served q hq).of_fed (hfed q hq)

theorem passed_fromChildren (now : Int) (h : s.Kept) (hd : tree.Distinct) :
    Passed now (fun q => q = p ∨ tree.Has p q) (tree.Has p) s (fromChildren now p tree s) ∧
      Fed (s.channel p) ((fromChildren now p tree s).channel p) := by
  induction tree generalizing p s with
  | none =>
    exact ⟨⟨h, fun _ _ place hat => ⟨place, hat, Or.inl rfl⟩, fun _ hx => hx, Moves.refl, fun _ hq => hq.elim⟩,
      Fed.refl⟩
  | more n children siblings ihChildren ihSiblings =>
    obtain ⟨hnot, hdChildren, hdSiblings⟩ := hd
    rw [fromChildren]
    obtain ⟨h1, hfed1⟩ := ihChildren h hdChildren (p := n :: p)
    obtain ⟨h2, hfed2⟩ := h1.kept.passed_passOn now (n := n) (p := p)
    obtain ⟨h3, hfed3⟩ := ihSiblings h2.kept hdSiblings (p := p)
    have hpn : p ≠ n :: p := (List.cons_ne_self n p).symm
    have hfirst : ∀ q, q = n :: p ∨ children.Has (n :: p) q → n :: p <:+ q ∧ q ≠ p := by
      rintro q (rfl | hq)
      · exact ⟨List.suffix_rfl, Ne.symm hpn⟩
      · refine ⟨hq.suffix, ?_⟩
        rintro rfl
        exact hq.not_above
    have h12 : Passed now (fun q => q = p ∨ q = n :: p ∨ children.Has (n :: p) q)
        (fun q => q = n :: p ∨ children.Has (n :: p) q) s (passOn now n p (fromChildren now (n :: p) children s)) := by
      refine h1.trans h2 (fun q hq => ?_) (fun q => or_comm) (fun q hq => ⟨?_, hq.ne⟩) ?_
      · rcases hq with (hq | hq) | hq | hq
        · exact Or.inr (Or.inl hq)
        · exact Or.inr (Or.inr hq)
        · exact Or.inr (Or.inl hq)
        · exact Or.inl hq
      · rintro (hc | hc)
        · exact hq.ne hc
        · exact (hfirst q (Or.inr hq)).2 hc
      · rintro q rfl
        exact hfed1
    refine ⟨h12.trans h3 (fun q hq => ?_) (fun q => ?_) (fun q hq => ?_) (fun q hq => ?_), ?_⟩
    · rcases hq with (hq | hq | hq) | hq | hq
      · exact Or.inl hq
      · exact Or.inr (Or.inl hq)
      · exact Or.inr (Or.inr (Or.inl hq))
      · exact Or.inl hq
      · exact Or.inr (Or.inr (Or.inr hq))
    · rw [Subchannels.Has, or_assoc]
    · obtain ⟨hsuf, hne⟩ := hfirst q hq
      have hsib := Subchannels.Has.not_siblings hsuf hnot
      exact ⟨fun hc => hc.elim hne hsib, hsib⟩
    · have hout : ¬ (q = p ∨ q = n :: p ∨ children.Has (n :: p) q) := by
        rintro (hc | hc)
        · exact hq.ne hc
        · exact Subchannels.Has.not_siblings (hfirst q hc).1 hnot hq
      rw [h12.moves.channel q hout]
      exact Fed.refl
    · have hsame : (fromChildren now (n :: p) children s).channel p = s.channel p := by
        refine h1.moves.channel p ?_
        rintro (hc | hc)
        · exact hpn hc
        · exact hc.not_above
      rw [hsame] at hfed2
      exact hfed2.trans hfed3

theorem At.of_sent (h : s.At own r place) (hqueued : r ∈ (s.channel []).queue.held)
    (hsight : ∀ q, s'.sight r q = if q = [] then ⟨False, True, r ∈ (s.channel []).failed⟩ else s.sight r q) :
    s'.At own r (.flowing 0) ∧ place.Downstream (.flowing 0) := by
  have hplace := h.queued.mp hqueued
  cases place with
  | absent => simp [Place.sight, nowhere] at hplace
  | failed => simp [Place.sight] at hplace
  | flowing m =>
    obtain ⟨-, hm⟩ := hplace
    rw [List.length_nil] at hm
    subst hm
    refine ⟨fun q => ?_, Or.inr ⟨_, _, rfl, rfl, Nat.zero_le _⟩⟩
    rw [hsight q]
    by_cases hq : q = []
    · subst hq
      rw [if_pos rfl, h.failed]
      simp [Place.sight]
    · have hpos : 1 ≤ q.length := List.length_pos_of_ne_nil hq
      have hlen : q.length ≠ 0 := by omega
      rw [if_neg hq, h q]
      simp [Place.sight, hpos, hlen]

/-- The jobs sent are those that have come to run in the root channel. -/
structure Sent (s s' : Channels) (sent : List Ref) : Prop where
  nodup : sent.Nodup
  mem : ∀ r, r ∈ sent ↔ r ∈ (s'.channel []).running ∧ r ∉ (s.channel []).running
  at_root : ∀ r ∈ sent, s'.At (s'.job r).channel r (.flowing 0)
  sorted : sent.Pairwise fun a b => s'.job.key a ≤ s'.job.key b

theorem WellPlaced.not_running (h : s.WellPlaced) (hr : r ∈ (s.channel p).queue.held) :
    r ∉ (s.channel p).running := by
  obtain ⟨place, hat, -⟩ := h r
  intro hrun
  have h1 := hat.queued.mp hr
  have h2 := hat.running.mp hrun
  cases place with
  | absent => simp [Place.sight, nowhere] at h1
  | failed => simp [Place.sight] at h1
  | flowing m =>
    have hm := h1.2
    have hle := h2.2
    omega

theorem passed_getJobsToRun (now : Int) (h : s.Kept) (hp : s.WellPlaced) (hd : tree.Distinct) :
    Passed now (fun q => q = [] ∨ tree.Has [] q) (fun q => q = [] ∨ tree.Has [] q) s (getJobsToRun now tree s).2 ∧
      Sent s (getJobsToRun now tree s).2 (getJobsToRun now tree s).1 := by
  obtain ⟨h1, hfed⟩ := passed_fromChildren now h hd (p := [])
  have hp1 := h1.wellPlaced hp
  rw [getJobsToRun]
  generalize fromChildren now [] tree s = s₁ at h1 hfed hp1 ⊢
  have hm := h1.kept.moves_yieldAt now (p := [])
  have hy := h1.kept.yields now (p := [])
  have hsent : ∀ r own place, r ∈ (Channels.yieldAt now [] s₁).1 → s₁.At own r place →
      (Channels.yieldAt now [] s₁).2.At own r (.flowing 0) ∧ place.Downstream (.flowing 0) := by
    intro r own place hr hat
    refine hat.of_sent (h1.kept.taken_held hr) fun q => ?_
    rw [h1.kept.sight_yieldAt]
    simp only [hr, and_true]
  have h2 : Passed now (· = []) (· = []) s₁ (Channels.yieldAt now [] s₁).2 := by
    refine ⟨h1.kept.kept_yieldAt now, fun x own place hat => ?_, fun x hx => h1.kept.mentions_yieldAt hx, hm, ?_⟩
    · by_cases hx : x ∈ (Channels.yieldAt now [] s₁).1
      · exact ⟨_, hsent x own place hx hat⟩
      · refine ⟨place, hat.of_sight_eq fun q => ?_, Or.inl rfl⟩
        rw [h1.kept.sight_yieldAt, if_neg fun hc => hx hc.2]
    · rintro q rfl
      exact h1.kept.served_yieldAt
  refine ⟨h1.trans h2 (fun q hq => ?_) (fun q => or_comm) (fun q hq => ⟨hq.ne, hq.ne⟩) ?_, hy.nodup, fun r => ?_,
    fun r hr => ?_, hy.sorted⟩
  · rcases hq with hq | hq
    · exact hq
    · exact Or.inl hq
  · rintro q rfl
    exact hfed
  · rw [channel_yieldAt, hy.running, hfed.running, Finset.mem_union, List.mem_toFinset]
    have htaken : (Channels.yieldAt now [] s₁).1 = ((s₁.channel []).yieldJobs now s₁.job).taken := rfl
    rw [htaken]
    constructor
    · intro hr
      refine ⟨Or.inr hr, ?_⟩
      rw [← hfed.running]
      exact hp1.not_running (hy.mem r hr)
    · rintro ⟨hr | hr, hnot⟩
      · exact (hnot hr).elim
      · exact hr
  · obtain ⟨place, hat, -⟩ := hp1 r
    rw [hm.jobChannel]
    exact (hsent r _ place hr hat).1

end Channels

end JobQueue
