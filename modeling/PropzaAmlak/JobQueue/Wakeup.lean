import PropzaAmlak.JobQueue.Dispatch

/-! The wakeup time that the channels ask for: until then nothing can be sent
that was not sent already. -/

namespace JobQueue

open ChannelQueue Channel Channels Place

namespace Channels

variable {s s' s'' : Channels} {r x : Ref} {p q : Path} {n : String} {now t w : Int} {tree : Subchannels}

/-! ### Asking changes nothing but the heads of the eta queues -/

/-- Removed jobs may have been dropped from the eta queues of the channels in `C`. -/
structure Purged (C : Path → Prop) (s s' : Channels) : Prop where
  job : s'.job = s.job
  channel : ∀ q, s'.channel q = { s.channel q with queue := (s'.channel q).queue }
  untouched : ∀ q, ¬ C q → s'.channel q = s.channel q
  held : ∀ q, (s'.channel q).queue.held = (s.channel q).queue.held
  sequential : ∀ q, (s'.channel q).queue.sequential = (s.channel q).queue.sequential
  heap : ∀ q, (s'.channel q).queue.queue = (s.channel q).queue.queue
  etaHeap : ∀ q, (s'.channel q).queue.etaQueue.heap ⊆ (s.channel q).queue.etaQueue.heap
  tidy : ∀ q, Tidy s.job (s.channel q).queue → Tidy s'.job (s'.channel q).queue

theorem Purged.refl {C : Path → Prop} : Purged C s s :=
  ⟨rfl, fun _ => rfl, fun _ _ => rfl, fun _ => rfl, fun _ => rfl, fun _ => rfl, fun _ => List.Subset.refl _,
    fun _ => id⟩

theorem Purged.trans {C C' C'' : Path → Prop} (h : Purged C s s') (h' : Purged C' s' s'')
    (hC : ∀ q, C q ∨ C' q → C'' q) : Purged C'' s s'' := by
  refine ⟨h'.job.trans h.job, fun q => ?_, fun q hq => ?_, fun q => (h'.held q).trans (h.held q),
    fun q => (h'.sequential q).trans (h.sequential q), fun q => (h'.heap q).trans (h.heap q),
    fun q => List.Subset.trans (h'.etaHeap q) (h.etaHeap q), fun q ht => h'.tidy q (h.tidy q ht)⟩
  · rw [h'.channel, h.channel]
  · rw [h'.untouched q fun hc => hq (hC q (Or.inr hc)), h.untouched q fun hc => hq (hC q (Or.inl hc))]

theorem Purged.running {C : Path → Prop} (h : Purged C s s') : (s'.channel p).running = (s.channel p).running := by
  rw [h.channel]

theorem Purged.failed {C : Path → Prop} (h : Purged C s s') : (s'.channel p).failed = (s.channel p).failed := by
  rw [h.channel]

theorem Purged.pauseUntil {C : Path → Prop} (h : Purged C s s') :
    (s'.channel p).pauseUntil = (s.channel p).pauseUntil := by rw [h.channel]

theorem Purged.throttle {C : Path → Prop} (h : Purged C s s') : (s'.channel p).throttle = (s.channel p).throttle := by
  rw [h.channel]

theorem Purged.capacity {C : Path → Prop} (h : Purged C s s') : (s'.channel p).capacity = (s.channel p).capacity := by
  rw [h.channel]

theorem Purged.hasCapacity {C : Path → Prop} (h : Purged C s s') :
    (s'.channel p).HasCapacity ↔ (s.channel p).HasCapacity := by
  rw [HasCapacity, HasCapacity, h.sequential, h.failed, h.capacity, h.running]

theorem Purged.sight {C : Path → Prop} (h : Purged C s s') : s'.sight x p = s.sight x p := by
  rw [Channels.sight, Channels.sight, Channel.sight, Channel.sight, h.held, h.running, h.failed]

theorem Purged.kept {C : Path → Prop} (h : Purged C s s') (hk : s.Kept) : s'.Kept := by
  refine ⟨fun q => h.tidy q (hk.tidy q), fun q r hr => ?_, fun q hpause => ?_⟩
  · rw [h.job]
    exact hk.ownEta q r (h.etaHeap q hr)
  · rw [h.pauseUntil] at hpause
    rw [h.throttle]
    exact hk.throttled q hpause

theorem Purged.mentions {C : Path → Prop} (h : Purged C s s') (hx : s'.Mentions x) : s.Mentions x := by
  obtain ⟨q, hq⟩ := hx
  rw [Refers, h.heap, h.running, h.failed] at hq
  exact ⟨q, hq.imp_right fun hq => hq.imp_left fun hq => h.etaHeap q hq⟩

theorem Purged.spent {C : Path → Prop} (h : Purged C s s') :
    Spent now (s'.channel p) s'.job ↔ Spent now (s.channel p) s.job := by
  rw [Spent, Spent, Drained, Drained, h.hasCapacity, h.held, h.sequential, h.throttle, h.pauseUntil, h.job]

/-! ### What it means that no wakeup is asked for -/

/-- A channel with capacity is paused beyond `t`, or has nothing due by `t` and
its children have nothing for it. -/
def Dozes (t : Int) (c : Channel) (jobs : Jobs) (below : Prop) : Prop :=
  c.HasCapacity → (c.pauseUntil ≠ 0 → t < c.pauseUntil) ∧
    (c.pauseUntil = 0 → (∀ x ∈ c.queue.held, ¬ (jobs x).Due t) ∧ below)

def Asleep (t : Int) (s : Channels) : Path → Subchannels → Prop
  | _, .none => True
  | p, .more name children siblings =>
    Dozes t (s.channel (name :: p)) s.job (Asleep t s (name :: p) children) ∧ Asleep t s p siblings

theorem dozes_congr {c c' : Channel} {jobs jobs' : Jobs} {below below' : Prop} (hcap : c'.HasCapacity → c.HasCapacity)
    (hpause : c'.pauseUntil = c.pauseUntil) (hheld : c'.queue.held = c.queue.held)
    (hjobs : ∀ x ∈ c.queue.held, jobs' x = jobs x) (hbelow : below → below') (h : Dozes t c jobs below) :
    Dozes t c' jobs' below' := by
  intro hc
  obtain ⟨h1, h2⟩ := h (hcap hc)
  rw [hpause]
  refine ⟨h1, fun hz => ⟨fun x hx => ?_, hbelow (h2 hz).2⟩⟩
  rw [hheld] at hx
  rw [hjobs x hx]
  exact (h2 hz).1 x hx

theorem Asleep.congr (h : Asleep t s p tree)
    (heq : ∀ q, tree.Has p q → s'.channel q = s.channel q ∧ ∀ x ∈ (s.channel q).queue.held, s'.job x = s.job x) :
    Asleep t s' p tree := by
  induction tree generalizing p with
  | none => trivial
  | more n children siblings ihChildren ihSiblings =>
    obtain ⟨hself, hjobs⟩ := heq (n :: p) (Or.inl rfl)
    refine ⟨dozes_congr (by rw [hself]; exact id) (by rw [hself]) (by rw [hself]) hjobs ?_ h.1, ?_⟩
    · exact fun hbelow => ihChildren hbelow fun q hq => heq q (Or.inr (Or.inl hq))
    · exact ihSiblings h.2 fun q hq => heq q (Or.inr (Or.inr hq))

theorem Purged.asleep {C : Path → Prop} (h : Purged C s s') : Asleep t s' p tree ↔ Asleep t s p tree := by
  induction tree generalizing p with
  | none => exact Iff.rfl
  | more n children siblings ihChildren ihSiblings =>
    rw [Asleep, Asleep, ihSiblings]
    refine and_congr_left fun _ => ⟨?_, ?_⟩
    · exact dozes_congr h.hasCapacity.mpr h.pauseUntil.symm (h.held _).symm (fun x _ => by rw [h.job]) ihChildren.mp
    · exact dozes_congr h.hasCapacity.mp h.pauseUntil (h.held _) (fun x _ => by rw [h.job]) ihChildren.mpr

/-- What comes of asking: no request is lost, and if nothing is to be woken by
`t` the channels asked are asleep till then. -/
structure Asked (C : Path → Prop) (asleep : Int → Channels → Prop) (w : Int) (s : Channels) (asked : Int × Channels) :
    Prop where
  purged : Purged C s asked.2
  keeps : ∀ t, WakesBy w t → WakesBy asked.1 t
  asleep : ∀ t, ¬ WakesBy asked.1 t → asleep t s

theorem purged_queue (w : Int) :
    Purged (· = p) s
      (s.modify p fun c => { c with queue := ((s.channel p).queue.getWakeupTime s.job w).2 }) := by
  have hself : ∀ q, q ≠ p →
      (s.modify p fun c => { c with queue := ((s.channel p).queue.getWakeupTime s.job w).2 }).channel q = s.channel q :=
    fun q hq => channel_modify_of_ne hq
  refine ⟨rfl, fun q => ?_, hself, fun q => ?_, fun q => ?_, fun q => ?_, fun q => ?_, fun q ht => ?_⟩
  · by_cases hq : q = p
    · subst hq
      rw [channel_modify_self]
    · rw [hself q hq]
  · by_cases hq : q = p
    · subst hq
      rw [channel_modify_self]
      exact held_getWakeupTime w
    · rw [hself q hq]
  · by_cases hq : q = p
    · subst hq
      rw [channel_modify_self]
      exact sequential_getWakeupTime w
    · rw [hself q hq]
  · by_cases hq : q = p
    · subst hq
      rw [channel_modify_self]
      exact queue_getWakeupTime w
    · rw [hself q hq]
  · by_cases hq : q = p
    · subst hq
      rw [channel_modify_self]
      exact etaHeap_getWakeupTime w
    · rw [hself q hq]
      exact List.Subset.refl _
  · by_cases hq : q = p
    · subst hq
      rw [channel_modify_self]
      exact ht.getWakeupTime w
    · rw [hself q hq]
      exact ht

theorem asked_wakeupAt {C : Path → Prop} {asleep : Int → Channels → Prop} {ofChildren : Int → Channels → Int × Channels}
    (hk : s.Kept) (hchildren : ∀ w s, s.Kept → Asked C asleep w s (ofChildren w s))
    (hpurged : ∀ {C s s'} t, Purged C s s' → asleep t s' → asleep t s) :
    Asked (fun q => q = p ∨ C q) (fun t s => Dozes t (s.channel p) s.job (asleep t s)) w s
      (wakeupAt p ofChildren w s) := by
  rw [wakeupAt]
  dsimp only
  by_cases hcap : (s.channel p).HasCapacity
  · rw [if_neg (not_not.mpr hcap)]
    by_cases hpause : (s.channel p).pauseUntil ≠ 0
    · rw [if_pos hpause]
      have hmin := wakesBy_min (w := w) hpause
      refine ⟨Purged.refl, hmin.2, fun t ht _ => ⟨fun _ => ?_, fun hz => (hpause hz).elim⟩⟩
      by_contra hle
      exact ht ⟨hmin.1.1, hmin.1.2.trans (not_lt.mp hle)⟩
    · rw [if_neg hpause]
      have hqueue := purged_queue (s := s) (p := p) w
      have hwakes := (hk.tidy p).wakesBy w
      have hasked := hchildren ((s.channel p).queue.getWakeupTime s.job w).1 _ (hqueue.kept hk)
      refine ⟨hqueue.trans hasked.purged fun q => id, fun t ht => hasked.keeps t (hwakes.1 t ht), fun t ht _ => ?_⟩
      refine ⟨fun hne => (hpause hne).elim, fun _ => ⟨fun x hx hdue => ht ?_, hpurged t hqueue (hasked.asleep t ht)⟩⟩
      obtain ⟨e, he, hle⟩ := hdue
      have hby := hwakes.2 x hx e he
      exact hasked.keeps t ⟨hby.1, hby.2.trans hle⟩
  · rw [if_pos hcap]
    exact ⟨Purged.refl, fun _ => id, fun t _ hc => (hcap hc).elim⟩

theorem asked_wakeupOfChildren (hk : s.Kept) :
    Asked (tree.Has p) (fun t s => Asleep t s p tree) w s (wakeupOfChildren p tree w s) := by
  induction tree generalizing p w s with
  | none => exact ⟨Purged.refl, fun _ => id, fun _ _ => trivial⟩
  | more n children siblings ihChildren ihSiblings =>
    rw [wakeupOfChildren]
    have hfirst := asked_wakeupAt (p := n :: p) (w := w) hk (fun w s hk => ihChildren (p := n :: p) (w := w) hk)
      fun t h => h.asleep.mp
    have hrest := ihSiblings (p := p) (w := (wakeupAt (n :: p) (wakeupOfChildren (n :: p) children) w s).1)
      (hfirst.purged.kept hk)
    refine ⟨hfirst.purged.trans hrest.purged fun q hq => ?_, fun t ht => hrest.keeps t (hfirst.keeps t ht),
      fun t ht => ⟨hfirst.asleep t fun hw => ht (hrest.keeps t hw), hfirst.purged.asleep.mp (hrest.asleep t ht)⟩⟩
    rcases hq with (hq | hq) | hq
    · exact Or.inl hq
    · exact Or.inr (Or.inl hq)
    · exact Or.inr (Or.inr hq)

theorem asked_getWakeupTime (tree : Subchannels) (hk : s.Kept) :
    Asked (fun q => q = [] ∨ tree.Has [] q)
      (fun t s => Dozes t (s.channel []) s.job (Asleep t s [] tree)) 0 s (getWakeupTime tree s) :=
  asked_wakeupAt hk (fun _ _ hk => asked_wakeupOfChildren hk) fun _ h => h.asleep.mp

/-! ### Nothing is missed -/

theorem yieldJobs_eq_nil_of_paused {c : Channel} {jobs : Jobs}
    (h : c.HasCapacity → c.throttle ≠ 0 ∧ c.pauseUntil ≠ 0 ∧ t < c.pauseUntil) : (c.yieldJobs t jobs).taken = [] := by
  rw [yieldJobs]
  by_cases hcap : c.HasCapacity
  · obtain ⟨hthrottle, hpause, hlt⟩ := h hcap
    rw [if_pos ⟨hthrottle, hpause⟩, if_pos hlt]
  · split
    · split
      · rfl
      · exact yieldWithin_taken_eq_nil fun hc => (hcap hc).elim
    · exact yieldWithin_taken_eq_nil fun hc => (hcap hc).elim

/-- No pause of the channel ends at the epoch. -/
def SpentAt (now : Int) (s : Channels) (q : Path) : Prop :=
  Spent now (s.channel q) s.job ∧ ((s.channel q).throttle ≠ 0 → now + (s.channel q).throttle ≠ 0)

/-- A channel that dozes yields nothing, as long as no more than its queue was
changed since, and that only if it would yield nothing anyway. -/
theorem Dozes.yieldJobs_eq_nil {c : Channel} {below : Prop} (h : Dozes t (s.channel p) s.job below) (hk : s.Kept)
    (hspent : SpentAt now s p) (hfed : Fed (s.channel p) c) (hsame : below → c = s.channel p) {jobs : Jobs}
    (hjobs : ∀ x ∈ (s.channel p).queue.held, jobs x = s.job x) (htidy : Tidy jobs c.queue) :
    (c.yieldJobs t jobs).taken = [] := by
  have hpauseUntil : c.pauseUntil = (s.channel p).pauseUntil := by rw [hfed.channel]
  by_cases hcap : (s.channel p).HasCapacity
  · obtain ⟨hpause, hzero⟩ := h hcap
    by_cases hz : (s.channel p).pauseUntil = 0
    · obtain ⟨hdue, hbelow⟩ := hzero hz
      obtain rfl := hsame hbelow
      refine (spent_congr hspent.1 hjobs).yieldJobs_eq_nil htidy (hk.throttled p) hspent.2 (fun _ => hpause) ?_
      intro _ _ x hx
      rw [hjobs x hx]
      exact hdue x hx
    · refine yieldJobs_eq_nil_of_paused fun _ => ?_
      rw [hfed.throttle, hpauseUntil]
      exact ⟨hk.throttled p hz, hz, hpause hz⟩
  · exact yieldJobs_eq_nil_of_paused fun hc => (hcap (hfed.hasCapacity.mp hc)).elim

theorem fromChildren_of_asleep (hk : s.Kept) (hd : tree.Distinct) (hspent : ∀ q, tree.Has p q → SpentAt now s q)
    (ha : Asleep t s p tree) : (fromChildren t p tree s).channel p = s.channel p := by
  induction tree generalizing p s with
  | none => rfl
  | more n children siblings ihChildren ihSiblings =>
    obtain ⟨hnot, hdChildren, hdSiblings⟩ := hd
    have hpn : p ≠ n :: p := (List.cons_ne_self n p).symm
    obtain ⟨h1, hfed⟩ := passed_fromChildren t hk hdChildren (p := n :: p)
    have hchildren := ihChildren (p := n :: p) hk hdChildren fun q hq => hspent q (Or.inr (Or.inl hq))
    have hheld : ∀ x ∈ (s.channel (n :: p)).queue.held, (fromChildren t (n :: p) children s).job x = s.job x :=
      fun x hx => h1.moves.job_of_held hk (fun hc => hc.ne rfl) hx
    have hnil : (Channels.yieldAt t (n :: p) (fromChildren t (n :: p) children s)).1 = [] :=
      ha.1.yieldJobs_eq_nil hk (hspent _ (Or.inl rfl)) hfed hchildren hheld (h1.kept.tidy _)
    obtain ⟨h2, -⟩ := h1.kept.passed_passOn t (n := n) (p := p)
    have hsame : (passOn t n p (fromChildren t (n :: p) children s)).channel p = s.channel p := by
      rw [passOn, hnil, enqueue, channel_modify_self]
      dsimp only [List.foldl_nil]
      rw [channel_yieldAt_of_ne hpn]
      refine h1.moves.channel p ?_
      rintro (hc | hc)
      · exact hpn hc
      · exact hc.not_above
    -- the siblings are not concerned by what happens under this child
    have hsibling : ∀ q, siblings.Has p q →
        (passOn t n p (fromChildren t (n :: p) children s)).channel q = s.channel q ∧
          ∀ x ∈ (s.channel q).queue.held, (passOn t n p (fromChildren t (n :: p) children s)).job x = s.job x := by
      intro q hq
      have hout : ∀ q', n :: p <:+ q' → q ≠ q' := by
        rintro q' hsuf rfl
        exact Subchannels.Has.not_siblings hsuf hnot hq
      have hC1 : ¬ (q = n :: p ∨ children.Has (n :: p) q) := by
        rintro (hc | hc)
        · exact hout _ List.suffix_rfl hc
        · exact hout q hc.suffix rfl
      have hfirst := h1.moves.channel q hC1
      constructor
      · rw [h2.moves.channel q, hfirst]
        rintro (hc | hc)
        · exact hC1 (Or.inl hc)
        · exact hq.ne hc
      · intro x hx
        rw [h2.moves.job_of_held h1.kept (p := q) (fun hc => hC1 (Or.inl hc)) (hfirst.symm ▸ hx)]
        exact h1.moves.job_of_held hk (fun hc => hC1 (Or.inr hc)) hx
    rw [fromChildren, ihSiblings h2.kept hdSiblings (fun q hq => ?_) (ha.2.congr hsibling), hsame]
    obtain ⟨hchannel, hjobs⟩ := hsibling q hq
    rw [SpentAt, hchannel]
    have hsp := hspent q (Or.inr (Or.inr hq))
    exact ⟨spent_congr hsp.1 hjobs, hsp.2⟩

/-- Once all that could be sent at `now` is sent, nothing can be sent at `t`
unless the wakeup that the channels then ask for has come. -/
theorem getJobsToRun_eq_nil (hk : s.Kept) (hp : s.WellPlaced) (hd : tree.Distinct)
    (hthrottle : ∀ q, (s.channel q).throttle ≠ 0 → now + (s.channel q).throttle ≠ 0)
    (ht : ¬ WakesBy (getWakeupTime tree (getJobsToRun now tree s).2).1 t) :
    (getJobsToRun t tree (getWakeupTime tree (getJobsToRun now tree s).2).2).1 = [] := by
  obtain ⟨hpassed, -⟩ := passed_getJobsToRun now hk hp hd
  generalize (getJobsToRun now tree s).2 = s₁ at ht hpassed ⊢
  obtain ⟨hpurged, -, hasleep⟩ := asked_getWakeupTime tree hpassed.kept
  have hdozes := hasleep t ht
  generalize (getWakeupTime tree s₁).2 = s₂ at hpurged ⊢
  have hspent : ∀ q, q = [] ∨ tree.Has [] q → SpentAt now s₂ q := by
    intro q hq
    have hserved := hpassed.served q hq
    refine ⟨hpurged.spent.mpr hserved.spent, ?_⟩
    rw [hpurged.throttle, hserved.throttle]
    exact hthrottle q
  have hk2 := hpurged.kept hpassed.kept
  have hdozes2 : Dozes t (s₂.channel []) s₂.job (Asleep t s₂ [] tree) :=
    dozes_congr hpurged.hasCapacity.mp hpurged.pauseUntil (hpurged.held _) (fun x _ => by rw [hpurged.job])
      hpurged.asleep.mpr hdozes
  obtain ⟨h1, hfed⟩ := passed_fromChildren t hk2 hd (p := [])
  have hchildren := fromChildren_of_asleep (p := []) hk2 hd (fun q hq => hspent q (Or.inr hq)) (t := t)
  rw [getJobsToRun]
  exact hdozes2.yieldJobs_eq_nil hk2 (hspent [] (Or.inl rfl)) hfed hchildren
    (fun x hx => h1.moves.job_of_held hk2 (fun hc => hc.ne rfl) hx) (h1.kept.tidy _)

end Channels

end JobQueue
