import PropzaAmlak.JobQueue.RunnerSafety

/-! Why a job is not run, and how many run below each channel. -/

namespace JobQueue

open ChannelQueue Channel Channels Place Manager

namespace Runner

variable {w : Runner} {u : String} {r : Ref} {p own : Path} {now n : Int} {c : Channel} {jobs : Jobs} {e : Event}
  {events : List Event} {place : Place}

/-! ### No job is forgotten -/

/-- Why a job stays in the queue of a channel. -/
inductive HeldBack (now : Int) (c : Channel) (jobs : Jobs) (r : Ref) : Prop where
  | full (h : ¬ c.HasCapacity)
  | paused (h : c.throttle ≠ 0) (h' : c.pauseUntil = now + c.throttle ∨ now < c.pauseUntil)
  | early (t : Eta) (h : (jobs r).eta = some t) (h' : now < t.val)
  | inSequence (h : c.queue.sequential) (first : Ref) (hfirst : first ∈ c.queue.held) (t : Eta)
    (heta : (jobs first).eta = some t) (h' : now < t.val)
    (hmin : ∀ x ∈ c.queue.held, (jobs x).eta.isSome → jobs.key first ≤ jobs.key x)
    (hlt : ∀ x ∈ c.queue.held, (jobs x).eta = none →
      (jobs first).sortingKeyIgnoringEta < (jobs x).sortingKeyIgnoringEta)

theorem heldBack_of_spent (h : Spent now c jobs) (hr : r ∈ c.queue.held) : HeldBack now c jobs r := by
  by_cases hcap : c.HasCapacity
  · rcases h hcap with ⟨⟨hdue, hrest⟩, -⟩ | ⟨hthrottle, hpause⟩
    · have hearly : ∀ x ∈ c.queue.held, ∀ t : Eta, (jobs x).eta = some t → now < t.val := by
        intro x hx t ht
        by_contra hle
        exact hdue x hx ⟨t, ht, not_lt.mp hle⟩
      rcases hrest with htimed | ⟨hseq, first, hfirst, htimed, hmin, hlt⟩
      · obtain ⟨t, ht⟩ := Option.isSome_iff_exists.mp (htimed r hr)
        exact .early t ht (hearly r hr t ht)
      · obtain ⟨t, ht⟩ := Option.isSome_iff_exists.mp htimed
        exact .inSequence hseq first hfirst t ht (hearly first hfirst t ht) hmin hlt
    · exact .paused hthrottle (hpause.imp_right And.left)
  · exact .full hcap

theorem Consistent.queued_of_pending (h : w.Consistent) (hready : w.phase = .ready) (hu : w.Pending u)
    (hnotes : u ∉ w.notifies) : (∃ r ∈ w.sending, w.uuid r = u) ∨
      ∃ r p, w.manager.jobsByUuid u = some r ∧ p <:+ (w.manager.channels.job r).channel ∧
        w.manager.children.IsChannel p ∧ r ∈ (w.manager.channels.channel p).queue.held := by
  obtain ⟨row, hrow, hpending⟩ := hu
  obtain ⟨⟨own, place, hs, hfits⟩, -⟩ := h.agrees hready u hnotes
  rcases hfits with hfits | ⟨-, -, hsending⟩
  · rw [hrow, RowFits, hpending] at hfits
    obtain ⟨k, hk, rfl⟩ := hfits
    cases hreg : w.manager.jobsByUuid u with
    | none => cases (stands_none hreg).mp hs
    | some r =>
      obtain ⟨rfl, hat, hproper⟩ := (stands_some hreg).mp hs
      obtain ⟨p, hp, hlen⟩ := hproper.queued hk
      exact Or.inr ⟨r, p, rfl, hp, (h.sound.entry u r hreg).2.2.of_suffix hp, hat.queued.mpr ⟨hp, hlen⟩⟩
  · exact Or.inl hsending

/-- When the notifications are processed and the jobs to run are got, each pending
job is sent, or there is a reason in one of its channels why it is not. -/
theorem pending_sent_or_held (h : w.Start) (hfree : (Tx.after Runner.step w events).Free)
    (hnotes : (Tx.after Runner.step w events).notifies = [])
    (hu : ((Tx.after Runner.step w events).step (.getJobsToRun now)).Pending u) :
    (∃ r ∈ ((Tx.after Runner.step w events).step (.getJobsToRun now)).sending,
      ((Tx.after Runner.step w events).step (.getJobsToRun now)).uuid r = u) ∨
    ∃ r p, ((Tx.after Runner.step w events).step (.getJobsToRun now)).manager.jobsByUuid u = some r ∧
      p <:+ (((Tx.after Runner.step w events).step (.getJobsToRun now)).manager.channels.job r).channel ∧
      r ∈ (((Tx.after Runner.step w events).step (.getJobsToRun now)).manager.channels.channel p).queue.held ∧
      HeldBack now (((Tx.after Runner.step w events).step (.getJobsToRun now)).manager.channels.channel p)
        ((Tx.after Runner.step w events).step (.getJobsToRun now)).manager.channels.job r := by
  have hbefore := h.always_consistent events List.prefix_rfl
  generalize Tx.after Runner.step w events = w₁ at hfree hnotes hu hbefore ⊢
  have hafter := hbefore.step (.getJobsToRun now)
  have hrun := hbefore.sound.getJobsToRun now
  rw [Runner.step, if_pos hfree] at hu hafter ⊢
  have hquiet : u ∉ (w₁.getJobsToRun now).notifies := by
    have hsame : (w₁.getJobsToRun now).notifies = w₁.notifies := rfl
    rw [hsame, hnotes]
    exact List.not_mem_nil
  rcases hafter.queued_of_pending hfree.1 hu hquiet with hsent | ⟨r, p, hreg, hp, hchannel, hheld⟩
  · exact Or.inl hsent
  · exact Or.inr ⟨r, p, hreg, hp, hheld, heldBack_of_spent (hrun.passed.served p hchannel).spent hheld⟩

theorem two_jobs_accounted :
    (∃ r ∈ ((Tx.after Runner.step oneAtATime opening).step (.getJobsToRun 0)).sending,
      ((Tx.after Runner.step oneAtATime opening).step (.getJobsToRun 0)).uuid r = "b") ∨
    ∃ r p, ((Tx.after Runner.step oneAtATime opening).step (.getJobsToRun 0)).manager.jobsByUuid "b" = some r ∧
      p <:+ (((Tx.after Runner.step oneAtATime opening).step (.getJobsToRun 0)).manager.channels.job r).channel ∧
      r ∈ (((Tx.after Runner.step oneAtATime opening).step (.getJobsToRun 0)).manager.channels.channel p).queue.held ∧
      HeldBack 0 (((Tx.after Runner.step oneAtATime opening).step (.getJobsToRun 0)).manager.channels.channel p)
        ((Tx.after Runner.step oneAtATime opening).step (.getJobsToRun 0)).manager.channels.job r :=
  pending_sent_or_held start_oneAtATime (by decide +kernel) (by decide +kernel) (by decide +kernel)

/-! ### The capacity of every channel -/

/-- The active jobs of the channel at `p` and of those below it. -/
def activeIn (w : Runner) (p : Path) : Finset String :=
  w.rows.active.filter fun u => ∃ r ∈ w.manager.jobsByUuid u, p <:+ (w.manager.channels.job r).channel

def Within (w : Runner) : Prop :=
  ∀ p n, (w.manager.channels.channel p).capacity = some n → n ≠ 0 → ((w.manager.runningIn p).card : Int) ≤ n

/-- No active job is moved into another channel, and what is active when the
databases are opened fits. -/
def Orderly (w : Runner) (e : Event) : Prop :=
  (∀ p, Stays p w e) ∧ ∀ order, e = .initializeDatabases order → (w.step e).Within

theorem Consistent.activeIn_subset (h : w.Consistent) : w.activeIn p ⊆ w.manager.runningIn p := by
  intro u hu
  obtain ⟨hactive, r, hreg, hp⟩ := Finset.mem_filter.mp hu
  by_cases hready : w.phase = .ready
  · obtain ⟨own, hs⟩ := h.running hready u hactive
    refine h.sound.mem_runningIn.mpr ⟨own, 0, hs, ?_, Nat.zero_le _⟩
    rw [← ((stands_some hreg).mp hs).1]
    exact hp
  · rw [(h.closed hready).1 u] at hreg
    cases hreg

theorem Within.step (h : w.Consistent) (hw : w.Within) (he : Orderly w e) : (w.step e).Within := by
  intro p n hc hn
  have hcapacity : (w.manager.channels.channel p).capacity = some n := ((h.sameSettings e p).1).symm.trans hc
  cases e with
  | getJobsToRun now =>
    have hp : w.manager.children.IsChannel p := by
      by_contra hp
      rw [h.sound.fresh p hp] at hcapacity
      cases hcapacity
    rw [Runner.step]
    split
    · exact runningIn_getJobsToRun h hcapacity hp hn (hw p n hcapacity hn)
    · exact hw p n hcapacity hn
  | initializeDatabases order => exact he.2 order rfl p n hc hn
  | row u a => exact cast_card_le (h.runningIn_step (he.1 p) (by simp) (by simp)) (hw p n hcapacity hn)
  | requeueDead u => exact cast_card_le (h.runningIn_step (he.1 p) (by simp) (by simp)) (hw p n hcapacity hn)
  | processNotification u => exact cast_card_le (h.runningIn_step (he.1 p) (by simp) (by simp)) (hw p n hcapacity hn)
  | send => exact cast_card_le (h.runningIn_step (he.1 p) (by simp) (by simp)) (hw p n hcapacity hn)
  | getWakeupTime => exact cast_card_le (h.runningIn_step (he.1 p) (by simp) (by simp)) (hw p n hcapacity hn)
  | collect u => exact cast_card_le (h.runningIn_step (he.1 p) (by simp) (by simp)) (hw p n hcapacity hn)
  | closeDatabases => exact cast_card_le (h.runningIn_step (he.1 p) (by simp) (by simp)) (hw p n hcapacity hn)
  | listen => exact cast_card_le (h.runningIn_step (he.1 p) (by simp) (by simp)) (hw p n hcapacity hn)

theorem Start.within (h : w.Start) (hc : ∀ p, ∀ n ∈ (w.manager.channels.channel p).capacity, 0 ≤ n) : w.Within := by
  intro p n hcap _
  rw [runningIn_eq_empty h.idle.sound h.idle.jobsByUuid]
  exact hc p n hcap

/-- As long as no active job is moved between channels, there are never more jobs
active below a channel than it has capacity for. -/
theorem active_le_capacity_below (h : w.Start) (hc : ∀ p, ∀ n ∈ (w.manager.channels.channel p).capacity, 0 ≤ n)
    (horderly : Tx.EachStep Runner.step Orderly w events) :
    Tx.Always Runner.step (fun w => ∀ p n, (w.manager.channels.channel p).capacity = some n → n ≠ 0 →
      ((w.activeIn p).card : Int) ≤ n) w events := by
  have hboth : Tx.Always Runner.step (fun w => w.Consistent ∧ w.Within) w events :=
    Tx.always_of_allowed ⟨h.consistent, h.within hc⟩ (fun w e hw he => ⟨hw.1.step e, hw.2.step hw.1 he⟩) horderly
  intro before hbefore p n hcap hn
  obtain ⟨hconsistent, hwithin⟩ := hboth before hbefore
  exact cast_card_le hconsistent.activeIn_subset (hwithin p n hcap hn)

/-- A job that is told where it is already is not moved. -/
theorem stays_of_same (hsame : ∀ row ∈ w.rows.find u, row.Active → ∀ r ∈ w.manager.jobsByUuid u,
    ∀ x ∈ (getChannelByName w.manager.children row.channel false true).toOption,
      x.1 = (w.manager.channels.job r).channel) : Stays p w (.processNotification u) := by
  intro row hrow hactive path children own hpath hs hp
  cases hreg : w.manager.jobsByUuid u with
  | none => cases (stands_none hreg).mp hs
  | some r =>
    rw [← ((stands_some hreg).mp hs).1, ← hsame row hrow hactive r hreg (path, children) (by rw [hpath]; rfl)]
    exact hp

/-- One job at a time runs below the root; `a` is at it, and `b` comes next. -/
def oneBelow : Runner where
  dbName := "propza"
  rows := ⟨{"a", "b"}, fun u =>
    ⟨if u = "a" then .started else .pending, some "root.sub", if u = "a" then 1 else 2, 0, 10, none, some 0, some 5⟩⟩
  phase := .closed
  notifies := []
  manager :=
    { Manager.init with
      channels :=
        { Manager.init.channels with
          channel := fun p => { capacity := if p = [] then some 2 else if p = ["sub"] then some 1 else none } }
      children := .more "sub" .none .none }
  sending := []

/-- `a` is done. -/
def performing : List Event :=
  opening ++ [.getJobsToRun 0] ++ [.row "a" (.performed (oneBelow.rows.row "a"))] ++ [.processNotification "a"]

/-- Then `b` is sent. -/
def inTurn : List Event := performing ++ [.getJobsToRun 1] ++ [.send] ++ [.processNotification "b"]

theorem capacity_oneBelow {n : Int} (hc : (oneBelow.manager.channels.channel p).capacity = some n) :
    p = [] ∧ n = 2 ∨ p = ["sub"] ∧ n = 1 := by
  rw [oneBelow] at hc
  dsimp only at hc
  split at hc
  · rename_i hp
    exact Or.inl ⟨hp, (Option.some.inj hc).symm⟩
  · split at hc
    · rename_i hp
      exact Or.inr ⟨hp, (Option.some.inj hc).symm⟩
    · cases hc

theorem start_oneBelow : oneBelow.Start := by
  refine ⟨⟨⟨by simp [Subchannels.names], trivial, trivial⟩, fun _ => rfl, fun p => rfl, fun p hp => ?_⟩, rfl, rfl⟩
  have hroot : p ≠ [] := fun heq => hp (Or.inl heq)
  have hsub : p ≠ ["sub"] := by
    rintro rfl
    exact hp (@Subchannels.isChannel_of_contains oneBelow.manager.children ["sub"] rfl)
  simp [oneBelow, hroot, hsub]

theorem within_oneBelow :
    ((Tx.after Runner.step oneBelow [.listen]).step (.initializeDatabases ["a", "b"])).Within := by
  intro p n hc hn
  have hlistening := start_oneBelow.consistent.step .listen
  have hfirst := (start_oneBelow.consistent.sameSettings .listen p).1
  have hsecond := (hlistening.sameSettings (.initializeDatabases ["a", "b"]) p).1
  rcases capacity_oneBelow (hfirst.symm.trans (hsecond.symm.trans hc)) with ⟨rfl, rfl⟩ | ⟨rfl, rfl⟩
  · decide +kernel
  · decide +kernel

theorem two_jobs_fit : Tx.Always Runner.step (fun w => ∀ p n,
    (w.manager.channels.channel p).capacity = some n → n ≠ 0 → ((w.activeIn p).card : Int) ≤ n) oneBelow inTurn := by
  refine active_le_capacity_below start_oneBelow (fun p n hn => ?_) ?_
  · rcases capacity_oneBelow hn with ⟨-, rfl⟩ | ⟨-, rfl⟩
    · decide
    · decide
  have hopened : Tx.EachStep Runner.step Orderly oneBelow opening :=
    Tx.eachStep_concat.mpr ⟨Tx.eachStep_concat.mpr ⟨Tx.eachStep_nil, fun _ => trivial, by simp⟩, fun _ => trivial,
      fun order horder => by cases horder; exact within_oneBelow⟩
  have hperformed : Tx.EachStep Runner.step Orderly oneBelow performing :=
    Tx.eachStep_concat.mpr ⟨Tx.eachStep_concat.mpr ⟨Tx.eachStep_concat.mpr ⟨hopened, fun _ => trivial, by simp⟩,
      fun _ => trivial, by simp⟩, fun _ => stays_of_same (by decide +kernel), by simp⟩
  exact Tx.eachStep_concat.mpr ⟨Tx.eachStep_concat.mpr ⟨Tx.eachStep_concat.mpr ⟨hperformed, fun _ => trivial, by simp⟩,
    fun _ => trivial, by simp⟩, fun _ => stays_of_same (by decide +kernel), by simp⟩

end Runner

end JobQueue
