import PropzaAmlak.JobQueue.ConfigRules

/-! What holds of the jobs in the channels, whatever the manager was told. -/

namespace JobQueue

open ChannelQueue Channel Channels Place

namespace Manager

variable {m : Manager} {r x : Ref} {p : Path} {now t n : Int} {actions : List Action} {place : Place}

/-! ### One place for each job -/

/-- The place of a job, if any: a job that is in some channel is the one that is
registered under its uuid. -/
structure PlacedAt (m : Manager) (r : Ref) (place : Place) : Prop where
  proper : Proper (m.channels.job r).channel place
  atPlace : m.channels.At (m.channels.job r).channel r place
  registered : place ≠ .absent → m.jobsByUuid (m.channels.job r).uuid = some r

/-- A job waits in one queue at most and runs in all the channels below it, or it
has failed in its own; and no channel has two jobs of one uuid. -/
theorem one_place (h : m.Idle) : Tx.Always Manager.act (fun m => ∀ r, ∃ place, PlacedAt m r place ∧
    ∀ place', PlacedAt m r place' → place' = place) m actions := by
  intro before hbefore r
  have hsound := h.always_sound actions before hbefore
  obtain ⟨place, hat, hproper⟩ := hsound.placed.at (r := r)
  refine ⟨place, ⟨hproper, hat, fun hne => ?_⟩, fun place' hp => hp.atPlace.unique hat hp.proper hproper⟩
  obtain ⟨p, hp⟩ := hat.exists_sight hproper hne
  exact hsound.registered r p hp

/-- A job with a place is told, let pass and told again. -/
def toldTwice : List Action :=
  [.notify "propza" ⟨none, "a", 1, 0, 10, none, .pending⟩, .getJobsToRun 0,
    .notify "propza" ⟨some "root.late", "a", 1, 0, 5, none, .failed⟩]

theorem one_place_told_twice : Tx.Always Manager.act (fun m => ∀ r, ∃ place, PlacedAt m r place ∧
    ∀ place', PlacedAt m r place' → place' = place) init toldTwice :=
  one_place idle_init

/-- The two heaps of a channel are heaps, and no comparison in them is one of a
number with `None`. -/
theorem queues_tidy (h : m.Idle) : Tx.Always Manager.act (fun m => ∀ p,
    Tidy m.channels.job (m.channels.channel p).queue) m actions :=
  fun before hbefore p => (h.always_sound actions before hbefore).kept.tidy p

theorem queues_tidy_told_twice : Tx.Always Manager.act (fun m => ∀ p,
    Tidy m.channels.job (m.channels.channel p).queue) init toldTwice :=
  queues_tidy idle_init

/-! ### Getting the jobs to run -/

/-- The capacity of a channel is kept, and a channel without capacity lets nothing
pass. -/
structure KeepsCapacity (c c' : Channel) : Prop where
  limit : ∀ n, c.capacity = some n → n ≠ 0 → (c'.running.card : Int) ≤ max (c.running.card : Int) n
  blocked : ¬ c.HasCapacity → c'.running = c.running
  running : c.running ⊆ c'.running

theorem keepsCapacity_of_served {c c' : Channel} {jobs : Jobs} (h : Served now c c' jobs) : KeepsCapacity c c' := by
  refine ⟨fun n hc hn => ?_, h.blocked, h.running⟩
  by_cases hle : (c.running.card : Int) ≤ n
  · exact (h.limit n hc hn hle).trans (le_max_right _ _)
  · have hfull : ¬ c.HasCapacity := fun hcap => hle (hcap.2 n hc hn).le
    rw [h.blocked hfull]
    exact le_max_left _ _

theorem Sound.served_or_same (now : Int) (h : m.Sound) (p : Path) :
    Served now (m.channels.channel p) ((m.getJobsToRun now).2.channels.channel p) (m.getJobsToRun now).2.channels.job ∨
      (m.getJobsToRun now).2.channels.channel p = {} ∧ m.channels.channel p = {} := by
  have hrun := h.getJobsToRun now
  by_cases hp : m.children.IsChannel p
  · exact Or.inl (hrun.passed.served p hp)
  · exact Or.inr ⟨(hrun.passed.moves.channel p hp).trans (h.fresh p hp), h.fresh p hp⟩

theorem capacity_kept (h : m.Idle) : Tx.Always Manager.act (fun m => ∀ now p,
    KeepsCapacity (m.channels.channel p) ((m.getJobsToRun now).2.channels.channel p)) m actions := by
  intro before hbefore now p
  have hsound := h.always_sound actions before hbefore
  rcases hsound.served_or_same now p with hserved | ⟨hafter, hwas⟩
  · exact keepsCapacity_of_served hserved
  · rw [hafter, hwas]
    refine ⟨fun n hc _ => ?_, fun _ => rfl, Finset.Subset.refl _⟩
    cases hc

theorem capacity_kept_told_twice : Tx.Always Manager.act (fun m => ∀ now p,
    KeepsCapacity (m.channels.channel p) ((m.getJobsToRun now).2.channels.channel p)) init toldTwice :=
  capacity_kept idle_init

/-- The jobs that are let pass come before those left behind, and they are sent in
order. -/
structure InOrder (m m' : Manager) (sent : List Ref) : Prop where
  nodup : sent.Nodup
  mem : ∀ r, r ∈ sent ↔ r ∈ (m'.channels.channel []).running ∧ r ∉ (m.channels.channel []).running
  sorted : sent.Pairwise fun a b => m'.channels.job.key a ≤ m'.channels.job.key b
  first : ∀ p r x, r ∈ (m'.channels.channel p).running → r ∉ (m.channels.channel p).running →
    x ∈ (m'.channels.channel p).queue.held → (m'.channels.job x).eta = none →
      (m'.channels.job r).eta = none ∧ m'.channels.job.key r ≤ m'.channels.job.key x

theorem no_overtaking (h : m.Idle) : Tx.Always Manager.act (fun m => ∀ now,
    InOrder m (m.getJobsToRun now).2 (m.getJobsToRun now).1) m actions := by
  intro before hbefore now
  have hsound := h.always_sound actions before hbefore
  have hsent := (hsound.getJobsToRun now).sent
  refine ⟨hsent.nodup, hsent.mem, hsent.sorted, fun p r x hr hnot hx heta => ?_⟩
  rcases hsound.served_or_same now p with hserved | ⟨hafter, -⟩
  · obtain ⟨hnone, hfirst⟩ := hserved.first r hr hnot
    exact ⟨hnone, hfirst x hx heta⟩
  · rw [hafter] at hr
    simp at hr

theorem no_overtaking_told_twice : Tx.Always Manager.act (fun m => ∀ now,
    InOrder m (m.getJobsToRun now).2 (m.getJobsToRun now).1) init toldTwice :=
  no_overtaking idle_init

/-- No channel with capacity is left idle while a job waits in it that could be
taken. -/
theorem work_conserved (h : m.Idle) : Tx.Always Manager.act (fun m => ∀ now p,
    Spent now ((m.getJobsToRun now).2.channels.channel p) (m.getJobsToRun now).2.channels.job) m actions := by
  intro before hbefore now p
  have hsound := h.always_sound actions before hbefore
  rcases hsound.served_or_same now p with hserved | ⟨hafter, -⟩
  · exact hserved.spent
  · rw [hafter]
    intro _
    have hheld : ({} : Channel).queue.held = ∅ := rfl
    exact Or.inl ⟨⟨by simp [hheld], Or.inl (by simp [hheld])⟩, Or.inl rfl⟩

theorem work_conserved_told_twice : Tx.Always Manager.act (fun m => ∀ now p,
    Spent now ((m.getJobsToRun now).2.channels.channel p) (m.getJobsToRun now).2.channels.job) init toldTwice :=
  work_conserved idle_init

theorem Sound.sameSettings_act (h : m.Sound) (a : Action) : SameSettings m (m.act a) := by
  cases a with
  | notify dbName d =>
    rw [Manager.act]
    cases hn : m.notify dbName d with
    | ok m' => exact (h.notify hn).settings
    | error m' =>
      intro p
      rw [merge, (h.notify_error hn).2.1]
      exact ⟨rfl, rfl, rfl⟩
  | removeJob uuid => exact sameSettings_removeJob
  | removeDb dbName => exact h.removeDb.settings
  | getJobsToRun now => exact (h.getJobsToRun now).settings
  | getWakeupTime => exact h.getWakeupTime.settings
  | collect uuid =>
    intro p
    rw [Manager.act, collect_job]
    exact ⟨rfl, rfl, rfl⟩

theorem Idle.sameSettings (actions : List Action) (h : m.Idle) : SameSettings m (Tx.after Manager.act m actions) := by
  induction actions using List.reverseRecOn with
  | nil => exact SameSettings.refl
  | append_singleton actions a ih =>
    rw [Tx.after_concat]
    exact ih.trans ((h.always_sound actions actions List.prefix_rfl).sameSettings_act a)

/-- After the jobs to run are got nothing more can be sent until the wakeup time
that the channels ask for, unless the manager is told something. -/
theorem no_wakeup_missed (h : m.Idle)
    (hthrottle : ∀ q, (m.channels.channel q).throttle ≠ 0 → now + (m.channels.channel q).throttle ≠ 0)
    (ht : ¬ WakesBy (((Tx.after Manager.act m actions).getJobsToRun now).2.getWakeupTime).1 t) :
    ((((Tx.after Manager.act m actions).getJobsToRun now).2.getWakeupTime.2).getJobsToRun t).1 = [] := by
  have hsound := h.always_sound actions actions List.prefix_rfl
  refine getJobsToRun_eq_nil hsound.kept hsound.placed hsound.distinct (fun q => ?_) ht
  rw [(h.sameSettings actions q).2.1]
  exact hthrottle q

theorem hundred_ne_zero : (100 : Int) ≠ 0 := by decide

/-- A job that is to wait until 100. -/
def later : JobData := ⟨none, "a", 1, 0, 10, some ⟨100, hundred_ne_zero⟩, .pending⟩

theorem throttle_init (q : Path) : (init.channels.channel q).throttle = 0 := by
  rw [init]
  dsimp only
  split <;> rfl

theorem later_not_missed :
    ((((Tx.after Manager.act init [.notify "propza" later]).getJobsToRun 0).2.getWakeupTime.2).getJobsToRun 50).1 = [] :=
  no_wakeup_missed idle_init (fun q hq => (hq (throttle_init q)).elim) fun h => absurd h.2 (by decide)

end Manager

end JobQueue
