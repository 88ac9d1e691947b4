import PropzaAmlak.JobQueue.Notify

/-! The manager from its start on, whatever it is asked for. -/

namespace JobQueue

open ChannelQueue Channel Channels Place

namespace Channels

variable {s : Channels} {r : Ref} {own : Path} {place : Place}

theorem At.exists_sight (h : s.At own r place) (hp : Proper own place) (hne : place ≠ .absent) :
    ∃ p, s.sight r p ≠ nowhere := by
  cases place with
  | absent => exact (hne rfl).elim
  | failed =>
    refine ⟨own, ?_⟩
    rw [h own]
    simp [Place.sight, nowhere]
  | flowing m =>
    rcases h.flowing_present hp with ⟨p, hq⟩ | hr
    · refine ⟨p, fun hs => ?_⟩
      have hqueued : (s.sight r p).queued := hq
      rwa [hs] at hqueued
    · refine ⟨own, fun hs => ?_⟩
      have hrunning : (s.sight r own).running := hr
      rwa [hs] at hrunning

theorem Proper.downstream {place' : Place} (hp : Proper own place) (h : place.Downstream place') :
    Proper own place' := by
  rintro k rfl
  rcases h with h | ⟨k₁, k₂, rfl, h, hle⟩
  · exact hp k h.symm
  · exact (Place.flowing.inj h ▸ hle).trans (hp k₁ rfl)

end Channels

namespace Manager

variable {m m' m'' : Manager} {r x : Ref} {own p : Path} {uuid dbName u v : String} {now : Int} {place : Place}
  {jobs : List Ref}

/-! ### Removing the jobs of a database -/

theorem removeJob_job : (m.removeJob uuid).channels.job = m.channels.job := by
  rw [Manager.removeJob]
  split
  · rfl
  · exact job_remove

theorem removeJob_jobsByUuid_of_ne (h : u ≠ uuid) : (m.removeJob uuid).jobsByUuid u = m.jobsByUuid u := by
  rw [Manager.removeJob]
  split
  · rfl
  · simp [Manager.forget, h]

/-- The jobs of the database that are in this list are gone. -/
structure Cleared (dbName : String) (jobs : List Ref) (m m' : Manager) : Prop where
  sound : m'.Sound
  job : m'.channels.job = m.channels.job
  children : m'.children = m.children
  settings : SameSettings m m'
  jobsByUuid : ∀ u r, m'.jobsByUuid u = some r ↔
    m.jobsByUuid u = some r ∧ ¬ (r ∈ jobs ∧ (m.channels.job r).dbName = dbName)

theorem Sound.cleared_removeJob (h : m.Sound) (hr : m.jobsByUuid (m.channels.job r).uuid = some r)
    (hdb : (m.channels.job r).dbName = dbName) : Cleared dbName [r] m (m.removeJob (m.channels.job r).uuid) := by
  refine ⟨h.removeJob, removeJob_job, removeJob_children, sameSettings_removeJob, fun u x => ?_⟩
  rw [List.mem_singleton]
  by_cases hu : u = (m.channels.job r).uuid
  · subst hu
    rw [removeJob_jobsByUuid, hr]
    constructor
    · simp
    · rintro ⟨hx, hnot⟩
      exact (hnot ⟨(Option.some.inj hx).symm, Option.some.inj hx ▸ hdb⟩).elim
  · rw [removeJob_jobsByUuid_of_ne hu]
    refine ⟨fun hx => ⟨hx, ?_⟩, fun hx => hx.1⟩
    rintro ⟨rfl, -⟩
    exact hu (h.entry u x hx).1.symm

theorem Cleared.trans {jobs' : List Ref} (h : Cleared dbName jobs m m') (h' : Cleared dbName jobs' m' m'') :
    Cleared dbName (jobs ++ jobs') m m'' := by
  refine ⟨h'.sound, h'.job.trans h.job, h'.children.trans h.children, h.settings.trans h'.settings, fun u r => ?_⟩
  rw [h'.jobsByUuid, h.jobsByUuid, h.job, List.mem_append]
  tauto

theorem Sound.cleared (h : m.Sound) (hjobs : ∀ r ∈ jobs, m.jobsByUuid (m.channels.job r).uuid = some r)
    (hnodup : jobs.Nodup) : Cleared dbName jobs m (jobs.foldl
      (fun m' r => if (m'.channels.job r).dbName = dbName then m'.removeJob (m'.channels.job r).uuid else m') m) := by
  induction jobs generalizing m with
  | nil => exact ⟨h, rfl, rfl, SameSettings.refl, fun u r => by simp⟩
  | cons r jobs ih =>
    obtain ⟨hr, hnodup⟩ := List.nodup_cons.mp hnodup
    have hfirst : Cleared dbName [r] m
        (if (m.channels.job r).dbName = dbName then m.removeJob (m.channels.job r).uuid else m) := by
      split
      · rename_i hdb
        exact h.cleared_removeJob (hjobs r List.mem_cons_self) hdb
      · rename_i hdb
        refine ⟨h, rfl, rfl, SameSettings.refl, fun u x => ⟨fun hx => ⟨hx, ?_⟩, fun hx => hx.1⟩⟩
        rintro ⟨hmem, hx'⟩
        rw [List.mem_singleton] at hmem
        exact hdb (hmem ▸ hx')
    rw [List.foldl_cons, ← List.singleton_append]
    refine hfirst.trans (ih hfirst.sound (fun x hx => ?_) hnodup)
    rw [hfirst.job, hfirst.jobsByUuid, List.mem_singleton]
    refine ⟨hjobs x (List.mem_cons_of_mem _ hx), fun hc => hr (hc.1 ▸ hx)⟩

theorem Sound.removeDb (h : m.Sound) : Cleared dbName m.jobs m (m.removeDb dbName) := by
  refine h.cleared (fun r hr => ?_) (List.Nodup.filter _ List.nodup_range)
  simpa using (List.mem_filter.mp hr).2

theorem Sound.mem_jobs (h : m.Sound) (hu : m.jobsByUuid u = some r) : r ∈ m.jobs := by
  obtain ⟨huuid, hlt, -⟩ := h.entry u r hu
  refine List.mem_filter.mpr ⟨List.mem_range.mpr hlt, ?_⟩
  rw [huuid]
  exact decide_eq_true hu

/-! ### Getting the jobs to run -/

/-- What becomes of the manager when jobs are got to run. -/
structure RunSpec (now : Int) (m m' : Manager) (sent : List Ref) : Prop where
  sound : m'.Sound
  passed : Passed now m.children.IsChannel m.children.IsChannel m.channels m'.channels
  sent : Sent m.channels m'.channels sent
  jobsByUuid : m'.jobsByUuid = m.jobsByUuid
  children : m'.children = m.children

theorem Sound.getJobsToRun (now : Int) (h : m.Sound) : RunSpec now m (m.getJobsToRun now).2 (m.getJobsToRun now).1 := by
  obtain ⟨hpassed, hsent⟩ := passed_getJobsToRun now h.kept h.placed h.distinct
  have hmoves := hpassed.moves
  refine ⟨⟨hpassed.kept, hpassed.wellPlaced h.placed, h.distinct, fun p hp => ?_, fun r p hr => ?_, fun u r hr => ?_,
    fun r hr => h.below r (hpassed.mentions r hr)⟩, hpassed, hsent, rfl, rfl⟩
  · exact (hmoves.channel p hp).trans (h.fresh p hp)
  · obtain ⟨eta, heta, -⟩ := hmoves.same r
    obtain ⟨place, hat, hproper⟩ := h.placed.at (r := r)
    obtain ⟨place', hat', hdown⟩ := hpassed.downstream r _ place hat
    have hne : place ≠ .absent := by
      rintro rfl
      rcases hdown with rfl | ⟨k, k', hk, -, -⟩
      · exact hr (hat' p)
      · cases hk
    obtain ⟨q, hq⟩ := hat.exists_sight hproper hne
    have hreg := h.registered r q hq
    rw [Manager.getJobsToRun]
    dsimp only
    rw [heta]
    exact hreg
  · obtain ⟨eta, heta, -⟩ := hmoves.same r
    rw [Manager.getJobsToRun]
    dsimp only
    rw [heta]
    exact h.entry u r hr

theorem RunSpec.stands {sent : List Ref} (h : RunSpec now m m' sent) (hs : m.Stands u own place) :
    ∃ place', m'.Stands u own place' ∧ place.Downstream place' := by
  cases hu : m.jobsByUuid u with
  | none => exact ⟨place, (stands_none ((congrFun h.jobsByUuid u).trans hu)).mpr ((stands_none hu).mp hs), Or.inl rfl⟩
  | some r =>
    obtain ⟨rfl, hat, hproper⟩ := (stands_some hu).mp hs
    obtain ⟨place', hat', hdown⟩ := h.passed.downstream r _ place hat
    refine ⟨place', (stands_some ((congrFun h.jobsByUuid u).trans hu)).mpr ⟨?_, hat', ?_⟩, hdown⟩
    · exact h.passed.moves.jobChannel
    · exact hproper.downstream hdown

theorem RunSpec.settings {sent : List Ref} (h : RunSpec now m m' sent) : SameSettings m m' := by
  intro p
  by_cases hp : m.children.IsChannel p
  · have hserved := h.passed.served p hp
    exact ⟨hserved.capacity, hserved.throttle, hserved.sequential⟩
  · rw [h.passed.moves.channel p hp]
    exact ⟨rfl, rfl, rfl⟩

/-! ### Asking for the wakeup time -/

/-- What becomes of the manager when it is asked for the wakeup time. -/
structure WakeSpec (m m' : Manager) : Prop where
  sound : m'.Sound
  purged : Purged m.children.IsChannel m.channels m'.channels
  jobsByUuid : m'.jobsByUuid = m.jobsByUuid
  children : m'.children = m.children

theorem Sound.getWakeupTime (h : m.Sound) : WakeSpec m m.getWakeupTime.2 := by
  have hpurged := (asked_getWakeupTime m.children h.kept).purged
  refine ⟨⟨hpurged.kept h.kept, fun r => ?_, h.distinct, fun p hp => ?_, fun r p hr => ?_, fun u r hr => ?_,
    fun r hr => h.below r (hpurged.mentions hr)⟩, hpurged, rfl, rfl⟩
  · obtain ⟨place, hat, hproper⟩ := h.placed.at (r := r)
    rw [Manager.getWakeupTime]
    dsimp only
    rw [hpurged.job]
    exact ⟨place, hat.of_sight_eq fun q => hpurged.sight, hproper⟩
  · exact (hpurged.untouched p hp).trans (h.fresh p hp)
  · rw [Manager.getWakeupTime] at hr ⊢
    dsimp only at hr ⊢
    rw [hpurged.sight] at hr
    rw [hpurged.job]
    exact h.registered r p hr
  · rw [Manager.getWakeupTime]
    dsimp only
    rw [hpurged.job]
    exact h.entry u r hr

theorem WakeSpec.stands (h : WakeSpec m m') (hs : m.Stands u own place) : m'.Stands u own place := by
  cases hu : m.jobsByUuid u with
  | none => exact (stands_none ((congrFun h.jobsByUuid u).trans hu)).mpr ((stands_none hu).mp hs)
  | some r =>
    refine (stands_some ((congrFun h.jobsByUuid u).trans hu)).mpr ?_
    rw [h.purged.job]
    exact ⟨((stands_some hu).mp hs).1, ((stands_some hu).mp hs).2.1.of_sight_eq fun q => h.purged.sight,
      ((stands_some hu).mp hs).2.2⟩

theorem WakeSpec.settings (h : WakeSpec m m') : SameSettings m m' :=
  fun p => ⟨h.purged.capacity, h.purged.throttle, h.purged.sequential p⟩

/-! ### The weak references -/

theorem mem_paths_of_has {tree : Subchannels} {q : Path} (h : tree.Has p q) : q ∈ Subchannels.paths p tree := by
  induction tree generalizing p with
  | none => exact h.elim
  | more n children siblings ihChildren ihSiblings =>
    rw [Subchannels.paths, List.mem_cons, List.mem_append]
    exact h.imp_right fun h => h.imp ihChildren ihSiblings

theorem Sound.sight_of_forgotten (h : m.Sound)
    (hnone : ¬ ∃ p ∈ [] :: Subchannels.paths [] m.children, (m.channels.channel p).Refers r) (p : Path) :
    m.channels.sight r p = nowhere := by
  by_contra hs
  have hrefers := refers_of_sight hs
  by_cases hp : m.children.IsChannel p
  · refine hnone ⟨p, ?_, hrefers⟩
    rcases hp with rfl | hp
    · exact List.mem_cons_self
    · exact List.mem_cons_of_mem _ (mem_paths_of_has hp)
  · rw [h.fresh p hp] at hrefers
    simp [Refers, PriorityQueue.empty] at hrefers

theorem Sound.collect (h : m.Sound) : (m.collect u).Sound := by
  rw [Manager.collect]
  split
  · exact h
  · rename_i r hr
    split
    · exact h
    · rename_i hnone
      refine h.forget fun x hx p => ?_
      obtain rfl : r = x := Option.some.inj (hr.symm.trans hx)
      exact h.sight_of_forgotten hnone p

theorem Sound.stands_collect (h : m.Sound) (hs : m.Stands v own place) : (m.collect u).Stands v own place := by
  rw [Manager.collect]
  split
  · exact hs
  · rename_i r hr
    split
    · exact hs
    · rename_i hnone
      by_cases hv : v = u
      · subst hv
        obtain ⟨rfl, hat, hproper⟩ := (stands_some hr).mp hs
        refine (stands_none (by simp [Manager.forget])).mpr ?_
        by_contra hne
        obtain ⟨p, hp⟩ := hat.exists_sight hproper hne
        exact hp (h.sight_of_forgotten hnone p)
      · rw [Stands, Manager.forget]
        dsimp only
        rw [Function.update_of_ne hv]
        exact hs

theorem collect_job : (m.collect u).channels = m.channels := by
  rw [Manager.collect]
  split
  · rfl
  · split <;> rfl

theorem collect_jobsByUuid (hr : (m.collect u).jobsByUuid v = some r) : m.jobsByUuid v = some r := by
  rw [Manager.collect] at hr
  split at hr
  · exact hr
  · split at hr
    · exact hr
    · rw [Manager.forget] at hr
      dsimp only at hr
      by_cases hv : v = u
      · subst hv
        simp at hr
      · rwa [Function.update_of_ne hv] at hr

/-! ### All that the manager does -/

theorem Sound.act (h : m.Sound) (a : Action) : (m.act a).Sound := by
  cases a with
  | notify dbName d =>
    rw [Manager.act]
    cases hn : m.notify dbName d with
    | ok m' => exact (h.notify hn).sound
    | error m' => exact (h.notify_error hn).1
  | removeJob uuid => exact h.removeJob
  | removeDb dbName => exact h.removeDb.sound
  | getJobsToRun now => exact (h.getJobsToRun now).sound
  | getWakeupTime => exact h.getWakeupTime.sound
  | collect uuid => exact h.collect

/-- The manager after its configuration. -/
structure Idle (m : Manager) : Prop where
  distinct : m.children.Distinct
  jobsByUuid : ∀ u, m.jobsByUuid u = none
  empty : ∀ p, m.channels.channel p =
    { queue := { sequential := (m.channels.channel p).queue.sequential },
      capacity := (m.channels.channel p).capacity, throttle := (m.channels.channel p).throttle }
  fresh : ∀ p, ¬ m.children.IsChannel p → m.channels.channel p = {}

theorem Idle.refers (h : m.Idle) : ¬ (m.channels.channel p).Refers r := by
  rw [h.empty p]
  simp [Refers, PriorityQueue.empty]

theorem Idle.sight (h : m.Idle) : m.channels.sight r p = nowhere := by
  by_contra hs
  exact h.refers (refers_of_sight hs)

theorem Idle.sound (h : m.Idle) : m.Sound := by
  refine ⟨⟨fun p => ?_, fun p r hr => ?_, fun p hpause => ?_⟩, fun r => ⟨.absent, fun p => h.sight, by simp⟩,
    h.distinct,
    h.fresh, fun r p hr => (hr h.sight).elim, fun u r hr => ?_, fun r hr => ?_⟩
  · rw [h.empty p]
    exact tidy_empty
  · exact (h.refers (Or.inr (Or.inl hr))).elim
  · rw [h.empty p] at hpause
    exact (hpause rfl).elim
  · rw [h.jobsByUuid u] at hr
    cases hr
  · obtain ⟨p, hp⟩ := hr
    exact (h.refers hp).elim

theorem Idle.always_sound (h : m.Idle) (actions : List Action) : Tx.Always Manager.act Sound m actions :=
  Tx.always_of_step h.sound fun _ a hs => hs.act a

end Manager

end JobQueue
