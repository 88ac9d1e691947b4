import PropzaAmlak.JobQueue.ConfigRules
import PropzaAmlak.JobQueue.RunnerRuns

/-! What the runner, the workers and the users cannot do together. -/

namespace JobQueue

open ChannelQueue Channel Channels Place Manager

namespace Runner

variable {w w' : Runner} {u v : String} {r : Ref} {p path own : Path} {now n : Int} {m' : Manager} {e : Event}
  {events before more rest : List Event} {place : Place} {k : Nat}

/-! ### Who runs in a channel -/

theorem Consistent.active_subset (h : w.Consistent) (hready : w.phase = .ready) :
    w.rows.active ⊆ w.manager.runningIn [] := by
  intro u hu
  exact h.sound.mem_runningIn_root.mpr (h.running hready u hu)

/-- No active job is moved below the channel at `p`. -/
def Stays (p : Path) (w : Runner) : Event → Prop
  | .processNotification u => ∀ row ∈ w.rows.find u, row.Active → ∀ path children own,
    getChannelByName w.manager.children row.channel false true = .ok (path, children) →
      w.manager.Stands u own (.flowing 0) → p <:+ path → p <:+ own
  | _ => True

theorem stays_root : Stays [] w e := by
  cases e with
  | processNotification u => exact fun _ _ _ _ _ _ _ _ _ => List.nil_suffix
  | row u a => trivial
  | requeueDead u => trivial
  | getJobsToRun now => trivial
  | send => trivial
  | getWakeupTime => trivial
  | collect u => trivial
  | closeDatabases => trivial
  | listen => trivial
  | initializeDatabases order => trivial

theorem Consistent.flowing_before (h : w.Consistent) (ho : Others (· = u) w.manager m') (hne : v ≠ u)
    (hs' : m'.Stands v own (.flowing k)) : w.manager.Stands v own (.flowing k) := by
  obtain ⟨own₀, place, hs⟩ := h.sound.stands v
  have hs₁ := ho.stands hne hs
  have heq := hs₁.unique hs'
  rw [heq] at hs hs₁
  have hown := hs₁.own_eq hs' (by simp)
  exact hown ▸ hs

/-- A job whose row is told and that now runs below the channel at `p` did so before. -/
theorem Consistent.flowing_told {row : Row} (h : w.Consistent) (hfree : w.Free)
    (hstay : Stays p w (.processNotification v)) (hfind : w.rows.find v = some row)
    (hn : w.manager.notify w.dbName (row.data v) = .ok m') (hs' : m'.Stands v own (.flowing k)) (hp : p <:+ own)
    (hk : k ≤ p.length) : ∃ own k, w.manager.Stands v own (.flowing k) ∧ p <:+ own ∧ k ≤ p.length := by
  have hspec := h.sound.notify hn
  obtain ⟨own₁, place₁, hbefore, hplaced⟩ := hspec.stands
  have heq := hplaced.unique hs'
  have hstate : (row.data v).state = row.state := rfl
  rw [hstate] at heq
  have hown : own₁ = own := hplaced.own_eq hs' (by rw [hstate, heq]; simp)
  subst hown
  have hactive : row.Active → ∃ own k, w.manager.Stands v own (.flowing k) ∧ p <:+ own ∧ k ≤ p.length := by
    intro hactive
    obtain ⟨own₀, hs₀⟩ := h.running hfree.1 v (Rows.mem_active.mpr ⟨row, hfind, hactive⟩)
    rcases hbefore with hbefore | rfl
    · have hplace := hbefore.unique hs₀
      exact ⟨own₁, 0, hplace ▸ hbefore, hp, Nat.zero_le _⟩
    · cases hreg : m'.jobsByUuid v with
      | none => cases (stands_none hreg).mp hs'
      | some r =>
        obtain ⟨children, hget⟩ := hspec.channel r hreg
        rw [((stands_some hreg).mp hs').1] at hget
        have hp₀ : p <:+ own₀ := hstay row hfind hactive own₁ children own₀ hget hs₀ hp
        exact ⟨own₀, 0, hs₀, hp₀, Nat.zero_le _⟩
  cases hrow : row.state with
  | done => rw [hrow] at heq; cases heq
  | cancelled => rw [hrow] at heq; cases heq
  | failed => rw [hrow] at heq; cases heq
  | enqueued => exact hactive (Or.inl hrow)
  | started => exact hactive (Or.inr hrow)
  | pending =>
    rw [hrow] at heq
    have hlen := hp.length_le
    have hk' := Place.flowing.inj heq
    omega
  | waitDependencies =>
    rw [hrow] at heq
    have hplace : place₁ = .flowing k := heq
    rcases hbefore with hbefore | rfl
    · exact ⟨own₁, k, hplace ▸ hbefore, hp, hk⟩
    · cases hplace

/-- When the manager is told of a row no job comes to run in the channel at `p`
but one that is moved below it. -/
theorem Consistent.runningIn_processNotification (h : w.Consistent) (hfree : w.Free)
    (hstay : Stays p w (.processNotification u)) :
    (w.processNotification u).manager.runningIn p ⊆ w.manager.runningIn p := by
  have hafter := h.processNotification hfree (u := u)
  intro v hv
  obtain ⟨own', k, hs', hp, hk⟩ := hafter.sound.mem_runningIn.mp hv
  refine h.sound.mem_runningIn.mpr ?_
  rw [Runner.processNotification] at hs'
  dsimp only at hs'
  cases hfind : w.rows.find u with
  | none =>
    rw [hfind] at hs'
    by_cases hvu : v = u
    · subst hvu
      cases hs'.unique (stands_removeJob own')
    · exact ⟨own', k, h.flowing_before (h.sound.others_removeJob u) hvu hs', hp, hk⟩
  | some row =>
    rw [hfind] at hs'
    dsimp only at hs'
    cases hn : w.manager.notify w.dbName (row.data u) with
    | error m' =>
      rw [hn] at hs'
      obtain ⟨hsound, hchannels, hjobs, -⟩ := h.sound.notify_error hn
      have hnone : (m'.removeDb w.dbName).jobsByUuid v = none := by
        refine hsound.removeDb_none fun x r hr => ?_
        rw [hjobs] at hr
        rw [hchannels]
        exact h.owned x r hr
      cases (stands_none hnone).mp hs'
    | ok m' =>
      rw [hn] at hs'
      by_cases hvu : v = u
      · subst hvu
        exact h.flowing_told hfree hstay hfind hn hs' hp hk
      · exact ⟨own', k, h.flowing_before (h.sound.notify hn).others hvu hs', hp, hk⟩

theorem sameSettings_orClose {m : Manager} (h : SameSettings m m') (hsound : m'.Sound) :
    SameSettings m (closeDatabases { w with manager := m' }).manager :=
  h.trans hsound.removeDb.settings

theorem Consistent.sameSettings (h : w.Consistent) (e : Event) : SameSettings w.manager (w.step e).manager := by
  cases e with
  | row u a =>
    rw [Runner.step, Runner.writeRow]
    split <;> exact SameSettings.refl
  | requeueDead u =>
    rw [Runner.step]
    split
    · split <;> exact SameSettings.refl
    · exact SameSettings.refl
  | processNotification u =>
    rw [Runner.step]
    split
    · rw [Runner.processNotification]
      dsimp only
      split
      · rename_i row _
        cases hn : w.manager.notify w.dbName (row.data u) with
        | ok m' => exact (h.sound.notify hn).settings
        | error m' =>
          obtain ⟨hsound, hchannels, -⟩ := h.sound.notify_error hn
          refine sameSettings_orClose (fun p => ?_) hsound
          rw [hchannels]
          exact ⟨rfl, rfl, rfl⟩
      · exact sameSettings_removeJob
    · exact SameSettings.refl
  | getJobsToRun now =>
    rw [Runner.step]
    split
    · exact (h.sound.getJobsToRun _).settings
    · exact SameSettings.refl
  | send =>
    rw [Runner.step]
    split
    · rw [Runner.send]
      split
      · exact SameSettings.refl
      · dsimp only
        split <;> exact SameSettings.refl
    · exact SameSettings.refl
  | getWakeupTime =>
    rw [Runner.step]
    split
    · exact h.sound.getWakeupTime.settings
    · exact SameSettings.refl
  | collect u =>
    rw [Runner.step]
    intro p
    dsimp only
    rw [collect_job]
    exact ⟨rfl, rfl, rfl⟩
  | closeDatabases => exact h.sound.removeDb.settings
  | listen =>
    rw [Runner.step]
    split <;> exact SameSettings.refl
  | initializeDatabases order =>
    rw [Runner.step]
    split
    · rename_i hinit
      have hclosed := h.closed (by rw [hinit.1]; decide)
      obtain ⟨m', hok, htold⟩ := h.sound.notifyAll w.rows h.owned hinit.2.1 (fun u _ => hclosed.1 u)
      rw [hok]
      exact htold.settings
    · exact SameSettings.refl

/-! ### The capacity of the root channel -/

structure Limited (n : Int) (w : Runner) : Prop where
  capacity : (w.manager.channels.channel []).capacity = some n
  running : ((w.manager.runningIn []).card : Int) ≤ n
  active : (w.rows.active.card : Int) ≤ n

theorem cast_card_le {s s' : Finset String} (h : s ⊆ s') (hle : (s'.card : Int) ≤ n) : (s.card : Int) ≤ n :=
  (Int.ofNat_le.mpr (Finset.card_le_card h)).trans hle

theorem runningIn_getJobsToRun (h : w.Consistent) (hc : (w.manager.channels.channel p).capacity = some n)
    (hp : w.manager.children.IsChannel p) (hn : n ≠ 0) (hle : ((w.manager.runningIn p).card : Int) ≤ n) :
    (((w.getJobsToRun now).manager.runningIn p).card : Int) ≤ n := by
  have hrun := h.sound.getJobsToRun now
  rw [h.sound.card_runningIn] at hle
  have hserved := (hrun.passed.served p hp).limit n hc hn hle
  rwa [← hrun.sound.card_runningIn] at hserved

theorem active_writeRow {a : RowAction} : (w.writeRow u a).rows.active ⊆ w.rows.active := by
  rw [Runner.writeRow]
  split
  · exact Finset.Subset.refl _
  · rename_i row hrow
    refine active_write fun row' hrow' hactive => ?_
    obtain rfl : row = some row' := hrow'
    exact RowAction.writes_active hrow hactive

theorem runningIn_of_stands {m m' : Manager} (h : m.Sound) (h' : m'.Sound)
    (hs : ∀ u own place, m.Stands u own place → m'.Stands u own place) : m'.runningIn p ⊆ m.runningIn p := by
  intro u hu
  obtain ⟨own', k, hs', hp, hk⟩ := h'.mem_runningIn.mp hu
  obtain ⟨own, place, hstands⟩ := h.stands u
  have hafter := hs u own place hstands
  have heq := hafter.unique hs'
  rw [heq] at hafter hstands
  have hown := hafter.own_eq hs' (by simp)
  exact h.mem_runningIn.mpr ⟨own', k, hown ▸ hstands, hp, hk⟩

theorem runningIn_eq_empty {m : Manager} (h : m.Sound) (hnone : ∀ u, m.jobsByUuid u = none) : m.runningIn p = ∅ := by
  rw [Finset.eq_empty_iff_forall_notMem]
  intro u hu
  obtain ⟨own, k, hs, -⟩ := h.mem_runningIn.mp hu
  cases (stands_none (hnone u)).mp hs

theorem Consistent.runningIn_initializeDatabases {order : List String} (h : w.Consistent)
    (hphase : w.phase = .listening) (hnodup : order.Nodup)
    (horder : order.toFinset = w.rows.uuids) :
    (w.step (.initializeDatabases order)).manager.runningIn [] ⊆ w.rows.active := by
  have hclosed := h.closed (by rw [hphase]; decide)
  obtain ⟨m', hok, htold⟩ := h.sound.notifyAll w.rows h.owned hnodup (fun u _ => hclosed.1 u)
  rw [Runner.step, if_pos ⟨hphase, hnodup, horder⟩, hok]
  intro u hu
  obtain ⟨own, hs⟩ := htold.sound.mem_runningIn_root.mp hu
  by_cases hmem : u ∈ order
  · obtain ⟨own', hs'⟩ := htold.stands u hmem
    have heq := hs'.unique hs
    have huuids : u ∈ w.rows.uuids := by rw [← horder, List.mem_toFinset]; exact hmem
    refine Finset.mem_filter.mpr ⟨huuids, ?_⟩
    rw [Row.Active]
    cases hstate : (w.rows.row u).state with
    | enqueued => exact Or.inl rfl
    | started => exact Or.inr rfl
    | done => rw [hstate] at heq; cases heq
    | cancelled => rw [hstate] at heq; cases heq
    | failed => rw [hstate] at heq; cases heq
    | waitDependencies => rw [hstate] at heq; cases heq
    | pending => rw [hstate] at heq; cases heq
  · have hnone := (htold.others.jobsByUuid u hmem).trans (hclosed.1 u)
    cases (stands_none hnone).mp hs

theorem active_requeueDead {row : Row} : (w.write u (some row.requeueDead)).rows.active ⊆ w.rows.active := by
  refine active_write fun row' hrow' hactive => ?_
  obtain rfl := Option.some.inj hrow'
  rw [Row.Active, Row.requeueDead] at hactive
  dsimp only at hactive
  split at hactive <;> simp at hactive

/-- Only the runner makes a job active. -/
theorem active_step (he : e ≠ .send) : (w.step e).rows.active ⊆ w.rows.active := by
  cases e with
  | row u a => exact active_writeRow
  | requeueDead u =>
    rw [Runner.step]
    split
    · split
      · exact active_requeueDead
      · exact Finset.Subset.refl _
    · exact Finset.Subset.refl _
  | processNotification u =>
    rw [Runner.step]
    split
    · rw [Runner.processNotification]
      dsimp only
      split
      · rename_i row _
        cases w.manager.notify w.dbName (row.data u) <;> exact Finset.Subset.refl _
      · exact Finset.Subset.refl _
    · exact Finset.Subset.refl _
  | getJobsToRun now =>
    rw [Runner.step]
    split <;> exact Finset.Subset.refl _
  | send => exact (he rfl).elim
  | getWakeupTime =>
    rw [Runner.step]
    split <;> exact Finset.Subset.refl _
  | collect u => exact Finset.Subset.refl _
  | closeDatabases => exact Finset.Subset.refl _
  | listen =>
    rw [Runner.step]
    split <;> exact Finset.Subset.refl _
  | initializeDatabases order =>
    rw [Runner.step]
    split
    · cases notifyAll w.dbName w.rows order w.manager <;> exact Finset.Subset.refl _
    · exact Finset.Subset.refl _

theorem manager_send : w.send.manager = w.manager := by
  rw [Runner.send]
  split
  · rfl
  · dsimp only
    split <;> rfl

/-- No other event makes a job run in a channel. -/
theorem Consistent.runningIn_step (h : w.Consistent) (hstay : Stays p w e) (hrun : ∀ now, e ≠ .getJobsToRun now)
    (hinit : ∀ order, e ≠ .initializeDatabases order) :
    (w.step e).manager.runningIn p ⊆ w.manager.runningIn p := by
  cases e with
  | row u a =>
    rw [Runner.step, Runner.writeRow]
    split <;> exact Finset.Subset.refl _
  | requeueDead u =>
    rw [Runner.step]
    split
    · split <;> exact Finset.Subset.refl _
    · exact Finset.Subset.refl _
  | processNotification u =>
    rw [Runner.step]
    split
    · rename_i hfree
      exact h.runningIn_processNotification hfree.1 hstay
    · exact Finset.Subset.refl _
  | getJobsToRun now => exact (hrun now rfl).elim
  | send =>
    rw [Runner.step]
    split
    · rw [manager_send]
    · exact Finset.Subset.refl _
  | getWakeupTime =>
    rw [Runner.step]
    split
    · have hwake := h.sound.getWakeupTime
      exact runningIn_of_stands h.sound hwake.sound fun u own place hs => hwake.stands hs
    · exact Finset.Subset.refl _
  | collect u => exact runningIn_of_stands h.sound h.sound.collect fun u own place hs => h.sound.stands_collect hs
  | closeDatabases =>
    have hnone : ∀ u, (w.manager.removeDb w.dbName).jobsByUuid u = none := fun u => h.sound.removeDb_none h.owned
    rw [Runner.step, Runner.closeDatabases]
    dsimp only
    rw [runningIn_eq_empty h.sound.removeDb.sound hnone]
    exact Finset.empty_subset _
  | listen =>
    rw [Runner.step]
    split <;> exact Finset.Subset.refl _
  | initializeDatabases order => exact (hinit order rfl).elim

theorem Limited.step (h : w.Consistent) (hn : n ≠ 0) (hl : Limited n w) (e : Event) : Limited n (w.step e) := by
  have hafter := h.step e
  have hcapacity : ((w.step e).manager.channels.channel []).capacity = some n :=
    ((h.sameSettings e []).1).trans hl.capacity
  have hrunning : (((w.step e).manager.runningIn []).card : Int) ≤ n := by
    cases e with
    | getJobsToRun now =>
      rw [Runner.step]
      split
      · exact runningIn_getJobsToRun h hl.capacity (Or.inl rfl) hn hl.running
      · exact hl.running
    | initializeDatabases order =>
      by_cases hinit : w.phase = .listening ∧ order.Nodup ∧ order.toFinset = w.rows.uuids
      · exact cast_card_le (h.runningIn_initializeDatabases hinit.1 hinit.2.1 hinit.2.2) hl.active
      · rw [Runner.step, if_neg hinit]
        exact hl.running
    | row u a => exact cast_card_le (h.runningIn_step stays_root (by simp) (by simp)) hl.running
    | requeueDead u => exact cast_card_le (h.runningIn_step stays_root (by simp) (by simp)) hl.running
    | processNotification u => exact cast_card_le (h.runningIn_step stays_root (by simp) (by simp)) hl.running
    | send => exact cast_card_le (h.runningIn_step stays_root (by simp) (by simp)) hl.running
    | getWakeupTime => exact cast_card_le (h.runningIn_step stays_root (by simp) (by simp)) hl.running
    | collect u => exact cast_card_le (h.runningIn_step stays_root (by simp) (by simp)) hl.running
    | closeDatabases => exact cast_card_le (h.runningIn_step stays_root (by simp) (by simp)) hl.running
    | listen => exact cast_card_le (h.runningIn_step stays_root (by simp) (by simp)) hl.running
  refine ⟨hcapacity, hrunning, ?_⟩
  by_cases he : e = .send
  · subst he
    by_cases hready : w.phase = .ready
    · have hphase : (w.step .send).phase = .ready := by
        rw [Runner.step, if_pos hready, Runner.send]
        split
        · exact hready
        · dsimp only
          split <;> exact hready
      exact cast_card_le (hafter.active_subset hphase) hrunning
    · rw [Runner.step, if_neg hready]
      exact hl.active
  · exact cast_card_le (active_step he) hl.active

theorem Start.limited (h : w.Start) (hc : (w.manager.channels.channel []).capacity = some n)
    (ha : (w.rows.active.card : Int) ≤ n) : Limited n w := by
  refine ⟨hc, ?_, ha⟩
  rw [runningIn_eq_empty h.idle.sound h.idle.jobsByUuid]
  exact (Int.natCast_nonneg _).trans ha

/-- Whatever the workers, the users and the runner do, there are never more jobs
enqueued or started than the root channel has capacity for. -/
theorem active_le_capacity (h : w.Start) (hc : (w.manager.channels.channel []).capacity = some n) (hn : n ≠ 0)
    (ha : (w.rows.active.card : Int) ≤ n) :
    Tx.Always Runner.step (fun w => (w.rows.active.card : Int) ≤ n) w events := by
  have hboth : Tx.Always Runner.step (fun w => w.Consistent ∧ Limited n w) w events :=
    Tx.always_of_step ⟨h.consistent, h.limited hc ha⟩ fun _ e hw => ⟨hw.1.step e, hw.2.step hw.1 hn e⟩
  exact fun before hbefore => (hboth before hbefore).2.active

/-- Two pending jobs, of which `a` comes first. -/
def twoJobs : Rows :=
  ⟨{"a", "b"}, fun u => ⟨.pending, none, if u = "a" then 1 else 2, 0, 10, none, some 0, some 5⟩⟩

/-- The root channel takes one job at a time. -/
def oneAtATime : Runner := ⟨"propza", twoJobs, .closed, [], Manager.init, []⟩

def opening : List Event := [.listen, .initializeDatabases ["a", "b"]]

theorem start_oneAtATime : oneAtATime.Start := ⟨idle_init, rfl, rfl⟩

theorem two_jobs_in_turn : Tx.Always Runner.step (fun w => (w.rows.active.card : Int) ≤ 1) oneAtATime
    (opening ++ [.getJobsToRun 0, .send, .row "a" .runjob]) :=
  active_le_capacity start_oneAtATime rfl (by decide) (by decide +kernel)

/-- Once the notifications for a job are processed the manager knows of it what
its row says. -/
theorem manager_agrees (h : w.Start) :
    Tx.Always Runner.step (fun w => w.phase = .ready → ∀ u ∉ w.notifies, w.Agrees u) w events :=
  fun before hbefore => (h.always_consistent before hbefore).agrees

theorem two_jobs_known : Tx.Always Runner.step (fun w => w.phase = .ready → ∀ u ∉ w.notifies, w.Agrees u) oneAtATime
    (opening ++ [.row "b" .buttonCancelled, .processNotification "b"]) :=
  manager_agrees start_oneAtATime

/-! ### A job is run again only when it is pending again -/

def Pending (w : Runner) (u : String) : Prop := ∃ row ∈ w.rows.find u, row.state = .pending

instance (w : Runner) (u : String) : Decidable (w.Pending u) :=
  inferInstanceAs (Decidable (∃ row ∈ w.rows.find u, row.state = .pending))

/-- The manager has the job in no queue, and it is not to be sent. -/
structure Unqueued (u : String) (w : Runner) : Prop where
  place : w.phase = .ready → ∃ own place, w.manager.Stands u own place ∧ ∀ k ≠ 0, place ≠ .flowing k
  sending : ∀ r ∈ w.sending, w.uuid r ≠ u

theorem Consistent.unqueued (h : w.Consistent) (hu : u ∈ w.rows.active) : Unqueued u w := by
  refine ⟨fun hready => ?_, fun r hr heq => (h.sending r hr).2.2 (heq ▸ hu)⟩
  obtain ⟨own, hs⟩ := h.running hready u hu
  exact ⟨own, _, hs, fun k hk heq => hk (Place.flowing.inj heq).symm⟩

theorem unqueued_downstream {place' : Place} (h : place.Downstream place') (hp : ∀ k ≠ 0, place ≠ .flowing k) :
    ∀ k ≠ 0, place' ≠ .flowing k := by
  intro k hk heq
  rcases h with rfl | ⟨k₁, k₂, hk₁, hk₂, hle⟩
  · exact hp k hk heq
  · have hzero : k₁ = 0 := by
      by_contra hne
      exact hp k₁ hne hk₁
    rw [hk₂] at heq
    have := Place.flowing.inj heq
    omega

theorem Unqueued.of_told (h : Unqueued u w) (hready : w.phase = .ready)
    {m' : Manager} (ho : Others (· = v) w.manager m') (hv : v ≠ u) :
    ∃ own place, m'.Stands u own place ∧ ∀ k ≠ 0, place ≠ .flowing k := by
  obtain ⟨own, place, hs, hplace⟩ := h.place hready
  exact ⟨own, place, ho.stands (fun hc => hv hc.symm) hs, hplace⟩

theorem placeAfter_unqueued {state : JobState} (hstate : state ≠ .pending) (h : ∀ k ≠ 0, place ≠ .flowing k) :
    ∀ k ≠ 0, placeAfter own place state ≠ .flowing k := by
  intro k hk
  have hzero : Place.flowing 0 ≠ .flowing k := fun heq => hk (Place.flowing.inj heq).symm
  have hrunning : placeAfter own place .enqueued ≠ .flowing k := by
    cases place with
    | absent => exact hzero
    | failed => exact hzero
    | flowing k' =>
      rw [placeAfter]
      split
      · exact h k hk
      · exact hzero
  cases state with
  | done => simp [placeAfter]
  | cancelled => simp [placeAfter]
  | failed => simp [placeAfter]
  | enqueued => exact hrunning
  | started => exact hrunning
  | pending => exact (hstate rfl).elim
  | waitDependencies => exact h k hk

theorem Unqueued.processNotification (h : w.Consistent) (hq : Unqueued u w) (hfree : w.Free) (hp : ¬ w.Pending u) :
    Unqueued u (w.processNotification v) := by
  obtain ⟨own, place, hs, hplace⟩ := hq.place hfree.1
  rw [Runner.processNotification]
  dsimp only
  cases hfind : w.rows.find v with
  | none =>
    refine ⟨fun _ => ?_, fun r hr => ?_⟩
    · by_cases hvu : v = u
      · subst hvu
        exact ⟨[], .absent, stands_removeJob [], fun k _ => by simp⟩
      · exact hq.of_told hfree.1 (h.sound.others_removeJob _) hvu
    · dsimp only at hr
      rw [hfree.2] at hr
      cases hr
  | some row =>
    dsimp only
    cases hn : w.manager.notify w.dbName (row.data v) with
    | error m' =>
      refine ⟨fun hready => ?_, fun r hr => ?_⟩
      · cases hready
      · cases hr
    | ok m' =>
      have hspec := h.sound.notify hn
      refine ⟨fun _ => ?_, fun r hr => ?_⟩
      · by_cases hvu : v = u
        · subst hvu
          obtain ⟨own', place', hbefore, hafter⟩ := hspec.stands
          have hstate : (row.data v).state ≠ .pending := fun heq => hp ⟨row, hfind, heq⟩
          refine ⟨own', _, hafter, placeAfter_unqueued hstate ?_⟩
          rcases hbefore with hbefore | rfl
          · rw [hbefore.unique hs]
            exact hplace
          · simp
        · exact hq.of_told hfree.1 hspec.others hvu
      · dsimp only [orClose] at hr
        rw [hfree.2] at hr
        cases hr

theorem Unqueued.getJobsToRun (h : w.Consistent) (hq : Unqueued u w) (hfree : w.Free) :
    Unqueued u (w.getJobsToRun now) := by
  have hrun := h.sound.getJobsToRun now
  obtain ⟨own, place, hs, hplace⟩ := hq.place hfree.1
  obtain ⟨place', hs', hdown⟩ := hrun.stands hs
  refine ⟨fun _ => ⟨own, place', hs', unqueued_downstream hdown hplace⟩, fun r hr heq => ?_⟩
  obtain ⟨hin, hout⟩ := (hrun.sent.mem r).mp hr
  obtain ⟨hreg, k, hk, -, hle⟩ := hrun.sound.of_running hin
  have huuid : (((w.manager.getJobsToRun now).2).channels.job r).uuid = u := heq
  rw [huuid] at hreg hk
  have hreg' : w.manager.jobsByUuid u = some r := (congrFun hrun.jobsByUuid u).symm.trans hreg
  have hplace' := hs'.unique hk
  rw [Nat.le_zero.mp hle] at hplace'
  have hzero : place = .flowing 0 := by
    rcases hdown with rfl | ⟨k₁, k₂, hk₁, -, -⟩
    · exact hplace'
    · by_cases hne : k₁ = 0
      · rw [hk₁, hne]
      · exact (hplace k₁ hne hk₁).elim
  rw [hzero] at hs
  exact hout (((stands_some hreg').mp hs).2.1.running.mpr ⟨List.nil_suffix, le_rfl⟩)

theorem Unqueued.initializeDatabases {order : List String} (h : w.Consistent) (hp : ¬ w.Pending u)
    (hphase : w.phase = .listening) (hnodup : order.Nodup) (horder : order.toFinset = w.rows.uuids) :
    Unqueued u ({ w with phase := .ready }.orClose (notifyAll w.dbName w.rows order w.manager)) := by
  have hclosed := h.closed (by rw [hphase]; decide)
  obtain ⟨m', hok, htold⟩ := h.sound.notifyAll w.rows h.owned hnodup (fun u _ => hclosed.1 u)
  rw [hok, orClose]
  refine ⟨fun _ => ?_, fun r hr => ?_⟩
  · by_cases hu : u ∈ order
    · obtain ⟨own, hs⟩ := htold.stands u hu
      refine ⟨own, _, hs, placeAfter_unqueued (fun hstate => hp ⟨w.rows.row u, ?_, hstate⟩) (by simp)⟩
      have huuids : u ∈ w.rows.uuids := by rw [← horder, List.mem_toFinset]; exact hu
      rw [Rows.find, if_pos huuids]
      exact rfl
    · exact ⟨[], .absent, htold.others.stands hu ((stands_none (hclosed.1 u)).mpr rfl), by simp⟩
  · dsimp only at hr
    rw [hclosed.2] at hr
    cases hr

theorem Unqueued.of_stands (hq : Unqueued u w) {m' : Manager} (hjob : m'.channels.job = w.manager.channels.job)
    (hs : ∀ own place, w.manager.Stands u own place → m'.Stands u own place) :
    Unqueued u { w with manager := m' } := by
  refine ⟨fun hready => ?_, fun r hr heq => hq.sending r hr ?_⟩
  · obtain ⟨own, place, hstands, hplace⟩ := hq.place hready
    exact ⟨own, place, hs own place hstands, hplace⟩
  · have huuid : ({ w with manager := m' } : Runner).uuid = w.uuid := uuid_of_job hjob
    rw [← huuid]
    exact heq

theorem Unqueued.step (h : w.Consistent) (hq : Unqueued u w) (hp : ¬ w.Pending u) (e : Event) :
    Unqueued u (w.step e) := by
  cases e with
  | row v a =>
    rw [Runner.step, Runner.writeRow]
    split
    · exact hq
    · exact ⟨hq.place, hq.sending⟩
  | requeueDead v =>
    rw [Runner.step]
    split
    · split
      · exact ⟨hq.place, hq.sending⟩
      · exact hq
    · exact hq
  | processNotification v =>
    rw [Runner.step]
    split
    · rename_i hfree
      exact hq.processNotification h hfree.1 hp
    · exact hq
  | getJobsToRun now =>
    rw [Runner.step]
    split
    · rename_i hfree
      exact hq.getJobsToRun h hfree
    · exact hq
  | send =>
    rw [Runner.step]
    split
    · rw [Runner.send]
      cases hrest : w.sending with
      | nil => exact hq
      | cons r rest =>
        have hsending : ∀ x ∈ rest, w.uuid x ≠ u := by
          intro x hx
          refine hq.sending x ?_
          rw [hrest]
          exact List.mem_cons_of_mem _ hx
        dsimp only
        split
        · exact ⟨hq.place, hsending⟩
        · exact ⟨hq.place, hsending⟩
    · exact hq
  | getWakeupTime =>
    rw [Runner.step]
    split
    · have hwake := h.sound.getWakeupTime
      exact hq.of_stands hwake.purged.job fun own place hs => hwake.stands hs
    · exact hq
  | collect v =>
    exact hq.of_stands (congrArg Channels.job collect_job) fun own place hs => h.sound.stands_collect hs
  | closeDatabases =>
    refine ⟨fun hready => ?_, fun r hr => ?_⟩
    · cases hready
    · cases hr
  | listen =>
    rw [Runner.step]
    split
    · refine ⟨fun hready => ?_, hq.sending⟩
      cases hready
    · exact hq
  | initializeDatabases order =>
    rw [Runner.step]
    split
    · rename_i hinit
      exact Unqueued.initializeDatabases h hp hinit.1 hinit.2.1 hinit.2.2
    · exact hq

theorem Unqueued.notMem_step (hq : Unqueued u w) (hu : u ∉ w.rows.active) (e : Event) : u ∉ (w.step e).rows.active := by
  by_cases he : e = .send
  · subst he
    rw [Runner.step]
    split
    · rw [Runner.send]
      cases hrest : w.sending with
      | nil => exact hu
      | cons r rest =>
        dsimp only
        split
        · exact hu
        · have hne : u ≠ w.uuid r := (hq.sending r (by rw [hrest]; exact List.mem_cons_self)).symm
          intro hactive
          rw [Rows.mem_active, rows_write, Rows.find_put_of_ne hne] at hactive
          exact hu (Rows.mem_active.mpr hactive)
    · exact hu
  · exact fun hactive => hu (active_step he hactive)

/-- A job that was enqueued and is so no more, be it done, failed or cancelled, is
not enqueued again before its row is set to pending: no job runs twice. -/
theorem not_active_again (h : w.Start) (hu : u ∈ (Tx.after Runner.step w before).rows.active)
    (hp : Tx.Always Runner.step (fun w => ¬ w.Pending u) (Tx.after Runner.step w before) (more ++ rest))
    (hnot : u ∉ (Tx.after Runner.step w (before ++ more)).rows.active) :
    u ∉ (Tx.after Runner.step w (before ++ (more ++ rest))).rows.active := by
  have hconsistent := h.always_consistent before List.prefix_rfl
  rw [Tx.after_append] at hnot ⊢
  rw [Tx.after_append]
  generalize Tx.after Runner.step w before = w₀ at hu hp hnot hconsistent ⊢
  have hqueued : ∀ later, later <+: more ++ rest →
      (Tx.after Runner.step w₀ later).Consistent ∧ Unqueued u (Tx.after Runner.step w₀ later) := by
    intro later
    induction later using List.reverseRecOn with
    | nil => exact fun _ => ⟨hconsistent, hconsistent.unqueued hu⟩
    | append_singleton later e ih =>
      intro hlater
      have hprefix : later <+: more ++ rest := (List.prefix_append later [e]).trans hlater
      obtain ⟨hc, hq⟩ := ih hprefix
      rw [Tx.after_concat]
      exact ⟨hc.step e, hq.step hc (hp later hprefix) e⟩
  have hlast : ∀ later, later <+: rest → u ∉ (Tx.after Runner.step w₀ (more ++ later)).rows.active := by
    intro later
    induction later using List.reverseRecOn with
    | nil =>
      intro _
      rwa [List.append_nil]
    | append_singleton later e ih =>
      intro hlater
      have hprefix : later <+: rest := (List.prefix_append later [e]).trans hlater
      have hq := (hqueued (more ++ later) ((List.prefix_append_right_inj more).mpr hprefix)).2
      rw [← List.append_assoc, Tx.after_concat]
      exact hq.notMem_step (ih hprefix) e
  have hend := hlast rest List.prefix_rfl
  rwa [Tx.after_append] at hend

theorem done_job_not_active : "a" ∉ (Tx.after Runner.step oneAtATime
    ((opening ++ [.getJobsToRun 0, .send]) ++ ([.row "a" .buttonDone] ++ [.processNotification "a"]))).rows.active :=
  not_active_again start_oneAtATime (by decide +kernel)
    (Tx.always_concat.mpr ⟨Tx.always_concat.mpr ⟨Tx.always_nil.mpr (by decide +kernel), by decide +kernel⟩,
      by decide +kernel⟩)
    (by decide +kernel)

end Runner

end JobQueue
