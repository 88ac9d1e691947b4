import PropzaAmlak.JobQueue.Runner

/-! What the runner knows of the jobs, and what each event makes of it. -/

namespace JobQueue

open ChannelQueue Channel Channels Place

/-- No one but the runner makes a job active. -/
theorem RowAction.writes_active {a : RowAction} {old : Option Row} {row' : Row} (h : a.writes old = some (some row'))
    (hactive : row'.Active) : ∃ row₀ ∈ old, row₀.Active := by
  have hpending : ∀ (job : Row) (waiting resetRetry : Bool), ¬ (job.setPending waiting resetRetry).Active := by
    intro job waiting resetRetry
    cases waiting <;> simp [Row.setPending, Row.Active]
  cases a with
  | delay job waiting =>
    cases old with
    | none =>
      obtain rfl := Option.some.inj (Option.some.inj h)
      exact (hpending _ _ _ hactive).elim
    | some row => cases h
  | postponed job eta waiting =>
    obtain rfl := Option.some.inj (Option.some.inj h)
    refine (hpending (job.postpone eta) waiting false ?_).elim
    cases old <;> exact hactive
  | failed job =>
    obtain rfl := Option.some.inj (Option.some.inj h)
    cases old <;> simp [Row.store, Row.setFailed, Row.Active] at hactive
  | runjob =>
    cases old with
    | none => cases h
    | some row =>
      simp only [RowAction.writes, Option.ite_none_right_eq_some] at h
      exact ⟨row, rfl, Or.inl h.1⟩
  | performed job =>
    cases old with
    | none => cases h
    | some row =>
      simp only [RowAction.writes, Option.ite_none_right_eq_some] at h
      exact ⟨row, rfl, Or.inr h.1⟩
  | buttonDone =>
    cases old with
    | none => cases h
    | some row =>
      obtain rfl := Option.some.inj (Option.some.inj h)
      simp [Row.setDone, Row.Active] at hactive
  | buttonCancelled =>
    cases old with
    | none => cases h
    | some row =>
      obtain rfl := Option.some.inj (Option.some.inj h)
      simp [Row.setCancelled, Row.Active] at hactive
  | requeue waiting =>
    cases old with
    | none => cases h
    | some row =>
      simp only [RowAction.writes, Option.ite_none_left_eq_some, Option.some.injEq] at h
      rw [← h.2] at hactive
      exact (hpending _ _ _ hactive).elim
  | enqueueWaiting =>
    cases old with
    | none => cases h
    | some row =>
      simp only [RowAction.writes, Option.ite_none_right_eq_some, Option.some.injEq] at h
      simp [← h.2, Row.Active] at hactive
  | cancelDependent =>
    cases old with
    | none => cases h
    | some row =>
      simp only [RowAction.writes, Option.ite_none_right_eq_some, Option.some.injEq] at h
      simp [← h.2, Row.Active] at hactive
  | edit channel priority eta maxRetries =>
    cases old with
    | none => cases h
    | some row =>
      obtain rfl := Option.some.inj (Option.some.inj h)
      exact ⟨row, rfl, hactive⟩
  | unlink => cases old <;> cases h

namespace Manager

variable {m m' : Manager} {r : Ref} {own p : Path} {u v dbName : String} {now : Int} {d : JobData} {place : Place}
  {rows : Rows} {us : List String}

/-- The uuids of the jobs that run in the channel. -/
def runningIn (m : Manager) (p : Path) : Finset String :=
  (m.channels.channel p).running.image fun r => (m.channels.job r).uuid

theorem Sound.of_running (h : m.Sound) (hr : r ∈ (m.channels.channel p).running) :
    m.jobsByUuid (m.channels.job r).uuid = some r ∧
      ∃ k, m.Stands (m.channels.job r).uuid (m.channels.job r).channel (.flowing k) ∧
        p <:+ (m.channels.job r).channel ∧ k ≤ p.length := by
  have hreg : m.jobsByUuid (m.channels.job r).uuid = some r := by
    refine h.registered r p fun hs => ?_
    have hrunning : (m.channels.sight r p).running := hr
    rwa [hs] at hrunning
  obtain ⟨place, hat, hproper⟩ := h.placed.at (r := r)
  have hplace := hat.running.mp hr
  cases place with
  | absent => simp [Place.sight, nowhere] at hplace
  | failed => simp [Place.sight] at hplace
  | flowing k => exact ⟨hreg, k, (stands_some hreg).mpr ⟨rfl, hat, hproper⟩, hplace.1, hplace.2⟩

theorem Sound.mem_runningIn (h : m.Sound) :
    u ∈ m.runningIn p ↔ ∃ own k, m.Stands u own (.flowing k) ∧ p <:+ own ∧ k ≤ p.length := by
  rw [runningIn, Finset.mem_image]
  constructor
  · rintro ⟨r, hr, rfl⟩
    obtain ⟨-, k, hk⟩ := h.of_running hr
    exact ⟨_, k, hk⟩
  · rintro ⟨own, k, hs, hp, hk⟩
    cases hu : m.jobsByUuid u with
    | none => cases (stands_none hu).mp hs
    | some r => exact ⟨r, ((stands_some hu).mp hs).2.1.running.mpr ⟨hp, hk⟩, (h.entry u r hu).1⟩

theorem Sound.mem_runningIn_root (h : m.Sound) : u ∈ m.runningIn [] ↔ ∃ own, m.Stands u own (.flowing 0) := by
  rw [h.mem_runningIn]
  constructor
  · rintro ⟨own, k, hs, -, hk⟩
    rw [List.length_nil, Nat.le_zero] at hk
    exact ⟨own, hk ▸ hs⟩
  · rintro ⟨own, hs⟩
    exact ⟨own, 0, hs, List.nil_suffix, le_rfl⟩

theorem Sound.card_runningIn (h : m.Sound) : (m.runningIn p).card = (m.channels.channel p).running.card := by
  refine Finset.card_image_of_injOn fun r hr x hx heq => ?_
  have hrreg := (h.of_running hr).1
  have hxreg := (h.of_running hx).1
  rw [heq, hxreg] at hrreg
  exact (Option.some.inj hrreg).symm

/-- Where a job may be after its row was read in this state. -/
def Fits : JobState → Place → Prop
  | .done, place | .cancelled, place => place = .absent
  | .failed, place => place = .failed
  | .enqueued, place | .started, place => place = .flowing 0
  | .pending, place => ∃ k ≠ 0, place = .flowing k
  -- its notification leaves the job where it is
  | .waitDependencies, _ => True

/-- Where a job is that has no row is nowhere. -/
def RowFits (row : Option Row) (place : Place) : Prop :=
  match row with
  | none => place = .absent
  | some row => Fits row.state place

theorem fits_placeAfter {state : JobState}
    (h : state = .enqueued ∨ state = .started → place = .flowing 0 ∨ place = .absent) :
    Fits state (placeAfter own place state) := by
  have hrunning : place = .flowing 0 ∨ place = .absent → placeAfter own place .enqueued = .flowing 0 := by
    rintro (rfl | rfl)
    · simp [placeAfter]
    · rfl
  cases state with
  | done => rfl
  | cancelled => rfl
  | failed => rfl
  | enqueued => exact hrunning (h (Or.inl rfl))
  | started => exact hrunning (h (Or.inr rfl))
  | pending => exact ⟨_, Nat.succ_ne_zero _, rfl⟩
  | waitDependencies => trivial

/-- After a job was notified its place fits, if an active job ran in all its
channels. -/
theorem NotifySpec.fits (h : NotifySpec dbName d m m')
    (hactive : d.state = .enqueued ∨ d.state = .started → ∃ own, m.Stands d.uuid own (.flowing 0)) :
    ∃ own place, m'.Stands d.uuid own place ∧ Fits d.state place := by
  obtain ⟨own, place, hbefore, hafter⟩ := h.stands
  refine ⟨own, _, hafter, fits_placeAfter fun hs => ?_⟩
  obtain ⟨own', hs⟩ := hactive hs
  exact hbefore.imp_left fun hbefore => hbefore.unique hs

/-- All jobs of the manager are those of one database. -/
def Owned (dbName : String) (m : Manager) : Prop :=
  ∀ u r, m.jobsByUuid u = some r → (m.channels.job r).dbName = dbName

theorem Others.owned {C : String → Prop} (h : Others C m m') (hm : m.Owned dbName)
    (hC : ∀ u r, C u → m'.jobsByUuid u = some r → (m'.channels.job r).dbName = dbName) : m'.Owned dbName := by
  intro u r hr
  by_cases hu : C u
  · exact hC u r hu hr
  · have hr' := (h.jobsByUuid u hu).symm.trans hr
    rw [h.job u r hu hr']
    exact hm u r hr'

theorem NotifySpec.owned (h : NotifySpec dbName d m m') (hm : m.Owned dbName) : m'.Owned dbName := by
  refine h.others.owned hm ?_
  rintro u r rfl hr
  obtain ⟨x, hx, -, hdb, -⟩ := h.job
  obtain rfl := Option.some.inj (hx.symm.trans hr)
  exact hdb

theorem Sound.removeDb_none (h : m.Sound) (hm : m.Owned dbName) : (m.removeDb dbName).jobsByUuid u = none := by
  cases hu : (m.removeDb dbName).jobsByUuid u with
  | none => rfl
  | some r =>
    obtain ⟨hr, hnot⟩ := (h.removeDb.jobsByUuid u r).mp hu
    exact (hnot ⟨h.mem_jobs hr, hm u r hr⟩).elim

theorem placeAfter_of_done {state : JobState} (h : ¬ state.NotDone) : placeAfter own .absent state = .absent := by
  cases state with
  | done => rfl
  | cancelled => rfl
  | waitDependencies => rfl
  | pending => exact (h trivial).elim
  | enqueued => exact (h trivial).elim
  | started => exact (h trivial).elim
  | failed => exact (h trivial).elim

/-- What becomes of the manager when it is told of all rows. -/
structure Told (dbName : String) (rows : Rows) (us : List String) (m m' : Manager) : Prop where
  sound : m'.Sound
  others : Others (· ∈ us) m m'
  settings : SameSettings m m'
  owned : m'.Owned dbName
  stands : ∀ u ∈ us, ∃ own, m'.Stands u own (placeAfter own .absent (rows.row u).state)
  data : ∀ u ∈ us, ∀ r, m'.jobsByUuid u = some r →
    SameProperties (m'.channels.job r).channel ((rows.row u).data u) (m'.channels.job r)

theorem Sound.notifyAll (rows : Rows) (h : m.Sound) (hm : m.Owned dbName) (hnodup : us.Nodup)
    (hnone : ∀ u ∈ us, m.jobsByUuid u = none) :
    ∃ m', Runner.notifyAll dbName rows us m = .ok m' ∧ Told dbName rows us m m' := by
  induction us generalizing m with
  | nil => exact ⟨m, rfl, h, Others.refl, SameSettings.refl, hm, fun u hu => by simp at hu, fun u hu => by simp at hu⟩
  | cons u us ih =>
    obtain ⟨hu, hnodup⟩ := List.nodup_cons.mp hnodup
    rw [Runner.notifyAll]
    by_cases hdone : (rows.row u).state.NotDone
    · rw [if_pos hdone]
      obtain ⟨m₁, hm₁⟩ := notify_of_none (d := (rows.row u).data u) dbName (hnone u List.mem_cons_self)
      have hspec := h.notify hm₁
      rw [hm₁]
      obtain ⟨m', hok, htold⟩ := ih hspec.sound (hspec.owned hm) hnodup fun v hv => by
        rw [hspec.others.jobsByUuid v fun (hc : v = u) => hu (hc ▸ hv)]
        exact hnone v (List.mem_cons_of_mem _ hv)
      refine ⟨m', hok, htold.sound, hspec.others.trans htold.others fun v hv => List.mem_cons.mpr hv,
        hspec.settings.trans htold.settings, htold.owned, fun v hv => ?_, fun v hv x hx => ?_⟩
      · rcases List.mem_cons.mp hv with rfl | hv
        · obtain ⟨own, place, hbefore, hafter⟩ := hspec.stands
          have hplace : place = .absent := by
            refine hbefore.elim (fun hs => ?_) id
            exact (stands_none (hnone v List.mem_cons_self)).mp hs
          rw [hplace] at hafter
          exact ⟨own, htold.others.stands hu hafter⟩
        · exact htold.stands v hv
      · rcases List.mem_cons.mp hv with rfl | hv
        · obtain ⟨y, hy, hsame, -⟩ := hspec.job
          have hx' : m₁.jobsByUuid v = some x := (htold.others.jobsByUuid v hu).symm.trans hx
          obtain rfl : y = x := Option.some.inj (hy.symm.trans hx')
          rw [htold.others.job v y hu hx']
          exact hsame
        · exact htold.data v hv x hx
    · rw [if_neg hdone]
      obtain ⟨m', hok, htold⟩ := ih h hm hnodup fun v hv => hnone v (List.mem_cons_of_mem _ hv)
      refine ⟨m', hok, htold.sound, htold.others.mono fun v hv => List.mem_cons_of_mem u hv, htold.settings,
        htold.owned, fun v hv => ?_, fun v hv x hx => ?_⟩
      · rcases List.mem_cons.mp hv with rfl | hv
        · refine ⟨[], ?_⟩
          rw [placeAfter_of_done hdone]
          exact htold.others.stands hu ((stands_none (hnone v List.mem_cons_self)).mpr rfl)
        · exact htold.stands v hv
      · rcases List.mem_cons.mp hv with rfl | hv
        · rw [htold.others.jobsByUuid v hu, hnone v List.mem_cons_self] at hx
          cases hx
        · exact htold.data v hv x hx

end Manager

end JobQueue
