import PropzaAmlak.JobQueue.RunnerRules

/-! The runner and the table, event after event, in whatever order. -/

namespace JobQueue

open ChannelQueue Channel Channels Place Manager

namespace Runner

variable {w w' : Runner} {u v : String} {r : Ref} {now n : Int} {row : Option Row} {m' : Manager} {e : Event}
  {events more : List Event} {place : Place} {own : Path}

/-- Where the job is to be as its row is: a job that is pending may have been got
to be sent just now. -/
def PlaceFits (w : Runner) (u : String) (place : Place) : Prop :=
  RowFits (w.rows.find u) place ∨
    (∃ row ∈ w.rows.find u, row.state = .pending) ∧ place = .flowing 0 ∧ ∃ r ∈ w.sending, w.uuid r = u

/-- What the manager knows of a job is what its row says. -/
structure Agrees (w : Runner) (u : String) : Prop where
  place : ∃ own place, w.manager.Stands u own place ∧ w.PlaceFits u place
  data : ∀ row ∈ w.rows.find u, ∀ r, w.manager.jobsByUuid u = some r →
    (w.manager.channels.job r).seq = row.seq ∧ (w.manager.channels.job r).priority = row.priority ∧
      ((w.manager.channels.job r).eta = row.eta ∨ (w.manager.channels.job r).eta = none)

structure Consistent (w : Runner) : Prop where
  sound : w.manager.Sound
  owned : w.manager.Owned w.dbName
  closed : w.phase ≠ .ready → (∀ u, w.manager.jobsByUuid u = none) ∧ w.sending = []
  running : w.phase = .ready → ∀ u ∈ w.rows.active, ∃ own, w.manager.Stands u own (.flowing 0)
  sending : ∀ r ∈ w.sending, w.manager.jobsByUuid (w.uuid r) = some r ∧
    (∃ own, w.manager.Stands (w.uuid r) own (.flowing 0)) ∧ w.uuid r ∉ w.rows.active
  nodup : w.sending.Nodup
  agrees : w.phase = .ready → ∀ u ∉ w.notifies, w.Agrees u

/-! ### Writes to the rows -/

@[simp] theorem manager_write : (w.write u row).manager = w.manager := rfl

@[simp] theorem phase_write : (w.write u row).phase = w.phase := rfl

@[simp] theorem sending_write : (w.write u row).sending = w.sending := rfl

@[simp] theorem dbName_write : (w.write u row).dbName = w.dbName := rfl

@[simp] theorem rows_write : (w.write u row).rows = w.rows.put u row := rfl

@[simp] theorem uuid_write : (w.write u row).uuid = w.uuid := rfl

theorem notMem_of_notMem_write (h : v ∉ (w.write u row).notifies) : v ∉ w.notifies := by
  rw [write] at h
  dsimp only at h
  split at h
  · exact fun hv => h (List.mem_cons_of_mem _ hv)
  · exact h

theorem active_write (h : ∀ row' ∈ row, row'.Active → ∃ row₀ ∈ w.rows.find u, row₀.Active) :
    (w.write u row).rows.active ⊆ w.rows.active := by
  intro v hv
  rw [Rows.mem_active] at hv ⊢
  by_cases hvu : v = u
  · subst hvu
    obtain ⟨row', hrow', hactive⟩ := hv
    rw [rows_write, Rows.find_put_self] at hrow'
    exact h row' hrow' hactive
  · rwa [rows_write, Rows.find_put_of_ne hvu] at hv

theorem Agrees.write (h : w.Agrees v) (hv : v ≠ u) : (w.write u row).Agrees v := by
  obtain ⟨⟨own, place, hs, hfits⟩, hdata⟩ := h
  refine ⟨⟨own, place, hs, ?_⟩, ?_⟩
  · rw [PlaceFits, rows_write, Rows.find_put_of_ne hv]
    exact hfits
  · rw [rows_write, Rows.find_put_of_ne hv]
    exact hdata

/-- The trigger keeps quiet of no change that the manager has to know of. -/
theorem Agrees.write_self (h : w.phase = .ready → u ∉ w.notifies → w.Agrees u) (hready : w.phase = .ready)
    (hu : u ∉ (w.write u row).notifies) : (w.write u row).Agrees u := by
  have hagrees := h hready (notMem_of_notMem_write hu)
  have hquiet : ¬ Notifies (w.rows.find u) row := by
    intro hnotifies
    rw [Runner.write] at hu
    dsimp only at hu
    rw [if_pos ⟨by rw [hready]; decide, hnotifies⟩] at hu
    exact hu List.mem_cons_self
  rw [Notifies, not_or] at hquiet
  obtain rfl : row = none := Option.not_isSome_iff_eq_none.mp hquiet.1
  obtain ⟨old, hold, hdone⟩ : ∃ old ∈ w.rows.find u, old.state = .done := by
    by_contra hnot
    exact hquiet.2 fun old hold hstate => hnot ⟨old, hold, hstate⟩
  obtain ⟨own, place, hs, hfits⟩ := hagrees.place
  have hfind : w.rows.find u = some old := hold
  rw [PlaceFits, hfind, RowFits, hdone] at hfits
  refine ⟨⟨own, place, hs, ?_⟩, ?_⟩
  · rw [PlaceFits, rows_write, Rows.find_put_self]
    refine Or.inl (hfits.resolve_right ?_)
    rintro ⟨⟨row, hrow, hpending⟩, -⟩
    obtain rfl := Option.some.inj hrow
    rw [hdone] at hpending
    cases hpending
  · rw [rows_write, Rows.find_put_self]
    simp

theorem Consistent.write (h : w.Consistent)
    (hrow : ∀ row' ∈ row, row'.Active → ∃ row₀ ∈ w.rows.find u, row₀.Active) : (w.write u row).Consistent := by
  have hsub := active_write hrow
  refine ⟨h.sound, h.owned, h.closed, fun hready v hv => h.running hready v (hsub hv), fun r hr => ?_, h.nodup,
    fun hready v hv => ?_⟩
  · obtain ⟨hreg, hs, hnot⟩ := h.sending r hr
    exact ⟨hreg, hs, fun hactive => hnot (hsub hactive)⟩
  · by_cases hvu : v = u
    · subst hvu
      exact Agrees.write_self (fun hready hv => h.agrees hready v hv) hready hv
    · exact (h.agrees hready v (notMem_of_notMem_write hv)).write hvu

theorem Consistent.writeRow {a : RowAction} (h : w.Consistent) : (w.writeRow u a).Consistent := by
  rw [Runner.writeRow]
  split
  · exact h
  · rename_i row hrow
    refine h.write fun row' hrow' hactive => ?_
    obtain rfl : row = some row' := hrow'
    exact RowAction.writes_active hrow hactive

/-! ### The manager is told of one row -/

theorem uuid_of_job (h : w'.manager.channels.job = w.manager.channels.job) : w'.uuid = w.uuid := by
  funext r
  rw [uuid, uuid, h]

theorem Agrees.told {C : String → Prop} (h : w.Agrees v) (hfree : w.sending = []) (ho : Others C w.manager m')
    (hv : ¬ C v) (hrows : w'.rows = w.rows) (hm : w'.manager = m') : w'.Agrees v := by
  obtain ⟨⟨own, place, hs, hfits⟩, hdata⟩ := h
  refine ⟨⟨own, place, hm ▸ ho.stands hv hs, ?_⟩, fun row hrow r hr => ?_⟩
  · rw [PlaceFits, hfree] at hfits
    rw [PlaceFits, hrows]
    exact Or.inl (hfits.resolve_right (by simp))
  · rw [hrows] at hrow
    rw [hm] at hr ⊢
    have hr' := (ho.jobsByUuid v hv).symm.trans hr
    rw [ho.job v r hv hr']
    exact hdata row hrow r hr'

/-- The manager is told of the row of `u`. -/
theorem Consistent.told (h : w.Consistent) (hfree : w.Free) (hsound : m'.Sound) (howned : m'.Owned w.dbName)
    (ho : Others (· = u) w.manager m') (hplace : ∃ own place, m'.Stands u own place ∧ RowFits (w.rows.find u) place)
    (hdata : ∀ row ∈ w.rows.find u, ∀ r, m'.jobsByUuid u = some r →
      (m'.channels.job r).seq = row.seq ∧ (m'.channels.job r).priority = row.priority ∧
        ((m'.channels.job r).eta = row.eta ∨ (m'.channels.job r).eta = none)) :
    ({ w with notifies := w.notifies.erase u, manager := m' } : Runner).Consistent := by
  refine ⟨hsound, howned, fun hphase => (hphase hfree.1).elim, fun _ v hv => ?_, fun r hr => ?_, h.nodup,
    fun _ v hv => ?_⟩
  · by_cases hvu : v = u
    · subst hvu
      obtain ⟨own, place, hs, hfits⟩ := hplace
      obtain ⟨row, hrow, hactive⟩ := Rows.mem_active.mp hv
      rw [hrow, RowFits] at hfits
      refine ⟨own, ?_⟩
      rcases hactive with hstate | hstate
      · rw [hstate] at hfits
        exact hfits ▸ hs
      · rw [hstate] at hfits
        exact hfits ▸ hs
    · obtain ⟨own, hs⟩ := h.running hfree.1 v hv
      exact ⟨own, ho.stands hvu hs⟩
  · dsimp only at hr
    rw [hfree.2] at hr
    cases hr
  · by_cases hvu : v = u
    · subst hvu
      obtain ⟨own, place, hs, hfits⟩ := hplace
      exact ⟨⟨own, place, hs, Or.inl hfits⟩, hdata⟩
    · refine (h.agrees hfree.1 v fun hmem => hv ?_).told hfree.2 ho hvu rfl rfl
      exact (List.mem_erase_of_ne hvu).mpr hmem

theorem Consistent.of_closed (hsound : w.manager.Sound) (howned : w.manager.Owned w.dbName) :
    w.closeDatabases.Consistent := by
  have hnone : ∀ u, (w.manager.removeDb w.dbName).jobsByUuid u = none := fun u => hsound.removeDb_none howned
  refine ⟨hsound.removeDb.sound, fun u r hr => ?_, fun _ => ⟨hnone, rfl⟩, fun hphase => ?_, fun r hr => ?_,
    List.nodup_nil, fun hphase => ?_⟩
  · rw [closeDatabases] at hr
    dsimp only at hr
    rw [hnone u] at hr
    cases hr
  · cases hphase
  · cases hr
  · cases hphase

theorem Consistent.processNotification (h : w.Consistent) (hfree : w.Free) : (w.processNotification u).Consistent := by
  rw [Runner.processNotification]
  dsimp only
  cases hfind : w.rows.find u with
  | none =>
    have ho := h.sound.others_removeJob u
    refine h.told hfree h.sound.removeJob ?_ ho ⟨[], .absent, stands_removeJob [], ?_⟩ ?_
    · refine ho.owned h.owned ?_
      rintro v r rfl hr
      rw [removeJob_jobsByUuid] at hr
      cases hr
    · rw [hfind, RowFits]
    · rw [hfind]
      simp
  | some row =>
    dsimp only
    cases hn : w.manager.notify w.dbName (row.data u) with
    | error m' =>
      obtain ⟨hsound, hchannels, hjobs, -⟩ := h.sound.notify_error hn
      refine Consistent.of_closed hsound fun v r hr => ?_
      dsimp only at hr ⊢
      rw [hjobs] at hr
      rw [hchannels]
      exact h.owned v r hr
    | ok m' =>
      have hspec := h.sound.notify hn
      refine h.told hfree hspec.sound (hspec.owned h.owned) hspec.others ?_ ?_
      · have hactive : row.state = .enqueued ∨ row.state = .started →
            ∃ own, w.manager.Stands u own (.flowing 0) :=
          fun hstate => h.running hfree.1 u (Rows.mem_active.mpr ⟨row, hfind, hstate⟩)
        obtain ⟨own, place, hs, hfits⟩ := hspec.fits hactive
        refine ⟨own, place, hs, ?_⟩
        rw [hfind]
        exact hfits
      · rintro row' hrow' r hr
        obtain rfl : row = row' := Option.some.inj (hfind.symm.trans hrow')
        obtain ⟨x, hx, hsame, -⟩ := hspec.job
        obtain rfl := Option.some.inj (hx.symm.trans hr)
        exact ⟨hsame.1.symm, hsame.2.1.symm, Or.inl hsame.2.2.1.symm⟩

/-! ### The jobs are got and sent -/

theorem fits_downstream {place' : Place} (state : JobState) (hd : place.Downstream place') (h : Fits state place) :
    Fits state place' ∨ state = .pending ∧ place' = .flowing 0 := by
  have hsame : ∀ {q : Place}, place = q → (∀ k, q ≠ .flowing k) → place' = q := by
    rintro q rfl hq
    rcases hd with rfl | ⟨k, k', rfl, -, -⟩
    · rfl
    · exact (hq k rfl).elim
  have hzero : place = .flowing 0 → place' = .flowing 0 := by
    rintro rfl
    rcases hd with rfl | ⟨k, k', heq, rfl, hle⟩
    · rfl
    · rw [← Place.flowing.inj heq] at hle
      rw [Nat.le_zero.mp hle]
  cases state with
  | done => exact Or.inl (hsame h (by simp))
  | cancelled => exact Or.inl (hsame h (by simp))
  | failed => exact Or.inl (hsame h (by simp))
  | enqueued => exact Or.inl (hzero h)
  | started => exact Or.inl (hzero h)
  | waitDependencies => exact Or.inl trivial
  | pending =>
    obtain ⟨k, hk, rfl⟩ := h
    rcases hd with rfl | ⟨k₁, k₂, -, rfl, -⟩
    · exact Or.inl ⟨k, hk, rfl⟩
    · by_cases hk₂ : k₂ = 0
      · exact Or.inr ⟨rfl, by rw [hk₂]⟩
      · exact Or.inl ⟨k₂, hk₂, rfl⟩

/-- A job that has come to run in all its channels is one of those sent. -/
theorem sent_of_stands {m : Manager} {sent : List Ref} (h : m.Sound) (hrun : RunSpec now m m' sent)
    (hs : m.Stands u own place) (hne : place ≠ .flowing 0) (hs' : m'.Stands u own (.flowing 0)) :
    ∃ r ∈ sent, m'.jobsByUuid u = some r ∧ (m'.channels.job r).uuid = u := by
  cases hu : m'.jobsByUuid u with
  | none => cases (stands_none hu).mp hs'
  | some r =>
    have hu' : m.jobsByUuid u = some r := (congrFun hrun.jobsByUuid u).symm.trans hu
    refine ⟨r, (hrun.sent.mem r).mpr ⟨?_, fun hr => hne ?_⟩, rfl, (hrun.sound.entry u r hu).1⟩
    · exact ((stands_some hu).mp hs').2.1.running.mpr ⟨List.nil_suffix, le_rfl⟩
    · obtain ⟨-, k, hk, -, hle⟩ := h.of_running hr
      rw [(h.entry u r hu').1] at hk
      rw [hs.unique hk, Nat.le_zero.mp hle]

theorem Consistent.getJobsToRun (h : w.Consistent) (hfree : w.Free) : (w.getJobsToRun now).Consistent := by
  have hrun := h.sound.getJobsToRun now
  have hjob : ∀ r, ∃ eta, (w.getJobsToRun now).manager.channels.job r =
      { w.manager.channels.job r with eta := eta } ∧ (eta = (w.manager.channels.job r).eta ∨ eta = none) :=
    hrun.passed.moves.same
  have hzero : ∀ v, v ∈ w.rows.active → ∃ own, (w.getJobsToRun now).manager.Stands v own (.flowing 0) := by
    intro v hv
    obtain ⟨own, hs⟩ := h.running hfree.1 v hv
    obtain ⟨place', hs', hdown⟩ := hrun.stands hs
    rcases fits_downstream .enqueued hdown rfl with rfl | hfits
    · exact ⟨own, hs'⟩
    · exact ⟨own, hfits.2 ▸ hs'⟩
  refine ⟨hrun.sound, fun v r hr => ?_, fun hphase => (hphase hfree.1).elim, fun _ => hzero, fun r hr => ?_,
    hrun.sent.nodup, fun _ v hv => ?_⟩
  · obtain ⟨eta, heta, -⟩ := hjob r
    rw [heta]
    exact h.owned v r hr
  · obtain ⟨hin, hout⟩ := (hrun.sent.mem r).mp hr
    obtain ⟨hreg, k, hk, -, hle⟩ := hrun.sound.of_running hin
    refine ⟨hreg, ⟨_, Nat.le_zero.mp hle ▸ hk⟩, fun hactive => hout ?_⟩
    obtain ⟨own, hs⟩ := h.running hfree.1 _ hactive
    have hreg' : w.manager.jobsByUuid ((w.getJobsToRun now).uuid r) = some r := hreg
    exact ((stands_some hreg').mp hs).2.1.running.mpr ⟨List.nil_suffix, le_rfl⟩
  · obtain ⟨⟨own, place, hs, hfits⟩, hdata⟩ := h.agrees hfree.1 v hv
    rw [PlaceFits, hfree.2] at hfits
    replace hfits := hfits.resolve_right (by simp)
    obtain ⟨place', hs', hdown⟩ := hrun.stands hs
    refine ⟨⟨own, place', hs', ?_⟩, fun row hrow r hr => ?_⟩
    · have hrows : (w.getJobsToRun now).rows = w.rows := rfl
      rw [PlaceFits, hrows]
      cases hfind : w.rows.find v with
      | none =>
        rw [hfind, RowFits] at hfits
        exact Or.inl ((fits_downstream .done hdown hfits).resolve_right (by simp))
      | some row =>
        rw [hfind, RowFits] at hfits
        rcases fits_downstream _ hdown hfits with hfits' | ⟨hpending, rfl⟩
        · exact Or.inl hfits'
        · have hne : place ≠ .flowing 0 := by
            rintro rfl
            rw [hpending] at hfits
            obtain ⟨k, hk, heq⟩ := hfits
            exact hk (Place.flowing.inj heq).symm
          obtain ⟨r, hr, -, huuid⟩ := sent_of_stands h.sound hrun hs hne hs'
          exact Or.inr ⟨⟨row, rfl, hpending⟩, rfl, r, hr, huuid⟩
    · obtain ⟨eta, heta, hnone⟩ := hjob r
      obtain ⟨hseq, hpriority, heta'⟩ := hdata row hrow r hr
      rw [heta]
      refine ⟨hseq, hpriority, ?_⟩
      rcases hnone with rfl | rfl
      · exact heta'
      · exact Or.inr rfl

/-- What is left to send does not concern the row of the job just sent. -/
theorem Agrees.sent {rest : List Ref} (h : w.Agrees v) (hrest : w.sending = r :: rest)
    (hne : v = w.uuid r → w.rows.find v = none) : ({ w with sending := rest } : Runner).Agrees v := by
  obtain ⟨⟨own, place, hs, hfits⟩, hdata⟩ := h
  refine ⟨⟨own, place, hs, ?_⟩, hdata⟩
  rcases hfits with hfits | ⟨⟨row, hrow, hpending⟩, hplace, x, hx, huuid⟩
  · exact Or.inl hfits
  · refine Or.inr ⟨⟨row, hrow, hpending⟩, hplace, x, ?_, huuid⟩
    rw [hrest] at hx
    refine (List.mem_cons.mp hx).resolve_left ?_
    rintro rfl
    rw [hne huuid.symm] at hrow
    cases hrow

theorem Consistent.send (h : w.Consistent) (hready : w.phase = .ready) : w.send.Consistent := by
  rw [Runner.send]
  cases hrest : w.sending with
  | nil => exact h
  | cons r rest =>
    obtain ⟨hreg, ⟨own, hs⟩, hnot⟩ := h.sending r (by rw [hrest]; exact List.mem_cons_self)
    have hnodup := h.nodup
    rw [hrest, List.nodup_cons] at hnodup
    have hsending : ∀ x ∈ rest, x ∈ w.sending := fun x hx => by
      rw [hrest]
      exact List.mem_cons_of_mem _ hx
    have huuid : ∀ x ∈ rest, w.uuid x ≠ w.uuid r := by
      intro x hx heq
      have hx' := (h.sending x (hsending x hx)).1
      rw [heq, hreg] at hx'
      exact hnodup.1 (Option.some.inj hx' ▸ hx)
    dsimp only
    cases hfind : w.rows.find (w.uuid r) with
    | none =>
      refine ⟨h.sound, h.owned, fun hphase => (hphase hready).elim, h.running, fun x hx => h.sending x (hsending x hx),
        hnodup.2, fun _ v hv => (h.agrees hready v hv).sent hrest ?_⟩
      rintro rfl
      exact hfind
    | some row =>
      refine ⟨h.sound, h.owned, fun hphase => (hphase hready).elim, fun _ v hv => ?_, fun x hx => ?_, hnodup.2,
        fun _ v hv => ?_⟩
      · by_cases hvr : v = w.uuid r
        · exact ⟨own, hvr ▸ hs⟩
        · rw [Rows.mem_active, rows_write, Rows.find_put_of_ne hvr] at hv
          exact h.running hready v (Rows.mem_active.mpr hv)
      · obtain ⟨hxreg, hxs, hxnot⟩ := h.sending x (hsending x hx)
        refine ⟨hxreg, hxs, fun hactive => hxnot ?_⟩
        have hput : w.uuid x ∈ (w.rows.put (w.uuid r) (some { row with state := .enqueued })).active := hactive
        rw [Rows.mem_active, Rows.find_put_of_ne (huuid x hx)] at hput
        exact Rows.mem_active.mpr hput
      · have hvr : v ≠ w.uuid r := by
          rintro rfl
          have hnotified := hv
          dsimp only [Runner.write] at hnotified
          rw [if_pos ⟨by rw [hready]; decide, Or.inl rfl⟩] at hnotified
          exact hnotified List.mem_cons_self
        have hagrees := (h.agrees hready v (notMem_of_notMem_write hv)).sent hrest fun heq => (hvr heq).elim
        exact hagrees.write hvr

/-! ### The other events -/

theorem Consistent.of_stands (h : w.Consistent) (hsound : m'.Sound) (howned : m'.Owned w.dbName)
    (hnone : ∀ u, w.manager.jobsByUuid u = none → m'.jobsByUuid u = none)
    (hjobs : ∀ u, (∃ own, w.manager.Stands u own (.flowing 0)) → m'.jobsByUuid u = w.manager.jobsByUuid u)
    (hstands : ∀ u own place, w.manager.Stands u own place → m'.Stands u own place)
    (hjob : m'.channels.job = w.manager.channels.job)
    (hreg : ∀ u r, m'.jobsByUuid u = some r → w.manager.jobsByUuid u = some r) :
    ({ w with manager := m' } : Runner).Consistent := by
  have huuid : ({ w with manager := m' } : Runner).uuid = w.uuid := uuid_of_job hjob
  refine ⟨hsound, howned, fun hphase => ?_, fun hphase v hv => ?_, fun r hr => ?_, h.nodup, fun hphase v hv => ?_⟩
  · exact ⟨fun u => hnone u ((h.closed hphase).1 u), (h.closed hphase).2⟩
  · obtain ⟨own, hs⟩ := h.running hphase v hv
    exact ⟨own, hstands v own _ hs⟩
  · obtain ⟨hr', ⟨own, hs⟩, hnot⟩ := h.sending r hr
    rw [huuid]
    exact ⟨(hjobs _ ⟨own, hs⟩).trans hr', ⟨own, hstands _ own _ hs⟩, hnot⟩
  · obtain ⟨⟨own, place, hs, hfits⟩, hdata⟩ := h.agrees hphase v hv
    refine ⟨⟨own, place, hstands v own place hs, ?_⟩, fun row hrow r hr => ?_⟩
    · rw [PlaceFits, huuid]
      exact hfits
    · dsimp only at hr ⊢
      rw [hjob]
      exact hdata row hrow r (hreg v r hr)

theorem Consistent.getWakeupTime (h : w.Consistent) :
    ({ w with manager := w.manager.getWakeupTime.2 } : Runner).Consistent := by
  have hwake := h.sound.getWakeupTime
  refine h.of_stands hwake.sound (fun u r hr => ?_) (fun u hu => (congrFun hwake.jobsByUuid u).trans hu)
    (fun u _ => congrFun hwake.jobsByUuid u) (fun u own place hs => hwake.stands hs) hwake.purged.job
    fun u r hr => (congrFun hwake.jobsByUuid u).symm.trans hr
  rw [hwake.purged.job]
  exact h.owned u r hr

theorem Consistent.collect (h : w.Consistent) : ({ w with manager := w.manager.collect u } : Runner).Consistent := by
  refine h.of_stands h.sound.collect (fun v r hr => ?_) (fun v hv => ?_) (fun v hv => ?_)
    (fun v own place hs => h.sound.stands_collect hs) (congrArg Channels.job collect_job)
    fun v r hr => collect_jobsByUuid hr
  · rw [collect_job]
    exact h.owned v r (collect_jobsByUuid hr)
  · cases hr : (w.manager.collect u).jobsByUuid v with
    | none => rfl
    | some r => rw [← hv, collect_jobsByUuid hr]
  · obtain ⟨own, hs⟩ := hv
    have hs' := h.sound.stands_collect (u := u) hs
    cases hr : (w.manager.collect u).jobsByUuid v with
    | none => cases (stands_none hr).mp hs'
    | some r => rw [collect_jobsByUuid hr]

theorem Consistent.initializeDatabases {order : List String} (h : w.Consistent) (hphase : w.phase = .listening)
    (hnodup : order.Nodup) (horder : order.toFinset = w.rows.uuids) :
    ({ w with phase := .ready }.orClose (notifyAll w.dbName w.rows order w.manager)).Consistent := by
  have hclosed := h.closed (by rw [hphase]; decide)
  obtain ⟨m', hok, htold⟩ := h.sound.notifyAll w.rows h.owned hnodup (fun u _ => hclosed.1 u)
  rw [hok, orClose]
  have hmem : ∀ v, v ∈ order ↔ v ∈ w.rows.uuids := fun v => by rw [← horder, List.mem_toFinset]
  have hfits : ∀ v, ∃ own place, m'.Stands v own place ∧ RowFits (w.rows.find v) place := by
    intro v
    by_cases hv : v ∈ order
    · obtain ⟨own, hs⟩ := htold.stands v hv
      refine ⟨own, _, hs, ?_⟩
      rw [Rows.find, if_pos ((hmem v).mp hv)]
      exact fits_placeAfter fun _ => Or.inr rfl
    · refine ⟨[], .absent, htold.others.stands hv ((stands_none (hclosed.1 v)).mpr rfl), ?_⟩
      rw [Rows.find, if_neg fun hc => hv ((hmem v).mpr hc)]
      rfl
  refine ⟨htold.sound, htold.owned, fun hc => (hc rfl).elim, fun _ v hv => ?_, fun r hr => ?_, h.nodup,
    fun _ v hv => ?_⟩
  · obtain ⟨own, place, hs, hrow⟩ := hfits v
    obtain ⟨row, hfind, hactive⟩ := Rows.mem_active.mp hv
    rw [hfind, RowFits] at hrow
    refine ⟨own, ?_⟩
    rcases hactive with hstate | hstate
    · rw [hstate] at hrow
      exact hrow ▸ hs
    · rw [hstate] at hrow
      exact hrow ▸ hs
  · dsimp only at hr
    rw [hclosed.2] at hr
    cases hr
  · obtain ⟨own, place, hs, hrow⟩ := hfits v
    refine ⟨⟨own, place, hs, Or.inl hrow⟩, fun row hfind r hr => ?_⟩
    by_cases hv' : v ∈ order
    · have hsame := htold.data v hv' r hr
      have hfind' : w.rows.find v = some row := hfind
      rw [Rows.find, if_pos ((hmem v).mp hv')] at hfind'
      rw [Option.some.inj hfind'] at hsame
      exact ⟨hsame.1.symm, hsame.2.1.symm, Or.inl hsame.2.2.1.symm⟩
    · have hfind' : w.rows.find v = some row := hfind
      rw [Rows.find, if_neg fun hc => hv' ((hmem v).mpr hc)] at hfind'
      cases hfind'

theorem Consistent.requeueDead {row₀ : Row} (h : w.Consistent) : (w.write u (some row₀.requeueDead)).Consistent := by
  refine h.write fun row' hrow' hactive => ?_
  obtain rfl := Option.some.inj hrow'
  rw [Row.Active, Row.requeueDead] at hactive
  dsimp only at hactive
  split at hactive <;> simp at hactive

theorem Consistent.step (h : w.Consistent) (e : Event) : (w.step e).Consistent := by
  cases e with
  | row u a => exact h.writeRow
  | requeueDead u =>
    rw [Runner.step]
    split
    · split
      · exact h.requeueDead
      · exact h
    · exact h
  | processNotification u =>
    rw [Runner.step]
    split
    · rename_i hfree
      exact h.processNotification hfree.1
    · exact h
  | getJobsToRun now =>
    rw [Runner.step]
    split
    · rename_i hfree
      exact h.getJobsToRun hfree
    · exact h
  | send =>
    rw [Runner.step]
    split
    · rename_i hready
      exact h.send hready
    · exact h
  | getWakeupTime =>
    rw [Runner.step]
    split
    · exact h.getWakeupTime
    · exact h
  | collect u => exact h.collect
  | closeDatabases => exact Consistent.of_closed h.sound h.owned
  | listen =>
    rw [Runner.step]
    split
    · rename_i hphase
      have hclosed := h.closed (by rw [hphase]; decide)
      refine ⟨h.sound, h.owned, fun _ => hclosed, fun hc => ?_, h.sending, h.nodup, fun hc => ?_⟩
      · cases hc
      · cases hc
    · exact h
  | initializeDatabases order =>
    rw [Runner.step]
    split
    · rename_i hinit
      exact h.initializeDatabases hinit.1 hinit.2.1 hinit.2.2
    · exact h

/-- The runner before it has opened the database. -/
structure Start (w : Runner) : Prop where
  idle : w.manager.Idle
  phase : w.phase = .closed
  sending : w.sending = []

theorem Start.consistent (h : w.Start) : w.Consistent := by
  have hready : w.phase ≠ .ready := by rw [h.phase]; decide
  refine ⟨h.idle.sound, fun u r hr => ?_, fun _ => ⟨h.idle.jobsByUuid, h.sending⟩, fun hc => (hready hc).elim,
    fun r hr => ?_, by rw [h.sending]; exact List.nodup_nil, fun hc => (hready hc).elim⟩
  · rw [h.idle.jobsByUuid u] at hr
    cases hr
  · rw [h.sending] at hr
    cases hr

theorem Start.always_consistent (h : w.Start) : Tx.Always Runner.step Consistent w events :=
  Tx.always_of_step h.consistent fun _ e hw => hw.step e

end Runner

end JobQueue
