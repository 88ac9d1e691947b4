import PropzaAmlak.JobQueue.Registry

/-! What the manager makes of a notification. -/

namespace JobQueue

open ChannelQueue Channel Channels Place

namespace Manager

variable {m m' : Manager} {r x : Ref} {own path : Path} {uuid dbName u v : String} {now : Int} {d : JobData}
  {place place' : Place}

/-- The job of this uuid belongs to `own` and is at this place. A job that is not
registered is absent from all channels. -/
def Stands (m : Manager) (u : String) (own : Path) (place : Place) : Prop :=
  match m.jobsByUuid u with
  | none => place = .absent
  | some r => (m.channels.job r).channel = own ∧ m.channels.At own r place ∧ Proper own place

theorem stands_none (h : m.jobsByUuid u = none) : m.Stands u own place ↔ place = .absent := by
  rw [Stands, h]

theorem stands_some (h : m.jobsByUuid u = some r) :
    m.Stands u own place ↔ (m.channels.job r).channel = own ∧ m.channels.At own r place ∧ Proper own place := by
  rw [Stands, h]

theorem Sound.stands (h : m.Sound) (u : String) : ∃ own place, m.Stands u own place := by
  cases hu : m.jobsByUuid u with
  | none => exact ⟨[], .absent, (stands_none hu).mpr rfl⟩
  | some r =>
    obtain ⟨place, hat, hproper⟩ := h.placed.at (r := r)
    exact ⟨_, place, (stands_some hu).mpr ⟨rfl, hat, hproper⟩⟩

theorem Stands.unique {own' : Path} (h : m.Stands u own place) (h' : m.Stands u own' place') : place = place' := by
  cases hu : m.jobsByUuid u with
  | none => rw [(stands_none hu).mp h, (stands_none hu).mp h']
  | some r =>
    obtain ⟨rfl, hat, hproper⟩ := (stands_some hu).mp h
    obtain ⟨rfl, hat', hproper'⟩ := (stands_some hu).mp h'
    exact hat.unique hat' hproper hproper'

theorem Stands.own_eq {own' : Path} (h : m.Stands u own place) (h' : m.Stands u own' place') (hne : place ≠ .absent) :
    own = own' := by
  cases hu : m.jobsByUuid u with
  | none => exact (hne ((stands_none hu).mp h)).elim
  | some r => exact ((stands_some hu).mp h).1.symm.trans ((stands_some hu).mp h').1

/-- The jobs of the uuids outside `C` stay as they are. -/
structure Others (C : String → Prop) (m m' : Manager) : Prop where
  jobsByUuid : ∀ v, ¬ C v → m'.jobsByUuid v = m.jobsByUuid v
  job : ∀ v r, ¬ C v → m.jobsByUuid v = some r → m'.channels.job r = m.channels.job r
  sight : ∀ v r, ¬ C v → m.jobsByUuid v = some r → ∀ p, m'.channels.sight r p = m.channels.sight r p

theorem Others.refl {C : String → Prop} : Others C m m := ⟨fun _ _ => rfl, fun _ _ _ _ => rfl, fun _ _ _ _ _ => rfl⟩

theorem others_withChildren {C : String → Prop} {children : Subchannels} :
    Others C m { m with children := children } :=
  ⟨fun _ _ => rfl, fun _ _ _ _ => rfl, fun _ _ _ _ _ => rfl⟩

theorem Others.mono {C C' : String → Prop} (h : Others C m m') (hC : ∀ v, C v → C' v) : Others C' m m' :=
  ⟨fun v hv => h.jobsByUuid v fun hc => hv (hC v hc), fun v r hv => h.job v r fun hc => hv (hC v hc),
    fun v r hv => h.sight v r fun hc => hv (hC v hc)⟩

theorem Others.trans {C C' C'' : String → Prop} {m'' : Manager} (h : Others C m m') (h' : Others C' m' m'')
    (hC : ∀ v, C v ∨ C' v → C'' v) : Others C'' m m'' := by
  have hnot : ∀ v, ¬ C'' v → ¬ C v ∧ ¬ C' v := fun v hv => ⟨fun hc => hv (hC v (Or.inl hc)),
    fun hc => hv (hC v (Or.inr hc))⟩
  have hreg : ∀ v r, ¬ C v → m.jobsByUuid v = some r → m'.jobsByUuid v = some r :=
    fun v r hv hr => (h.jobsByUuid v hv).trans hr
  refine ⟨fun v hv => ?_, fun v r hv hr => ?_, fun v r hv hr p => ?_⟩
  · exact (h'.jobsByUuid v (hnot v hv).2).trans (h.jobsByUuid v (hnot v hv).1)
  · exact (h'.job v r (hnot v hv).2 (hreg v r (hnot v hv).1 hr)).trans (h.job v r (hnot v hv).1 hr)
  · exact (h'.sight v r (hnot v hv).2 (hreg v r (hnot v hv).1 hr) p).trans (h.sight v r (hnot v hv).1 hr p)

theorem Others.stands {C : String → Prop} (h : Others C m m') (hv : ¬ C v) (hs : m.Stands v own place) :
    m'.Stands v own place := by
  cases hr : m.jobsByUuid v with
  | none => exact (stands_none ((h.jobsByUuid v hv).trans hr)).mpr ((stands_none hr).mp hs)
  | some r =>
    obtain ⟨hown, hat, hproper⟩ := (stands_some hr).mp hs
    refine (stands_some ((h.jobsByUuid v hv).trans hr)).mpr ⟨?_, hat.of_sight_eq (h.sight v r hv hr), hproper⟩
    rw [h.job v r hv hr, hown]

theorem Sound.ne_of_uuid (h : m.Sound) (hu : m.jobsByUuid u = some r) (hv : m.jobsByUuid v = some x) (hne : v ≠ u) :
    x ≠ r := by
  rintro rfl
  exact hne ((h.entry v x hv).1.symm.trans (h.entry u x hu).1)

theorem Notified.others {children : Subchannels} (h : m.Sound) (hu : m.jobsByUuid u = some r)
    (hn : Notified r place { m with children := children } m') : Others (· = u) m m' := by
  refine ⟨fun v _ => by rw [hn.jobsByUuid], fun v x _ _ => by rw [hn.worked.job], fun v x hne hv p => ?_⟩
  exact hn.worked.sight x (h.ne_of_uuid hu hv hne) p

/-! ### What is configured stays -/

/-- No channel is configured anew. -/
def SameSettings (m m' : Manager) : Prop :=
  ∀ p, (m'.channels.channel p).capacity = (m.channels.channel p).capacity ∧
    (m'.channels.channel p).throttle = (m.channels.channel p).throttle ∧
    (m'.channels.channel p).queue.sequential = (m.channels.channel p).queue.sequential

theorem SameSettings.refl : SameSettings m m := fun _ => ⟨rfl, rfl, rfl⟩

theorem SameSettings.trans {m'' : Manager} (h : SameSettings m m') (h' : SameSettings m' m'') : SameSettings m m'' :=
  fun p => ⟨(h' p).1.trans (h p).1, (h' p).2.1.trans (h p).2.1, (h' p).2.2.trans (h p).2.2⟩

theorem sameSettings_of_worked (h : Worked r own m.channels m'.channels) : SameSettings m m' :=
  fun p => ⟨(h.edited p).capacity, (h.edited p).throttle, (h.edited p).sequential⟩

theorem sameSettings_removeJob : SameSettings m (m.removeJob uuid) := by
  rw [Manager.removeJob]
  split
  · exact SameSettings.refl
  · rename_i r _
    have hw : Worked r (m.channels.job r).channel m.channels (m.channels.remove r (m.channels.job r).channel) :=
      worked_remove List.suffix_rfl
    exact sameSettings_of_worked hw

/-! ### Removing a job -/

theorem Sound.others_removeJob (uuid : String) (h : m.Sound) : Others (· = uuid) m (m.removeJob uuid) := by
  rw [Manager.removeJob]
  split
  · exact Others.refl
  · rename_i r hr
    have hw : Worked r (m.channels.job r).channel m.channels (m.channels.remove r (m.channels.job r).channel) :=
      worked_remove List.suffix_rfl
    refine ⟨fun v hv => ?_, fun v x _ _ => congrFun hw.job x, fun v x hne hv p => ?_⟩
    · rw [Manager.forget]
      simp [hv]
    · exact hw.sight x (h.ne_of_uuid hr hv hne) p

theorem stands_removeJob (own : Path) : (m.removeJob uuid).Stands uuid own .absent :=
  (stands_none removeJob_jobsByUuid).mpr rfl

/-! ### A new job -/

theorem Sound.others_newJob (h : m.Sound) : Others (· = d.uuid) m (m.newJob dbName path d) := by
  have hjob : ∀ v x, m.jobsByUuid v = some x → x ≠ m.next := fun v x hx => Nat.ne_of_lt (h.entry v x hx).2.1
  refine ⟨fun v hv => by simp [Manager.newJob, hv], fun v x _ hx => ?_, fun _ _ _ _ _ => rfl⟩
  simp [Manager.newJob, hjob v x hx]

theorem newJob_jobsByUuid : (m.newJob dbName path d).jobsByUuid d.uuid = some m.next := by
  simp [Manager.newJob]

theorem newJob_job : (m.newJob dbName path d).channels.job m.next =
    ⟨dbName, path, d.uuid, d.seq, d.dateCreated, d.priority, d.eta⟩ := by
  simp [Manager.newJob]

theorem Sound.at_newJob (dbName : String) (path : Path) (d : JobData) (h : m.Sound) :
    (m.newJob dbName path d).channels.At path m.next .absent := by
  intro p
  by_contra hs
  exact lt_irrefl _ (h.below m.next ⟨p, refers_of_sight hs⟩)

/-! ### A notification -/

/-- What a notification that fails no assertion leaves behind. -/
structure NotifySpec (dbName : String) (d : JobData) (m m' : Manager) : Prop where
  sound : m'.Sound
  others : Others (· = d.uuid) m m'
  settings : SameSettings m m'
  stands : ∃ own place, (m.Stands d.uuid own place ∨ place = .absent) ∧
    m'.Stands d.uuid own (placeAfter own place d.state)
  job : ∃ r, m'.jobsByUuid d.uuid = some r ∧ SameProperties (m'.channels.job r).channel d (m'.channels.job r) ∧
    (m'.channels.job r).dbName = dbName ∧ (m'.channels.job r).dateCreated = d.dateCreated
  channel : ∀ r, m'.jobsByUuid d.uuid = some r →
    ∃ children, getChannelByName m.children d.channel false true = .ok ((m'.channels.job r).channel, children)

theorem Sound.setState_newJob (dbName : String) (h : m.Sound) (hnone : m.jobsByUuid d.uuid = none)
    (hpath : m.children.IsChannel path) :
    Notified m.next (placeAfter path .absent d.state) (m.newJob dbName path d)
      ((m.newJob dbName path d).setState d.state m.next) := by
  have hnew := h.newJob dbName hnone hpath
  have hchannel : ((m.newJob dbName path d).channels.job m.next).channel = path := by rw [newJob_job]
  have hat := h.at_newJob dbName path d
  rw [← hchannel] at hat
  have hset := hnew.setState d.state newJob_jobsByUuid hat (by simp [Proper])
  rwa [hchannel] at hset

/-- A job that is new to the manager, be it because its old object was removed. -/
theorem Sound.notifySpec_new {m₁ : Manager} {children : Subchannels} (h : m₁.Sound) (hothers : Others (· = d.uuid) m m₁)
    (hsettings : SameSettings m m₁) (hnone : m₁.jobsByUuid d.uuid = none) (hpath : m₁.children.IsChannel path)
    (hget : getChannelByName m.children d.channel false true = .ok (path, children)) :
    NotifySpec dbName d m ((m₁.newJob dbName path d).setState d.state m₁.next) := by
  have hset := h.setState_newJob dbName hnone hpath
  have hnew := h.newJob dbName hnone hpath
  have hreg : ((m₁.newJob dbName path d).setState d.state m₁.next).jobsByUuid d.uuid = some m₁.next := by
    rw [hset.jobsByUuid, newJob_jobsByUuid]
  have hjob : ((m₁.newJob dbName path d).setState d.state m₁.next).channels.job m₁.next =
      ⟨dbName, path, d.uuid, d.seq, d.dateCreated, d.priority, d.eta⟩ := by
    rw [hset.worked.job, newJob_job]
  have hplace := hset.at_place
  rw [newJob_job] at hplace
  have hothers' : Others (· = d.uuid) m₁ ((m₁.newJob dbName path d).setState d.state m₁.next) :=
    h.others_newJob.trans (hset.others hnew newJob_jobsByUuid) fun v hv => hv.elim id id
  have hsettings' : SameSettings (m₁.newJob dbName path d) _ := sameSettings_of_worked hset.worked
  refine ⟨hset.sound, hothers.trans hothers' fun v hv => hv.elim id id,
    hsettings.trans fun p => hsettings' p,
    ⟨path, .absent, Or.inr rfl, (stands_some hreg).mpr ⟨by rw [hjob], hplace,
      proper_placeAfter d.state (by simp [Proper])⟩⟩,
    ⟨m₁.next, hreg, ?_⟩, fun r hr => ?_⟩
  · rw [hjob]
    exact ⟨⟨rfl, rfl, rfl, rfl⟩, rfl, rfl⟩
  · obtain rfl := Option.some.inj (hreg.symm.trans hr)
    rw [hjob]
    exact ⟨children, hget⟩

theorem Sound.notify (h : m.Sound) (hn : m.notify dbName d = .ok m') : NotifySpec dbName d m m' := by
  obtain ⟨path, children, hget, hpath, hdistinct, hmono⟩ := getChannelByName_fallback m.children d.channel
  have hsound := h.withChildren (hdistinct h.distinct) hmono
  rw [Manager.notify, hget] at hn
  dsimp only at hn
  cases hu : m.jobsByUuid d.uuid with
  | none =>
    rw [hu] at hn
    obtain rfl := Except.ok.inj hn
    exact hsound.notifySpec_new others_withChildren SameSettings.refl hu hpath hget
  | some r =>
    rw [hu] at hn
    dsimp only at hn
    split at hn
    · cases hn
    · rename_i hinvariant
      rw [not_or, not_not, not_not] at hinvariant
      split at hn
      · rename_i hsame
        obtain rfl := Except.ok.inj hn
        obtain ⟨place, hat, hproper⟩ := h.placed.at (r := r)
        have hset := hsound.setState (u := d.uuid) d.state hu hat hproper
        have hreg := (congrFun hset.jobsByUuid d.uuid).trans hu
        refine ⟨hset.sound, hset.others h hu, sameSettings_of_worked hset.worked,
          ⟨_, place, Or.inl ((stands_some hu).mpr ⟨rfl, hat, hproper⟩),
            (stands_some hreg).mpr ⟨by rw [hset.worked.job], hset.at_place, proper_placeAfter d.state hproper⟩⟩,
          ⟨r, hreg, ?_⟩, fun x hx => ?_⟩
        · rw [hset.worked.job]
          exact ⟨⟨hsame.1, hsame.2.1, hsame.2.2.1, rfl⟩, hinvariant⟩
        · obtain rfl := Option.some.inj (hreg.symm.trans hx)
          rw [hset.worked.job]
          exact ⟨children, by rw [hget, hsame.2.2.2]⟩
      · obtain rfl := Except.ok.inj hn
        have hothers : Others (· = d.uuid) m (Manager.removeJob d.uuid { m with children := children }) :=
          others_withChildren.trans (hsound.others_removeJob d.uuid) fun v hv => hv.elim id id
        refine hsound.removeJob.notifySpec_new hothers (SameSettings.refl.trans sameSettings_removeJob)
          removeJob_jobsByUuid ?_ hget
        rwa [removeJob_children]

theorem notify_of_none (dbName : String) (h : m.jobsByUuid d.uuid = none) : ∃ m', m.notify dbName d = .ok m' := by
  obtain ⟨path, children, hget, -⟩ := getChannelByName_fallback m.children d.channel
  refine ⟨(Manager.newJob dbName path d { m with children := children }).setState d.state m.next, ?_⟩
  rw [Manager.notify, hget]
  dsimp only
  rw [h]

/-- An assertion that fails leaves all jobs as they were. -/
theorem Sound.notify_error (h : m.Sound) (hn : m.notify dbName d = .error m') :
    m'.Sound ∧ m'.channels = m.channels ∧ m'.jobsByUuid = m.jobsByUuid ∧ m'.next = m.next := by
  obtain ⟨path, children, hget, -, hdistinct, hmono⟩ := getChannelByName_fallback m.children d.channel
  rw [Manager.notify, hget] at hn
  dsimp only at hn
  split at hn
  · cases hn
  · split at hn
    · obtain rfl := Except.error.inj hn
      exact ⟨h.withChildren (hdistinct h.distinct) hmono, rfl, rfl, rfl⟩
    · split at hn <;> cases hn

end Manager

end JobQueue
