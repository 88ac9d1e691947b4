import PropzaAmlak.JobQueue.Manager
import PropzaAmlak.JobQueue.Wakeup
import PropzaAmlak.Tx.Histories

/-! The jobs of the manager and their places, over its whole life. -/

namespace JobQueue

open ChannelQueue Channel Channels Place

namespace Channels

variable {s : Channels} {r : Ref} {own : Path} {place place' : Place}

/-- A level beyond the job's own channel would be no place at all. -/
def Proper (own : Path) (place : Place) : Prop := ∀ m, place = .flowing m → m ≤ own.length + 1

theorem Proper.queued {m : Nat} (hp : Proper own (.flowing m)) (hm : m ≠ 0) :
    ∃ p, p <:+ own ∧ p.length + 1 = m := by
  have hle := hp m rfl
  exact ⟨own.drop (own.length + 1 - m), List.drop_suffix _ _, by rw [List.length_drop]; omega⟩

theorem At.level_eq {m m' : Nat} (h : s.At own r (.flowing m)) (h' : s.At own r (.flowing m'))
    (hp : Proper own (.flowing m)) (hm : m ≠ 0) : m = m' := by
  obtain ⟨p, hsuf, hlen⟩ := hp.queued hm
  have hqueued := h'.queued.mp (h.queued.mpr ⟨hsuf, hlen⟩)
  exact hlen.symm.trans hqueued.2

theorem At.flowing_present {m : Nat} (h : s.At own r (.flowing m)) (hp : Proper own (.flowing m)) :
    (∃ p, r ∈ (s.channel p).queue.held) ∨ r ∈ (s.channel own).running := by
  by_cases hm : m = 0
  · exact Or.inr (h.running.mpr ⟨List.suffix_rfl, by omega⟩)
  · obtain ⟨p, hsuf, hlen⟩ := hp.queued hm
    exact Or.inl ⟨p, h.queued.mpr ⟨hsuf, hlen⟩⟩

/-- A job has one place. -/
theorem At.unique (h : s.At own r place) (h' : s.At own r place') (hp : Proper own place) (hp' : Proper own place') :
    place = place' := by
  have hflow : ∀ {m : Nat}, s.At own r (.flowing m) → Proper own (.flowing m) →
      ¬ s.At own r .absent ∧ ¬ s.At own r .failed := by
    intro m hat hproper
    constructor <;> intro hother
    · rcases hat.flowing_present hproper with ⟨p, hq⟩ | hq
      · simpa [Place.sight, nowhere] using hother.queued.mp hq
      · simpa [Place.sight, nowhere] using hother.running.mp hq
    · rcases hat.flowing_present hproper with ⟨p, hq⟩ | hq
      · simpa [Place.sight] using hother.queued.mp hq
      · simpa [Place.sight] using hother.running.mp hq
  have hfailed : s.At own r .failed → ¬ s.At own r .absent := by
    intro hat hother
    have hself := hother.failed.mp (hat.failed.mpr rfl)
    simp [Place.sight, nowhere] at hself
  cases place with
  | absent =>
    cases place' with
    | absent => rfl
    | failed => exact (hfailed h' h).elim
    | flowing m => exact ((hflow h' hp').1 h).elim
  | failed =>
    cases place' with
    | absent => exact (hfailed h h').elim
    | failed => rfl
    | flowing m => exact ((hflow h' hp').2 h).elim
  | flowing m =>
    cases place' with
    | absent => exact ((hflow h hp).1 h').elim
    | failed => exact ((hflow h hp).2 h').elim
    | flowing m' =>
      by_cases hm : m = 0
      · by_cases hm' : m' = 0
        · rw [hm, hm']
        · rw [h'.level_eq h hp' hm']
      · rw [h.level_eq h' hp hm]

theorem WellPlaced.at (h : s.WellPlaced) : ∃ place, s.At (s.job r).channel r place ∧ Proper (s.job r).channel place :=
  h r

end Channels

namespace Manager

variable {m m' : Manager} {r x : Ref} {p q path : Path} {uuid dbName u : String} {now : Int} {d : JobData}
  {place : Place} {children : Subchannels}

theorem getChannelByName_fallback (children : Subchannels) (channelName : Option String) :
    ∃ path children', getChannelByName children channelName false true = .ok (path, children') ∧
      children'.IsChannel path ∧ (children.Distinct → children'.Distinct) ∧
      ∀ q, children.IsChannel q → children'.IsChannel q := by
  cases channelName with
  | none => exact ⟨[], children, rfl, Or.inl rfl, id, fun _ => id⟩
  | some name =>
    rw [getChannelByName]
    by_cases hroot : name = "" ∨ name = "root"
    · exact ⟨[], children, by simp only [hroot, if_true], Or.inl rfl, id, fun _ => id⟩
    · by_cases hknown : children.contains (namesOf name)
      · exact ⟨(namesOf name).reverse, children, by simp only [hroot, hknown, if_false, if_true],
          Subchannels.isChannel_of_contains hknown, id, fun _ => id⟩
      · refine ⟨_, _, by simp only [hroot, hknown, if_false, if_true, not_true_eq_false, and_false,
          Bool.false_eq_true]; rfl, ?_, Subchannels.distinct_addPath, fun q hq => hq.imp_right Subchannels.has_addPath⟩
        have hnew := Subchannels.isChannel_of_contains (Subchannels.contains_addPath children
          ((namesOf name).reverse ++ fallback children (namesOf name).reverse).reverse)
        rwa [List.reverse_reverse] at hnew

structure Sound (m : Manager) : Prop where
  kept : m.channels.Kept
  placed : m.channels.WellPlaced
  distinct : m.children.Distinct
  fresh : ∀ p, ¬ m.children.IsChannel p → m.channels.channel p = {}
  registered : ∀ r p, m.channels.sight r p ≠ nowhere → m.jobsByUuid (m.channels.job r).uuid = some r
  entry : ∀ u r, m.jobsByUuid u = some r →
    (m.channels.job r).uuid = u ∧ r < m.next ∧ m.children.IsChannel (m.channels.job r).channel
  below : ∀ r, m.channels.Mentions r → r < m.next

theorem Sound.lt_next (h : m.Sound) (hs : m.channels.sight r p ≠ nowhere) : r < m.next :=
  (h.entry _ r (h.registered r p hs)).2.1

/-- Operations on one job that is registered. -/
theorem Sound.worked {s' : Channels} (h : m.Sound) (hu : m.jobsByUuid u = some r)
    (hw : Worked r (m.channels.job r).channel m.channels s') (hat : s'.At (m.channels.job r).channel r place)
    (hproper : Proper (m.channels.job r).channel place) : ({ m with channels := s' } : Manager).Sound := by
  obtain ⟨huuid, hlt, hchannel⟩ := h.entry u r hu
  refine ⟨hw.kept h.kept rfl, hw.wellPlaced h.placed rfl hat hproper, h.distinct, fun p hp => ?_, fun x p hx => ?_,
    fun u' x hx => ?_, fun x hx => ?_⟩
  · dsimp only
    rw [hw.channel p fun hsuf => hp (hchannel.of_suffix hsuf)]
    exact h.fresh p hp
  · dsimp only at hx ⊢
    rw [hw.job]
    by_cases hxr : x = r
    · rw [hxr, huuid]
      exact hu
    · rw [hw.sight x hxr] at hx
      exact h.registered x p hx
  · dsimp only at hx ⊢
    rw [hw.job]
    exact h.entry u' x hx
  · obtain ⟨p, hp⟩ := hx
    rcases (hw.edited p).refers x hp with hp | rfl
    · exact h.below x ⟨p, hp⟩
    · exact hlt

theorem Sound.forget (h : m.Sound) (habsent : ∀ r, m.jobsByUuid u = some r → ∀ p, m.channels.sight r p = nowhere) :
    (m.forget u).Sound := by
  refine ⟨h.kept, h.placed, h.distinct, h.fresh, fun x p hx => ?_, fun u' x hx => ?_, h.below⟩
  · have hreg := h.registered x p hx
    have hne : (m.channels.job x).uuid ≠ u := by
      intro heq
      exact hx (habsent x (heq ▸ hreg) p)
    rw [Manager.forget]
    simpa [hne] using hreg
  · rw [Manager.forget] at hx
    by_cases hu : u' = u
    · subst hu
      simp at hx
    · exact h.entry u' x (by simpa [hu] using hx)

theorem sight_eq_nowhere_of_at {s : Channels} {own : Path} (h : s.At own r .absent) (p : Path) :
    s.sight r p = nowhere :=
  h p

theorem Sound.removeJob (h : m.Sound) : (m.removeJob uuid).Sound := by
  rw [Manager.removeJob]
  split
  · exact h
  · rename_i r hr
    obtain ⟨place, hat, -⟩ := h.placed.at (r := r)
    have habsent := at_remove hat
    have hremoved := h.worked hr (worked_remove List.suffix_rfl) habsent (by simp [Proper])
    refine hremoved.forget fun x hx => ?_
    obtain rfl : r = x := Option.some.inj (hr.symm.trans hx)
    exact sight_eq_nowhere_of_at habsent

theorem removeJob_jobsByUuid : (m.removeJob uuid).jobsByUuid uuid = none := by
  rw [Manager.removeJob]
  split
  · assumption
  · simp [Manager.forget]

theorem removeJob_children : (m.removeJob uuid).children = m.children := by
  rw [Manager.removeJob]
  split <;> rfl

theorem Sound.newJob (dbName : String) (h : m.Sound) (hnone : m.jobsByUuid d.uuid = none)
    (hpath : m.children.IsChannel path) :
    (m.newJob dbName path d).Sound := by
  have hjob : ∀ x, x ≠ m.next → (m.newJob dbName path d).channels.job x = m.channels.job x := by
    intro x hx
    simp [Manager.newJob, hx]
  have hchannel : (m.newJob dbName path d).channels.channel = m.channels.channel := rfl
  have hold : ∀ p x, (m.channels.channel p).Refers x → x ≠ m.next := by
    rintro p x hx rfl
    exact lt_irrefl _ (h.below _ ⟨p, hx⟩)
  have hsight : ∀ x p, (m.newJob dbName path d).channels.sight x p = m.channels.sight x p := fun _ _ => rfl
  refine ⟨⟨fun p => ?_, fun p x hx => ?_, h.kept.throttled⟩, fun x => ?_, h.distinct, h.fresh, fun x p hx => ?_,
    fun u x hx => ?_, fun x hx => ?_⟩
  · rw [hchannel]
    refine (h.kept.tidy p).congr (fun x hx => hjob x ?_) fun x hx => hjob x ?_
    · exact hold p x (Or.inr (Or.inl hx))
    · exact hold p x (Or.inl hx)
  · rw [hjob x (hold p x (Or.inr (Or.inl hx)))]
    exact h.kept.ownEta p x hx
  · by_cases hx : x = m.next
    · refine ⟨.absent, fun p => ?_, by simp⟩
      rw [hsight]
      by_contra hs
      exact hold p x (refers_of_sight hs) hx
    · obtain ⟨place, hat, hproper⟩ := h.placed.at (r := x)
      rw [hjob x hx]
      exact ⟨place, hat, hproper⟩
  · rw [hsight] at hx
    have hxne := hold p x (refers_of_sight hx)
    have hreg := h.registered x p hx
    rw [hjob x hxne]
    have hne : (m.channels.job x).uuid ≠ d.uuid := by
      intro heq
      simp [← heq, hreg] at hnone
    simpa [Manager.newJob, hne] using hreg
  · by_cases hu : u = d.uuid
    · subst hu
      obtain rfl : m.next = x := by simpa [Manager.newJob] using hx
      refine ⟨by simp [Manager.newJob], Nat.lt_succ_self _, ?_⟩
      simpa [Manager.newJob] using hpath
    · obtain ⟨h1, h2, h3⟩ := h.entry u x (by simpa [Manager.newJob, hu] using hx)
      rw [hjob x (Nat.ne_of_lt h2)]
      exact ⟨h1, Nat.lt_succ_of_lt h2, h3⟩
  · exact Nat.lt_succ_of_lt (h.below x hx)

/-! ### What a notification does -/

/-- Where a job is put by a notification of its state. -/
def placeAfter (own : Path) (place : Place) : JobState → Place
  | .done | .cancelled => .absent
  | .pending => .flowing (own.length + 1)
  | .enqueued | .started =>
    match place with
    | .flowing k => if k ≤ own.length then .flowing k else .flowing 0
    | _ => .flowing 0
  | .failed => .failed
  | .waitDependencies => place

theorem proper_placeAfter {own : Path} (state : JobState) (h : Proper own place) :
    Proper own (placeAfter own place state) := by
  intro k hk
  cases state with
  | enqueued =>
    cases place with
    | flowing k' =>
      simp only [placeAfter] at hk
      split at hk
      · exact h k (hk ▸ rfl)
      · rw [← Place.flowing.inj hk]
        exact Nat.zero_le _
    | absent => rw [← Place.flowing.inj hk]; exact Nat.zero_le _
    | failed => rw [← Place.flowing.inj hk]; exact Nat.zero_le _
  | started =>
    cases place with
    | flowing k' =>
      simp only [placeAfter] at hk
      split at hk
      · exact h k (hk ▸ rfl)
      · rw [← Place.flowing.inj hk]
        exact Nat.zero_le _
    | absent => rw [← Place.flowing.inj hk]; exact Nat.zero_le _
    | failed => rw [← Place.flowing.inj hk]; exact Nat.zero_le _
  | waitDependencies => exact h k hk
  | pending => rw [← Place.flowing.inj hk]
  | done => simp [placeAfter] at hk
  | cancelled => simp [placeAfter] at hk
  | failed => simp [placeAfter] at hk

theorem at_setRunning_placeAfter {s : Channels} {own : Path} (h : s.At own r place) :
    (setRunning r own s).At own r (placeAfter own place .enqueued) := by
  have hat := at_setRunning h
  by_cases hrun : r ∈ (s.channel own).running
  · rw [if_pos hrun] at hat
    have hplace := h.running.mp hrun
    cases place with
    | absent => simp [Place.sight, nowhere] at hplace
    | failed => simp [Place.sight] at hplace
    | flowing k =>
      rw [placeAfter, if_pos hplace.2]
      exact hat
  · rw [if_neg hrun] at hat
    cases place with
    | absent => exact hat
    | failed => exact hat
    | flowing k =>
      rw [placeAfter, if_neg fun hk => hrun (h.running.mpr ⟨List.suffix_rfl, hk⟩)]
      exact hat

/-- One job moves, and the others stay. -/
structure Notified (r : Ref) (place : Place) (m m' : Manager) : Prop where
  sound : m'.Sound
  jobsByUuid : m'.jobsByUuid = m.jobsByUuid
  children : m'.children = m.children
  next : m'.next = m.next
  worked : Worked r (m.channels.job r).channel m.channels m'.channels
  at_place : m'.channels.At (m.channels.job r).channel r place

theorem Sound.setState (state : JobState) (h : m.Sound) (hu : m.jobsByUuid u = some r)
    (hat : m.channels.At (m.channels.job r).channel r place) (hproper : Proper (m.channels.job r).channel place) :
    Notified r (placeAfter (m.channels.job r).channel place state) m (m.setState state r) := by
  have hproper' := proper_placeAfter state hproper
  cases state with
  | waitDependencies => exact ⟨h, rfl, rfl, rfl, Worked.refl, hat⟩
  | pending =>
    have hat' := at_setPending hat
    exact ⟨h.worked hu worked_setPending hat' hproper', rfl, rfl, rfl, worked_setPending, hat'⟩
  | enqueued =>
    have hat' := at_setRunning_placeAfter hat
    exact ⟨h.worked hu (worked_setRunning List.suffix_rfl) hat' hproper', rfl, rfl, rfl,
      worked_setRunning List.suffix_rfl, hat'⟩
  | started =>
    have hat' := at_setRunning_placeAfter hat
    exact ⟨h.worked hu (worked_setRunning List.suffix_rfl) hat' hproper', rfl, rfl, rfl,
      worked_setRunning List.suffix_rfl, hat'⟩
  | done =>
    have hat' := at_remove hat
    exact ⟨h.worked hu (worked_remove List.suffix_rfl) hat' hproper', rfl, rfl, rfl, worked_remove List.suffix_rfl,
      hat'⟩
  | cancelled =>
    have hat' := at_remove hat
    exact ⟨h.worked hu (worked_remove List.suffix_rfl) hat' hproper', rfl, rfl, rfl, worked_remove List.suffix_rfl,
      hat'⟩
  | failed =>
    have hat' := at_setFailed hat
    exact ⟨h.worked hu worked_setFailed hat' hproper', rfl, rfl, rfl, worked_setFailed, hat'⟩

theorem Sound.withChildren {children' : Subchannels} (h : m.Sound) (hd : children'.Distinct)
    (hmono : ∀ q, m.children.IsChannel q → children'.IsChannel q) :
    ({ m with children := children' } : Manager).Sound :=
  ⟨h.kept, h.placed, hd, fun p hp => h.fresh p fun hc => hp (hmono p hc), h.registered,
    fun u r hr => by
      obtain ⟨h1, h2, h3⟩ := h.entry u r hr
      exact ⟨h1, h2, hmono _ h3⟩, h.below⟩

end Manager

end JobQueue
