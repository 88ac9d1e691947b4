import PropzaAmlak.JobQueue.Channels

/-! Where a job stands in the hierarchy. A job that has not failed has passed the
channels from its own down to some level: it runs in those, and waits in the
queue of the next. -/

namespace JobQueue

open ChannelQueue Channel

/-- `flowing m` has passed the channels of at least `m` names. -/
inductive Place where
  | absent
  | failed
  | flowing (m : Nat)
deriving DecidableEq

/-- Whether a job is in the queue, among the running and among the failed. -/
structure Sight where
  queued : Prop
  running : Prop
  failed : Prop

@[simp] theorem Sight.mk_inj {a b c a' b' c' : Prop} :
    (⟨a, b, c⟩ : Sight) = ⟨a', b', c'⟩ ↔ (a ↔ a') ∧ (b ↔ b') ∧ (c ↔ c') := by
  rw [Sight.mk.injEq]
  simp only [eq_iff_iff]

def nowhere : Sight := ⟨False, False, False⟩

namespace Channel

variable {c : Channel} {r x : Ref} {jobs : Jobs}

def sight (c : Channel) (x : Ref) : Sight := ⟨x ∈ c.queue.held, x ∈ c.running, x ∈ c.failed⟩

theorem sight_discard : (discard r c).sight x = if x = r then nowhere else c.sight x := by
  by_cases hx : x = r <;> simp [sight, discard, nowhere, hx]

theorem sight_pend : (pend jobs r c).sight x = if x = r then ⟨True, False, False⟩ else c.sight x := by
  by_cases hx : x = r <;> simp [sight, pend, hx]

theorem sight_run : (Channel.run r c).sight x = if x = r then ⟨False, True, False⟩ else c.sight x := by
  by_cases hx : x = r <;> simp [sight, Channel.run, hx]

theorem sight_fail : (Channel.fail r c).sight x = if x = r then ⟨False, False, True⟩ else c.sight x := by
  by_cases hx : x = r <;> simp [sight, Channel.fail, hx]

end Channel

namespace Place

variable {own p q : Path} {m : Nat} {place : Place}

/-- What the channel at `p` sees of a job that belongs to `own`. -/
def sight (own : Path) (place : Place) (p : Path) : Sight :=
  match place with
  | absent => nowhere
  | failed => ⟨False, False, p = own⟩
  | flowing m => ⟨p <:+ own ∧ p.length + 1 = m, p <:+ own ∧ m ≤ p.length, False⟩

/-- Where `get_jobs_to_run` may move a job. -/
def Downstream (place place' : Place) : Prop :=
  place' = place ∨ ∃ m m', place = flowing m ∧ place' = flowing m' ∧ m' ≤ m

theorem Downstream.trans {place place' place'' : Place} (h : place.Downstream place') (h' : place'.Downstream place'') :
    place.Downstream place'' := by
  rcases h with rfl | ⟨m, m', rfl, rfl, hle⟩
  · exact h'
  · rcases h' with rfl | ⟨m₁, m₂, heq, rfl, hle'⟩
    · exact Or.inr ⟨m, m', rfl, rfl, hle⟩
    · rw [Place.flowing.inj heq] at hle
      exact Or.inr ⟨m, m₂, rfl, rfl, hle'.trans hle⟩

theorem eq_of_suffix (hp : p <:+ own) (hq : q <:+ own) (hlen : p.length = q.length) : p = q :=
  (List.suffix_of_suffix_length_le hp hq (Nat.le_of_eq hlen)).eq_of_length hlen

theorem not_cons_suffix {n : String} : ¬ n :: p <:+ p := fun h => absurd h.length_le (by simp)

theorem suffix_cons_of_ne {n : String} (h : q ≠ n :: p) : q <:+ n :: p ↔ q <:+ p := by
  rw [List.suffix_cons_iff]
  simp [h]

end Place

namespace Channels

open Place

variable {s s' : Channels} {r x : Ref} {p q own : Path} {place : Place} {now : Int}

def sight (s : Channels) (x : Ref) (p : Path) : Sight := (s.channel p).sight x

def At (s : Channels) (own : Path) (r : Ref) (place : Place) : Prop := ∀ p, s.sight r p = place.sight own p

@[simp] theorem job_modify {f : Channel → Channel} : (s.modify p f).job = s.job := rfl

@[simp] theorem channel_modify_self {f : Channel → Channel} : (s.modify p f).channel p = f (s.channel p) := by
  simp [modify]

theorem channel_modify_of_ne {f : Channel → Channel} (h : q ≠ p) : (s.modify p f).channel q = s.channel q := by
  simp [modify, h]

theorem sight_modify_self {f : Channel → Channel} : (s.modify p f).sight x p = (f (s.channel p)).sight x := by
  rw [sight, channel_modify_self]

theorem sight_modify_of_ne {f : Channel → Channel} (h : q ≠ p) : (s.modify p f).sight x q = s.sight x q := by
  rw [sight, channel_modify_of_ne h, sight]

theorem sight_remove : (remove r p s).sight x q = if x = r ∧ q <:+ p then nowhere else s.sight x q := by
  induction p generalizing s with
  | nil =>
    rw [remove]
    by_cases hq : q = []
    · subst hq
      rw [sight_modify_self, sight_discard, ← sight]
      simp
    · rw [sight_modify_of_ne hq, if_neg fun h => hq (List.suffix_nil.mp h.2)]
  | cons n p ih =>
    rw [remove, ih]
    by_cases hq : q = n :: p
    · subst hq
      rw [if_neg fun h => not_cons_suffix h.2, sight_modify_self, sight_discard, ← sight]
      simp
    · rw [sight_modify_of_ne hq]
      simp only [suffix_cons_of_ne hq]

theorem sight_removeFromParent :
    (removeFromParent r p s).sight x q = if x = r ∧ q <:+ p ∧ q ≠ p then nowhere else s.sight x q := by
  cases p with
  | nil =>
    rw [removeFromParent, if_neg]
    rintro ⟨-, hq, hne⟩
    exact hne (List.suffix_nil.mp hq)
  | cons n p =>
    rw [removeFromParent, sight_remove]
    by_cases hq : q = n :: p
    · subst hq
      simp [not_cons_suffix]
    · simp [suffix_cons_of_ne hq, hq]

theorem job_remove : (remove r p s).job = s.job := by
  induction p generalizing s with
  | nil => rfl
  | cons n p ih => rw [remove, ih, job_modify]

theorem sight_setRunning (h : ∀ p', p' <:+ p → r ∉ (s.channel p').running) :
    (setRunning r p s).sight x q = if x = r ∧ q <:+ p then ⟨False, True, False⟩ else s.sight x q := by
  induction p generalizing s with
  | nil =>
    rw [setRunning, if_neg (h [] List.suffix_rfl)]
    by_cases hq : q = []
    · subst hq
      rw [sight_modify_self, sight_run, ← sight]
      simp
    · rw [sight_modify_of_ne hq, if_neg fun h => hq (List.suffix_nil.mp h.2)]
  | cons n p ih =>
    rw [setRunning, if_neg (h _ List.suffix_rfl), ih]
    · by_cases hq : q = n :: p
      · subst hq
        rw [if_neg fun h => not_cons_suffix h.2, sight_modify_self, sight_run, ← sight]
        simp
      · rw [sight_modify_of_ne hq]
        simp only [suffix_cons_of_ne hq]
    · intro p' hp'
      have hne : p' ≠ n :: p := by
        rintro rfl
        exact not_cons_suffix hp'
      rw [channel_modify_of_ne hne]
      exact h p' (hp'.trans (List.suffix_cons n p))

/-! ### The operations of a channel move a job from place to place -/

theorem At.queued (h : s.At own r place) : r ∈ (s.channel p).queue.held ↔ (place.sight own p).queued := by
  rw [← h p]
  rfl

theorem At.running (h : s.At own r place) : r ∈ (s.channel p).running ↔ (place.sight own p).running := by
  rw [← h p]
  rfl

theorem At.failed (h : s.At own r place) : r ∈ (s.channel p).failed ↔ (place.sight own p).failed := by
  rw [← h p]
  rfl

/-- The operations on a job leave the others where they are. -/
theorem At.of_sight_eq (h : s.At own x place) (heq : ∀ q, s'.sight x q = s.sight x q) : s'.At own x place := by
  intro p
  rw [heq, h p]

theorem at_remove (h : s.At own r place) : (remove r own s).At own r .absent := by
  intro p
  rw [sight_remove]
  by_cases hp : p <:+ own
  · simp [hp, Place.sight]
  · rw [if_neg fun h => hp h.2, h p]
    have hne : p ≠ own := by
      rintro rfl
      exact hp List.suffix_rfl
    cases place <;> simp [Place.sight, nowhere, hp, hne]

theorem at_setPending (h : s.At own r place) :
    (setPending r own s).At own r (.flowing (own.length + 1)) := by
  intro p
  rw [setPending]
  by_cases hq : r ∈ (s.channel own).queue.held
  · rw [if_pos (contains_iff.mpr hq), h p]
    have hplace := h.queued.mp hq
    cases place with
    | absent => simp [Place.sight, nowhere] at hplace
    | failed => simp [Place.sight] at hplace
    | flowing m => rw [← hplace.2]
  · rw [if_neg fun hc => hq (contains_iff.mp hc), sight_removeFromParent]
    by_cases hp : p = own
    · subst hp
      rw [if_neg fun h => h.2.2 rfl, sight_modify_self, sight_pend, if_pos rfl]
      simp [Place.sight]
    · by_cases hsuf : p <:+ own
      · have hlen : p.length < own.length :=
          lt_of_le_of_ne hsuf.length_le fun hlen => hp (hsuf.eq_of_length hlen)
        rw [if_pos ⟨rfl, hsuf, hp⟩]
        simp only [nowhere, Place.sight, Sight.mk_inj, false_iff, not_and]
        exact ⟨fun _ => by omega, fun _ => by omega, trivial⟩
      · rw [if_neg fun h => hsuf h.2.1, sight_modify_of_ne hp, h p]
        cases place <;> simp [Place.sight, nowhere, hp, hsuf]

theorem at_setRunning (h : s.At own r place) :
    (setRunning r own s).At own r
      (if r ∈ (s.channel own).running then place else .flowing 0) := by
  by_cases hrun : r ∈ (s.channel own).running
  · have hsame : setRunning r own s = s := by
      cases own with
      | nil => rw [setRunning, if_pos hrun]
      | cons n p => rw [setRunning, if_pos hrun]
    rwa [hsame, if_pos hrun]
  · rw [if_neg hrun]
    have hnot : ∀ p', p' <:+ own → r ∉ (s.channel p').running := by
      intro p' hp' hr
      have hplace := h.running.mp hr
      have hown : ¬ (place.sight own own).running := fun hc => hrun (h.running.mpr hc)
      cases place with
      | absent => simp [Place.sight, nowhere] at hplace
      | failed => simp [Place.sight] at hplace
      | flowing m => exact hown ⟨List.suffix_rfl, hplace.2.trans hp'.length_le⟩
    intro p
    rw [sight_setRunning hnot]
    by_cases hp : p <:+ own
    · simp [hp, Place.sight]
    · have hne : p ≠ own := by
        rintro rfl
        exact hp List.suffix_rfl
      rw [if_neg fun h => hp h.2, h p]
      cases place <;> simp [Place.sight, nowhere, hp, hne]

theorem at_setFailed (h : s.At own r place) : (setFailed r own s).At own r .failed := by
  intro p
  rw [setFailed]
  by_cases hf : r ∈ (s.channel own).failed
  · rw [if_pos hf, h p]
    have hplace := h.failed.mp hf
    cases place with
    | absent => simp [Place.sight, nowhere] at hplace
    | failed => rfl
    | flowing m => simp [Place.sight] at hplace
  · rw [if_neg hf, sight_removeFromParent]
    by_cases hp : p = own
    · subst hp
      rw [if_neg fun h => h.2.2 rfl, sight_modify_self, sight_fail, if_pos rfl]
      simp [Place.sight]
    · by_cases hsuf : p <:+ own
      · rw [if_pos ⟨rfl, hsuf, hp⟩]
        simp [Place.sight, nowhere, hp]
      · rw [if_neg fun h => hsuf h.2.1, sight_modify_of_ne hp, h p]
        cases place <;> simp [Place.sight, nowhere, hp, hsuf]

end Channels

end JobQueue
