import PropzaAmlak.Tx.ReadThrough
import Mathlib.Tactic.Linarith

/-! How long values stay in a read-through cache that can also be read without
a load and cleared as a whole: what it holds, in terms of the history. -/

namespace Tx.ReadThrough

inductive Op (K C : Type) where
  | choice (c : Choice K C)
  | peek (k : K) (now : ℚ)
  | clear

/-- A step with the reading of the clock after it. -/
inductive Event (K V ε : Type) where
  | step (x : Label K V ε) (now : ℚ)
  | cleared

variable {K V C ε : Type}

/-- The event drops what the cache holds for the key. -/
def Event.Drops (k : K) : Event K V ε → Prop
  | step (.invalidate k') _ => k' = k
  | step _ _ => False
  | cleared => True

/-- The event stores the value under the key at time `t`. -/
def Event.Stores (keyOf : V → K) (k : K) (v : V) (t : ℚ) : Event K V ε → Prop
  | step (.stored _ _ l) now => l.value = v ∧ keyOf v = k ∧ now = t
  | _ => False

section Operations

variable [DecidableEq K] (ttl : ℚ) (keyOf : V → K) (source : C → K → Except ε V)

def State.stepOp (m : State K V C) (op : Op K C) : Option (Option (Event K V ε) × State K V C) :=
  match op with
  | .choice c => (m.step ttl keyOf source c).map fun x => (x.1.map (Event.step · x.2.now), x.2)
  | .peek k now =>
    if m.now ≤ now then some (none, { m with store := (get m.store now k).2, now }) else none
  | .clear => some (some .cleared, { m with store := fun _ => none })

/-- Threads sharing the cache with those that peek into it and clear it. -/
def openCache (config : C) (t₀ : ℚ) : Shared (State K V C) (Op K C) (Event K V ε) where
  start := (cache ttl keyOf source config t₀).start
  step := State.stepOp ttl keyOf source

end Operations

/-- The value was stored at time `t`, and nothing dropped it since. -/
def StoredAt (keyOf : V → K) (h : List (Event K V ε)) (k : K) (v : V) (t : ℚ) : Prop :=
  ∃ older e recent, h = older ++ e :: recent ∧ e.Stores keyOf k v t ∧ ∀ x ∈ recent, ¬ x.Drops k

/-- A value of the key was stored less than its lifetime ago and not dropped since. -/
def Warm (ttl : ℚ) (keyOf : V → K) (h : List (Event K V ε)) (k : K) (now : ℚ) : Prop :=
  ∃ v t, StoredAt keyOf h k v t ∧ now < t + ttl

section History

variable {keyOf : V → K} {h : List (Event K V ε)} {e : Event K V ε} {k : K} {v : V} {t : ℚ}

theorem StoredAt.concat (hstored : StoredAt keyOf h k v t) (he : ¬ e.Drops k) :
    StoredAt keyOf (h ++ [e]) k v t := by
  obtain ⟨older, s, recent, rfl, hs, hnone⟩ := hstored
  have hnone' := List.forall_mem_append.mpr ⟨hnone, List.forall_mem_singleton.mpr he⟩
  exact ⟨older, s, recent ++ [e], by simp, hs, hnone'⟩

theorem StoredAt.of_stores (he : e.Stores keyOf k v t) : StoredAt keyOf (h ++ [e]) k v t :=
  ⟨h, e, [], rfl, he, by simp⟩

theorem StoredAt.of_concat (hstored : StoredAt keyOf (h ++ [e]) k v t) :
    e.Stores keyOf k v t ∨ StoredAt keyOf h k v t ∧ ¬ e.Drops k := by
  obtain ⟨older, s, recent, hh, hs, hnone⟩ := hstored
  cases recent using List.reverseRecOn with
  | nil =>
    obtain ⟨-, he⟩ := List.append_inj' hh rfl
    obtain rfl : e = s := by simpa using he
    exact .inl hs
  | append_singleton recent x =>
    have hsplit : h ++ [e] = (older ++ s :: recent) ++ [x] := by simpa using hh
    obtain ⟨hh', hx⟩ := List.append_inj' hsplit rfl
    obtain rfl : e = x := by simpa using hx
    exact .inr ⟨⟨older, s, recent, hh', hs, fun x hx => hnone x (by simp [hx])⟩, hnone e (by simp)⟩

end History

/-- What one step does to the entries, with the event it leaves. -/
structure State.Moves (ttl : ℚ) (keyOf : V → K) (m : State K V C) (l : Option (Event K V ε))
    (m' : State K V C) : Prop where
  time : m.now ≤ m'.now
  origin : ∀ k entry, m'.store k = some entry →
    (m.store k = some entry ∧ ∀ e ∈ l, ¬ e.Drops k) ∨
      ∃ e ∈ l, ∃ t, e.Stores keyOf k entry.loaded.value t ∧ entry.expiresAt = t + ttl
  kept : ∀ k entry, m.store k = some entry → m'.now < entry.expiresAt → (∀ e ∈ l, ¬ e.Drops k) →
    ∃ entry', m'.store k = some entry' ∧ (entry'.expiresAt = entry.expiresAt ∨ entry'.expiresAt = m'.now + ttl)
  stored : ∀ e ∈ l, ∀ k v t, e.Stores keyOf k v t →
    t = m'.now ∧ ∃ entry, m'.store k = some entry ∧ entry.expiresAt = t + ttl

section Step

variable [DecidableEq K] {ttl : ℚ} {keyOf : V → K} {source : C → K → Except ε V}
  {m m' : State K V C} {l : Option (Event K V ε)}

theorem of_get {store : K → Option (Entry V)} {now : ℚ} {k k' : K} {entry : Entry V}
    (hget : (get store now k).2 k' = some entry) : store k' = some entry := by
  unfold get at hget
  split at hget
  · exact hget
  split at hget
  · by_cases hk : k' = k
    · simp [hk] at hget
    · simpa [hk] using hget
  · exact hget

theorem get_of_lt {store : K → Option (Entry V)} {now : ℚ} {k k' : K} {entry : Entry V}
    (hentry : store k' = some entry) (hlt : now < entry.expiresAt) : (get store now k).2 k' = some entry := by
  unfold get
  split
  · exact hentry
  rename_i found hfound
  split
  · rename_i hexpired
    have hk : k' ≠ k := by
      rintro rfl
      obtain rfl : entry = found := by simpa [hentry] using hfound
      exact absurd hexpired (not_le.mpr hlt)
    simpa [hk] using hentry
  · exact hentry

omit [DecidableEq K] in
/-- A step without an effect on the cache but to drop what is expired. -/
theorem State.Moves.of_quiet (htime : m.now ≤ m'.now)
    (horigin : ∀ k entry, m'.store k = some entry → m.store k = some entry)
    (hkept : ∀ k entry, m.store k = some entry → m'.now < entry.expiresAt → m'.store k = some entry)
    (hl : ∀ e ∈ l, ∀ k, ¬ e.Drops k ∧ ∀ v t, ¬ e.Stores keyOf k v t) : m.Moves ttl keyOf l m' := by
  constructor
  · exact htime
  · intro k entry hentry
    exact .inl ⟨horigin k entry hentry, fun e he => (hl e he k).1⟩
  · intro k entry hentry hlt _
    exact ⟨entry, hkept k entry hentry hlt, .inl rfl⟩
  · intro e he k v t hstores
    exact absurd hstores ((hl e he k).2 v t)

theorem State.moves_lookup {i : Nat} {k : K} {now : ℚ} (htime : m.now ≤ now) {x : Label K V ε}
    (hlookup : m.lookup i k now = (x, m')) : m.Moves ttl keyOf (some (.step x m'.now)) m' := by
  have hstate : m'.now = now ∧ m'.store = (get m.store now k).2 ∧ ∀ k', ¬ (Event.step x m'.now).Drops k' ∧
      ∀ v t, ¬ (Event.step x m'.now).Stores keyOf k' v t := by
    unfold State.lookup at hlookup
    split at hlookup
    all_goals
      rename_i hget
      simp only [Prod.mk.injEq] at hlookup
      obtain ⟨rfl, rfl⟩ := hlookup
      simp [State.moved, hget, Event.Drops, Event.Stores]
  obtain ⟨hnow, hstore, hquiet⟩ := hstate
  refine .of_quiet (hnow ▸ htime) ?_ ?_ (by simpa using hquiet)
  · intro k' entry hentry
    exact of_get (hstore ▸ hentry)
  · intro k' entry hentry hlt
    rw [hstore]
    exact get_of_lt hentry (hnow ▸ hlt)

theorem State.moves_next {c : Choice K C} {x : Label K V ε} (hlookup : ∀ i now, c ≠ .lookup i now)
    (hnext : State.Next ttl keyOf source m c x m') : m.Moves ttl keyOf (some (.step x m'.now)) m' := by
  cases hnext with
  | hit => exact absurd rfl (hlookup _ _)
  | miss => exact absurd rfl (hlookup _ _)
  | begin | resolved | failed | configure =>
    refine .of_quiet le_rfl ?_ ?_ ?_
    · intro k entry hentry
      exact hentry
    · intro k entry hentry _
      exact hentry
    · simp [Event.Drops, Event.Stores]
  | @stored i k l now hresolved htime =>
    constructor
    · exact htime
    · intro k' entry hentry
      by_cases hk : k' = keyOf l.value
      · right
        simp only [State.moved, set, hk, Function.update_self, Option.some.injEq] at hentry
        exact ⟨_, rfl, now, ⟨by rw [← hentry], by rw [← hentry, hk], rfl⟩, by rw [← hentry]⟩
      · left
        refine ⟨by simpa [State.moved, set, hk] using hentry, ?_⟩
        simp [Event.Drops]
    · intro k' entry hentry _ _
      by_cases hk : k' = keyOf l.value
      · exact ⟨⟨l, now + ttl⟩, by simp [State.moved, set, hk], .inr rfl⟩
      · exact ⟨entry, by simpa [State.moved, set, hk] using hentry, .inl rfl⟩
    · intro e he k' v t hstores
      obtain rfl := Option.some.inj he
      obtain ⟨rfl, rfl, rfl⟩ := hstores
      exact ⟨rfl, ⟨l, now + ttl⟩, by simp [State.moved, set], rfl⟩
  | @invalidate k =>
    constructor
    · exact le_rfl
    · intro k' entry hentry
      by_cases hk : k' = k
      · simp [hk] at hentry
      · left
        refine ⟨by simpa [hk] using hentry, ?_⟩
        intro e he
        obtain rfl := Option.some.inj he
        exact fun hdrops => hk hdrops.symm
    · intro k' entry hentry _ hnone
      have hk : k' ≠ k := by
        rintro rfl
        exact hnone _ rfl rfl
      exact ⟨entry, by simpa [hk] using hentry, .inl rfl⟩
    · intro e he k' v t hstores
      obtain rfl := Option.some.inj he
      cases hstores

theorem State.stepOp_moves {op : Op K C} (hstep : m.stepOp ttl keyOf source op = some (l, m')) :
    m.Moves ttl keyOf l m' := by
  cases op with
  | peek k now =>
    simp only [State.stepOp] at hstep
    split at hstep
    · rename_i htime
      simp only [Option.some.injEq, Prod.mk.injEq] at hstep
      obtain ⟨rfl, rfl⟩ := hstep
      exact .of_quiet htime (fun _ _ => of_get) (fun _ _ => get_of_lt) (by simp)
    · cases hstep
  | clear =>
    simp only [State.stepOp, Option.some.injEq, Prod.mk.injEq] at hstep
    obtain ⟨rfl, rfl⟩ := hstep
    constructor
    · exact le_rfl
    · simp
    · intro k entry _ _ hnone
      exact absurd trivial (hnone _ rfl)
    · intro e he k v t hstores
      obtain rfl := Option.some.inj he
      cases hstores
  | choice c =>
    obtain ⟨⟨l', m₁⟩, hchoice, heq⟩ := Option.map_eq_some_iff.mp hstep
    obtain ⟨x, rfl, hnext⟩ := State.step_next hchoice
    simp only [Option.map_some, Prod.mk.injEq] at heq
    obtain ⟨rfl, rfl⟩ := heq
    by_cases hlookup : ∃ i now, c = .lookup i now
    · obtain ⟨i, now, rfl⟩ := hlookup
      cases hi : m.caller i with
      | begun k =>
        simp only [State.step, hi] at hchoice
        split at hchoice
        · rename_i htime
          simp only [Option.some.injEq, Prod.mk.injEq] at hchoice
          exact State.moves_lookup htime (Prod.ext hchoice.1 hchoice.2)
        · cases hchoice
      | _ => simp [State.step, hi] at hchoice
    · simp only [not_exists] at hlookup
      exact State.moves_next hlookup hnext

omit [DecidableEq K] in
/-- A value stored earlier is covered after the step, unless the step drops it. -/
theorem State.Moves.covers (hmoves : m.Moves ttl keyOf l m') {k : K} {t : ℚ} (ht : t ≤ m.now)
    (hcovered : m.now < t + ttl → ∃ entry, m.store k = some entry ∧ t + ttl ≤ entry.expiresAt)
    (hnone : ∀ e ∈ l, ¬ e.Drops k) (hlt : m'.now < t + ttl) :
    ∃ entry, m'.store k = some entry ∧ t + ttl ≤ entry.expiresAt := by
  obtain ⟨entry, hentry, hexpires⟩ := hcovered (hmoves.time.trans_lt hlt)
  obtain ⟨entry', hentry', hexpires'⟩ := hmoves.kept k entry hentry (hlt.trans_le hexpires) hnone
  refine ⟨entry', hentry', ?_⟩
  rcases hexpires' with hsame | hlater
  · exact hexpires.trans hsame.ge
  · have hbound := ht.trans hmoves.time
    linarith

end Step

/-- Every entry was stored with its lifetime before it, and every value stored
has an entry until its lifetime is over. -/
structure Accountable (ttl : ℚ) (keyOf : V → K) (h : List (Event K V ε)) (m : State K V C) : Prop where
  origin : ∀ k entry, m.store k = some entry →
    ∃ t, StoredAt keyOf h k entry.loaded.value t ∧ entry.expiresAt = t + ttl
  kept : ∀ k v t, StoredAt keyOf h k v t → t ≤ m.now ∧
    (m.now < t + ttl → ∃ entry, m.store k = some entry ∧ t + ttl ≤ entry.expiresAt)

section Runs

variable [DecidableEq K] {ttl : ℚ} {keyOf : V → K} {source : C → K → Except ε V} {config : C} {t₀ : ℚ}
  {h : List (Event K V ε)} {m m' : State K V C} {l : Option (Event K V ε)}

omit [DecidableEq K] in
theorem Accountable.quiet (ha : Accountable ttl keyOf h m)
    (hmoves : m.Moves ttl keyOf (none : Option (Event K V ε)) m') : Accountable ttl keyOf h m' := by
  constructor
  · intro k entry hentry
    rcases hmoves.origin k entry hentry with ⟨hold, -⟩ | ⟨e, he, -⟩
    · exact ha.origin k entry hold
    · cases he
  · intro k v t hstored
    obtain ⟨ht, hcovered⟩ := ha.kept k v t hstored
    exact ⟨ht.trans hmoves.time, hmoves.covers ht hcovered (by simp)⟩

omit [DecidableEq K] in
theorem Accountable.event {e : Event K V ε} (ha : Accountable ttl keyOf h m)
    (hmoves : m.Moves ttl keyOf (some e) m') : Accountable ttl keyOf (h ++ [e]) m' := by
  constructor
  · intro k entry hentry
    rcases hmoves.origin k entry hentry with ⟨hold, hnone⟩ | ⟨e', he', t, hstores, hexpires⟩
    · obtain ⟨t, hstored, hexpires⟩ := ha.origin k entry hold
      exact ⟨t, hstored.concat (hnone e rfl), hexpires⟩
    · obtain rfl := Option.some.inj he'
      exact ⟨t, .of_stores hstores, hexpires⟩
  · intro k v t hstored
    rcases hstored.of_concat with hstores | ⟨hold, hnone⟩
    · obtain ⟨rfl, entry, hentry, hexpires⟩ := hmoves.stored e rfl k v t hstores
      exact ⟨le_rfl, fun _ => ⟨entry, hentry, hexpires.ge⟩⟩
    · obtain ⟨ht, hcovered⟩ := ha.kept k v t hold
      exact ⟨ht.trans hmoves.time, hmoves.covers ht hcovered (by simpa using hnone)⟩

theorem accountable (hrun : (openCache ttl keyOf source config t₀).Run h m) : Accountable ttl keyOf h m := by
  refine hrun.invariant (I := fun h m => Accountable ttl keyOf h m) ?_ ?_
  · constructor
    · simp [openCache, cache]
    · rintro k v t ⟨older, e, recent, hh, -⟩
      simp at hh
  · intro h m op l m' ha hstep
    have hmoves := State.stepOp_moves hstep
    cases l with
    | none => simpa using ha.quiet hmoves
    | some e => exact ha.event hmoves

/-- A key can be answered from the cache exactly if the history keeps it warm. -/
theorem warm_iff (hrun : (openCache ttl keyOf source config t₀).Run h m) {now : ℚ} (hnow : m.now ≤ now) (k : K) :
    Warm ttl keyOf h k now ↔ (get m.store now k).1.isSome := by
  have ha := accountable hrun
  have hget : (get m.store now k).1.isSome ↔ ∃ entry, m.store k = some entry ∧ now < entry.expiresAt := by
    unfold get
    cases hentry : m.store k with
    | none => simp
    | some entry =>
      by_cases hexpired : entry.expiresAt ≤ now
      · simp [hexpired]
      · simp [hexpired, not_le.mp hexpired]
  rw [hget]
  constructor
  · rintro ⟨v, t, hstored, hlt⟩
    obtain ⟨entry, hentry, hexpires⟩ := (ha.kept k v t hstored).2 (hnow.trans_lt hlt)
    exact ⟨entry, hentry, hlt.trans_le hexpires⟩
  · rintro ⟨entry, hentry, hlt⟩
    obtain ⟨t, hstored, hexpires⟩ := ha.origin k entry hentry
    exact ⟨_, t, hstored, hexpires ▸ hlt⟩

end Runs

end Tx.ReadThrough
