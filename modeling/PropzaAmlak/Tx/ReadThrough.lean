import PropzaAmlak.Tx.Shared
import Mathlib.Algebra.Order.Ring.Rat
import Mathlib.Logic.Function.Basic

/-! A cache in front of a configuration, shared by threads. A thread looks a key
up, loads the value itself when it is missing, and stores what it loaded. The
lookup and the store are each one step; between them anything may happen. -/

namespace Tx.ReadThrough

/-- A value as one load made it, with the number of steps before that load. -/
structure Loaded (V : Type) where
  value : V
  stamp : Nat

structure Entry (V : Type) where
  loaded : Loaded V
  expiresAt : ℚ

inductive Caller (K V : Type) where
  | idle
  | begun (k : K)
  | missed (k : K)
  | resolved (k : K) (l : Loaded V)

structure State (K V C : Type) where
  store : K → Option (Entry V)
  caller : Nat → Caller K V
  config : C
  now : ℚ
  steps : Nat

inductive Choice (K C : Type) where
  | begin (i : Nat) (k : K)
  | lookup (i : Nat) (now : ℚ)
  | load (i : Nat)
  | store (i : Nat) (now : ℚ)
  | configure (c : C)
  | invalidate (k : K)

inductive Label (K V ε : Type) where
  | begin (i : Nat) (k : K)
  | hit (i : Nat) (k : K) (l : Loaded V)
  | miss (i : Nat) (k : K)
  | resolved (i : Nat) (k : K) (l : Loaded V)
  | failed (i : Nat) (k : K) (e : ε)
  | stored (i : Nat) (k : K) (l : Loaded V)
  | configure
  | invalidate (k : K)

variable {K V C ε : Type}

/-- The caller, the key and the value of a step that ends a call with a value. -/
def Label.returned : Label K V ε → Option (Nat × K × Loaded V)
  | hit i k l => some (i, k, l)
  | stored i k l => some (i, k, l)
  | _ => none

section Operations

variable [DecidableEq K]

/-- An expired entry is dropped by the lookup that finds it. -/
def get (store : K → Option (Entry V)) (now : ℚ) (k : K) : Option (Loaded V) × (K → Option (Entry V)) :=
  match store k with
  | none => (none, store)
  | some entry =>
    if entry.expiresAt ≤ now then (none, Function.update store k none)
    else (some entry.loaded, store)

def set (ttl : ℚ) (keyOf : V → K) (store : K → Option (Entry V)) (now : ℚ) (l : Loaded V) :
    K → Option (Entry V) :=
  Function.update store (keyOf l.value) (some ⟨l, now + ttl⟩)

variable (ttl : ℚ) (keyOf : V → K) (source : C → K → Except ε V)

namespace State

/-- The state after a step of caller `i`. -/
def moved (m : State K V C) (i : Nat) (c : Caller K V) (store : K → Option (Entry V)) (now : ℚ) :
    State K V C :=
  { m with caller := Function.update m.caller i c, store, now, steps := m.steps + 1 }

def lookup (m : State K V C) (i : Nat) (k : K) (now : ℚ) : Label K V ε × State K V C :=
  match get m.store now k with
  | (some l, store) => (.hit i k l, m.moved i .idle store now)
  | (none, store) => (.miss i k, m.moved i (.missed k) store now)

def load (m : State K V C) (i : Nat) (k : K) : Label K V ε × State K V C :=
  match source m.config k with
  | .ok v => (.resolved i k ⟨v, m.steps⟩, m.moved i (.resolved k ⟨v, m.steps⟩) m.store m.now)
  | .error e => (.failed i k e, m.moved i .idle m.store m.now)

def step (m : State K V C) (c : Choice K C) : Option (Option (Label K V ε) × State K V C) :=
  match c with
  | .begin i k =>
    match m.caller i with
    | .idle => some (some (.begin i k), m.moved i (.begun k) m.store m.now)
    | _ => none
  | .lookup i now =>
    match m.caller i with
    | .begun k =>
      if m.now ≤ now then
        let next := m.lookup i k now
        some (some next.1, next.2)
      else none
    | _ => none
  | .load i =>
    match m.caller i with
    | .missed k =>
      let next := m.load source i k
      some (some next.1, next.2)
    | _ => none
  | .store i now =>
    match m.caller i with
    | .resolved k l =>
      if m.now ≤ now then
        some (some (.stored i k l), m.moved i .idle (set ttl keyOf m.store now l) now)
      else none
    | _ => none
  | .configure config => some (some .configure, { m with config, steps := m.steps + 1 })
  | .invalidate k =>
    some (some (.invalidate k),
      { m with store := Function.update m.store k none, steps := m.steps + 1 })

end State

/-- Threads sharing a cache that is empty at first. -/
def cache (config : C) (t₀ : ℚ) : Shared (State K V C) (Choice K C) (Label K V ε) where
  start := ⟨fun _ => none, fun _ => .idle, config, t₀, 0⟩
  step := State.step ttl keyOf source

variable {ttl keyOf source} {h : List (Label K V ε)} {m m' : State K V C}

/-- What each choice does, where it is not refused. -/
inductive State.Next (ttl : ℚ) (keyOf : V → K) (source : C → K → Except ε V) (m : State K V C) :
    Choice K C → Label K V ε → State K V C → Prop where
  | begin {i k} (hidle : m.caller i = .idle) :
      Next ttl keyOf source m (.begin i k) (.begin i k) (m.moved i (.begun k) m.store m.now)
  | hit {i k now entry} (hbegun : m.caller i = .begun k) (htime : m.now ≤ now)
      (hentry : m.store k = some entry) (hfresh : now < entry.expiresAt) :
      Next ttl keyOf source m (.lookup i now) (.hit i k entry.loaded) (m.moved i .idle m.store now)
  | miss {i k now store} (hbegun : m.caller i = .begun k) (htime : m.now ≤ now)
      (hstore : ∀ k' entry, store k' = some entry → m.store k' = some entry) :
      Next ttl keyOf source m (.lookup i now) (.miss i k) (m.moved i (.missed k) store now)
  | resolved {i k v} (hmissed : m.caller i = .missed k) (hv : source m.config k = .ok v) :
      Next ttl keyOf source m (.load i) (.resolved i k ⟨v, m.steps⟩)
        (m.moved i (.resolved k ⟨v, m.steps⟩) m.store m.now)
  | failed {i k e} (hmissed : m.caller i = .missed k) :
      Next ttl keyOf source m (.load i) (.failed i k e) (m.moved i .idle m.store m.now)
  | stored {i k l now} (hresolved : m.caller i = .resolved k l) (htime : m.now ≤ now) :
      Next ttl keyOf source m (.store i now) (.stored i k l)
        (m.moved i .idle (set ttl keyOf m.store now l) now)
  | configure {config} :
      Next ttl keyOf source m (.configure config) .configure { m with config, steps := m.steps + 1 }
  | invalidate {k} :
      Next ttl keyOf source m (.invalidate k) (.invalidate k)
        { m with store := Function.update m.store k none, steps := m.steps + 1 }

theorem State.lookup_next {i : Nat} {k : K} {now : ℚ} (hbegun : m.caller i = .begun k)
    (htime : m.now ≤ now) {x : Label K V ε} (hlookup : m.lookup i k now = (x, m')) :
    State.Next ttl keyOf source m (.lookup i now) x m' := by
  cases hentry : m.store k with
  | none =>
    simp only [State.lookup, get, hentry, Prod.mk.injEq] at hlookup
    obtain ⟨rfl, rfl⟩ := hlookup
    exact .miss hbegun htime fun _ _ hk => hk
  | some entry =>
    by_cases hexpired : entry.expiresAt ≤ now
    · simp only [State.lookup, get, hentry, hexpired, if_true, Prod.mk.injEq] at hlookup
      obtain ⟨rfl, rfl⟩ := hlookup
      refine .miss hbegun htime ?_
      intro k' entry' hk'
      by_cases hkk : k' = k
      · simp [hkk] at hk'
      · simpa [hkk] using hk'
    · simp only [State.lookup, get, hentry, hexpired, if_false, Prod.mk.injEq] at hlookup
      obtain ⟨rfl, rfl⟩ := hlookup
      exact .hit hbegun htime hentry (not_le.mp hexpired)

theorem State.step_next {c : Choice K C} {l : Option (Label K V ε)}
    (hstep : m.step ttl keyOf source c = some (l, m')) :
    ∃ x, l = some x ∧ State.Next ttl keyOf source m c x m' := by
  cases c with
  | begin i k =>
    cases hi : m.caller i with
    | idle =>
      simp only [State.step, hi, Option.some.injEq, Prod.mk.injEq] at hstep
      obtain ⟨rfl, rfl⟩ := hstep
      exact ⟨_, rfl, .begin hi⟩
    | _ => simp [State.step, hi] at hstep
  | lookup i now =>
    cases hi : m.caller i with
    | begun k =>
      by_cases htime : m.now ≤ now
      · simp only [State.step, hi, htime, if_true, Option.some.injEq, Prod.mk.injEq] at hstep
        obtain ⟨rfl, rfl⟩ := hstep
        exact ⟨_, rfl, State.lookup_next hi htime rfl⟩
      · simp [State.step, hi, htime] at hstep
    | _ => simp [State.step, hi] at hstep
  | load i =>
    cases hi : m.caller i with
    | missed k =>
      simp only [State.step, hi, Option.some.injEq, Prod.mk.injEq] at hstep
      obtain ⟨rfl, rfl⟩ := hstep
      cases hv : source m.config k with
      | ok v =>
        simp only [State.load, hv]
        exact ⟨_, rfl, .resolved hi hv⟩
      | error e =>
        simp only [State.load, hv]
        exact ⟨_, rfl, .failed hi⟩
    | _ => simp [State.step, hi] at hstep
  | store i now =>
    cases hi : m.caller i with
    | resolved k l =>
      by_cases htime : m.now ≤ now
      · simp only [State.step, hi, htime, if_true, Option.some.injEq, Prod.mk.injEq] at hstep
        obtain ⟨rfl, rfl⟩ := hstep
        exact ⟨_, rfl, .stored hi htime⟩
      · simp [State.step, hi, htime] at hstep
    | _ => simp [State.step, hi] at hstep
  | configure config =>
    simp only [State.step, Option.some.injEq, Prod.mk.injEq] at hstep
    obtain ⟨rfl, rfl⟩ := hstep
    exact ⟨_, rfl, .configure⟩
  | invalidate k =>
    simp only [State.step, Option.some.injEq, Prod.mk.injEq] at hstep
    obtain ⟨rfl, rfl⟩ := hstep
    exact ⟨_, rfl, .invalidate⟩

omit [DecidableEq K] in
theorem caller_of_update {caller : Nat → Caller K V} {i j : Nat} {c : Caller K V} {k : K} {l : Loaded V}
    (hc : c ≠ .resolved k l) (hj : Function.update caller i c j = .resolved k l) :
    caller j = .resolved k l := by
  by_cases hji : j = i
  · rw [hji, Function.update_self] at hj
    exact absurd hj hc
  · rwa [Function.update_of_ne hji] at hj

/-- Some caller's load for the key made the value. -/
def Known (h : List (Label K V ε)) (k : K) (l : Loaded V) : Prop := ∃ j, .resolved j k l ∈ h

omit [DecidableEq K] in
theorem Known.concat {x : Label K V ε} {k : K} {l : Loaded V} (hknown : Known h k l) :
    Known (h ++ [x]) k l := by
  obtain ⟨j, hj⟩ := hknown
  exact ⟨j, List.mem_append_left _ hj⟩

/-- Where the values of a run come from. -/
structure Origin (keyOf : V → K) (h : List (Label K V ε)) (m : State K V C) : Prop where
  steps : m.steps = h.length
  entry : ∀ k e, m.store k = some e → Known h k e.loaded
  held : ∀ i k l, m.caller i = .resolved k l → Known h k l
  returned : ∀ x ∈ h, ∀ i k l, x.returned = some (i, k, l) → Known h k l
  key : ∀ k l, Known h k l → keyOf l.value = k
  stamp : ∀ k l, Known h k l → l.stamp < h.length

omit [DecidableEq K] in
theorem Origin.keep {x : Label K V ε} (ho : Origin keyOf h m) (hsteps : m'.steps = m.steps + 1)
    (hentry : ∀ k e, m'.store k = some e → Known (h ++ [x]) k e.loaded)
    (hheld : ∀ i k l, m'.caller i = .resolved k l → m.caller i = .resolved k l ∨ Known (h ++ [x]) k l)
    (hreturned : ∀ i k l, x.returned = some (i, k, l) → Known (h ++ [x]) k l)
    (hkey : ∀ j k l, x = .resolved j k l → keyOf l.value = k ∧ l.stamp = m.steps) :
    Origin keyOf (h ++ [x]) m' := by
  constructor
  · simp [hsteps, ho.steps]
  · exact hentry
  · intro i k l hl
    rcases hheld i k l hl with hold | hnew
    · exact (ho.held i k l hold).concat
    · exact hnew
  · intro y hy i k l hl
    rcases List.mem_append.mp hy with hy | hy
    · exact (ho.returned y hy i k l hl).concat
    · obtain rfl := List.mem_singleton.mp hy
      exact hreturned i k l hl
  · rintro k l ⟨j, hj⟩
    rcases List.mem_append.mp hj with hj | hj
    · exact ho.key k l ⟨j, hj⟩
    · exact (hkey j k l (List.mem_singleton.mp hj).symm).1
  · rintro k l ⟨j, hj⟩
    simp only [List.length_append, List.length_cons, List.length_nil]
    rcases List.mem_append.mp hj with hj | hj
    · have hlt := ho.stamp k l ⟨j, hj⟩
      omega
    · have hstamp := (hkey j k l (List.mem_singleton.mp hj).symm).2
      have hsteps := ho.steps
      omega

theorem Origin.next (hkey : ∀ c k v, source c k = .ok v → keyOf v = k) {c : Choice K C}
    {x : Label K V ε} (ho : Origin keyOf h m) (hnext : State.Next ttl keyOf source m c x m') :
    Origin keyOf (h ++ [x]) m' := by
  have hentry : ∀ k e, m.store k = some e → Known (h ++ [x]) k e.loaded :=
    fun k e he => (ho.entry k e he).concat
  cases hnext with
  | begin hidle =>
    exact ho.keep rfl hentry (fun j k l hj => .inl (caller_of_update (by simp) hj)) (by simp [Label.returned])
      (by simp)
  | @hit i k now entry hbegun htime hfound hfresh =>
    refine ho.keep rfl hentry (fun j k l hj => .inl (caller_of_update (by simp) hj)) ?_ (by simp)
    intro j k' l hl
    simp only [Label.returned, Option.some.injEq, Prod.mk.injEq] at hl
    obtain ⟨-, rfl, rfl⟩ := hl
    exact hentry _ _ hfound
  | miss hbegun htime hstore =>
    exact ho.keep rfl (fun k e he => hentry k e (hstore k e he))
      (fun j k l hj => .inl (caller_of_update (by simp) hj)) (by simp [Label.returned]) (by simp)
  | @resolved i k v hmissed hv =>
    have hnew : Known (h ++ [.resolved i k ⟨v, m.steps⟩]) k ⟨v, m.steps⟩ := ⟨i, by simp⟩
    refine ho.keep rfl hentry ?_ (by simp [Label.returned]) ?_
    · intro j k' l hj
      by_cases hji : j = i
      · simp only [State.moved, hji, Function.update_self, Caller.resolved.injEq] at hj
        obtain ⟨rfl, rfl⟩ := hj
        exact .inr hnew
      · exact .inl (by simpa [State.moved, hji] using hj)
    · intro j k' l hl
      simp only [Label.resolved.injEq] at hl
      obtain ⟨-, rfl, rfl⟩ := hl
      exact ⟨hkey _ _ _ hv, rfl⟩
  | failed hmissed =>
    exact ho.keep rfl hentry (fun j k l hj => .inl (caller_of_update (by simp) hj)) (by simp [Label.returned])
      (by simp)
  | @stored i k l now hresolved htime =>
    have hheld := (ho.held i k l hresolved).concat (x := .stored i k l)
    have hlkey := ho.key k l (ho.held i k l hresolved)
    refine ho.keep rfl ?_ (fun j k l hj => .inl (caller_of_update (by simp) hj)) ?_ (by simp)
    · intro k' e he
      simp only [State.moved, set, hlkey] at he
      by_cases hk : k' = k
      · simp only [hk, Function.update_self, Option.some.injEq] at he
        rw [hk, ← he]
        exact hheld
      · exact hentry k' e (by simpa [hk] using he)
    · intro j k' l' hl
      simp only [Label.returned, Option.some.injEq, Prod.mk.injEq] at hl
      obtain ⟨-, rfl, rfl⟩ := hl
      exact hheld
  | configure =>
    exact ho.keep rfl hentry (fun j k l hj => .inl hj) (by simp [Label.returned]) (by simp)
  | @invalidate k =>
    refine ho.keep rfl ?_ (fun j k l hj => .inl hj) (by simp [Label.returned]) (by simp)
    intro k' e he
    by_cases hk : k' = k
    · simp [hk] at he
    · exact hentry k' e (by simpa [hk] using he)

variable {config : C} {t₀ : ℚ}

theorem origin (hkey : ∀ c k v, source c k = .ok v → keyOf v = k)
    (hrun : (cache ttl keyOf source config t₀).Run h m) : Origin keyOf h m := by
  apply hrun.invariant (I := fun h m => Origin keyOf h m)
  · constructor
    all_goals simp [cache, Known]
  · intro h m c l m' ho hstep
    obtain ⟨x, rfl, hnext⟩ := State.step_next hstep
    exact ho.next hkey hnext

/-- Step `n` invalidated the key. -/
def InvalidatedAt (h : List (Label K V ε)) (k : K) (n : Nat) : Prop := h[n]? = some (.invalidate k)

/-- A call that begins after its key was invalidated returns a value loaded
after that. -/
def Fresh (h : List (Label K V ε)) : Prop :=
  ∀ n k b i q l, InvalidatedAt h k n → n < b → h[b]? = some (.begin i k) → b < q →
    h[q]?.bind Label.returned = some (i, k, l) → n < l.stamp

/-- No key is invalidated while a call for it is between its load and its store. -/
def Settled (m : State K V C) (c : Choice K C) : Prop :=
  ∀ k, c = .invalidate k → ∀ i l, m.caller i ≠ .resolved k l

/-- The value was loaded after every invalidation of the key so far. -/
def Late (h : List (Label K V ε)) (k : K) (l : Loaded V) : Prop := ∀ n, InvalidatedAt h k n → n < l.stamp

structure Renewed (h : List (Label K V ε)) (m : State K V C) : Prop where
  entry : ∀ k e, m.store k = some e → Late h k e.loaded
  held : ∀ i k l, m.caller i = .resolved k l → Late h k l
  returned : ∀ n q i k l, InvalidatedAt h k n → n < q → h[q]?.bind Label.returned = some (i, k, l) →
    n < l.stamp

omit [DecidableEq K] in
theorem InvalidatedAt.lt {k : K} {n : Nat} (hn : InvalidatedAt h k n) : n < h.length := by
  obtain ⟨hlt, -⟩ := List.getElem?_eq_some_iff.mp hn
  exact hlt

omit [DecidableEq K] in
theorem Late.concat {x : Label K V ε} {k : K} {l : Loaded V} (hlate : Late h k l) (hx : x ≠ .invalidate k) :
    Late (h ++ [x]) k l := by
  intro n hn
  have hlt := hn.lt
  simp only [List.length_append, List.length_cons, List.length_nil] at hlt
  by_cases hlast : n = h.length
  · simp [InvalidatedAt, hlast] at hn
    contradiction
  · rw [InvalidatedAt, List.getElem?_append_left (by omega)] at hn
    exact hlate n hn

omit [DecidableEq K] in
theorem Renewed.keep {x : Label K V ε} (hr : Renewed h m)
    (hentry : ∀ k e, m'.store k = some e → Late (h ++ [x]) k e.loaded)
    (hheld : ∀ i k l, m'.caller i = .resolved k l → Late (h ++ [x]) k l)
    (hreturned : ∀ i k l, x.returned = some (i, k, l) → Late h k l) : Renewed (h ++ [x]) m' := by
  constructor
  · exact hentry
  · exact hheld
  · intro n q i k l hn hnq hq
    have hbound : q < h.length + 1 := by
      by_contra hlarge
      rw [List.getElem?_eq_none (by simp; omega)] at hq
      cases hq
    have hn' : InvalidatedAt h k n := by
      rwa [InvalidatedAt, List.getElem?_append_left (by omega)] at hn
    by_cases hlast : q = h.length
    · exact hreturned i k l (by simpa [hlast] using hq) n hn'
    · rw [List.getElem?_append_left (by omega)] at hq
      exact hr.returned n q i k l hn' hnq hq

theorem Renewed.next {c : Choice K C} {x : Label K V ε}
    (ho : Origin keyOf h m) (hr : Renewed h m) (hok : Settled m c)
    (hnext : State.Next ttl keyOf source m c x m') : Renewed (h ++ [x]) m' := by
  have hentry (hx : ∀ k, x ≠ .invalidate k) k e (he : m.store k = some e) :
      Late (h ++ [x]) k e.loaded := (hr.entry k e he).concat (hx k)
  have hheld (hx : ∀ k, x ≠ .invalidate k) j k l (hj : m.caller j = .resolved k l) :
      Late (h ++ [x]) k l := (hr.held j k l hj).concat (hx k)
  cases hnext with
  | begin hidle =>
    exact hr.keep (hentry (by simp)) (fun j k l hj => hheld (by simp) j k l (caller_of_update (by simp) hj))
      (by simp [Label.returned])
  | @hit i k now entry hbegun htime hfound hfresh =>
    refine hr.keep (hentry (by simp))
      (fun j k l hj => hheld (by simp) j k l (caller_of_update (by simp) hj)) ?_
    intro j k' l hl
    simp only [Label.returned, Option.some.injEq, Prod.mk.injEq] at hl
    obtain ⟨-, rfl, rfl⟩ := hl
    exact hr.entry _ _ hfound
  | miss hbegun htime hstore =>
    exact hr.keep (fun k e he => hentry (by simp) k e (hstore k e he))
      (fun j k l hj => hheld (by simp) j k l (caller_of_update (by simp) hj)) (by simp [Label.returned])
  | @resolved i k v hmissed hv =>
    refine hr.keep (hentry (by simp)) ?_ (by simp [Label.returned])
    intro j k' l hj
    by_cases hji : j = i
    · -- every invalidation so far came before this load
      simp only [State.moved, hji, Function.update_self, Caller.resolved.injEq] at hj
      obtain ⟨rfl, rfl⟩ := hj
      have hlate : Late h k ⟨v, m.steps⟩ := by
        intro n hn
        have hlt := hn.lt
        rw [← ho.steps] at hlt
        exact hlt
      exact hlate.concat (by simp)
    · exact hheld (by simp) j k' l (by simpa [State.moved, hji] using hj)
  | failed hmissed =>
    exact hr.keep (hentry (by simp)) (fun j k l hj => hheld (by simp) j k l (caller_of_update (by simp) hj))
      (by simp [Label.returned])
  | @stored i k l now hresolved htime =>
    have hlate := hr.held i k l hresolved
    have hlkey := ho.key k l (ho.held i k l hresolved)
    refine hr.keep ?_ (fun j k l hj => hheld (by simp) j k l (caller_of_update (by simp) hj)) ?_
    · intro k' e he
      simp only [State.moved, set, hlkey] at he
      by_cases hk : k' = k
      · simp only [hk, Function.update_self, Option.some.injEq] at he
        rw [hk, ← he]
        exact hlate.concat (by simp)
      · exact hentry (by simp) k' e (by simpa [hk] using he)
    · intro j k' l' hl
      simp only [Label.returned, Option.some.injEq, Prod.mk.injEq] at hl
      obtain ⟨-, rfl, rfl⟩ := hl
      exact hlate
  | configure => exact hr.keep (hentry (by simp)) (hheld (by simp)) (by simp [Label.returned])
  | @invalidate k =>
    refine hr.keep ?_ ?_ (by simp [Label.returned])
    · intro k' e he
      by_cases hk : k' = k
      · simp [hk] at he
      · have hlate := hr.entry k' e (by simpa [hk] using he)
        exact hlate.concat (by simp [Ne.symm hk])
    · intro i k' l hl
      have hk : k' ≠ k := by
        rintro rfl
        exact hok k' rfl i l hl
      exact (hr.held i k' l hl).concat (by simp [Ne.symm hk])

theorem renewed (hkey : ∀ c k v, source c k = .ok v → keyOf v = k)
    (hrun : (cache ttl keyOf source config t₀).RunWithin Settled h m) :
    Origin keyOf h m ∧ Renewed h m := by
  apply hrun.invariant (I := fun h m => Origin keyOf h m ∧ Renewed h m)
  · refine ⟨origin hkey .start, ?_⟩
    constructor
    all_goals simp [cache, InvalidatedAt]
  · rintro h m c l m' ⟨ho, hr⟩ hok hstep
    obtain ⟨x, rfl, hnext⟩ := State.step_next hstep
    exact ⟨ho.next hkey hnext, hr.next ho hok hnext⟩

theorem fresh_of_settled (hkey : ∀ c k v, source c k = .ok v → keyOf v = k)
    (hrun : (cache ttl keyOf source config t₀).RunWithin Settled h m) : Fresh h := by
  intro n k b i q l hn hnb _ hbq hq
  exact (renewed hkey hrun).2.returned n q i k l hn (by omega) hq

/-- An invalidation that overtakes a store can be followed by a stale answer. -/
theorem stale_of_unsettled (httl : 0 < ttl) (hkey : ∀ c k v, source c k = .ok v → keyOf v = k)
    (hrun : (cache ttl keyOf source config t₀).Run h m) {i : Nat} {k : K} {l : Loaded V}
    (hi : m.caller i = .resolved k l) :
    ∃ h' m', (cache ttl keyOf source config t₀).Run (h ++ .invalidate k :: h') m' ∧
      ¬ Fresh (h ++ .invalidate k :: h') := by
  have ho := origin hkey hrun
  have hknown := ho.held i k l hi
  have hstamp := ho.stamp k l hknown
  have hlkey := ho.key k l hknown
  let rest : List (Label K V ε) := [.stored i k l, .begin i k, .hit i k l]
  have hexec : ∃ m', (cache ttl keyOf source config t₀).exec
      [.invalidate k, .store i m.now, .begin i k, .lookup i m.now] (h, m) =
      some (h ++ .invalidate k :: rest, m') := by
    have hlate : ¬ m.now + ttl ≤ m.now := by simpa using httl
    simp [Shared.exec, cache, State.step, State.moved, State.lookup, get, set, hi, hlkey, hlate, rest]
  obtain ⟨m', hexec⟩ := hexec
  refine ⟨rest, m', Shared.exec_run hrun hexec, ?_⟩
  intro hfresh
  have hstale := hfresh h.length k (h.length + 2) i (h.length + 3) l
    (by simp [InvalidatedAt]) (by omega) (by simp [rest]) (by omega) (by simp [rest, Label.returned])
  omega

end Operations

end Tx.ReadThrough
