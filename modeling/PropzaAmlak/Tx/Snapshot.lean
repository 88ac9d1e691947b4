import Mathlib.Data.List.Basic

/-! Transactions on snapshots of a store of rows. A transaction commits if no other
has written one of the rows it writes since its snapshot was taken. -/

namespace Tx

variable {κ : Type} {ρ : κ → Type}

abbrev Store (ρ : κ → Type) : Type := ∀ k, ρ k

/-- What a transaction makes of a snapshot if it does not raise. It writes some of
the rows that it lists. -/
structure Txn (ρ : κ → Type) where
  run : Store ρ → Option (Store ρ)
  rows : Store ρ → List κ
  frame : ∀ s r, run s = some r → ∀ k, k ∉ rows s → r k = s k

/-- The committed stores. -/
structure Commits (ρ : κ → Type) where
  now : Store ρ
  past : List (Store ρ)

namespace Commits

/-- The latest first. -/
def stores (h : Commits ρ) : List (Store ρ) := h.now :: h.past

/-- Row `k` has not changed in the last `age` commits. -/
def Unwritten (h : Commits ρ) (age : Nat) (k : κ) : Prop := ∀ s ∈ h.stores.take (age + 1), s k = h.now k

instance [∀ k, DecidableEq (ρ k)] (h : Commits ρ) (age : Nat) (k : κ) : Decidable (h.Unwritten age k) :=
  inferInstanceAs (Decidable (∀ s ∈ h.stores.take (age + 1), s k = h.now k))

/-- The transaction gets from its snapshot `s` to `r` and commits. -/
structure Succeeds (h : Commits ρ) (t : Txn ρ) (age : Nat) (s r : Store ρ) : Prop where
  snapshot : h.stores[age]? = some s
  run : t.run s = some r
  unwritten : ∀ k, r k ≠ s k → h.Unwritten age k

variable {h : Commits ρ} {t : Txn ρ} {age : Nat} {s r : Store ρ}

theorem Succeeds.mem_take (hs : h.Succeeds t age s r) : s ∈ h.stores.take (age + 1) := by
  have hget : (h.stores.take (age + 1))[age]? = some s := by
    rw [List.getElem?_take_of_lt (Nat.lt_succ_self age), hs.snapshot]
  exact List.mem_of_getElem? hget

theorem Succeeds.mem (hs : h.Succeeds t age s r) : s ∈ h.stores := List.mem_of_mem_take hs.mem_take

variable [∀ k, DecidableEq (ρ k)]

/-- A row left as it was in the snapshot is not written. -/
def merge (h : Commits ρ) (s r : Store ρ) : Commits ρ where
  now := fun k => if r k = s k then h.now k else r k
  past := h.stores

/-- The commit of a transaction whose snapshot is `age` commits old; one that raises
or comes too late leaves everything as it is. -/
def commit (h : Commits ρ) (t : Txn ρ) (age : Nat) : Commits ρ :=
  match h.stores[age]? with
  | none => h
  | some s =>
    match t.run s with
    | none => h
    | some r => if ∀ k ∈ t.rows s, r k ≠ s k → h.Unwritten age k then h.merge s r else h

theorem commit_of_succeeds (hs : h.Succeeds t age s r) : h.commit t age = h.merge s r := by
  have hrows : ∀ k ∈ t.rows s, r k ≠ s k → h.Unwritten age k := fun k _ => hs.unwritten k
  rw [commit, hs.snapshot]
  simp only [hs.run]
  rw [if_pos hrows]

theorem commit_cases (h : Commits ρ) (t : Txn ρ) (age : Nat) :
    h.commit t age = h ∧ (∀ s r, ¬ h.Succeeds t age s r) ∨ ∃ s r, h.Succeeds t age s r := by
  by_cases hex : ∃ s r, h.Succeeds t age s r
  · exact .inr hex
  · have hnone : ∀ s r, ¬ h.Succeeds t age s r := fun s r hs => hex ⟨s, r, hs⟩
    refine .inl ⟨?_, hnone⟩
    unfold commit
    split
    · rfl
    rename_i s hsnapshot
    split
    · rfl
    rename_i r hrun
    split
    · rename_i hrows
      have hall : ∀ k, r k ≠ s k → h.Unwritten age k := by
        intro k hk
        by_cases hmem : k ∈ t.rows s
        · exact hrows k hmem hk
        · exact absurd (t.frame s r hrun k hmem) hk
      exact absurd ⟨hsnapshot, hrun, hall⟩ (hnone s r)
    · rfl

end Commits

/-- Objects whose good states each depend on a part of the store, and are told apart
by one row. -/
structure Guarded (ρ : κ → Type) (ο : Type) where
  γ : κ → Type
  view : ο → ∀ k, ρ k → γ k
  guard : ο → κ
  Good : ο → Store ρ → Prop
  congr : ∀ o s s', (∀ k, view o k (s k) = view o k (s' k)) → Good o s → Good o s'
  determined : ∀ o s s', Good o s → Good o s' → s (guard o) = s' (guard o) → ∀ k, view o k (s k) = view o k (s' k)

namespace Guarded

variable [∀ k, DecidableEq (ρ k)] {ο : Type} {G : Guarded ρ ο} {h : Commits ρ} {t : Txn ρ} {age : Nat}
  {s r : Store ρ} {o : ο}

/-- An object whose guard is written is as the transaction has left it. -/
theorem view_written (hgood : ∀ x ∈ h.stores, G.Good o x) (hs : h.Succeeds t age s r)
    (hguard : r (G.guard o) ≠ s (G.guard o)) (k : κ) :
    G.view o k ((h.merge s r).now k) = G.view o k (r k) := by
  have hsame : s (G.guard o) = h.now (G.guard o) := hs.unwritten _ hguard s hs.mem_take
  have hnow : G.view o k (s k) = G.view o k (h.now k) :=
    G.determined o s h.now (hgood s hs.mem) (hgood h.now (by simp [Commits.stores])) hsame k
  by_cases hk : r k = s k
  · simp [Commits.merge, hk, hnow]
  · simp [Commits.merge, hk]

/-- One whose guard is left alone is as it was before. -/
theorem view_unwritten (hgood : ∀ x ∈ h.stores, G.Good o x) (hr : G.Good o r) (hs : h.Succeeds t age s r)
    (hguard : r (G.guard o) = s (G.guard o)) (k : κ) :
    G.view o k ((h.merge s r).now k) = G.view o k (h.now k) := by
  have hview : G.view o k (r k) = G.view o k (s k) := G.determined o r s hr (hgood s hs.mem) hguard k
  by_cases hk : r k = s k
  · simp [Commits.merge, hk]
  · have hsame : s k = h.now k := hs.unwritten k hk s hs.mem_take
    simp only [Commits.merge, hk, if_false]
    rw [hview, hsame]

/-- What transactions keep one after another they keep on snapshots. -/
theorem commit_good (hgood : ∀ x ∈ h.stores, ∀ o, G.Good o x)
    (hkeep : ∀ s r, h.Succeeds t age s r → ∀ o, G.Good o r) : ∀ x ∈ (h.commit t age).stores, ∀ o, G.Good o x := by
  rcases h.commit_cases t age with ⟨hsame, -⟩ | ⟨s, r, hs⟩
  · rwa [hsame]
  · rw [Commits.commit_of_succeeds hs]
    intro x hx o
    have hobject : ∀ x ∈ h.stores, G.Good o x := fun x hx => hgood x hx o
    rcases List.mem_cons.mp hx with rfl | hx
    · by_cases hguard : r (G.guard o) = s (G.guard o)
      · have hview := view_unwritten hobject (hkeep s r hs o) hs hguard
        exact G.congr o _ _ (fun k => (hview k).symm) (hobject h.now (by simp [Commits.stores]))
      · have hview := view_written hobject hs hguard
        exact G.congr o _ _ (fun k => (hview k).symm) (hkeep s r hs o)
    · exact hobject x hx

/-- What a transaction breaks together with its guard is broken in the store. -/
theorem commit_not_good (hgood : ∀ x ∈ h.stores, G.Good o x) (hs : h.Succeeds t age s r)
    (hguard : r (G.guard o) ≠ s (G.guard o)) (hbad : ¬ G.Good o r) : ¬ G.Good o (h.commit t age).now := by
  rw [Commits.commit_of_succeeds hs]
  intro hnow
  exact hbad (G.congr o _ _ (view_written hgood hs hguard) hnow)

end Guarded

end Tx
