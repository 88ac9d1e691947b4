import Mathlib.Data.List.Count

/-! Pieces of work shared out one at a time, each to one who has least of it. -/

namespace Loads

variable {α : Type}

/-- A piece that is not shared out has its owner from the start. -/
structure Piece (α : Type) where
  owner : Option α
  shared : Bool
  counts : Bool

def LeastLoaded (agents : List α) (load : α → Nat) (a : α) : Prop := a ∈ agents ∧ ∀ b ∈ agents, load a ≤ load b

/-- No two agents are more than `d` apart. -/
def Within (agents : List α) (d : Nat) (load : α → Nat) : Prop := ∀ a ∈ agents, ∀ b ∈ agents, load a ≤ load b + d

instance (agents : List α) (d : Nat) (load : α → Nat) : Decidable (Within agents d load) :=
  inferInstanceAs (Decidable (∀ a ∈ agents, ∀ b ∈ agents, load a ≤ load b + d))

variable {agents : List α} {load : α → Nat} {p : Piece α} {pieces : List (Piece α)} {d e : Nat}

theorem Within.mono (h : Within agents d load) (hde : d ≤ e) : Within agents e load := by
  intro a ha b hb
  have hab := h a ha b hb
  omega

variable [DecidableEq α]

def Piece.isOf (a : α) (p : Piece α) : Bool := p.counts && p.owner = some a

def loadAfter (load : α → Nat) (pieces : List (Piece α)) (a : α) : Nat := load a + pieces.countP (Piece.isOf a)

def Fair (agents : List α) (load : α → Nat) : List (Piece α) → Prop
  | [] => True
  | p :: rest => (p.shared → ∃ a, p.owner = some a ∧ LeastLoaded agents load a) ∧ Fair agents (loadAfter load [p]) rest

theorem loadAfter_nil : loadAfter load [] = load := by
  funext a
  simp [loadAfter]

theorem loadAfter_cons : loadAfter load (p :: pieces) = loadAfter (loadAfter load [p]) pieces := by
  funext a
  have hcount : ([p] ++ pieces).countP (Piece.isOf a) = [p].countP (Piece.isOf a) + pieces.countP (Piece.isOf a) :=
    List.countP_append
  rw [List.singleton_append] at hcount
  rw [loadAfter, hcount, loadAfter, loadAfter, Nat.add_assoc]

theorem fair_iff : Fair agents load pieces ↔ ∀ i p, pieces[i]? = some p → p.shared →
    ∃ a, p.owner = some a ∧ LeastLoaded agents (loadAfter load (pieces.take i)) a := by
  induction pieces generalizing load with
  | nil => simp [Fair]
  | cons p rest ih =>
    rw [Fair, ih]
    constructor
    · rintro ⟨hfirst, hrest⟩ i q hi hshared
      cases i with
      | zero =>
        obtain rfl : p = q := by simpa using hi
        rw [List.take_zero, loadAfter_nil]
        exact hfirst hshared
      | succ i =>
        rw [List.take_succ_cons, loadAfter_cons]
        exact hrest i q (by simpa using hi) hshared
    · intro h
      refine ⟨fun hshared => ?_, fun i q hi hshared => ?_⟩
      · have hzero := h 0 p rfl hshared
        rwa [List.take_zero, loadAfter_nil] at hzero
      · have hsucc := h (i + 1) q (by simpa using hi) hshared
        rwa [List.take_succ_cons, loadAfter_cons] at hsucc

theorem loadAfter_bounds (p : Piece α) (load : α → Nat) (a : α) :
    load a ≤ loadAfter load [p] a ∧ loadAfter load [p] a ≤ load a + 1 := by
  have hcount : [p].countP (Piece.isOf a) ≤ 1 := List.countP_le_length
  rw [loadAfter]
  omega

theorem loadAfter_other (load : α → Nat) {a b : α} (howner : p.owner = some a) (hb : b ≠ a) :
    loadAfter load [p] b = load b := by
  have hnot : [p].countP (Piece.isOf b) = 0 := by
    have hne : ¬ a = b := fun h => hb h.symm
    simp [Piece.isOf, howner, hne]
  rw [loadAfter, hnot, Nat.add_zero]

/-- Who has least gets ahead of the others by one at most. -/
theorem Within.loadAfter {a : α} (h : Within agents d load) (hd : 1 ≤ d) (howner : p.owner = some a)
    (ha : LeastLoaded agents load a) : Within agents d (loadAfter load [p]) := by
  intro b hb c hc
  have hbc := h b hb c hc
  have hac := ha.2 c hc
  have hboundsB := loadAfter_bounds p load b
  have hboundsC := loadAfter_bounds p load c
  by_cases hba : b = a
  · rw [← hba] at hac
    omega
  · have hsame := loadAfter_other load howner hba
    omega

theorem Fair.within (hfair : Fair agents load pieces) (hshared : ∀ p ∈ pieces, p.shared)
    (h : Within agents d load) (hd : 1 ≤ d) : Within agents d (Loads.loadAfter load pieces) := by
  induction pieces generalizing load with
  | nil => rwa [loadAfter_nil]
  | cons p rest ih =>
    obtain ⟨hfirst, hrest⟩ := hfair
    obtain ⟨a, howner, ha⟩ := hfirst (hshared p (by simp))
    rw [loadAfter_cons]
    exact ih hrest (fun q hq => hshared q (by simp [hq])) (h.loadAfter hd howner ha)

end Loads
