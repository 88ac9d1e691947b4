import Mathlib.Data.List.Perm.Basic
import Mathlib.Order.Lattice

/-! Binary heaps kept in a list, with the two sifts that push and pop are made
of. Items are compared by a key, so that the items themselves need no order. -/

namespace Heapq

variable {α κ : Type} [LinearOrder κ] {key : α → κ} {heap : List α} {x a p : α} {pos fuel i : Nat}

/-- Moves the parents that `newitem` comes before down the path to the root,
beginning at the hole `pos`. -/
def siftdown (key : α → κ) (newitem : α) : Nat → Nat → List α → List α
  | 0, pos, heap => heap.set pos newitem
  | fuel + 1, pos, heap =>
    match heap[(pos - 1) / 2]? with
    | none => heap.set pos newitem
    | some parent =>
      if 0 < pos ∧ key newitem < key parent then siftdown key newitem fuel ((pos - 1) / 2) (heap.set pos parent)
      else heap.set pos newitem

def smallerChild (key : α → κ) (heap : List α) (pos : Nat) : Option (Nat × α) :=
  match heap[2 * pos + 1]?, heap[2 * pos + 2]? with
  | some left, some right => if key left < key right then some (2 * pos + 1, left) else some (2 * pos + 2, right)
  | some left, none => some (2 * pos + 1, left)
  | none, _ => none

/-- Moves the smaller child up until the hole is a leaf, then puts `newitem`
there and lets it rise. -/
def siftup (key : α → κ) (newitem : α) : Nat → Nat → List α → List α
  | 0, pos, heap => siftdown key newitem pos pos heap
  | fuel + 1, pos, heap =>
    match smallerChild key heap pos with
    | some (childpos, child) => siftup key newitem fuel childpos (heap.set pos child)
    | none => siftdown key newitem pos pos heap

def heappush (key : α → κ) (heap : List α) (item : α) : List α :=
  siftdown key item heap.length heap.length (heap ++ [item])

def heappop (key : α → κ) (heap : List α) : Option (α × List α) :=
  match heap.getLast? with
  | none => none
  | some lastelt =>
    match heap.dropLast with
    | [] => some (lastelt, [])
    | returnitem :: rest => some (returnitem, siftup key lastelt heap.length 0 (returnitem :: rest))

/-! ### The items -/

theorem set_set_swap {q : Nat} (hp : pos < heap.length) (hq : heap[q]? = some p) (hne : q ≠ pos) :
    ((heap.set pos p).set q x).Perm (heap.set pos x) := by
  obtain ⟨hlt, rfl⟩ := List.getElem?_eq_some_iff.mp hq
  have h1 : pos < (heap.set pos x).length := by simpa using hp
  have h2 : q < (heap.set pos x).length := by simpa using hlt
  have hswap := List.set_set_perm h1 h2
  rwa [List.set_set, List.getElem_set_self, List.getElem_set_ne (Ne.symm hne)] at hswap

theorem siftdown_perm (hp : pos < heap.length) : (siftdown key x fuel pos heap).Perm (heap.set pos x) := by
  induction fuel generalizing pos heap with
  | zero => exact List.Perm.refl _
  | succ fuel ih =>
    rw [siftdown]
    split
    · exact List.Perm.refl _
    · rename_i parent hparent
      split
      · rename_i hlt
        have hq : (pos - 1) / 2 < (heap.set pos parent).length := by
          rw [List.length_set]
          omega
        exact (ih hq).trans (set_set_swap hp hparent (by omega))
      · exact List.Perm.refl _

theorem smallerChild_spec {c : Nat} (h : smallerChild key heap pos = some (c, a)) :
    heap[c]? = some a ∧ 0 < c ∧ (c - 1) / 2 = pos ∧
      ∀ i b, 0 < i → (i - 1) / 2 = pos → heap[i]? = some b → key a ≤ key b := by
  have hchild : ∀ i, 0 < i → (i - 1) / 2 = pos → i = 2 * pos + 1 ∨ i = 2 * pos + 2 := by omega
  rw [smallerChild] at h
  split at h
  · rename_i left right hl hr
    split at h
    · rename_i hlt
      obtain ⟨rfl, rfl⟩ : 2 * pos + 1 = c ∧ left = a := by simpa using h
      refine ⟨hl, by omega, by omega, ?_⟩
      intro i b hi hpos hb
      rcases hchild i hi hpos with rfl | rfl
      · exact le_of_eq (by rw [Option.some.inj (hl.symm.trans hb)])
      · rw [← Option.some.inj (hr.symm.trans hb)]
        exact le_of_lt hlt
    · rename_i hlt
      obtain ⟨rfl, rfl⟩ : 2 * pos + 2 = c ∧ right = a := by simpa using h
      refine ⟨hr, by omega, by omega, ?_⟩
      intro i b hi hpos hb
      rcases hchild i hi hpos with rfl | rfl
      · rw [← Option.some.inj (hl.symm.trans hb)]
        exact not_lt.mp hlt
      · exact le_of_eq (by rw [Option.some.inj (hr.symm.trans hb)])
  · rename_i left hl hr
    obtain ⟨rfl, rfl⟩ : 2 * pos + 1 = c ∧ left = a := by simpa using h
    refine ⟨hl, by omega, by omega, ?_⟩
    intro i b hi hpos hb
    rcases hchild i hi hpos with rfl | rfl
    · exact le_of_eq (by rw [Option.some.inj (hl.symm.trans hb)])
    · simp [hr] at hb
  · simp at h

theorem smallerChild_eq_none (h : smallerChild key heap pos = none) (hi : 0 < i) (hpos : (i - 1) / 2 = pos) :
    heap[i]? = none := by
  have hleft : heap[2 * pos + 1]? = none := by
    rw [smallerChild] at h
    split at h
    · split at h <;> simp at h
    · simp at h
    · assumption
  have hlen : heap.length ≤ 2 * pos + 1 := by simpa using hleft
  rw [List.getElem?_eq_none_iff]
  omega

theorem siftup_perm (hp : pos < heap.length) : (siftup key x fuel pos heap).Perm (heap.set pos x) := by
  induction fuel generalizing pos heap with
  | zero => exact siftdown_perm hp
  | succ fuel ih =>
    rw [siftup]
    split
    · rename_i c child hc
      obtain ⟨hget, hpos, hparent, -⟩ := smallerChild_spec hc
      have hlt : c < (heap.set pos child).length := by
        rw [List.length_set]
        exact (List.getElem?_eq_some_iff.mp hget).1
      exact (ih hlt).trans (set_set_swap hp hget (by omega))
    · exact siftdown_perm hp

theorem heappush_perm : (heappush key heap x).Perm (x :: heap) := by
  have hperm : (heappush key heap x).Perm ((heap ++ [x]).set heap.length x) :=
    siftdown_perm (by simp)
  rw [List.set_append_right _ _ (Nat.le_refl _)] at hperm
  simpa using hperm.trans List.perm_append_comm

theorem heappop_eq_none : heappop key heap = none ↔ heap = [] := by
  rw [heappop]
  split
  · rename_i h
    simpa using h
  · rename_i lastelt h
    have hne : heap ≠ [] := by
      rintro rfl
      simp at h
    split <;> simp [hne]

theorem heappop_perm {rest : List α} (h : heappop key heap = some (a, rest)) : heap.Perm (a :: rest) := by
  rw [heappop] at h
  split at h
  · simp at h
  · rename_i lastelt hlast
    have hsplit : heap = heap.dropLast ++ [lastelt] := by
      obtain ⟨init, rfl⟩ := List.getLast?_eq_some_iff.mp hlast
      simp
    split at h
    · rename_i hdrop
      rw [hdrop] at hsplit
      obtain ⟨rfl, rfl⟩ : lastelt = a ∧ [] = rest := by simpa using h
      rw [hsplit]
      exact List.Perm.refl _
    · rename_i returnitem others hdrop
      rw [hdrop] at hsplit
      obtain ⟨rfl, rfl⟩ : returnitem = a ∧ siftup key lastelt heap.length 0 (returnitem :: others) = rest := by
        simpa using h
      have hperm : (siftup key lastelt heap.length 0 (returnitem :: others)).Perm (lastelt :: others) :=
        siftup_perm (by simp)
      calc heap.Perm (returnitem :: (others ++ [lastelt])) := by rw [hsplit]; exact List.Perm.refl _
        _ |>.Perm (returnitem :: lastelt :: others) := List.Perm.cons _ List.perm_append_comm
        _ |>.Perm _ := List.Perm.cons _ hperm.symm

/-! ### Their order -/

def IsHeap (key : α → κ) (heap : List α) : Prop :=
  ∀ i a p, heap[i]? = some a → heap[(i - 1) / 2]? = some p → key p ≤ key a

/-- In order but for the item at `pos`, whose children still come after its parent. -/
structure HoleOrder (key : α → κ) (heap : List α) (pos : Nat) : Prop where
  except : ∀ i a p, i ≠ pos → (i - 1) / 2 ≠ pos → heap[i]? = some a → heap[(i - 1) / 2]? = some p → key p ≤ key a
  grand : ∀ i a p, 0 < pos → 0 < i → (i - 1) / 2 = pos → heap[i]? = some a → heap[(pos - 1) / 2]? = some p →
    key p ≤ key a

/-- The children of `pos` come after `x`. -/
def Below (key : α → κ) (heap : List α) (pos : Nat) (x : α) : Prop :=
  ∀ i a, 0 < i → (i - 1) / 2 = pos → heap[i]? = some a → key x ≤ key a

theorem getElem?_set_of_ne (hne : i ≠ pos) : (heap.set pos x)[i]? = heap[i]? := by
  rw [List.getElem?_set_ne (Ne.symm hne)]

theorem eq_of_getElem?_set (h : (heap.set pos x)[pos]? = some a) : a = x := by
  rw [List.getElem?_set_self'] at h
  cases hpos : heap[pos]? with
  | none => simp [hpos] at h
  | some b => simpa [hpos] using h.symm

theorem HoleOrder.finish (o : HoleOrder key heap pos) (below : Below key heap pos x)
    (hstop : 0 < pos → ∀ p, heap[(pos - 1) / 2]? = some p → key p ≤ key x) : IsHeap key (heap.set pos x) := by
  intro i a p ha hp
  by_cases hi : i = pos
  · subst hi
    obtain rfl := eq_of_getElem?_set ha
    by_cases hz : 0 < i
    · rw [getElem?_set_of_ne (by omega)] at hp
      exact hstop hz p hp
    · obtain rfl : i = 0 := by omega
      exact le_of_eq (by rw [eq_of_getElem?_set hp])
  · rw [getElem?_set_of_ne hi] at ha
    by_cases hparent : (i - 1) / 2 = pos
    · rw [hparent] at hp
      obtain rfl := eq_of_getElem?_set hp
      exact below i a (by omega) hparent ha
    · rw [getElem?_set_of_ne hparent] at hp
      exact o.except i a p hi hparent ha hp

theorem HoleOrder.rise (o : HoleOrder key heap pos) (hpos : 0 < pos) (hq : heap[(pos - 1) / 2]? = some p) :
    HoleOrder key (heap.set pos p) ((pos - 1) / 2) := by
  constructor
  · intro i a b hi hib ha hb
    have hipos : i ≠ pos := by
      rintro rfl
      exact hib rfl
    rw [getElem?_set_of_ne hipos] at ha
    by_cases hparent : (i - 1) / 2 = pos
    · rw [hparent] at hb
      obtain rfl := eq_of_getElem?_set hb
      exact o.grand i a b hpos (by omega) hparent ha hq
    · rw [getElem?_set_of_ne hparent] at hb
      exact o.except i a b hipos hparent ha hb
  · intro i a b hq0 hi hiq ha hb
    rw [getElem?_set_of_ne (by omega)] at hb
    have hup : key b ≤ key p := o.except _ _ _ (by omega) (by omega) hq hb
    by_cases hipos : i = pos
    · subst hipos
      rwa [eq_of_getElem?_set ha]
    · rw [getElem?_set_of_ne hipos] at ha
      exact hup.trans (o.except i a p hipos (by omega) ha (by rwa [hiq]))

theorem Below.rise (o : HoleOrder key heap pos) (hpos : 0 < pos) (hq : heap[(pos - 1) / 2]? = some p)
    (hlt : key x < key p) : Below key (heap.set pos p) ((pos - 1) / 2) x := by
  intro i a hi hiq ha
  by_cases hipos : i = pos
  · subst hipos
    rw [eq_of_getElem?_set ha]
    exact le_of_lt hlt
  · rw [getElem?_set_of_ne hipos] at ha
    exact (le_of_lt hlt).trans (o.except i a p hipos (by omega) ha (by rwa [hiq]))

theorem siftdown_isHeap (o : HoleOrder key heap pos) (below : Below key heap pos x) (hp : pos < heap.length)
    (hfuel : pos ≤ fuel) : IsHeap key (siftdown key x fuel pos heap) := by
  induction fuel generalizing pos heap with
  | zero => exact o.finish below (by omega)
  | succ fuel ih =>
    rw [siftdown]
    split
    · rename_i hnone
      exact o.finish below (fun _ p hq => by simp [hnone] at hq)
    · rename_i parent hparent
      split
      · rename_i hlt
        have hq : (pos - 1) / 2 < (heap.set pos parent).length := by
          rw [List.length_set]
          omega
        exact ih (o.rise hlt.1 hparent) (Below.rise o hlt.1 hparent hlt.2) hq (by omega)
      · rename_i hlt
        refine o.finish below fun hpos p hq => ?_
        obtain rfl := Option.some.inj (hparent.symm.trans hq)
        exact not_lt.mp fun h => hlt ⟨hpos, h⟩

theorem HoleOrder.sink {c : Nat} (o : HoleOrder key heap pos) (hc : smallerChild key heap pos = some (c, p)) :
    HoleOrder key (heap.set pos p) c := by
  obtain ⟨hget, hpos, hparent, hmin⟩ := smallerChild_spec hc
  constructor
  · intro i a b hi hib ha hb
    by_cases hipos : i = pos
    · subst hipos
      obtain rfl := eq_of_getElem?_set ha
      by_cases hz : 0 < i
      · rw [getElem?_set_of_ne (by omega)] at hb
        exact o.grand c a b hz hpos hparent hget hb
      · obtain rfl : i = 0 := by omega
        exact le_of_eq (by rw [eq_of_getElem?_set hb])
    · rw [getElem?_set_of_ne hipos] at ha
      by_cases hsibling : (i - 1) / 2 = pos
      · rw [hsibling] at hb
        obtain rfl := eq_of_getElem?_set hb
        exact hmin i a (by omega) hsibling ha
      · rw [getElem?_set_of_ne hsibling] at hb
        exact o.except i a b hipos hsibling ha hb
  · intro i a b _ hi hic ha hb
    rw [hparent] at hb
    obtain rfl := eq_of_getElem?_set hb
    rw [getElem?_set_of_ne (by omega)] at ha
    exact o.except i a b (by omega) (by omega) ha (by rwa [hic])

theorem siftup_isHeap (o : HoleOrder key heap pos) (hp : pos < heap.length) (hfuel : heap.length ≤ pos + fuel) :
    IsHeap key (siftup key x fuel pos heap) := by
  induction fuel generalizing pos heap with
  | zero => omega
  | succ fuel ih =>
    rw [siftup]
    split
    · rename_i c child hc
      obtain ⟨hget, hpos, hparent, -⟩ := smallerChild_spec hc
      have hlt : c < heap.length := (List.getElem?_eq_some_iff.mp hget).1
      exact ih (o.sink hc) (by rwa [List.length_set]) (by rw [List.length_set]; omega)
    · rename_i hnone
      refine siftdown_isHeap o ?_ hp (Nat.le_refl _)
      intro i a hi hpos ha
      simp [smallerChild_eq_none hnone hi hpos] at ha

theorem isHeap_nil : IsHeap key [] := by
  intro i a p ha
  simp at ha

theorem heappush_isHeap (h : IsHeap key heap) : IsHeap key (heappush key heap x) := by
  have hnochild : ∀ i a, (i - 1) / 2 = heap.length → 0 < i → (heap ++ [x])[i]? = some a → False := by
    intro i a hi hpos ha
    have hlt := (List.getElem?_eq_some_iff.mp ha).1
    rw [List.length_append, List.length_singleton] at hlt
    omega
  refine siftdown_isHeap ⟨?_, ?_⟩ ?_ (by simp) (Nat.le_refl _)
  · intro i a p hi _ ha hp
    have hlt := (List.getElem?_eq_some_iff.mp ha).1
    rw [List.length_append, List.length_singleton] at hlt
    rw [List.getElem?_append_left (by omega)] at ha hp
    exact h i a p ha hp
  · intro i a p _ hi hpos ha
    exact (hnochild i a hpos hi ha).elim
  · intro i a hi hpos ha
    exact (hnochild i a hpos hi ha).elim

theorem heappop_isHeap {rest : List α} (h : IsHeap key heap) (hpop : heappop key heap = some (a, rest)) :
    IsHeap key rest := by
  rw [heappop] at hpop
  split at hpop
  · simp at hpop
  · rename_i lastelt hlast
    split at hpop
    · obtain ⟨-, rfl⟩ : lastelt = a ∧ [] = rest := by simpa using hpop
      exact isHeap_nil
    · rename_i returnitem others hdrop
      obtain ⟨-, rfl⟩ : returnitem = a ∧ siftup key lastelt heap.length 0 (returnitem :: others) = rest := by
        simpa using hpop
      have hlen : (returnitem :: others).length + 1 = heap.length := by
        rw [← hdrop, List.length_dropLast]
        have : heap ≠ [] := by
          rintro rfl
          simp at hlast
        have := List.length_pos_of_ne_nil this
        omega
      have hsub : ∀ (j : Nat) (b : α), (returnitem :: others)[j]? = some b → heap[j]? = some b := by
        intro j b hb
        rw [← hdrop, List.getElem?_dropLast] at hb
        split at hb
        · exact hb
        · simp at hb
      refine siftup_isHeap ⟨?_, ?_⟩ (by simp) (by omega)
      · intro i b p _ _ hb hp
        exact h i b p (hsub _ _ hb) (hsub _ _ hp)
      · intro i b p hpos
        omega

theorem IsHeap.head_le (h : IsHeap key heap) (hhead : heap[0]? = some a) (hx : x ∈ heap) : key a ≤ key x := by
  obtain ⟨i, hi⟩ := List.mem_iff_getElem?.mp hx
  induction i using Nat.strongRecOn generalizing x with
  | ind i ih =>
    by_cases hz : i = 0
    · subst hz
      exact le_of_eq (by rw [Option.some.inj (hhead.symm.trans hi)])
    · have hlt := (List.getElem?_eq_some_iff.mp hi).1
      have hparent : heap[(i - 1) / 2]? = some heap[(i - 1) / 2] := List.getElem?_eq_getElem (by omega)
      exact (ih _ (by omega) (List.getElem_mem _) hparent).trans (h i x _ hi hparent)

theorem heappop_head {rest : List α} (hpop : heappop key heap = some (a, rest)) : heap[0]? = some a := by
  rw [heappop] at hpop
  split at hpop
  · simp at hpop
  · rename_i lastelt hlast
    obtain ⟨init, rfl⟩ := List.getLast?_eq_some_iff.mp hlast
    rw [List.dropLast_concat] at hpop
    split at hpop
    · obtain ⟨rfl, -⟩ : lastelt = a ∧ [] = rest := by simpa using hpop
      rfl
    · rename_i returnitem others
      obtain ⟨rfl, -⟩ : returnitem = a ∧ siftup key lastelt _ 0 (returnitem :: others) = rest := by
        simpa using hpop
      rfl

/-- Keys may change as long as those of the items do not. -/
theorem IsHeap.congr {key' : α → κ} (h : IsHeap key heap) (heq : ∀ x ∈ heap, key' x = key x) : IsHeap key' heap := by
  intro i a p ha hp
  rw [heq a (List.mem_of_getElem? ha), heq p (List.mem_of_getElem? hp)]
  exact h i a p ha hp

end Heapq
