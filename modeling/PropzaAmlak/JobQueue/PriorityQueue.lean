import Mathlib.Data.Finset.Card
import Mathlib.Data.Finset.Option
import PropzaAmlak.Data.Heapq
import PropzaAmlak.Tx.Histories

/-! The priority queue of the job runner: a heap that objects are removed from
by marking them, and that drops marked objects only when they come up. -/

namespace JobQueue

open Heapq

structure PriorityQueue (α : Type) [DecidableEq α] where
  heap : List α
  /-- All objects in the heap, removed ones included. -/
  known : Finset α
  removed : Finset α
  nodup : heap.Nodup
  mem_known : ∀ o, o ∈ known ↔ o ∈ heap
  removed_subset : removed ⊆ known

namespace PriorityQueue

variable {α κ : Type} [DecidableEq α] [LinearOrder κ] {key : α → κ} {q : PriorityQueue α} {o x : α} {fuel : Nat}

def empty : PriorityQueue α := ⟨[], ∅, ∅, List.nodup_nil, by simp, by simp⟩

def len (q : PriorityQueue α) : Nat := q.known.card - q.removed.card

def Contains (q : PriorityQueue α) (o : α) : Prop := o ∈ q.known ∧ o ∉ q.removed

instance : Decidable (q.Contains o) := inferInstanceAs (Decidable (_ ∧ _))

def add (key : α → κ) (q : PriorityQueue α) (o : α) : PriorityQueue α :=
  if h : o ∈ q.known then
    { q with removed := q.removed.erase o, removed_subset := (Finset.erase_subset _ _).trans q.removed_subset }
  else
    { heap := heappush key q.heap o
      known := insert o q.known
      removed := q.removed.erase o
      nodup := heappush_perm.nodup_iff.mpr (List.nodup_cons.mpr ⟨fun ho => h ((q.mem_known o).mpr ho), q.nodup⟩)
      mem_known := fun x => by rw [Finset.mem_insert, q.mem_known, heappush_perm.mem_iff, List.mem_cons]
      removed_subset := ((Finset.erase_subset _ _).trans q.removed_subset).trans (Finset.subset_insert _ _) }

def remove (q : PriorityQueue α) (o : α) : PriorityQueue α :=
  if h : o ∈ q.known then
    { q with removed := insert o q.removed, removed_subset := Finset.insert_subset h q.removed_subset }
  else q

/-- Pops the heap and forgets the object that came off it. -/
def dropHead (key : α → κ) (q : PriorityQueue α) : Option (α × PriorityQueue α) :=
  match h : heappop key q.heap with
  | none => none
  | some (o, rest) =>
    some (o,
      { heap := rest
        known := q.known.erase o
        removed := q.removed.erase o
        nodup := (List.nodup_cons.mp ((heappop_perm h).nodup_iff.mp q.nodup)).2
        mem_known := fun x => by
          have hnodup := (List.nodup_cons.mp ((heappop_perm h).nodup_iff.mp q.nodup)).1
          rw [Finset.mem_erase, q.mem_known, (heappop_perm h).mem_iff, List.mem_cons]
          constructor
          · rintro ⟨hne, rfl | hx⟩
            · exact (hne rfl).elim
            · exact hx
          · intro hx
            refine ⟨?_, Or.inr hx⟩
            rintro rfl
            exact hnodup hx
        removed_subset := Finset.erase_subset_erase _ q.removed_subset })

/-- `q[0]`: the first object that is not removed, with the removed ones before
it dropped on the way. -/
def firstWithin (key : α → κ) : Nat → PriorityQueue α → Option α × PriorityQueue α
  | 0, q => (none, q)
  | fuel + 1, q =>
    match q.heap[0]? with
    | none => (none, q)
    | some o =>
      if o ∈ q.removed then
        match q.dropHead key with
        | none => (none, q)
        | some (_, rest) => firstWithin key fuel rest
      else (some o, q)

def first (key : α → κ) (q : PriorityQueue α) : Option α × PriorityQueue α := firstWithin key q.heap.length q

def popWithin (key : α → κ) : Nat → PriorityQueue α → Option α × PriorityQueue α
  | 0, q => (none, q)
  | fuel + 1, q =>
    match q.dropHead key with
    | none => (none, q)
    | some (o, rest) => if o ∈ q.removed then popWithin key fuel rest else (some o, rest)

def pop (key : α → κ) (q : PriorityQueue α) : Option α × PriorityQueue α := popWithin key q.heap.length q

/-! ### The objects in the queue -/

def live (q : PriorityQueue α) : Finset α := q.known \ q.removed

def Ordered (key : α → κ) (q : PriorityQueue α) : Prop := IsHeap key q.heap

theorem contains_iff : q.Contains o ↔ o ∈ q.live := Finset.mem_sdiff.symm

theorem len_eq : q.len = q.live.card := (Finset.card_sdiff_of_subset q.removed_subset).symm

theorem mem_heap_of_live (ho : o ∈ q.live) : o ∈ q.heap := (q.mem_known o).mp (Finset.mem_sdiff.mp ho).1

theorem live_eq_empty (h : q.heap = []) : q.live = ∅ := by
  refine Finset.eq_empty_of_forall_notMem fun x hx => ?_
  simpa [h] using mem_heap_of_live hx

@[simp] theorem live_empty : (empty : PriorityQueue α).live = ∅ := rfl

theorem ordered_empty : (empty : PriorityQueue α).Ordered key := isHeap_nil

@[simp] theorem live_add : (q.add key o).live = insert o q.live := by
  ext x
  by_cases h : o ∈ q.known
  · by_cases hx : x = o
    · subst hx
      simp [add, h, live]
    · simp [add, h, live, hx]
  · by_cases hx : x = o
    · subst hx
      simp [add, h, live]
    · simp [add, h, live, hx]

theorem mem_heap_add : x ∈ (q.add key o).heap ↔ x = o ∨ x ∈ q.heap := by
  by_cases h : o ∈ q.known
  · simp only [add, h, dite_true]
    refine ⟨Or.inr, ?_⟩
    rintro (rfl | hx)
    · exact (q.mem_known x).mp h
    · exact hx
  · simp only [add, h, dite_false]
    rw [heappush_perm.mem_iff, List.mem_cons]

theorem Ordered.add (h : q.Ordered key) : (q.add key o).Ordered key := by
  by_cases ho : o ∈ q.known
  · simp only [PriorityQueue.add, ho, dite_true]
    exact h
  · simp only [PriorityQueue.add, ho, dite_false]
    exact heappush_isHeap h

@[simp] theorem live_remove : (q.remove o).live = q.live.erase o := by
  ext x
  by_cases h : o ∈ q.known
  · simp only [remove, h, dite_true, live, Finset.mem_sdiff, Finset.mem_insert, Finset.mem_erase]
    tauto
  · simp only [remove, h, dite_false, live, Finset.mem_sdiff, Finset.mem_erase]
    constructor
    · rintro ⟨hk, hr⟩
      refine ⟨?_, hk, hr⟩
      rintro rfl
      exact h hk
    · exact fun hx => hx.2

@[simp] theorem heap_remove : (q.remove o).heap = q.heap := by
  by_cases h : o ∈ q.known <;> simp [remove, h]

theorem Ordered.remove (h : q.Ordered key) : (q.remove o).Ordered key := by
  rwa [Ordered, heap_remove]

theorem dropHead_eq_none : q.dropHead key = none ↔ q.heap = [] := by
  rw [dropHead]
  split
  · rename_i h
    simpa using heappop_eq_none.mp h
  · rename_i o rest h
    have hne : q.heap ≠ [] := by
      intro hnil
      simp [heappop_eq_none.mpr hnil] at h
    simp [hne]

theorem dropHead_some {rest : PriorityQueue α} (h : q.dropHead key = some (o, rest)) :
    q.heap[0]? = some o ∧ q.heap.Perm (o :: rest.heap) ∧ rest.live = q.live.erase o ∧
      (o ∈ q.removed → rest.live = q.live) ∧ (q.Ordered key → rest.Ordered key) := by
  rw [dropHead] at h
  split at h
  · simp at h
  · rename_i o' others hpop
    obtain ⟨rfl, rfl⟩ := Prod.mk.inj (Option.some.inj h)
    refine ⟨heappop_head hpop, heappop_perm hpop, ?_, ?_, fun hord => heappop_isHeap hord hpop⟩
    · ext x
      simp only [live, Finset.mem_sdiff, Finset.mem_erase]
      tauto
    · intro hr
      ext x
      by_cases hx : x = o'
      · subst hx
        simp [live, hr]
      · simp [live, hx]

theorem Ordered.head_le (h : q.Ordered key) (hhead : q.heap[0]? = some o) (hx : x ∈ q.live) : key o ≤ key x :=
  IsHeap.head_le h hhead (mem_heap_of_live hx)

theorem firstWithin_spec (hfuel : q.heap.length ≤ fuel) :
    (firstWithin key fuel q).2.live = q.live ∧ (firstWithin key fuel q).2.heap ⊆ q.heap ∧
      (q.Ordered key → (firstWithin key fuel q).2.Ordered key) ∧
      (∀ o, (firstWithin key fuel q).1 = some o → o ∈ q.live ∧ (q.Ordered key → ∀ x ∈ q.live, key o ≤ key x)) ∧
      ((firstWithin key fuel q).1 = none → q.live = ∅) := by
  induction fuel generalizing q with
  | zero =>
    have hheap : q.heap = [] := List.length_eq_zero_iff.mp (by omega)
    exact ⟨rfl, List.Subset.refl _, id, by simp [firstWithin], fun _ => live_eq_empty hheap⟩
  | succ fuel ih =>
    rw [firstWithin]
    split
    · rename_i hhead
      have hheap : q.heap = [] := by simpa using hhead
      exact ⟨rfl, List.Subset.refl _, id, by simp, fun _ => live_eq_empty hheap⟩
    · rename_i o hhead
      split
      · rename_i hr
        split
        · rename_i hdrop
          have hheap := dropHead_eq_none.mp hdrop
          exact ⟨rfl, List.Subset.refl _, id, by simp, fun _ => live_eq_empty hheap⟩
        · rename_i o' rest hdrop
          obtain ⟨hhead', hperm, -, hlive, hord⟩ := dropHead_some hdrop
          obtain rfl : o = o' := Option.some.inj (hhead.symm.trans hhead')
          have hlen := hperm.length_eq
          rw [List.length_cons] at hlen
          obtain ⟨h1, h2, h3, h4, h5⟩ := ih (q := rest) (by omega)
          rw [hlive hr] at h1 h4 h5
          refine ⟨h1, ?_, fun h => h3 (hord h), fun x hx => ?_, h5⟩
          · exact fun x hx => hperm.mem_iff.mpr (List.mem_cons_of_mem _ (h2 hx))
          · exact ⟨(h4 x hx).1, fun h => (h4 x hx).2 (hord h)⟩
      · rename_i hr
        refine ⟨rfl, List.Subset.refl _, id, ?_, by simp⟩
        rintro x ⟨rfl⟩
        have hmem : o ∈ q.heap := List.mem_of_getElem? hhead
        exact ⟨Finset.mem_sdiff.mpr ⟨(q.mem_known o).mpr hmem, hr⟩, fun h x hx => h.head_le hhead hx⟩

@[simp] theorem live_first (key : α → κ) (q : PriorityQueue α) : (q.first key).2.live = q.live :=
    (firstWithin_spec (Nat.le_refl _)).1

theorem heap_first_subset (key : α → κ) (q : PriorityQueue α) : (q.first key).2.heap ⊆ q.heap :=
    (firstWithin_spec (Nat.le_refl _)).2.1

theorem Ordered.first (h : q.Ordered key) : (q.first key).2.Ordered key :=
  (firstWithin_spec (Nat.le_refl _)).2.2.1 h

theorem first_mem (h : (q.first key).1 = some o) : o ∈ q.live :=
  ((firstWithin_spec (Nat.le_refl _)).2.2.2.1 o h).1

theorem Ordered.first_le (hord : q.Ordered key) (h : (q.first key).1 = some o) (hx : x ∈ q.live) : key o ≤ key x :=
  ((firstWithin_spec (Nat.le_refl _)).2.2.2.1 o h).2 hord x hx

theorem first_eq_none : (q.first key).1 = none ↔ q.live = ∅ := by
  refine ⟨(firstWithin_spec (Nat.le_refl _)).2.2.2.2, fun h => ?_⟩
  cases hfirst : (q.first key).1 with
  | none => rfl
  | some o =>
    have ho := first_mem hfirst
    simp [h] at ho

theorem popWithin_spec (hfuel : q.heap.length ≤ fuel) :
    (popWithin key fuel q).2.heap ⊆ q.heap ∧ (q.Ordered key → (popWithin key fuel q).2.Ordered key) ∧
      (∀ o, (popWithin key fuel q).1 = some o → o ∈ q.live ∧ (popWithin key fuel q).2.live = q.live.erase o ∧
        o ∉ (popWithin key fuel q).2.heap ∧ (q.Ordered key → ∀ x ∈ q.live, key o ≤ key x)) ∧
      ((popWithin key fuel q).1 = none → q.live = ∅ ∧ (popWithin key fuel q).2.live = ∅) := by
  induction fuel generalizing q with
  | zero =>
    have hlive := live_eq_empty (q := q) (List.length_eq_zero_iff.mp (by omega))
    exact ⟨List.Subset.refl _, id, by simp [popWithin], fun _ => ⟨hlive, hlive⟩⟩
  | succ fuel ih =>
    rw [popWithin]
    split
    · rename_i hdrop
      have hlive := live_eq_empty (dropHead_eq_none.mp hdrop)
      exact ⟨List.Subset.refl _, id, by simp, fun _ => ⟨hlive, hlive⟩⟩
    · rename_i o rest hdrop
      obtain ⟨hhead, hperm, herase, hlive, hord⟩ := dropHead_some hdrop
      have hlen := hperm.length_eq
      rw [List.length_cons] at hlen
      have hsub : rest.heap ⊆ q.heap := fun x hx => hperm.mem_iff.mpr (List.mem_cons_of_mem _ hx)
      split
      · rename_i hr
        obtain ⟨h1, h2, h3, h4⟩ := ih (q := rest) (by omega)
        rw [hlive hr] at h3 h4
        refine ⟨List.Subset.trans h1 hsub, fun h => h2 (hord h), fun x hx => ?_, h4⟩
        obtain ⟨hx1, hx2, hx3, hx4⟩ := h3 x hx
        exact ⟨hx1, hx2, hx3, fun h => hx4 (hord h)⟩
      · rename_i hr
        refine ⟨hsub, hord, ?_, by simp⟩
        rintro x ⟨rfl⟩
        have hmem : o ∈ q.heap := List.mem_of_getElem? hhead
        have hnot : o ∉ rest.heap := (List.nodup_cons.mp (hperm.nodup_iff.mp q.nodup)).1
        exact ⟨Finset.mem_sdiff.mpr ⟨(q.mem_known o).mpr hmem, hr⟩, herase, hnot, fun h x hx => h.head_le hhead hx⟩

theorem heap_pop_subset (key : α → κ) (q : PriorityQueue α) : (q.pop key).2.heap ⊆ q.heap :=
    (popWithin_spec (Nat.le_refl _)).1

theorem Ordered.pop (h : q.Ordered key) : (q.pop key).2.Ordered key := (popWithin_spec (Nat.le_refl _)).2.1 h

theorem pop_mem (h : (q.pop key).1 = some o) : o ∈ q.live := ((popWithin_spec (Nat.le_refl _)).2.2.1 o h).1

theorem live_pop (h : (q.pop key).1 = some o) : (q.pop key).2.live = q.live.erase o :=
  ((popWithin_spec (Nat.le_refl _)).2.2.1 o h).2.1

theorem notMem_heap_pop (h : (q.pop key).1 = some o) : o ∉ (q.pop key).2.heap :=
  ((popWithin_spec (Nat.le_refl _)).2.2.1 o h).2.2.1

theorem Ordered.pop_le (hord : q.Ordered key) (h : (q.pop key).1 = some o) (hx : x ∈ q.live) : key o ≤ key x :=
  ((popWithin_spec (Nat.le_refl _)).2.2.1 o h).2.2.2 hord x hx

theorem pop_eq_none : (q.pop key).1 = none ↔ q.live = ∅ := by
  refine ⟨fun h => ((popWithin_spec (Nat.le_refl _)).2.2.2 h).1, fun h => ?_⟩
  cases hpop : (q.pop key).1 with
  | none => rfl
  | some o =>
    have ho := pop_mem hpop
    simp [h] at ho

theorem live_pop_of_none (h : (q.pop key).1 = none) : (q.pop key).2.live = ∅ :=
  ((popWithin_spec (Nat.le_refl _)).2.2.2 h).2

theorem Ordered.congr {key' : α → κ} (h : q.Ordered key) (heq : ∀ x ∈ q.heap, key' x = key x) : q.Ordered key' :=
  IsHeap.congr h heq

/-! ### A queue over its whole life -/

inductive Call (α : Type) where
  | add (o : α)
  | remove (o : α)
  | first
  | pop

/-- What a call returns, and the queue after it. -/
def call (key : α → κ) (q : PriorityQueue α) : Call α → Option α × PriorityQueue α
  | .add o => (none, q.add key o)
  | .remove o => (none, q.remove o)
  | .first => q.first key
  | .pop => q.pop key

/-- A least member of the set, and none only of the empty set. -/
def Least (key : α → κ) (s : Finset α) : Option α → Prop
  | none => s = ∅
  | some o => o ∈ s ∧ ∀ x ∈ s, key o ≤ key x

/-- The same calls of a set whose members have keys. -/
def SetCall (key : α → κ) (s : Finset α) : Call α → Option α → Finset α → Prop
  | .add o, result, s' => result = none ∧ s' = insert o s
  | .remove o, result, s' => result = none ∧ s' = s.erase o
  | .first, result, s' => Least key s result ∧ s' = s
  | .pop, result, s' => Least key s result ∧ s' = s \ result.toFinset

theorem Ordered.least_first (h : q.Ordered key) : Least key q.live (q.first key).1 := by
  cases hfirst : (q.first key).1 with
  | none => exact first_eq_none.mp hfirst
  | some o => exact ⟨first_mem hfirst, fun x hx => h.first_le hfirst hx⟩

theorem Ordered.least_pop (h : q.Ordered key) : Least key q.live (q.pop key).1 := by
  cases hpop : (q.pop key).1 with
  | none => exact pop_eq_none.mp hpop
  | some o => exact ⟨pop_mem hpop, fun x hx => h.pop_le hpop hx⟩

theorem Ordered.call (h : q.Ordered key) (c : Call α) :
    SetCall key q.live c (q.call key c).1 (q.call key c).2.live ∧ (q.call key c).2.Ordered key := by
  cases c with
  | add o => exact ⟨⟨rfl, live_add⟩, h.add⟩
  | remove o => exact ⟨⟨rfl, live_remove⟩, h.remove⟩
  | first => exact ⟨⟨h.least_first, live_first key q⟩, h.first⟩
  | pop =>
    refine ⟨⟨h.least_pop, ?_⟩, h.pop⟩
    cases hpop : (q.pop key).1 with
    | none =>
      rw [PriorityQueue.call, live_pop_of_none hpop, pop_eq_none.mp hpop, Finset.empty_sdiff]
    | some o => rw [PriorityQueue.call, live_pop hpop, hpop, Option.toFinset_some, Finset.sdiff_singleton_eq_erase]

/-- From an empty queue on, the queue answers every call as the set of its objects
does, however often objects are added twice or removed while they are buried in
the heap. -/
theorem queue_refines_set (calls : List (Call α)) :
    Tx.EachStep (fun q c => (PriorityQueue.call key q c).2)
      (fun q c => SetCall key q.live c (q.call key c).1 (q.call key c).2.live ∧ q.len = q.live.card ∧
        ∀ o, q.Contains o ↔ o ∈ q.live) empty calls := by
  have hordered : Tx.Always (fun q c => (PriorityQueue.call key q c).2) (Ordered key) empty calls :=
    Tx.always_of_step ordered_empty fun q c h => (h.call c).2
  intro before c hbefore
  have hq := hordered before ((List.prefix_append before [c]).trans hbefore)
  exact ⟨(hq.call c).1, len_eq, fun o => contains_iff⟩

end PriorityQueue

end JobQueue
