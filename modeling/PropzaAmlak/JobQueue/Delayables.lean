import PropzaAmlak.JobQueue.Graph
import Mathlib.Data.List.Chain

/-! Delayables, chains and groups of them, and the graph of jobs that they make. -/

namespace JobQueue

/-- What an object is. Others are named by their numbers. -/
inductive Kind where
  | delayable
  | chain (first : Nat) (rest : List Nat)
  | group (members : List Nat)
deriving DecidableEq

namespace Kind

def parts : Kind → List Nat
  | .delayable => []
  | .chain first rest => first :: rest
  | .group members => members

/-- The graph that an object is made with. -/
def graph (r : Nat) : Kind → Graph Nat
  | .delayable => Graph.empty.addVertex r
  | .chain first rest => (Graph.empty.addVertex first).addEdges ((first :: rest).zip rest)
  | .group members => members.foldl (fun g v => g.addVertex v) Graph.empty

/-- What `on_done` connects to others. -/
def connected (r : Nat) : Kind → List Nat
  | .delayable => [r]
  | .chain first rest => [rest.getLastD first]
  | .group members => members

variable {r first v : Nat} {rest members : List Nat} {k : Kind}

theorem mem_of_mem_zip (first : Nat) (rest : List Nat) {a b : Nat} (h : (a, b) ∈ (first :: rest).zip rest) :
    a ∈ first :: rest ∧ b ∈ first :: rest :=
  ⟨(List.of_mem_zip h).1, List.mem_cons_of_mem _ (List.of_mem_zip h).2⟩

theorem exists_mem_zip (first : Nat) (h : v ∈ rest) : ∃ a, (a, v) ∈ (first :: rest).zip rest := by
  induction rest generalizing first with
  | nil => cases h
  | cons n rest ih =>
    rcases List.mem_cons.mp h with rfl | h
    · exact ⟨first, List.mem_cons_self⟩
    · exact (ih n h).imp fun a ha => List.mem_cons_of_mem _ ha

theorem mem_graph : v ∈ (k.graph r).vertices ↔ v ∈ k.parts ∨ k = .delayable ∧ v = r := by
  cases k with
  | delayable => simp [graph, parts, Graph.mem_addVertex, Graph.empty]
  | chain first rest =>
    rw [graph, Graph.mem_addEdges, Graph.mem_addVertex]
    simp only [parts, reduceCtorEq, false_and, or_false]
    constructor
    · rintro ((hv | rfl) | ⟨⟨a, b⟩, hedge, rfl | rfl⟩)
      · cases hv
      · exact List.mem_cons_self
      · exact (mem_of_mem_zip first rest hedge).2
      · exact (mem_of_mem_zip first rest hedge).1
    · intro hv
      rcases List.mem_cons.mp hv with rfl | hv
      · exact Or.inl (Or.inr rfl)
      · obtain ⟨a, ha⟩ := exists_mem_zip first hv
        exact Or.inr ⟨(a, v), ha, Or.inl rfl⟩
  | group members =>
    have hstep : ∀ (g : Graph Nat) (x : Nat), v ∈ (g.addVertex x).vertices ↔ v ∈ g.vertices ∨ v = x :=
      fun _ _ => Graph.mem_addVertex
    rw [graph, Worklist.foldl_iff (fun g : Graph Nat => v ∈ g.vertices) _ hstep members]
    simp [parts, Graph.empty]

theorem isChain_zip (first : Nat) (rest : List Nat) :
    (first :: rest).IsChain fun a b => (a, b) ∈ (first :: rest).zip rest := by
  induction rest generalizing first with
  | nil => exact List.isChain_singleton first
  | cons n rest ih =>
    refine List.isChain_cons_cons.mpr ⟨by simp, (ih n).imp fun a b hab => ?_⟩
    exact List.mem_cons_of_mem _ hab

theorem connected_mem (h : v ∈ k.connected r) : v ∈ (k.graph r).vertices := by
  rw [mem_graph]
  cases k with
  | delayable => exact Or.inr ⟨rfl, List.mem_singleton.mp h⟩
  | chain first rest =>
    obtain rfl := List.mem_singleton.mp h
    exact Or.inl List.getLastD_mem_cons
  | group members => exact Or.inl h

end Kind

/-- The objects made so far, numbered in the order they were made in. Each has a graph. -/
structure Delayables where
  size : Nat
  kind : Nat → Kind
  graph : Nat → Graph Nat
  older : ∀ r, ∀ p ∈ (kind r).parts, p < r
  within : ∀ r, ∀ v ∈ (graph r).vertices, v < size
  own : ∀ r < size, ∀ v ∈ ((kind r).graph r).vertices, v ∈ (graph r).vertices
  edges : ∀ r < size, ∀ a b, ((kind r).graph r).Edge a b → (graph r).Edge a b
  blank : ∀ r, size ≤ r → kind r = .delayable

namespace Delayables

/-- The next object is made. -/
def add (h : Delayables) (k : Kind) (hk : ∀ p ∈ k.parts, p < h.size) : Delayables where
  size := h.size + 1
  kind := Function.update h.kind h.size k
  graph := Function.update h.graph h.size (k.graph h.size)
  older := by
    intro r p hp
    by_cases hr : r = h.size
    · subst hr
      rw [Function.update_self] at hp
      exact hk p hp
    · rw [Function.update_of_ne hr] at hp
      exact h.older r p hp
  within := by
    intro r v hv
    by_cases hr : r = h.size
    · subst hr
      rw [Function.update_self] at hv
      rcases Kind.mem_graph.mp hv with hv | ⟨-, rfl⟩
      · exact Nat.lt_succ_of_lt (hk v hv)
      · exact Nat.lt_succ_self _
    · rw [Function.update_of_ne hr] at hv
      exact Nat.lt_succ_of_lt (h.within r v hv)
  own := by
    intro r hr v hv
    by_cases hne : r = h.size
    · subst hne
      rw [Function.update_self] at hv ⊢
      exact hv
    · rw [Function.update_of_ne hne] at hv ⊢
      exact h.own r (by omega) v hv
  edges := by
    intro r hr a b hab
    by_cases hne : r = h.size
    · subst hne
      rw [Function.update_self] at hab ⊢
      exact hab
    · rw [Function.update_of_ne hne] at hab ⊢
      exact h.edges r (by omega) a b hab
  blank := by
    intro r hr
    rw [Function.update_of_ne (by omega)]
    exact h.blank r (by omega)

def onDone (h : Delayables) (r : Nat) (children : List Nat) (hr : r < h.size) (hc : ∀ c ∈ children, c < h.size) :
    Delayables where
  size := h.size
  kind := h.kind
  graph := Function.update h.graph r ((h.graph r).addEdges ((h.kind r).connected r ×ˢ children))
  older := h.older
  within := by
    intro x v hv
    by_cases hx : x = r
    · subst hx
      rw [Function.update_self, Graph.mem_addEdges] at hv
      rcases hv with hv | ⟨⟨a, b⟩, hab, rfl | rfl⟩
      · exact h.within x v hv
      · exact hc _ (List.mem_product.mp hab).2
      · exact h.within x _ (h.own x hr _ (Kind.connected_mem (List.mem_product.mp hab).1))
    · rw [Function.update_of_ne hx] at hv
      exact h.within x v hv
  own := by
    intro x hx v hv
    have hold := h.own x hx v hv
    by_cases hne : x = r
    · subst hne
      rw [Function.update_self, Graph.mem_addEdges]
      exact Or.inl hold
    · rwa [Function.update_of_ne hne]
  edges := by
    intro x hx a b hab
    have hold := h.edges x hx a b hab
    by_cases hne : x = r
    · subst hne
      rw [Function.update_self, Graph.edge_addEdges]
      exact Or.inl hold
    · rwa [Function.update_of_ne hne]
  blank := h.blank

def empty : Delayables where
  size := 0
  kind := fun _ => .delayable
  graph := fun _ => Graph.empty
  older := fun _ _ hp => by cases hp
  within := fun _ _ hv => by cases hv
  own := fun _ hr => by cases hr
  edges := fun _ hr => by cases hr
  blank := fun _ _ => rfl

inductive Call where
  | make (k : Kind)
  | onDone (r : Nat) (children : List Nat)

/-- What names objects that have not been made changes nothing. -/
def call (h : Delayables) : Call → Delayables
  | .make k => if hk : ∀ p ∈ k.parts, p < h.size then h.add k hk else h
  | .onDone r children =>
    if hr : r < h.size ∧ ∀ c ∈ children, c < h.size then h.onDone r children hr.1 hr.2 else h

end Delayables

end JobQueue
