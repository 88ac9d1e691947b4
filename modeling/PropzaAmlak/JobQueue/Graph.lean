import Mathlib.Data.Finset.Card
import Mathlib.Data.List.Perm.Basic
import Mathlib.Logic.Function.Basic
import PropzaAmlak.Data.Worklist

/-! Graphs of jobs that are delayed together, and the order to execute them in. -/

namespace JobQueue

/-- A dict of sets. The sets are iterated in some order. -/
structure Graph (α : Type) where
  vertices : List α
  children : α → List α
  nodup : vertices.Nodup
  nodup_children : ∀ v, (children v).Nodup
  closed : ∀ v, ∀ c ∈ children v, v ∈ vertices ∧ c ∈ vertices

namespace Graph

variable {α : Type} [DecidableEq α] {g : Graph α} {v n p : α} {nodes done queue roots : List α} {counts : α → Int}

def Edge (g : Graph α) (p n : α) : Prop := n ∈ g.children p

instance (g : Graph α) (p n : α) : Decidable (g.Edge p n) := inferInstanceAs (Decidable (n ∈ g.children p))

def empty : Graph α := ⟨[], fun _ => [], List.nodup_nil, fun _ => List.nodup_nil, fun _ _ hc => by cases hc⟩

def addVertex (v : α) (g : Graph α) : Graph α where
  vertices := if v ∈ g.vertices then g.vertices else g.vertices ++ [v]
  children := g.children
  nodup := by
    split
    · exact g.nodup
    · rename_i h
      exact List.nodup_append.mpr ⟨g.nodup, List.nodup_singleton v, fun x hx y hy hxy =>
        h (List.mem_singleton.mp hy ▸ hxy ▸ hx)⟩
  nodup_children := g.nodup_children
  closed := by
    intro x c hc
    obtain ⟨hx, hc⟩ := g.closed x c hc
    split
    · exact ⟨hx, hc⟩
    · exact ⟨List.mem_append_left _ hx, List.mem_append_left _ hc⟩

theorem mem_addVertex {x : α} : x ∈ (g.addVertex v).vertices ↔ x ∈ g.vertices ∨ x = v := by
  rw [addVertex]
  dsimp only
  split
  · rename_i h
    constructor
    · exact Or.inl
    · rintro (hx | rfl)
      · exact hx
      · exact h
  · rw [List.mem_append, List.mem_singleton]

def addEdge (p n : α) (g : Graph α) : Graph α where
  vertices := ((g.addVertex n).addVertex p).vertices
  children := Function.update g.children p (if n ∈ g.children p then g.children p else g.children p ++ [n])
  nodup := ((g.addVertex n).addVertex p).nodup
  nodup_children := by
    intro v
    by_cases hv : v = p
    · subst hv
      rw [Function.update_self]
      split
      · exact g.nodup_children v
      · rename_i h
        exact List.nodup_append.mpr ⟨g.nodup_children v, List.nodup_singleton n, fun x hx y hy hxy =>
          h (List.mem_singleton.mp hy ▸ hxy ▸ hx)⟩
    · rw [Function.update_of_ne hv]
      exact g.nodup_children v
  closed := by
    intro v c hc
    have hold : ∀ x, x ∈ g.vertices → x ∈ ((g.addVertex n).addVertex p).vertices := fun x hx =>
      mem_addVertex.mpr (Or.inl (mem_addVertex.mpr (Or.inl hx)))
    have hchild : ∀ x ∈ g.children v, v ∈ ((g.addVertex n).addVertex p).vertices ∧
        x ∈ ((g.addVertex n).addVertex p).vertices := fun x hx =>
      ⟨hold v (g.closed v x hx).1, hold x (g.closed v x hx).2⟩
    by_cases hv : v = p
    · subst hv
      have hnew : n ∈ ((g.addVertex n).addVertex v).vertices :=
        mem_addVertex.mpr (Or.inl (mem_addVertex.mpr (Or.inr rfl)))
      rw [Function.update_self] at hc
      split at hc
      · exact hchild c hc
      · rcases List.mem_append.mp hc with hc | hc
        · exact hchild c hc
        · exact ⟨mem_addVertex.mpr (Or.inr rfl), List.mem_singleton.mp hc ▸ hnew⟩
    · rw [Function.update_of_ne hv] at hc
      exact hchild c hc

theorem mem_addEdge {x : α} : x ∈ (g.addEdge p n).vertices ↔ x ∈ g.vertices ∨ x = n ∨ x = p := by
  rw [← or_assoc, ← mem_addVertex, ← mem_addVertex]
  rfl

theorem edge_addEdge {a b : α} : (g.addEdge p n).Edge a b ↔ g.Edge a b ∨ (a, b) = (p, n) := by
  rw [Edge, addEdge, Prod.mk.injEq]
  dsimp only
  by_cases ha : a = p
  · subst ha
    rw [Function.update_self]
    split
    · rename_i hn
      exact ⟨Or.inl, fun h => h.elim id fun h => h.2 ▸ hn⟩
    · rw [List.mem_append, List.mem_singleton, Edge, eq_self, true_and]
  · rw [Function.update_of_ne ha, Edge]
    simp [ha]

def addEdges (edges : List (α × α)) (g : Graph α) : Graph α := edges.foldl (fun g edge => g.addEdge edge.1 edge.2) g

theorem mem_addEdges {edges : List (α × α)} {x : α} :
    x ∈ (g.addEdges edges).vertices ↔ x ∈ g.vertices ∨ ∃ edge ∈ edges, x = edge.2 ∨ x = edge.1 := by
  have hstep : ∀ (g : Graph α) (edge : α × α), x ∈ (g.addEdge edge.1 edge.2).vertices ↔
      x ∈ g.vertices ∨ (x = edge.2 ∨ x = edge.1) := fun _ _ => mem_addEdge
  exact Worklist.foldl_iff (fun g : Graph α => x ∈ g.vertices) _ hstep edges g

theorem edge_addEdges {edges : List (α × α)} {a b : α} :
    (g.addEdges edges).Edge a b ↔ g.Edge a b ∨ (a, b) ∈ edges := by
  have hstep : ∀ (g : Graph α) (edge : α × α), (g.addEdge edge.1 edge.2).Edge a b ↔ g.Edge a b ∨ (a, b) = edge :=
    fun _ _ => edge_addEdge
  rw [addEdges, Worklist.foldl_iff (fun g : Graph α => g.Edge a b) _ hstep edges g]
  simp

def edges (g : Graph α) : List (α × α) := g.vertices.flatMap fun v => (g.children v).map fun n => (v, n)

/-- A set, iterated in some order. -/
def rootVertices (g : Graph α) : List α := g.vertices.filter fun v => ∀ p ∈ g.vertices, v ∉ g.children p

/-! ### topological_sort -/

def dependsPerNode (g : Graph α) : α → Int :=
  g.edges.foldl (fun counts edge => Function.update counts edge.2 (counts edge.2 + 1)) fun _ => 0

/-- One edge less for each of the nodes, and those that have none left. -/
def resolve : List α → (α → Int) → (α → Int) × List α
  | [], counts => (counts, [])
  | node :: nodes, counts =>
    let counts := Function.update counts node (counts node - 1)
    let rest := resolve nodes counts
    (rest.1, if counts node = 0 then node :: rest.2 else rest.2)

def sortWithin (g : Graph α) : Nat → List α → (α → Int) → Option (List α)
  | _, [], _ => some []
  | 0, _ :: _, _ => none
  | fuel + 1, v :: queue, counts =>
    let resolved := resolve (g.children v) counts
    (sortWithin g fuel (queue ++ resolved.2) resolved.1).map (v :: ·)

/-- From the root vertices in the order they are iterated in. -/
def topologicalSort (g : Graph α) (roots : List α) : Option (List α) :=
  sortWithin g g.vertices.length roots g.dependsPerNode

/-! ### The edges that are left -/

/-- The parents of `n` that are not done. -/
def parentsLeft (g : Graph α) (done : List α) (n : α) : Finset α :=
  g.vertices.toFinset.filter fun p => g.Edge p n ∧ p ∉ done

theorem mem_parentsLeft : p ∈ g.parentsLeft done n ↔ g.Edge p n ∧ p ∉ done := by
  rw [parentsLeft, Finset.mem_filter, List.mem_toFinset, and_iff_right_of_imp]
  exact fun h => (g.closed p n h.1).1

theorem parentsLeft_concat : g.parentsLeft (done ++ [v]) n = (g.parentsLeft done n).erase v := by
  ext p
  simp only [mem_parentsLeft, Finset.mem_erase, List.mem_append, List.mem_singleton, not_or]
  tauto

theorem card_parentsLeft_concat (hv : v ∉ done) :
    ((g.parentsLeft (done ++ [v]) n).card : Int) = (g.parentsLeft done n).card - if n ∈ g.children v then 1 else 0 := by
  rw [parentsLeft_concat]
  split
  · rename_i hn
    have hmem : v ∈ g.parentsLeft done n := mem_parentsLeft.mpr ⟨hn, hv⟩
    have hpos := Finset.card_pos.mpr ⟨v, hmem⟩
    rw [Finset.card_erase_of_mem hmem]
    omega
  · rename_i hn
    rw [Finset.erase_eq_of_notMem fun hmem => hn (mem_parentsLeft.mp hmem).1]
    omega

theorem foldl_edges (edges : List (α × α)) (counts : α → Int) (n : α) :
    edges.foldl (fun counts edge => Function.update counts edge.2 (counts edge.2 + 1)) counts n =
      counts n + (edges.map Prod.snd).count n := by
  induction edges generalizing counts with
  | nil => simp
  | cons edge edges ih =>
    rw [List.foldl_cons, ih, List.map_cons, List.count_cons]
    by_cases h : n = edge.2
    · subst h
      rw [Function.update_self]
      simp
      omega
    · rw [Function.update_of_ne h]
      have hne : (edge.2 == n) = false := by simpa using Ne.symm h
      simp [hne]

theorem count_edges (vertices : List α) (hnodup : vertices.Nodup) :
    ((vertices.flatMap fun v => (g.children v).map fun n => (v, n)).map Prod.snd).count n =
      (vertices.toFinset.filter fun p => g.Edge p n).card := by
  induction vertices with
  | nil => rfl
  | cons v vertices ih =>
    rw [List.nodup_cons] at hnodup
    have hchildren : ((g.children v).map fun n => (v, n)).map Prod.snd = g.children v := by
      rw [List.map_map]
      exact List.map_id _
    rw [List.flatMap_cons, List.map_append, List.count_append, ih hnodup.2, hchildren, List.toFinset_cons,
      Finset.filter_insert]
    by_cases hn : g.Edge v n
    · rw [if_pos hn, Finset.card_insert_of_notMem (by simp [hnodup.1]),
        List.count_eq_one_of_mem (g.nodup_children v) hn, Nat.add_comm]
    · rw [if_neg hn, List.count_eq_zero_of_not_mem hn, Nat.zero_add]

theorem dependsPerNode_eq : g.dependsPerNode n = (g.parentsLeft [] n).card := by
  rw [dependsPerNode, foldl_edges, edges, count_edges g.vertices g.nodup, Int.zero_add]
  congr 2
  ext p
  simp [parentsLeft]

/-! ### One vertex is yielded -/

theorem resolve_spec (counts : α → Int) (hnodup : nodes.Nodup) :
    (∀ n, (resolve nodes counts).1 n = counts n - if n ∈ nodes then 1 else 0) ∧
      (resolve nodes counts).2 = nodes.filter fun n => counts n = 1 := by
  induction nodes generalizing counts with
  | nil => simp [resolve]
  | cons node nodes ih =>
    obtain ⟨hnot, hnodup⟩ := List.nodup_cons.mp hnodup
    obtain ⟨hcounts, hready⟩ := ih (Function.update counts node (counts node - 1)) hnodup
    have hne : ∀ n ∈ nodes, n ≠ node := fun n hn heq => hnot (heq ▸ hn)
    refine ⟨fun n => ?_, ?_⟩
    · rw [resolve, hcounts]
      by_cases hn : n = node
      · subst hn
        rw [Function.update_self, if_neg hnot, if_pos List.mem_cons_self, Int.sub_zero]
      · rw [Function.update_of_ne hn]
        simp [hn]
    · have hrest : (nodes.filter fun n => Function.update counts node (counts node - 1) n = 1) =
          nodes.filter fun n => counts n = 1 :=
        List.filter_congr fun n hn => by rw [Function.update_of_ne (hne n hn)]
      rw [resolve]
      dsimp only
      rw [hready, hrest, Function.update_self, List.filter_cons]
      by_cases hone : counts node = 1
      · simp [hone]
      · have hzero : counts node - 1 ≠ 0 := by omega
        simp [hone, hzero]

/-- Where the loop is: what is yielded, and what has all its parents yielded and waits
in the queue. -/
structure Sorting (g : Graph α) (done queue : List α) (counts : α → Int) : Prop where
  nodup : (done ++ queue).Nodup
  mem : ∀ v ∈ done ++ queue, v ∈ g.vertices
  counts : ∀ n, counts n = (g.parentsLeft done n).card
  ready : ∀ n ∈ g.vertices, n ∈ done ++ queue ↔ g.parentsLeft done n = ∅
  parents_first : ∀ l v r, done = l ++ v :: r → ∀ p, g.Edge p v → p ∈ l

theorem Sorting.yield (h : Sorting g done (v :: queue) counts) :
    Sorting g (done ++ [v]) (queue ++ (resolve (g.children v) counts).2) (resolve (g.children v) counts).1 := by
  obtain ⟨hcounts, hready⟩ := resolve_spec counts (g.nodup_children v)
  have hvmem : v ∈ done ++ v :: queue := by simp
  have hv : v ∉ done := by
    intro hc
    exact (List.nodup_append.mp h.nodup).2.2 v hc v List.mem_cons_self rfl
  have hleft : ∀ n, ((g.parentsLeft (done ++ [v]) n).card : Int) = counts n - if n ∈ g.children v then 1 else 0 := by
    intro n
    rw [card_parentsLeft_concat hv, h.counts]
  have hempty : ∀ l n, (g.parentsLeft l n).card = 0 ↔ g.parentsLeft l n = ∅ := fun l n => Finset.card_eq_zero
  -- what the loop over the children adds was not in the queue before
  have hadded : ∀ n, n ∈ (resolve (g.children v) counts).2 ↔ n ∈ g.children v ∧ counts n = 1 := by
    intro n
    rw [hready, List.mem_filter, decide_eq_true_eq]
  have hnew : ∀ n ∈ (resolve (g.children v) counts).2, n ∉ done ++ v :: queue := by
    intro n hn hold
    obtain ⟨hchild, hone⟩ := (hadded n).mp hn
    have hzero := (h.ready n (g.closed v n hchild).2).mp hold
    rw [h.counts, hzero] at hone
    simp at hone
  have hassoc : done ++ [v] ++ (queue ++ (resolve (g.children v) counts).2) =
      done ++ v :: queue ++ (resolve (g.children v) counts).2 := by simp
  refine ⟨?_, fun n hn => ?_, fun n => ?_, fun n hn => ?_, fun l x r hsplit p hp => ?_⟩
  · rw [hassoc, List.nodup_append]
    refine ⟨h.nodup, ?_, fun x hx y hy hxy => hnew y hy (hxy ▸ hx)⟩
    rw [hready]
    exact (g.nodup_children v).filter _
  · rw [hassoc] at hn
    rcases List.mem_append.mp hn with hn | hn
    · exact h.mem n hn
    · exact (g.closed v n ((hadded n).mp hn).1).2
  · rw [hcounts, hleft]
  · rw [hassoc, List.mem_append, ← hempty]
    have hcard := hleft n
    constructor
    · rintro (hold | hn)
      · rw [parentsLeft_concat, (h.ready n hn).mp hold]
        rfl
      · obtain ⟨hchild, hone⟩ := (hadded n).mp hn
        rw [if_pos hchild, hone] at hcard
        omega
    · intro hzero
      by_cases hchild : n ∈ g.children v
      · rw [if_pos hchild, hzero] at hcard
        exact Or.inr ((hadded n).mpr ⟨hchild, by omega⟩)
      · rw [if_neg hchild, hzero, h.counts] at hcard
        exact Or.inl ((h.ready n hn).mpr ((hempty _ n).mp (by omega)))
  · rcases List.eq_nil_or_concat r with rfl | ⟨r, y, rfl⟩
    · obtain ⟨rfl, hx⟩ := List.append_inj' hsplit rfl
      obtain rfl := List.head_eq_of_cons_eq hx
      by_contra hnot
      have hpleft : p ∈ g.parentsLeft done v := mem_parentsLeft.mpr ⟨hp, hnot⟩
      rw [(h.ready v (h.mem v hvmem)).mp hvmem] at hpleft
      exact Finset.notMem_empty p hpleft
    · have hinner : done ++ [v] = (l ++ x :: r) ++ [y] := by rw [hsplit]; simp
      obtain ⟨hdone, -⟩ := List.append_inj' hinner rfl
      exact h.parents_first l x r hdone p hp

theorem Sorting.length_le (h : Sorting g done queue counts) : done.length + queue.length ≤ g.vertices.length := by
  rw [← List.length_append]
  exact (h.nodup.subperm h.mem).length_le

theorem Sorting.sortWithin {fuel : Nat} (h : Sorting g done queue counts)
    (hfuel : g.vertices.length ≤ done.length + fuel) :
    ∃ rest counts', g.sortWithin fuel queue counts = some rest ∧ Sorting g (done ++ rest) [] counts' := by
  induction fuel generalizing done queue counts with
  | zero =>
    cases queue with
    | nil => exact ⟨[], counts, rfl, by rwa [List.append_nil]⟩
    | cons v queue =>
      have hlen := h.length_le
      rw [List.length_cons] at hlen
      omega
  | succ fuel ih =>
    cases queue with
    | nil => exact ⟨[], counts, rfl, by rwa [List.append_nil]⟩
    | cons v queue =>
      obtain ⟨rest, counts', hrest, hsorted⟩ := ih h.yield (by rw [List.length_append, List.length_singleton]; omega)
      refine ⟨v :: rest, counts', ?_, ?_⟩
      · rw [Graph.sortWithin, hrest]
        rfl
      · rwa [List.append_assoc, List.singleton_append] at hsorted

/-- Parents come first, and what lies on a cycle or below one is left out. -/
structure IsOrder (g : Graph α) (order : List α) : Prop where
  nodup : order.Nodup
  mem : ∀ v, v ∈ order ↔ v ∈ g.vertices ∧ Acc g.Edge v
  parents_first : ∀ l v r, order = l ++ v :: r → ∀ p, g.Edge p v → p ∈ l

theorem Sorting.isOrder {order : List α} (h : Sorting g order [] counts) : IsOrder g order := by
  have hmem : ∀ v ∈ g.vertices, v ∈ order ↔ ∀ p, g.Edge p v → p ∈ order := by
    intro v hv
    have hready := h.ready v hv
    rw [List.append_nil] at hready
    rw [hready, Finset.eq_empty_iff_forall_notMem]
    refine forall_congr' fun p => ?_
    rw [mem_parentsLeft, not_and, not_not]
  have hacc : ∀ l r, order = l ++ r → ∀ v ∈ l, Acc g.Edge v := by
    intro l
    induction l using List.reverseRecOn with
    | nil => exact fun _ _ v hv => by cases hv
    | append_singleton l x ih =>
      intro r hsplit v hv
      rw [List.append_assoc, List.singleton_append] at hsplit
      rcases List.mem_append.mp hv with hv | hv
      · exact ih (x :: r) hsplit v hv
      · obtain rfl := List.mem_singleton.mp hv
        exact ⟨v, fun p hp => ih (v :: r) hsplit p (h.parents_first l v r hsplit p hp)⟩
  have hnodup := h.nodup
  rw [List.append_nil] at hnodup
  refine ⟨hnodup, fun v => ⟨fun hv => ⟨?_, hacc order [] (List.append_nil order).symm v hv⟩, fun hboth => ?_⟩,
    h.parents_first⟩
  · exact h.mem v (by rwa [List.append_nil])
  · obtain ⟨hv, hwf⟩ := hboth
    induction hwf with
    | intro v _ ih => exact (hmem v hv).mpr fun p hp => ih p hp (g.closed p v hp).1

theorem sorting_start (h : roots.Perm g.rootVertices) : Sorting g [] roots g.dependsPerNode := by
  have hroots : ∀ v, v ∈ roots ↔ v ∈ g.vertices ∧ g.parentsLeft [] v = ∅ := by
    intro v
    rw [h.mem_iff, rootVertices, List.mem_filter, decide_eq_true_eq, Finset.eq_empty_iff_forall_notMem]
    refine and_congr_right fun _ => ⟨fun hnone p hp => ?_, fun hnone p _ hp => ?_⟩
    · have hedge := (mem_parentsLeft.mp hp).1
      exact hnone p (g.closed p v hedge).1 hedge
    · exact hnone p (mem_parentsLeft.mpr ⟨hp, List.not_mem_nil⟩)
  refine ⟨?_, fun v hv => ((hroots v).mp hv).1, fun n => dependsPerNode_eq, fun n hn => ?_, fun l v r hsplit => ?_⟩
  · exact (h.nodup_iff).mpr (g.nodup.filter _)
  · rw [List.nil_append, hroots]
    exact and_iff_right hn
  · simp at hsplit

/-- The sort comes to an end in whatever order the sets are iterated, and it yields
each vertex that lies neither on a cycle nor below one exactly once, after all its
parents. -/
theorem topologicalSort_isOrder (h : roots.Perm g.rootVertices) :
    ∃ order, g.topologicalSort roots = some order ∧ IsOrder g order := by
  have hfuel : g.vertices.length ≤ ([] : List α).length + g.vertices.length := by simp
  obtain ⟨order, counts, horder, hsorted⟩ := (sorting_start h).sortWithin hfuel
  exact ⟨order, horder, hsorted.isOrder⟩

/-- Two jobs wait for each other, and a third for one of these. -/
def withCycle : Graph String :=
  (((empty.addEdge "a" "b").addEdge "c" "d").addEdge "d" "c").addEdge "d" "e"

example : withCycle.topologicalSort ["a"] = some ["a", "b"] := by decide

theorem withCycle_isOrder :
    ∃ order, withCycle.topologicalSort withCycle.rootVertices = some order ∧ IsOrder withCycle order :=
  topologicalSort_isOrder (List.Perm.refl _)

end Graph

end JobQueue
