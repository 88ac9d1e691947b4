import PropzaAmlak.JobQueue.Delayables

/-! The graph of jobs that is made of delayables, chains and groups when they are delayed. -/

namespace JobQueue

/-- A dict of sets. -/
abbrev Links := Nat → Option (Finset Nat)

namespace Links

variable {l : Links} {tail a b : Nat} {heads : Finset Nat}

def IsVertex (l : Links) (a : Nat) : Prop := (l a).isSome

def Edge (l : Links) (a b : Nat) : Prop := b ∈ (l a).getD ∅

instance (l : Links) (a b : Nat) : Decidable (l.Edge a b) := inferInstanceAs (Decidable (b ∈ (l a).getD ∅))

/-- `setdefault(tail, set()).update(heads)`. -/
def update (tail : Nat) (heads : Finset Nat) (l : Links) : Links :=
  Function.update l tail (some ((l tail).getD ∅ ∪ heads))

theorem isVertex_update : (l.update tail heads).IsVertex a ↔ l.IsVertex a ∨ a = tail := by
  rw [IsVertex, IsVertex, update]
  by_cases ha : a = tail
  · subst ha
    simp
  · simp [ha]

theorem edge_update : (l.update tail heads).Edge a b ↔ l.Edge a b ∨ a = tail ∧ b ∈ heads := by
  rw [Edge, Edge, update]
  by_cases ha : a = tail
  · subst ha
    simp
  · simp [ha]

end Links

/-- Which ends of an object are asked for. -/
inductive Side where
  | head
  | tail

namespace Delayables

variable {h : Delayables} {side : Side} {start r v n p j k first fuel : Nat} {rest members : List Nat}

theorem lt_of_ne_delayable (hk : h.kind r ≠ .delayable) : r < h.size :=
  Nat.lt_of_not_le fun hle => hk (h.blank r hle)

/-! ### The heads and the tails of an object -/

/-- A chain asks its ends for the other side. -/
def endsWithin (h : Delayables) : Nat → Side → Nat → List Nat
  | 0, _, _ => []
  | fuel + 1, side, r =>
    match h.kind r with
    | .delayable => [r]
    | .chain first rest =>
      match side with
      | .head => h.endsWithin fuel .tail first
      | .tail => h.endsWithin fuel .head (rest.getLastD first)
    | .group members => members.flatMap (h.endsWithin fuel side)

def ends (h : Delayables) (side : Side) (r : Nat) : List Nat := h.endsWithin (r + 1) side r

/-- `_head()`. -/
abbrev head (h : Delayables) (r : Nat) : List Nat := h.ends .head r

/-- `_tail()`. -/
abbrev tail (h : Delayables) (r : Nat) : List Nat := h.ends .tail r

theorem endsWithin_congr (fuel fuel' : Nat) (hfuel : r < fuel) (hfuel' : r < fuel') :
    h.endsWithin fuel side r = h.endsWithin fuel' side r := by
  induction fuel generalizing fuel' side r with
  | zero => omega
  | succ fuel ih =>
    cases fuel' with
    | zero => omega
    | succ fuel' =>
      rw [endsWithin, endsWithin]
      have hpart : ∀ p ∈ (h.kind r).parts, ∀ side, h.endsWithin fuel side p = h.endsWithin fuel' side p := by
        intro p hp side
        have hlt := h.older r p hp
        exact ih fuel' (by omega) (by omega)
      cases hk : h.kind r with
      | delayable => rfl
      | chain first rest =>
        rw [hk] at hpart
        cases side with
        | head => exact hpart first List.mem_cons_self _
        | tail => exact hpart _ List.getLastD_mem_cons _
      | group members =>
        rw [hk] at hpart
        exact List.flatMap_congr fun p hp => hpart p hp side

theorem endsWithin_part (hp : p ∈ (h.kind r).parts) : h.endsWithin r side p = h.ends side p :=
  endsWithin_congr r (p + 1) (h.older r p hp) (Nat.lt_succ_self p)

theorem ends_delayable (hk : h.kind r = .delayable) : h.ends side r = [r] := by
  rw [ends, endsWithin, hk]

theorem head_chain (hk : h.kind r = .chain first rest) : h.head r = h.tail first := by
  rw [head, ends, endsWithin, hk]
  exact endsWithin_part (hk ▸ List.mem_cons_self)

theorem tail_chain (hk : h.kind r = .chain first rest) : h.tail r = h.head (rest.getLastD first) := by
  rw [tail, ends, endsWithin, hk]
  exact endsWithin_part (hk ▸ List.getLastD_mem_cons)

theorem ends_group (hk : h.kind r = .group members) : h.ends side r = members.flatMap (h.ends side) := by
  rw [ends, endsWithin, hk]
  exact List.flatMap_congr fun p hp => endsWithin_part (hk ▸ hp)

/-- The jobs that an object stands for. -/
inductive Has (h : Delayables) : Nat → Nat → Prop where
  | self {r : Nat} (hk : h.kind r = .delayable) : Has h r r
  | part {r p j : Nat} (hp : p ∈ (h.kind r).parts) (hj : Has h p j) : Has h r j

theorem Has.kind (hj : h.Has r j) : h.kind j = .delayable := by
  induction hj with
  | self hk => exact hk
  | part _ _ ih => exact ih

theorem Has.eq_of_delayable (hj : h.Has r j) (hk : h.kind r = .delayable) : j = r := by
  cases hj with
  | self => rfl
  | part hp =>
    rw [hk] at hp
    cases hp

theorem Has.exists_part (hj : h.Has r j) (hk : h.kind r ≠ .delayable) : ∃ p ∈ (h.kind r).parts, h.Has p j := by
  cases hj with
  | self hk' => exact (hk hk').elim
  | part hp hj => exact ⟨_, hp, hj⟩

theorem has_of_mem_ends (hj : j ∈ h.ends side r) : h.Has r j := by
  induction r using Nat.strong_induction_on generalizing side with
  | _ r ih =>
    have hpart : ∀ p ∈ (h.kind r).parts, ∀ side, j ∈ h.ends side p → h.Has r j := fun p hp side hj =>
      .part hp (ih p (h.older r p hp) hj)
    cases hk : h.kind r with
    | delayable =>
      rw [ends_delayable hk] at hj
      obtain rfl := List.mem_singleton.mp hj
      exact .self hk
    | chain first rest =>
      rw [hk] at hpart
      cases side with
      | head =>
        rw [← head, head_chain hk] at hj
        exact hpart first List.mem_cons_self _ hj
      | tail =>
        rw [← tail, tail_chain hk] at hj
        exact hpart _ List.getLastD_mem_cons _ hj
    | group members =>
      rw [hk] at hpart
      rw [ends_group hk] at hj
      obtain ⟨p, hp, hj⟩ := List.mem_flatMap.mp hj
      exact hpart p hp _ hj

/-! ### What the graphs lead to -/

/-- The objects whose graphs come next. -/
def leads (h : Delayables) (r : Nat) : List Nat := (h.graph r).vertices

abbrev Reaches (h : Delayables) : Nat → Nat → Prop := Worklist.Reaches h.leads

theorem Reaches.lt (hs : start < h.size) (hr : h.Reaches start r) : r < h.size := by
  cases hr with
  | refl => exact hs
  | tail _ hr => exact h.within _ _ hr

theorem Reaches.part (hr : h.Reaches start r) (hp : p ∈ (h.kind r).parts) : h.Reaches start p := by
  have hk : h.kind r ≠ .delayable := by
    intro hk
    rw [hk] at hp
    cases hp
  exact hr.tail (h.own r (lt_of_ne_delayable hk) p (Kind.mem_graph.mpr (Or.inl hp)))

theorem Reaches.has (hr : h.Reaches start r) (hj : h.Has r j) : h.Reaches start j := by
  induction hj with
  | self => exact hr
  | part hp _ ih => exact ih (hr.part hp)

/-- Each tail of an object is connected with each head of the one that follows. -/
def Before (h : Delayables) (start j k : Nat) : Prop :=
  ∃ r v n, h.Reaches start r ∧ (h.graph r).Edge v n ∧ j ∈ h.tail v ∧ k ∈ h.head n

/-! ### _connect_graphs -/

def heads (h : Delayables) (neighbours : List Nat) : Finset Nat := (neighbours.flatMap h.head).toFinset

def mergeVertex (h : Delayables) (g : Graph Nat) (l : Links) (vertex : Nat) : Links :=
  (h.tail vertex).foldl (fun l tail => l.update tail (h.heads (g.children vertex))) l

def mergeGraph (h : Delayables) (l : Links) (g : Graph Nat) : Links := g.vertices.foldl (h.mergeVertex g) l

def mergeGraphs (h : Delayables) (r : Nat) (l : Links) : Links :=
  (h.leads r).foldl (fun l vertex => h.mergeGraph l (h.graph vertex)) l

def connectGraphs (h : Delayables) (start : Nat) : Option Links :=
  Worklist.run h.leads h.mergeGraphs (Worklist.bound h.leads (Finset.range h.size)) [start] []
    (h.mergeGraph (fun _ => none) (h.graph start))

theorem isVertex_mergeVertex (g : Graph Nat) (l : Links) (v : Nat) :
    (h.mergeVertex g l v).IsVertex j ↔ l.IsVertex j ∨ j ∈ h.tail v := by
  have hstep : ∀ (l : Links) (tail : Nat),
      (l.update tail (h.heads (g.children v))).IsVertex j ↔ l.IsVertex j ∨ j = tail := fun _ _ => Links.isVertex_update
  rw [mergeVertex, Worklist.foldl_iff (fun l => Links.IsVertex l j) _ hstep]
  simp

theorem edge_mergeVertex (g : Graph Nat) (l : Links) (v : Nat) :
    (h.mergeVertex g l v).Edge j k ↔ l.Edge j k ∨ j ∈ h.tail v ∧ k ∈ h.heads (g.children v) := by
  have hstep : ∀ (l : Links) (tail : Nat), (l.update tail (h.heads (g.children v))).Edge j k ↔
      l.Edge j k ∨ j = tail ∧ k ∈ h.heads (g.children v) := fun _ _ => Links.edge_update
  rw [mergeVertex, Worklist.foldl_iff (fun l => Links.Edge l j k) _ hstep]
  simp

theorem isVertex_mergeGraph (l : Links) (g : Graph Nat) :
    (h.mergeGraph l g).IsVertex j ↔ l.IsVertex j ∨ ∃ v ∈ g.vertices, j ∈ h.tail v :=
  Worklist.foldl_iff (fun l => Links.IsVertex l j) _ (isVertex_mergeVertex g) g.vertices l

theorem edge_mergeGraph (l : Links) (g : Graph Nat) :
    (h.mergeGraph l g).Edge j k ↔ l.Edge j k ∨ ∃ v n, g.Edge v n ∧ j ∈ h.tail v ∧ k ∈ h.head n := by
  rw [mergeGraph, Worklist.foldl_iff (fun l => Links.Edge l j k) _ (edge_mergeVertex g)]
  refine or_congr_right ⟨?_, ?_⟩
  · rintro ⟨v, -, hj, hk⟩
    obtain ⟨n, hn, hk⟩ := List.mem_flatMap.mp (List.mem_toFinset.mp hk)
    exact ⟨v, n, hn, hj, hk⟩
  · rintro ⟨v, n, hn, hj, hk⟩
    exact ⟨v, (g.closed v n hn).1, hj, List.mem_toFinset.mpr (List.mem_flatMap.mpr ⟨n, hn, hk⟩)⟩

/-- All the graphs are merged that the first one leads to, and no others. -/
theorem exists_connectGraphs (hs : start < h.size) :
    ∃ l, h.connectGraphs start = some l ∧ ∀ (holds : Links → Prop) (adds : Graph Nat → Prop),
      (¬ holds fun _ => none) → (∀ l g, holds (h.mergeGraph l g) ↔ holds l ∨ adds g) →
        (holds l ↔ ∃ r, h.Reaches start r ∧ adds (h.graph r)) := by
  have hclosed : ∀ a ∈ Finset.range h.size, ∀ b ∈ h.leads a, b ∈ Finset.range h.size := fun a _ b hb =>
    Finset.mem_range.mpr (h.within a b hb)
  obtain ⟨visited, hrun, hmem⟩ := Worklist.run_start h.mergeGraphs (h.mergeGraph (fun _ => none) (h.graph start))
    (Finset.mem_range.mpr hs) hclosed
  refine ⟨_, hrun, fun holds adds hnone hstep => ?_⟩
  have hinner : ∀ l r, holds (h.mergeGraphs r l) ↔ holds l ∨ ∃ v ∈ h.leads r, adds (h.graph v) := fun l r =>
    Worklist.foldl_iff holds _ (fun l v => hstep l (h.graph v)) (h.leads r) l
  rw [Worklist.foldl_iff holds _ hinner, hstep, or_iff_right hnone]
  constructor
  · rintro (hadds | ⟨r, hr, v, hv, hadds⟩)
    · exact ⟨start, .refl, hadds⟩
    · exact ⟨v, ((hmem r).mp hr).tail hv, hadds⟩
  · rintro ⟨r, hr, hadds⟩
    cases hr with
    | refl => exact Or.inl hadds
    | tail hbefore hr => exact Or.inr ⟨_, (hmem _).mpr hbefore, _, hr, hadds⟩

theorem mem_tail_iff (hs : start < h.size) :
    (∃ r, h.Reaches start r ∧ ∃ v ∈ (h.graph r).vertices, j ∈ h.tail v) ↔
      h.Reaches start j ∧ h.kind j = .delayable := by
  constructor
  · rintro ⟨r, hr, v, hv, hj⟩
    have hhas := has_of_mem_ends hj
    exact ⟨Reaches.has (hr.tail hv) hhas, hhas.kind⟩
  · rintro ⟨hj, hk⟩
    have hown := h.own j (hj.lt hs) j (Kind.mem_graph.mpr (Or.inr ⟨hk, rfl⟩))
    exact ⟨j, hj, j, hown, by rw [tail, ends_delayable hk]; exact List.mem_singleton_self j⟩

theorem Before.jobs (hjk : h.Before start j k) :
    (h.Reaches start j ∧ h.kind j = .delayable) ∧ h.Reaches start k ∧ h.kind k = .delayable := by
  obtain ⟨r, v, n, hr, hedge, hj, hk⟩ := hjk
  obtain ⟨hv, hn⟩ := (h.graph r).closed v n hedge
  have hjhas := has_of_mem_ends hj
  have hkhas := has_of_mem_ends hk
  exact ⟨⟨Reaches.has (hr.tail hv) hjhas, hjhas.kind⟩, Reaches.has (hr.tail hn) hkhas, hkhas.kind⟩

theorem edge_iff_before (hs : start < h.size) {l : Links} (hl : h.connectGraphs start = some l) :
    l.Edge j k ↔ h.Before start j k := by
  obtain ⟨l', hl', hmerged⟩ := exists_connectGraphs hs
  obtain rfl := Option.some.inj (hl'.symm.trans hl)
  rw [hmerged (fun l => Links.Edge l j k) _ (by simp [Links.Edge]) edge_mergeGraph, Before]
  simp only [exists_and_left]

/-- The walk over the graphs ends, also where they lead back to each other. Its vertices
are the delayables that are reached, and the tails of an object are connected with the
heads of each that follows it in one of the graphs. -/
theorem connectGraphs_eq (hs : start < h.size) :
    ∃ l, h.connectGraphs start = some l ∧ (∀ j, l.IsVertex j ↔ h.Reaches start j ∧ h.kind j = .delayable) ∧
      (∀ j k, l.Edge j k ↔ h.Before start j k) ∧ ∀ j k, l.Edge j k → l.IsVertex j ∧ l.IsVertex k := by
  obtain ⟨l, hl, hmerged⟩ := exists_connectGraphs hs
  have hvertex : ∀ j, l.IsVertex j ↔ h.Reaches start j ∧ h.kind j = .delayable := by
    intro j
    rw [← mem_tail_iff hs]
    exact hmerged (fun l => Links.IsVertex l j) _ (by simp [Links.IsVertex]) isVertex_mergeGraph
  have hedge : ∀ j k, l.Edge j k ↔ h.Before start j k := fun _ _ => edge_iff_before hs hl
  refine ⟨l, hl, hvertex, hedge, fun j k hjk => ?_⟩
  rw [hvertex, hvertex]
  exact ((hedge j k).mp hjk).jobs

/-- A job, then two in a group, and another one when these are done. -/
def chained : Delayables :=
  [Call.make .delayable, .make .delayable, .make .delayable, .make (.group [1, 2]), .make (.chain 0 [3]),
    .make .delayable, .onDone 4 [5]].foldl call empty

theorem chained_connectGraphs_eq :
    ∃ l, chained.connectGraphs 4 = some l ∧
      (∀ j, l.IsVertex j ↔ chained.Reaches 4 j ∧ chained.kind j = .delayable) ∧
      (∀ j k, l.Edge j k ↔ chained.Before 4 j k) ∧ ∀ j k, l.Edge j k → l.IsVertex j ∧ l.IsVertex k :=
  connectGraphs_eq (by decide)

/-! ### What follows is done later -/

/-- No chain is met on the way to the ends. -/
inductive Level (h : Delayables) : Nat → Prop where
  | delayable {r : Nat} (hk : h.kind r = .delayable) : Level h r
  | group {r : Nat} {members : List Nat} (hk : h.kind r = .group members) (hm : ∀ m ∈ members, Level h m) : Level h r

theorem Level.head_eq (hr : h.Level r) : h.head r = h.tail r := by
  induction hr with
  | delayable hk => rw [head, tail, ends_delayable hk, ends_delayable hk]
  | group hk _ ih =>
    rw [head, tail, ends_group hk, ends_group hk]
    exact List.flatMap_congr ih

/-- Groups have members, and chains begin and end with no other chains. -/
inductive Sound (h : Delayables) : Nat → Prop where
  | delayable {r : Nat} (hk : h.kind r = .delayable) : Sound h r
  | chain {r first : Nat} {rest : List Nat} (hk : h.kind r = .chain first rest)
      (hparts : ∀ p ∈ first :: rest, Sound h p) (hfirst : h.Level first) (hlast : h.Level (rest.getLastD first)) :
      Sound h r
  | group {r : Nat} {members : List Nat} (hk : h.kind r = .group members) (hne : members ≠ [])
      (hm : ∀ m ∈ members, Sound h m) : Sound h r

theorem Sound.exists_has (hr : h.Sound r) : ∃ j, h.Has r j := by
  induction hr with
  | delayable hk => exact ⟨_, .self hk⟩
  | @chain r first rest hk _ _ _ ih =>
    exact (ih first List.mem_cons_self).imp fun _ hj => .part (hk ▸ List.mem_cons_self) hj
  | group hk hne _ ih =>
    obtain ⟨m, hm⟩ := List.exists_mem_of_ne_nil _ hne
    exact (ih m hm).imp fun _ hj => .part (hk ▸ hm) hj

/-- All that an object stands for lies between its heads and its tails. -/
structure Spans (h : Delayables) (start r : Nat) : Prop where
  some_job : ∃ j, h.Has r j
  from_head : ∀ j, h.Has r j → ∃ i ∈ h.head r, Relation.ReflTransGen (h.Before start) i j
  to_tail : ∀ j, h.Has r j → ∃ i ∈ h.tail r, Relation.ReflTransGen (h.Before start) j i

theorem Spans.before (hv : h.Spans start v) (hn : h.Spans start n) (hr : h.Reaches start r)
    (hedge : (h.graph r).Edge v n) (hj : h.Has v j) (hk : h.Has n k) : Relation.TransGen (h.Before start) j k := by
  obtain ⟨t, ht, hjt⟩ := hv.to_tail j hj
  obtain ⟨s, hs, hsk⟩ := hn.from_head k hk
  have hts : h.Before start t s := ⟨r, v, n, hr, hedge, ht, hs⟩
  exact .trans_right hjt (.trans_left (.single hts) hsk)

theorem exists_has_first (hr : h.Reaches start r) (hspans : ∀ p ∈ first :: rest, h.Spans start p)
    (hchain : (first :: rest).IsChain (h.graph r).Edge) (hp : p ∈ first :: rest) (hj : h.Has p j) :
    ∃ i, h.Has first i ∧ Relation.ReflTransGen (h.Before start) i j := by
  induction rest generalizing first with
  | nil =>
    obtain rfl := List.mem_singleton.mp hp
    exact ⟨j, hj, .refl⟩
  | cons n rest ih =>
    obtain ⟨hedge, hchain⟩ := List.isChain_cons_cons.mp hchain
    rcases List.mem_cons.mp hp with rfl | hp
    · exact ⟨j, hj, .refl⟩
    · obtain ⟨k, hk, hkj⟩ := ih (fun p hp => hspans p (List.mem_cons_of_mem _ hp)) hchain hp
      have hfirst := hspans first List.mem_cons_self
      obtain ⟨i, hi⟩ := hfirst.some_job
      have hik := hfirst.before (hspans n (by simp)) hr hedge hi hk
      exact ⟨i, hi, hik.to_reflTransGen.trans hkj⟩

theorem exists_has_last (hr : h.Reaches start r) (hspans : ∀ p ∈ first :: rest, h.Spans start p)
    (hchain : (first :: rest).IsChain (h.graph r).Edge) (hp : p ∈ first :: rest) (hj : h.Has p j) :
    ∃ i, h.Has (rest.getLastD first) i ∧ Relation.ReflTransGen (h.Before start) j i := by
  induction rest generalizing first p j with
  | nil =>
    obtain rfl := List.mem_singleton.mp hp
    exact ⟨j, hj, .refl⟩
  | cons n rest ih =>
    obtain ⟨hedge, hlater⟩ := List.isChain_cons_cons.mp hchain
    have hrest : ∀ p ∈ n :: rest, h.Spans start p := fun p hp => hspans p (List.mem_cons_of_mem _ hp)
    rw [List.getLastD_cons]
    rcases List.mem_cons.mp hp with rfl | hp
    · have hnext := hspans n (by simp)
      obtain ⟨k, hk⟩ := hnext.some_job
      obtain ⟨i, hi, hki⟩ := ih hrest hlater List.mem_cons_self hk
      have hjk := (hspans p List.mem_cons_self).before hnext hr hedge hj hk
      exact ⟨i, hi, hjk.to_reflTransGen.trans hki⟩
    · exact ih hrest hlater hp hj

theorem isChain_graph (hk : h.kind r = .chain first rest) : (first :: rest).IsChain (h.graph r).Edge := by
  have hlt : r < h.size := lt_of_ne_delayable (by rw [hk]; exact Kind.noConfusion)
  refine (Kind.isChain_zip first rest).imp fun a b hab => h.edges r hlt a b ?_
  rw [hk, Kind.graph, Graph.edge_addEdges]
  exact Or.inr hab

theorem Sound.spans (hsound : h.Sound r) (hr : h.Reaches start r) : h.Spans start r := by
  have hsome := hsound.exists_has
  induction hsound with
  | @delayable r hk =>
    have hends : ∀ side, ∀ j, h.Has r j → j ∈ h.ends side r := by
      intro side j hj
      rw [ends_delayable hk, hj.eq_of_delayable hk]
      exact List.mem_singleton_self r
    exact ⟨hsome, fun j hj => ⟨j, hends _ j hj, .refl⟩, fun j hj => ⟨j, hends _ j hj, .refl⟩⟩
  | @chain r first rest hk hparts hfirst hlast ih =>
    have hpart : ∀ p ∈ first :: rest, p ∈ (h.kind r).parts := fun p hp => hk ▸ hp
    have hspans : ∀ p ∈ first :: rest, h.Spans start p := fun p hp =>
      ih p hp (hr.part (hpart p hp)) (hparts p hp).exists_has
    have hparted : ∀ j, h.Has r j → ∃ p ∈ first :: rest, h.Has p j := by
      intro j hj
      have hex := hj.exists_part (by rw [hk]; exact Kind.noConfusion)
      rwa [hk] at hex
    have hchain := isChain_graph hk
    -- the ends of a chain are the wrong ends of its first and its last element
    refine ⟨hsome, fun j hj => ?_, fun j hj => ?_⟩
    · obtain ⟨p, hp, hj⟩ := hparted j hj
      obtain ⟨i, hi, hij⟩ := exists_has_first hr hspans hchain hp hj
      obtain ⟨s, hs, hsi⟩ := (hspans first List.mem_cons_self).from_head i hi
      exact ⟨s, by rwa [head_chain hk, ← hfirst.head_eq], hsi.trans hij⟩
    · obtain ⟨p, hp, hj⟩ := hparted j hj
      obtain ⟨i, hi, hji⟩ := exists_has_last hr hspans hchain hp hj
      obtain ⟨t, ht, hit⟩ := (hspans _ List.getLastD_mem_cons).to_tail i hi
      exact ⟨t, by rwa [tail_chain hk, hlast.head_eq], hji.trans hit⟩
  | @group r members hk hne hm ih =>
    have hparted : ∀ j, h.Has r j → ∃ m ∈ members, h.Has m j ∧ h.Spans start m := by
      intro j hj
      obtain ⟨m, hmem, hj⟩ := hj.exists_part (by rw [hk]; exact Kind.noConfusion)
      have hmem' : m ∈ members := by rwa [hk] at hmem
      exact ⟨m, hmem', hj, ih m hmem' (hr.part hmem) (hm m hmem').exists_has⟩
    have hends : ∀ side, ∀ m ∈ members, ∀ i ∈ h.ends side m, i ∈ h.ends side r := by
      intro side m hmem i hi
      rw [ends_group hk]
      exact List.mem_flatMap.mpr ⟨m, hmem, hi⟩
    refine ⟨hsome, fun j hj => ?_, fun j hj => ?_⟩
    · obtain ⟨m, hmem, hj, hspans⟩ := hparted j hj
      exact (hspans.from_head j hj).imp fun i hi => ⟨hends _ m hmem i hi.1, hi.2⟩
    · obtain ⟨m, hmem, hj, hspans⟩ := hparted j hj
      exact (hspans.to_tail j hj).imp fun i hi => ⟨hends _ m hmem i hi.1, hi.2⟩

/-- `on_done` connects all that an object stands for with what is to follow. -/
theorem Sound.before (hsound : h.Sound r) (hr : h.Reaches start r) (hn : h.Sound n)
    (hc : ∀ p ∈ (h.kind r).connected r, (h.graph r).Edge p n) (hj : h.Has r j) (hk : h.Has n k) :
    Relation.TransGen (h.Before start) j k := by
  have hstep : ∀ p ∈ (h.kind r).connected r, h.Sound p → h.Reaches start p → ∀ i, h.Has p i →
      Relation.TransGen (h.Before start) i k := by
    intro p hp hsound hreach i hi
    have hnreach := hr.tail ((h.graph r).closed p n (hc p hp)).2
    exact (hsound.spans hreach).before (hn.spans hnreach) hr (hc p hp) hi hk
  cases hsound with
  | delayable hkind =>
    rw [hkind] at hstep
    exact hstep r (List.mem_singleton_self r) (.delayable hkind) hr j hj
  | @chain _ first rest hkind hparts hfirst hlast =>
    have hreach : ∀ p ∈ first :: rest, h.Reaches start p := fun p hp => hr.part (hkind ▸ hp)
    have hspans : ∀ p ∈ first :: rest, h.Spans start p := fun p hp => (hparts p hp).spans (hreach p hp)
    obtain ⟨p, hp, hj⟩ := hj.exists_part (by rw [hkind]; exact Kind.noConfusion)
    rw [hkind] at hp hstep
    obtain ⟨i, hi, hji⟩ := exists_has_last hr hspans (isChain_graph hkind) hp hj
    have hmem : rest.getLastD first ∈ first :: rest := List.getLastD_mem_cons
    exact .trans_right hji (hstep _ (List.mem_singleton_self _) (hparts _ hmem) (hreach _ hmem) i hi)
  | group hkind _ hm =>
    obtain ⟨p, hp, hj⟩ := hj.exists_part (by rw [hkind]; exact Kind.noConfusion)
    have hreach := hr.part hp
    rw [hkind] at hp hstep
    exact hstep p hp (hm p hp) hreach j hj

/-- Each job of one object is done before each job of another, at least by way of others. -/
def Precedes (h : Delayables) (l : Links) (v n : Nat) : Prop :=
  ∀ j k, h.Has v j → h.Has n k → Relation.TransGen l.Edge j k

theorem Sound.precedes (hs : start < h.size) {l : Links} (hl : h.connectGraphs start = some l) (hr : h.Reaches start r)
    (hsound : h.Sound r) (hn : h.Sound n) (hc : ∀ p ∈ (h.kind r).connected r, (h.graph r).Edge p n) :
    h.Precedes l r n := fun j k hj hk =>
  Relation.TransGen.mono (fun _ _ => (edge_iff_before hs hl).mpr) j k (hsound.before hr hn hc hj hk)

/-- What follows in a chain, and what is connected by `on_done`, is done later. -/
theorem delayed_in_order (hs : start < h.size) :
    ∃ l, h.connectGraphs start = some l ∧
      (∀ r v n, h.Reaches start r → (h.graph r).Edge v n → h.Sound v → h.Sound n → h.Precedes l v n) ∧
      ∀ r n, h.Reaches start r → h.Sound r → h.Sound n → (∀ p ∈ (h.kind r).connected r, (h.graph r).Edge p n) →
        h.Precedes l r n := by
  obtain ⟨l, hl, -⟩ := exists_connectGraphs hs
  refine ⟨l, hl, fun r v n hr hvn hv hn j k hj hk => ?_, fun r n hr hsound hn hc => hsound.precedes hs hl hr hn hc⟩
  obtain ⟨hvmem, hnmem⟩ := (h.graph r).closed v n hvn
  have hjk := (hv.spans (hr.tail hvmem)).before (hn.spans (hr.tail hnmem)) hr hvn hj hk
  exact Relation.TransGen.mono (fun _ _ => (edge_iff_before hs hl).mpr) j k hjk

theorem sound_chained : chained.Sound 4 := by
  have hmember : ∀ m ∈ [1, 2], chained.kind m = .delayable := by decide
  have hgroup : chained.kind 3 = .group [1, 2] := by decide
  have hparts : ∀ p ∈ [0, 3], chained.Sound p := by
    intro p hp
    rcases List.mem_cons.mp hp with rfl | hp
    · exact .delayable (by decide)
    · obtain rfl := List.mem_singleton.mp hp
      exact .group hgroup (by decide) fun m hm => .delayable (hmember m hm)
  exact .chain (by decide) hparts (.delayable (by decide)) (.group hgroup fun m hm => .delayable (hmember m hm))

theorem chained_in_order : ∃ l, chained.connectGraphs 4 = some l ∧ chained.Precedes l 4 5 := by
  have hs : 4 < chained.size := by decide
  obtain ⟨l, hl, -, hdone⟩ := delayed_in_order hs
  exact ⟨l, hl, hdone 4 5 .refl sound_chained (.delayable (by decide)) (by decide)⟩

/-- A chain of two jobs and a third one follows a job by `on_done`. -/
def nested : Delayables :=
  [Call.make .delayable, .make .delayable, .make (.chain 0 [1]), .make .delayable, .make (.chain 2 [3]),
    .make .delayable, .onDone 5 [4]].foldl call empty

-- the first job of the inner chain does not wait, the second one does
example : (nested.connectGraphs 5).map (fun l => (l 5, l 0)) = some (some {1}, some {1}) := by decide

end Delayables

end JobQueue
