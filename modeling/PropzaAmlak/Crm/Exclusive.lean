import PropzaAmlak.Crm.Operations
import PropzaAmlak.Tx.Histories

/-! Whether a property is reserved once at most, under transactions of any users. -/

namespace Crm

namespace Db

def ActiveOn (s : Db) (p k : Nat) : Prop := (s.reservation k).property = p ∧ (s.reservation k).state = .active

instance (s : Db) (p k : Nat) : Decidable (s.ActiveOn p k) := inferInstanceAs (Decidable (_ ∧ _))

/-- Property `p` has one active reservation at most, and its flags say which. -/
structure Exclusive (ids : List Nat) (p : Nat) (s : Db) : Prop where
  one : ∀ j ∈ ids, ∀ k ∈ ids, s.ActiveOn p j → s.ActiveOn p k → j = k
  reserved : (s.property p).isReserved ↔ ∃ k ∈ ids, s.ActiveOn p k
  pointer : ∀ k ∈ ids, s.ActiveOn p k → (s.property p).activeReservation = some k

end Db

/-- The user of the operation sees all active reservations of the properties that it is for. -/
def Op.NothingHidden (ids : List Nat) (op : Op) (s : Db) : Prop :=
  ∀ k ∈ op.records ids s, ∀ j ∈ ids, s.ActiveOn (s.reservation k).property j → s.sees op.viewer j

variable {ids : List Nat} {op : Op} {s r : Db} {i j k p : Nat}

/-- The part of the store that a property's exclusion depends on. -/
def propertyView (ids : List Nat) (p : Nat) : ∀ key, Row key → Bool × Option PropertyRow
  | .reservation k, row => (decide (k ∈ ids ∧ row.property = p ∧ row.state = .active), none)
  | .lead _, _ => (false, none)
  | .property q, row => (false, if q = p then some row else none)

theorem propertyView_reservation {s s' : Db}
    (h : ∀ key, propertyView ids p key (s key) = propertyView ids p key (s' key)) (hk : k ∈ ids) :
    s.ActiveOn p k ↔ s'.ActiveOn p k := by
  have hview : (k ∈ ids ∧ s.ActiveOn p k) ↔ (k ∈ ids ∧ s'.ActiveOn p k) :=
    decide_eq_decide.mp (congrArg Prod.fst (h (.reservation k)))
  simpa only [hk, true_and] using hview

theorem propertyView_property {s s' : Db}
    (h : ∀ key, propertyView ids p key (s key) = propertyView ids p key (s' key)) : s.property p = s'.property p := by
  have hview := congrArg Prod.snd (h (.property p))
  simp only [propertyView, if_true] at hview
  exact Option.some.inj hview

theorem Db.Exclusive.congr {s s' : Db} (hs : s.Exclusive ids p)
    (hactive : ∀ k ∈ ids, s.ActiveOn p k ↔ s'.ActiveOn p k) (hproperty : s.property p = s'.property p) :
    s'.Exclusive ids p where
  one := by
    intro j hj k hk hactiveJ hactiveK
    exact hs.one j hj k hk ((hactive j hj).mpr hactiveJ) ((hactive k hk).mpr hactiveK)
  reserved := by
    rw [← hproperty, hs.reserved]
    exact exists_congr fun k => and_congr_right fun hk => hactive k hk
  pointer := by
    intro k hk hactiveK
    rw [← hproperty]
    exact hs.pointer k hk ((hactive k hk).mpr hactiveK)

theorem Db.Exclusive.active_iff (hs : s.Exclusive ids p) (hk : k ∈ ids) :
    s.ActiveOn p k ↔ (s.property p).isReserved ∧ (s.property p).activeReservation = some k := by
  constructor
  · intro hactive
    exact ⟨hs.reserved.mpr ⟨k, hk, hactive⟩, hs.pointer k hk hactive⟩
  · rintro ⟨hreserved, hpointer⟩
    obtain ⟨j, hj, hactive⟩ := hs.reserved.mp hreserved
    have hsame := hs.pointer j hj hactive
    obtain rfl : k = j := Option.some.inj (hpointer.symm.trans hsame)
    exact hactive

/-- Each property is guarded by its own row. -/
def guarded (ids : List Nat) : Tx.Guarded Row Nat where
  γ _ := Bool × Option PropertyRow
  view := propertyView ids
  guard := .property
  Good p s := Db.Exclusive ids p s
  congr p s s' hview hs :=
    hs.congr (fun k hk => propertyView_reservation hview hk) (propertyView_property hview)
  determined p s s' hs hs' hguard key := by
    cases key with
    | reservation k =>
      have hsame : Db.property s p = Db.property s' p := hguard
      have hiff : (k ∈ ids ∧ Db.ActiveOn s p k) ↔ (k ∈ ids ∧ Db.ActiveOn s' p k) := by
        refine and_congr_right fun hk => ?_
        rw [hs.active_iff hk, hs'.active_iff hk, hsame]
      exact Prod.ext (decide_eq_decide.mpr hiff) rfl
    | lead l => rfl
    | property q =>
      by_cases hq : q = p
      · subst hq
        have hsame : s (.property q) = s' (.property q) := hguard
        simp [propertyView, hsame]
      · simp [propertyView, hq]

theorem Op.run_of_toOption (h : (op.run ids s).toOption = some r) : op.run ids s = .ok r := by
  cases hresult : op.run ids s with
  | error e => simp [hresult, Except.toOption] at h
  | ok r' => simpa [hresult, Except.toOption] using h

/-- The rows an operation may write: its records, their leads and their properties. -/
def Op.txn (ids : List Nat) (op : Op) : Tx.Txn Row where
  run s := (op.run ids s).toOption
  rows s := (op.records ids s).flatMap fun k =>
    [.reservation k, .lead (Db.reservation s k).lead, .property (Db.reservation s k).property]
  frame s r hrun key hkey := by
    by_contra hne
    obtain ⟨k, hk, hrow⟩ := (Op.run_done (Op.run_of_toOption hrun)).2.rows key hne
    exact hkey (List.mem_flatMap.mpr ⟨k, hk, by simpa using hrow⟩)

/-- What is active after an operation has just been activated or was so before. -/
theorem Op.active_after (hrun : op.run ids s = .ok r) (hactive : r.ActiveOn p j) :
    op.target = .active ∧ j ∈ op.records ids s ∨ s.ActiveOn p j := by
  obtain ⟨-, hdone⟩ := Op.run_done hrun
  obtain ⟨hproperty, hstate⟩ := hactive
  rw [(hdone.reservation j).1] at hproperty
  rw [hdone.state] at hstate
  by_cases hj : j ∈ op.records ids s
  · rw [if_pos hj] at hstate
    exact .inl ⟨hstate, hj⟩
  · rw [if_neg hj] at hstate
    exact .inr ⟨hproperty, hstate⟩

/-- Where nothing was hidden nothing is hidden after the operation either. -/
theorem Op.seen_after (hrun : op.run ids s = .ok r) (hseen : op.NothingHidden ids s) (hk : k ∈ op.records ids s)
    (hj : j ∈ ids) (hactive : r.ActiveOn (s.reservation k).property j) :
    j ∈ r.activeOf ids op.viewer (s.reservation k).property := by
  obtain ⟨hks, hdone⟩ := Op.run_done hrun
  refine Db.mem_activeOf.mpr ⟨hj, hactive.1, hactive.2, ?_⟩
  rw [hdone.sees]
  rcases Op.active_after hrun hactive with ⟨-, hmem⟩ | hbefore
  · exact (hks j hmem).2
  · exact hseen k hk j hj hbefore

/-- The properties of the records have one active reservation at most. -/
theorem Op.one_after (hs : ∀ p, s.Exclusive ids p) (hrun : op.run ids s = .ok r) (hseen : op.NothingHidden ids s)
    (hk : k ∈ op.records ids s) (hi : i ∈ ids) (hj : j ∈ ids) (hactiveI : r.ActiveOn (s.reservation k).property i)
    (hactiveJ : r.ActiveOn (s.reservation k).property j) : i = j := by
  by_cases htarget : op.target = .active
  · cases op with
    | activate viewer ks =>
      have hks := (Op.run_done hrun).1
      have hfold : ks.foldlM (fun s k => s.activateOne ids viewer k) s = .ok r := by
        rw [Op.run, if_pos hks] at hrun
        exact hrun
      have halone := (Db.activate_activated hks hfold).alone k hk
      have hseenI := Op.seen_after hrun hseen hk hi hactiveI
      have hseenJ := Op.seen_after hrun hseen hk hj hactiveJ
      rw [halone i hseenI, halone j hseenJ]
    | _ => cases htarget
  · have hbefore : ∀ {i}, r.ActiveOn (s.reservation k).property i → s.ActiveOn (s.reservation k).property i :=
      fun hactive => (Op.active_after hrun hactive).resolve_left fun h => htarget h.1
    exact (hs _).one i hi j hj (hbefore hactiveI) (hbefore hactiveJ)

/-- An operation from which nothing is hidden keeps all properties exclusive. -/
theorem Op.run_exclusive (hs : ∀ p, s.Exclusive ids p) (hrun : op.run ids s = .ok r)
    (hseen : op.NothingHidden ids s) (p : Nat) : r.Exclusive ids p := by
  obtain ⟨hks, hdone⟩ := Op.run_done hrun
  by_cases hfor : ∃ k ∈ op.records ids s, (s.reservation k).property = p
  · obtain ⟨k, hk, rfl⟩ := hfor
    obtain ⟨hreserved, hpointer⟩ := hdone.flags k hk
    have hone : ∀ i ∈ ids, ∀ j ∈ ids, r.ActiveOn (s.reservation k).property i →
        r.ActiveOn (s.reservation k).property j → i = j :=
      fun i hi j hj => Op.one_after hs hrun hseen hk hi hj
    refine ⟨hone, ?_, fun j hj hactive => ?_⟩
    · rw [hreserved, Bool.not_eq_true', List.isEmpty_eq_false_iff_exists_mem]
      constructor
      · rintro ⟨j, hj⟩
        obtain ⟨hmem, hproperty, hstate, -⟩ := Db.mem_activeOf.mp hj
        exact ⟨j, hmem, hproperty, hstate⟩
      · rintro ⟨j, hj, hactive⟩
        exact ⟨j, Op.seen_after hrun hseen hk hj hactive⟩
    · have hmem := Op.seen_after hrun hseen hk hj hactive
      have hsome : (r.activeOf ids op.viewer (s.reservation k).property).head? ≠ none := by
        rw [Ne, List.head?_eq_none_iff]
        exact List.ne_nil_of_mem hmem
      obtain ⟨i, hhead⟩ := Option.ne_none_iff_exists'.mp hsome
      obtain ⟨hi, hproperty, hstate, -⟩ := Db.mem_activeOf.mp (List.mem_of_head? hhead)
      rw [hpointer, hhead, hone i hi j hj ⟨hproperty, hstate⟩ hactive]
  · have hnot : ∀ k ∈ op.records ids s, (s.reservation k).property ≠ p := fun k hk heq => hfor ⟨k, hk, heq⟩
    refine (hs p).congr (fun j _ => ?_) (hdone.untouched p hnot).symm
    unfold Db.ActiveOn
    rw [(hdone.reservation j).1, hdone.state]
    refine and_congr_right fun hproperty => ?_
    rw [if_neg fun hmem => hnot j hmem hproperty]

/-- What is hidden from an operation is forgotten in the flags that it computes. -/
theorem Op.hidden_forgotten (hs : ∀ p, s.Exclusive ids p) (hrun : op.run ids s = .ok r) (hk : k ∈ op.records ids s)
    (hj : j ∈ ids) (hactive : s.ActiveOn (s.reservation k).property j) (hhidden : ¬ s.sees op.viewer j) :
    ¬ r.Exclusive ids (s.reservation k).property ∧
      r (.property (s.reservation k).property) ≠ s (.property (s.reservation k).property) := by
  obtain ⟨hks, hdone⟩ := Op.run_done hrun
  have hforgotten : (r.property (s.reservation k).property).activeReservation ≠ some j := by
    rw [(hdone.flags k hk).2]
    intro hhead
    obtain ⟨-, -, -, hsees⟩ := Db.mem_activeOf.mp (List.mem_of_head? hhead)
    rw [hdone.sees] at hsees
    exact hhidden hsees
  constructor
  · intro hexclusive
    refine hforgotten (hexclusive.pointer j hj ⟨?_, ?_⟩)
    · rw [(hdone.reservation j).1]
      exact hactive.1
    · rw [hdone.state, if_neg fun hmem => hhidden (hks j hmem).2]
      exact hactive.2
  · intro hsame
    have hbefore := (hs _).pointer j hj hactive
    have hrow : r.property (s.reservation k).property = s.property (s.reservation k).property := hsame
    exact hforgotten (hrow ▸ hbefore)

/-- An operation whose snapshot is `age` commits old -/
structure Attempt where
  op : Op
  age : Nat

def attempt (ids : List Nat) (h : Tx.Commits Row) (a : Attempt) : Tx.Commits Row := h.commit (a.op.txn ids) a.age

/-- If the operation commits, its snapshot has hidden nothing from its user. -/
def Shown (ids : List Nat) (h : Tx.Commits Row) (a : Attempt) : Prop :=
  ∀ s r, h.Succeeds (a.op.txn ids) a.age s r → a.op.NothingHidden ids s

def AllExclusive (ids : List Nat) (h : Tx.Commits Row) : Prop := ∀ p, Db.Exclusive ids p h.now

structure New (ids : List Nat) (h : Tx.Commits Row) : Prop where
  past : h.past = []
  draft : ∀ k ∈ ids, (Db.reservation h.now k).state = .draft
  free : ∀ p, (Db.property h.now p).isReserved = false

variable {h : Tx.Commits Row} {a : Attempt}

theorem New.exclusive (hnew : New ids h) : ∀ x ∈ h.stores, ∀ p, Db.Exclusive ids p x := by
  have hnone : ∀ p, ∀ k ∈ ids, ¬ Db.ActiveOn h.now p k := by
    rintro p k hk ⟨-, hactive⟩
    rw [hnew.draft k hk] at hactive
    cases hactive
  intro x hx p
  obtain rfl : x = h.now := by simpa [Tx.Commits.stores, hnew.past] using hx
  refine ⟨fun j hj k _ hactive => absurd hactive (hnone p j hj), ?_, fun k hk hactive => absurd hactive (hnone p k hk)⟩
  rw [hnew.free]
  simpa using hnone p

theorem shown_iff (hs : ∀ x ∈ h.stores, ∀ p, Db.Exclusive ids p x) :
    Shown ids h a ↔ AllExclusive ids (attempt ids h a) := by
  constructor
  · intro hshown
    have hgood := (guarded ids).commit_good hs fun s r hsucceeds =>
      Op.run_exclusive (hs s hsucceeds.mem) (Op.run_of_toOption hsucceeds.run) (hshown s r hsucceeds)
    exact hgood _ (by simp [Tx.Commits.stores, attempt])
  · intro hexclusive s r hsucceeds k hk j hj hactive
    by_contra hhidden
    obtain ⟨hbad, hrow⟩ :=
      Op.hidden_forgotten (hs s hsucceeds.mem) (Op.run_of_toOption hsucceeds.run) hk hj hactive hhidden
    exact (guarded ids).commit_not_good (fun x hx => hs x hx _) hsucceeds hrow hbad (hexclusive _)

theorem shown_keeps (hs : ∀ x ∈ h.stores, ∀ p, Db.Exclusive ids p x) (hshown : Shown ids h a) :
    ∀ x ∈ (attempt ids h a).stores, ∀ p, Db.Exclusive ids p x :=
  (guarded ids).commit_good hs fun s r hsucceeds =>
    Op.run_exclusive (hs s hsucceeds.mem) (Op.run_of_toOption hsucceeds.run) (hshown s r hsucceeds)

/-- Properties stay exclusive just as long as no operation that commits is for a
property with an active reservation that its user does not see. -/
theorem reservations_exclusive_iff (hnew : New ids h) (attempts : List Attempt) :
    Tx.Always (attempt ids) (AllExclusive ids) h attempts ↔ Tx.EachStep (attempt ids) (Shown ids) h attempts :=
  Tx.always_iff_of_strong (I := fun h => ∀ x ∈ h.stores, ∀ p, Db.Exclusive ids p x)
    (fun h hs => hs h.now (by simp [Tx.Commits.stores])) (fun _ _ hs => shown_iff hs)
    (fun _ _ hs hshown => shown_keeps hs hshown) hnew.exclusive

/-- Each of two agents has a lead and a draft for the same property. -/
def twoAgents : Tx.Commits Row where
  now
    | .reservation k =>
      { lead := k
        property := 0
        partner := "Partner"
        dateEnd := .january31 }
    | .lead l =>
      { user := some l
        category := .opportunity
        state := .opened
        stage := none }
    | .property _ => { name := "Villa" }
  past := []

theorem twoAgents_new : New [0, 1] twoAgents := ⟨rfl, fun _ _ => rfl, fun _ => rfl⟩

def activates (user : Nat) : Attempt := ⟨.activate (some user) [user], 0⟩

theorem reservations_exclusive_once : Tx.Always (attempt [0, 1]) (AllExclusive [0, 1]) twoAgents [activates 0] := by
  rw [reservations_exclusive_iff twoAgents_new]
  have hshown : Shown [0, 1] twoAgents (activates 0) := by
    intro s r hsucceeds k _ j _ hactive
    obtain rfl : twoAgents.now = s := Option.some.inj hsucceeds.snapshot
    cases hactive.2
  exact Tx.eachStep_concat.mpr ⟨Tx.eachStep_nil, hshown⟩

/-- The second agent is not shown that the property is reserved. -/
theorem reserved_twice : ¬ ∀ (ids : List Nat) (h : Tx.Commits Row), New ids h → ∀ attempts : List Attempt,
    Tx.Always (attempt ids) (AllExclusive ids) h attempts := by
  intro hall
  have hexclusive := hall [0, 1] twoAgents twoAgents_new [activates 0, activates 1] _ List.prefix_rfl 0
  have hsame := hexclusive.one 0 (by decide) 1 (by decide) (by decide +kernel) (by decide +kernel)
  cases hsame

end Crm
