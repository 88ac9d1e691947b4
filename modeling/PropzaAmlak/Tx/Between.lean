import PropzaAmlak.Tx.Process

/-! What holds of the store between transactions, where a transaction may break it and
mend it before it commits. -/

namespace Tx

variable {σ W Q R ε α T : Type}

/-- The state in which the open transaction of a caller began. -/
def opened (o : Option σ) : Effect σ W Q R → Option σ
  | .read v => o.or (some v)
  | .write v _ => o.or (some v)
  | .commit _ => none
  | .call _ _ => o

/-- A transaction that begins where `I` holds commits where it holds, and with `steady`
reads nothing else. -/
def keeper (W Q R : Type) (I : σ → Prop) (steady : Prop) : Protocol σ W Q R (Option σ) where
  init := none
  allows o
    | .read v => steady → ∀ w ∈ o, I w → I v
    | .commit v => ∀ w ∈ o, I w → I v
    | _ => True
  next := opened

/-- Where the open transaction is, `I` holds if it held where it began. -/
structure Tracks (I : σ → Prop) (x : Local σ (Option σ)) : Prop where
  mends : ∀ w ∈ x.phase, I w → ∀ v ∈ x.view, I v
  closed : x.view = none ↔ x.phase = none

/-- What caller `i` has open at the end of a run. -/
def openedBy (i : Nat) (h : List (Move σ W Q R ε α T)) : Option σ := (effectsOf i h).foldl opened none

section

variable {app : W → σ → σ} {I : σ → Prop} {steady : Prop} {x : Local σ (Option σ)} {u v : σ}

theorem Tracks.read (hx : Tracks I x) (hv : x.reads v) : ∀ w ∈ x.phase, I w → I v := by
  intro w hw hI
  cases hopen : x.view with
  | none =>
    rw [hx.closed.mp hopen] at hw
    cases hw
  | some u =>
    rw [← hv u hopen]
    exact hx.mends w hw hI u hopen

theorem Tracks.begun (hx : Tracks I x) (hv : x.reads v) : ∀ w ∈ x.phase.or (some v), I w → I v := by
  intro w hw hI
  cases hphase : x.phase with
  | none =>
    rw [hphase, Option.none_or] at hw
    rwa [← Option.some.inj hw] at hI
  | some u =>
    rw [hphase, Option.some_or] at hw
    exact hx.read hv w (hphase.trans hw) hI

theorem Tracks.goes (hx : Tracks I x) (hv : x.reads v) (hu : I v → I u) :
    Tracks I ⟨some u, x.phase.or (some v)⟩ where
  mends w hw hI u' hu' := by
    rw [← Option.some.inj hu']
    exact hu (hx.begun hv w hw hI)
  closed := by cases x.phase <;> simp

theorem tracks_closed : Tracks I (⟨none, none⟩ : Local σ (Option σ)) := ⟨by simp, by simp⟩

theorem Prog.obeys_keeper (happ : ∀ u v, I v → I (app u v)) (p : Prog σ W Q R ε α) (hx : Tracks I x) :
    p.obeys app (keeper W Q R I steady) (fun _ => Tracks I) (fun _ _ => True) x := by
  induction p generalizing x with
  | ret a => exact hx
  | raise e => trivial
  | read k ih => exact fun v hv => ⟨fun _ => hx.read hv, ih v (hx.goes hv id)⟩
  | write u k ih => exact fun v hv => ⟨trivial, ih (hx.goes hv (happ u v))⟩
  | commit k ih => exact fun v hv => ⟨hx.read hv, ih tracks_closed⟩
  | call q k ih => exact ⟨trivial, fun r => ⟨trivial, ih r hx⟩⟩

end

section

variable {S : System σ W Q R ε α T} {I : σ → Prop} {steady : T → Prop} {s v : σ} {h : List (Move σ W Q R ε α T)}
  {m m' : Machine σ W Q R ε α T} {mv : Move σ W Q R ε α T} {i : Nat}

theorem openedBy_effect {t : T} {e : Effect σ W Q R} :
    openedBy i (h ++ [⟨i, t, .effect e⟩]) = opened (openedBy i h) e := by
  simp [openedBy, effectsOf, List.filterMap_append]

theorem openedBy_other (hi : mv.who ≠ i) : openedBy i (h ++ [mv]) = openedBy i h := by
  rw [openedBy, effectsOf_other hi, openedBy]

/-- What is known between the steps of a run. -/
structure Between (I : σ → Prop) (h : List (Move σ W Q R ε α T)) (m : Machine σ W Q R ε α T) : Prop where
  store : I m.store
  closed : ∀ i t p, m.proc i = .live t p → (m.view i = none ↔ openedBy i h = none)
  began : ∀ i t p, m.proc i = .live t p → ∀ w ∈ openedBy i h, I w

theorem Between.of_self (hm : Between I h m) (hstep : Step S m mv m') (hstore : I m'.store)
    (hself : ∀ t p, m'.proc mv.who = .live t p → (m'.view mv.who = none ↔ openedBy mv.who (h ++ [mv]) = none) ∧
      ∀ w ∈ openedBy mv.who (h ++ [mv]), I w) : Between I (h ++ [mv]) m' := by
  have hother : ∀ j, j ≠ mv.who → m'.proc j = m.proc j ∧ m'.view j = m.view j ∧ openedBy j (h ++ [mv]) = openedBy j h :=
    fun j hj => ⟨hstep.task_after.2 j hj, hstep.view_of_ne hj, openedBy_other (Ne.symm hj)⟩
  refine ⟨hstore, ?_, ?_⟩
  · intro j t p hj
    by_cases hji : j = mv.who
    · subst hji
      exact (hself t p hj).1
    · obtain ⟨hproc, hview, hopened⟩ := hother j hji
      rw [hview, hopened]
      exact hm.closed j t p (hproc ▸ hj)
  · intro j t p hj
    by_cases hji : j = mv.who
    · subst hji
      exact (hself t p hj).2
    · obtain ⟨hproc, hview, hopened⟩ := hother j hji
      rw [hopened]
      exact hm.began j t p (hproc ▸ hj)

theorem Between.sees (hm : Between I h m) {t : T} {p : Prog σ W Q R ε α} (hi : m.proc i = .live t p)
    (hv : m.sees i = some v) (hmends : ∀ w ∈ openedBy i h, I w → I v) : I v := by
  cases hopened : openedBy i h with
  | none =>
    obtain ⟨-, rfl⟩ := Machine.sees_store ((hm.closed i t p hi).mpr hopened) hv
    exact hm.store
  | some w => exact hmends w hopened (hm.began i t p hi w hopened)

theorem Between.opens (hm : Between I h m) {t : T} {p : Prog σ W Q R ε α} (hi : m.proc i = .live t p)
    (hv : m.sees i = some v) : ∀ w ∈ (openedBy i h).or (some v), I w := by
  intro w hw
  cases hopened : openedBy i h with
  | none =>
    rw [hopened, Option.none_or] at hw
    obtain ⟨-, hstore⟩ := Machine.sees_store ((hm.closed i t p hi).mpr hopened) hv
    rw [← Option.some.inj hw, hstore]
    exact hm.store
  | some u =>
    rw [hopened, Option.some_or] at hw
    exact hm.began i t p hi w (hopened.trans hw)

/-- If every transaction that begins where `I` holds commits where it holds, `I` holds of
the store all along a run. -/
theorem Run.between (hbody : ∀ t, (S.body t).obeys S.app (keeper W Q R I (steady t)) (fun _ => Tracks I)
      (fun _ _ => True) ⟨none, none⟩)
    (hstart : ∀ t v v', S.start t v = some v' → I v → I v') (hfinish : ∀ t o v, I v → I (S.finish t o v))
    (hs : I s) (hrun : Run S s h m) : Between I h m := by
  induction hrun with
  | nil => exact ⟨hs, by simp [Machine.initial], by simp [Machine.initial]⟩
  | @step h m mv m' hrun hstep hm =>
    have hobeying := (hrun.obeying (P := fun t => keeper W Q R I (steady t)) hbody).1
    have hnext := hm.of_self hstep
    cases hstep with
    | @start i t s' hi hnone hs' =>
      have hnothing : openedBy i (h ++ [⟨i, t, .start⟩]) = none := by
        have hidle := (hobeying.idle i hi).1
        rw [openedBy, effectsOf_append, hidle]
        rfl
      refine hnext (hstart t _ _ hs' hm.store) fun t' p hp => ?_
      rw [hnothing]
      exact ⟨by simp, by simp⟩
    | @read i t k v hi hv =>
      refine hnext hm.store fun t' p hp => ?_
      rw [openedBy_effect, Machine.view_set_self]
      exact ⟨by simp [opened], hm.opens hi hv⟩
    | @write i t u k v hi hv =>
      refine hnext hm.store fun t' p hp => ?_
      rw [openedBy_effect, Machine.view_set_self]
      exact ⟨by simp [opened], hm.opens hi hv⟩
    | @commit i t k v hi hv =>
      have hk := hobeying.live i t _ hi v (Machine.view_of_sees hv)
      refine hnext (hm.sees hi hv hk.1) fun t' p hp => ?_
      rw [openedBy_effect]
      exact ⟨by simp [opened], by simp [opened]⟩
    | @call i t q k r hi =>
      refine hnext hm.store fun t' p hp => ?_
      rw [openedBy_effect]
      exact ⟨hm.closed i t _ hi, hm.began i t _ hi⟩
    | lost hi hv => exact hnext (hfinish _ _ _ hm.store) (by simp)
    | @ret i t a v hi hv =>
      have htracks : Tracks I ⟨m.view i, openedBy i h⟩ := hobeying.live i t _ hi
      have hI := hm.sees hi hv (htracks.read (Machine.view_of_sees hv))
      exact hnext (hfinish _ _ _ hI) (by simp)
    | raise hi hv => exact hnext (hfinish _ _ _ hm.store) (by simp)
    | cut hi hv => exact hnext (hfinish _ _ _ hm.store) (by simp)

theorem Run.reads_between (hbody : ∀ t, (S.body t).obeys S.app (keeper W Q R I (steady t)) (fun _ => Tracks I)
      (fun _ _ => True) ⟨none, none⟩)
    (hstart : ∀ t v v', S.start t v = some v' → I v → I v') (hfinish : ∀ t o v, I v → I (S.finish t o v))
    (hs : I s) (hrun : Run S s h m) (hmv : mv ∈ h) (hsteady : steady mv.task) (hlabel : mv.label = .effect (.read v)) :
    I v := by
  obtain ⟨before, after, rfl⟩ := List.append_of_mem hmv
  have hallows := (hrun.obeying (P := fun t => keeper W Q R I (steady t)) hbody).2 before mv after _ rfl hlabel
  obtain ⟨m₁, m₂, hbefore, hstep⟩ := hrun.split
  have hbetween := hbefore.between hbody hstart hfinish hs
  cases hstep with
  | read hi hv =>
    obtain ⟨rfl⟩ := hlabel
    exact hbetween.sees hi hv (hallows hsteady)
  | _ => cases hlabel

end

end Tx
