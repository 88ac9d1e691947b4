import Mathlib.Logic.Function.Basic
import PropzaAmlak.Tx.Execution

/-! Several callers that run programs over one store. Transactions that touch the
store run one at a time; between them, and during calls, any other caller may
run. -/

namespace Tx

variable {σ W Q R ε α β ι τ T : Type}

/-- What one step of a program does, with the store it was done on. A call
without reply is one the caller did not live to see answered. -/
inductive Effect (σ W Q R : Type) where
  | read (v : σ)
  | write (v : σ) (u : W)
  | commit (v : σ)
  | call (q : Q) (r : Option R)

/-- The tasks callers run: what taking one up does to the store, if it can be
taken up, its program, and what is recorded of its end. -/
structure System (σ W Q R ε α T : Type) where
  app : W → σ → σ
  start : T → σ → Option σ
  body : T → Prog σ W Q R ε α
  finish : T → Outcome ε α → σ → σ

inductive Proc (σ W Q R ε α T : Type) where
  | idle
  | live (t : T) (p : Prog σ W Q R ε α)
  | ended (t : T) (o : Outcome ε α)

/-- The committed store, the caller whose transaction is open with the store as
it sees it, and the callers. -/
structure Machine (σ W Q R ε α T : Type) where
  store : σ
  holder : Option (Nat × σ)
  proc : Nat → Proc σ W Q R ε α T

namespace Machine

def initial (s : σ) : Machine σ W Q R ε α T := ⟨s, none, fun _ => .idle⟩

/-- What caller `i` reads; nothing while another one's transaction is open. -/
def sees (m : Machine σ W Q R ε α T) (i : Nat) : Option σ :=
  match m.holder with
  | none => some m.store
  | some (j, v) => if j = i then some v else none

/-- The open transaction of caller `i`. -/
def view (m : Machine σ W Q R ε α T) (i : Nat) : Option σ :=
  match m.holder with
  | none => none
  | some (j, v) => if j = i then some v else none

def set (m : Machine σ W Q R ε α T) (i : Nat) (pr : Proc σ W Q R ε α T) (s : σ)
    (holder : Option (Nat × σ)) : Machine σ W Q R ε α T :=
  ⟨s, holder, Function.update m.proc i pr⟩

variable {m : Machine σ W Q R ε α T} {i j : Nat} {pr : Proc σ W Q R ε α T} {s v : σ}

@[simp] theorem set_proc_self {holder : Option (Nat × σ)} : (m.set i pr s holder).proc i = pr := by
  simp [set]

@[simp] theorem set_proc_of_ne {holder : Option (Nat × σ)} (hji : j ≠ i) :
    (m.set i pr s holder).proc j = m.proc j := by
  simp [set, hji]

@[simp] theorem view_set_none : (m.set i pr s none).view j = none := rfl

@[simp] theorem view_set_self : (m.set i pr s (some (i, v))).view i = some v := by
  simp [view, set]

theorem view_of_sees (hv : m.sees i = some v) : ∀ w ∈ m.view i, w = v := by
  intro w hw
  cases hh : m.holder with
  | none => simp [view, hh] at hw
  | some a =>
    obtain ⟨k, u⟩ := a
    by_cases hk : k = i
    · simp only [sees, view, hh, hk, if_true, Option.some.injEq, Option.mem_def] at hv hw
      rw [← hw, hv]
    · simp [sees, hh, hk] at hv

/-- Outside a transaction a caller sees what is committed. -/
theorem sees_store (hview : m.view i = none) (hv : m.sees i = some v) : m.holder = none ∧ v = m.store := by
  cases hh : m.holder with
  | none =>
    simp only [sees, hh, Option.some.injEq] at hv
    exact ⟨rfl, hv.symm⟩
  | some a =>
    obtain ⟨k, u⟩ := a
    by_cases hk : k = i
    · simp [view, hh, hk] at hview
    · simp [sees, hh, hk] at hv

/-- While `i` can touch the store no other transaction is open. -/
theorem view_of_sees_ne (hv : m.sees i = some v) (hji : j ≠ i) : m.view j = none := by
  cases hh : m.holder with
  | none => simp [view, hh]
  | some a =>
    obtain ⟨k, u⟩ := a
    by_cases hk : k = i
    · have hne : k ≠ j := fun h => hji (h ▸ hk)
      simp [view, hh, hne]
    · simp [sees, hh, hk] at hv

theorem view_set_of_ne (hji : j ≠ i) : (m.set i pr s (some (i, v))).view j = none := by
  simp [view, set, Ne.symm hji]

end Machine

inductive Label (σ W Q R ε α : Type) where
  | start
  | effect (e : Effect σ W Q R)
  | finish (o : Outcome ε α) (v : σ)

/-- A step of caller `who`, on behalf of `task`. -/
structure Move (σ W Q R ε α T : Type) where
  who : Nat
  task : T
  label : Label σ W Q R ε α

/-- A caller that returns commits; one that raises or dies is rolled back. -/
inductive Step (S : System σ W Q R ε α T) : Machine σ W Q R ε α T → Move σ W Q R ε α T →
    Machine σ W Q R ε α T → Prop where
  | start {m i t s} (hi : m.proc i = .idle) (hm : m.holder = none) (hs : S.start t m.store = some s) :
      Step S m ⟨i, t, .start⟩ (m.set i (.live t (S.body t)) s none)
  | read {m i t k v} (hi : m.proc i = .live t (.read k)) (hv : m.sees i = some v) :
      Step S m ⟨i, t, .effect (.read v)⟩ (m.set i (.live t (k v)) m.store (some (i, v)))
  | write {m i t u k v} (hi : m.proc i = .live t (.write u k)) (hv : m.sees i = some v) :
      Step S m ⟨i, t, .effect (.write v u)⟩ (m.set i (.live t k) m.store (some (i, S.app u v)))
  | commit {m i t k v} (hi : m.proc i = .live t (.commit k)) (hv : m.sees i = some v) :
      Step S m ⟨i, t, .effect (.commit v)⟩ (m.set i (.live t k) v none)
  | call {m i t q k} (r : R) (hi : m.proc i = .live t (.call q k)) :
      Step S m ⟨i, t, .effect (.call q (some r))⟩ (m.set i (.live t (k r)) m.store m.holder)
  | lost {m i t q k v} (hi : m.proc i = .live t (.call q k)) (hv : m.sees i = some v) :
      Step S m ⟨i, t, .effect (.call q none)⟩ (m.set i (.ended t .cut) (S.finish t .cut m.store) none)
  | ret {m i t a v} (hi : m.proc i = .live t (.ret a)) (hv : m.sees i = some v) :
      Step S m ⟨i, t, .finish (.ret a) v⟩
        (m.set i (.ended t (.ret a)) (S.finish t (.ret a) v) none)
  | raise {m i t e v} (hi : m.proc i = .live t (.raise e)) (hv : m.sees i = some v) :
      Step S m ⟨i, t, .finish (.raise e) m.store⟩
        (m.set i (.ended t (.raise e)) (S.finish t (.raise e) m.store) none)
  | cut {m i t p v} (hi : m.proc i = .live t p) (hv : m.sees i = some v) :
      Step S m ⟨i, t, .finish .cut m.store⟩ (m.set i (.ended t .cut) (S.finish t .cut m.store) none)

inductive Run (S : System σ W Q R ε α T) (s : σ) :
    List (Move σ W Q R ε α T) → Machine σ W Q R ε α T → Prop where
  | nil : Run S s [] (.initial s)
  | step {h m mv m'} (hrun : Run S s h m) (hstep : Step S m mv m') : Run S s (h ++ [mv]) m'

/-- What a caller may do, by the phase its own effects have brought it to. -/
structure Protocol (σ W Q R τ : Type) where
  init : τ
  allows : τ → Effect σ W Q R → Prop
  next : τ → Effect σ W Q R → τ

/-- The open transaction of one caller, if any, and its phase. -/
structure Local (σ τ : Type) where
  view : Option σ
  phase : τ

/-- Inside a transaction a caller reads its own store, at its start any. -/
def Local.reads (x : Local σ τ) (v : σ) : Prop := ∀ w ∈ x.view, w = v

section

variable (app : W → σ → σ) (P : Protocol σ W Q R τ)

/-- The program keeps to the protocol whatever others commit between its
transactions; `N` and `E` are where it ends. -/
def Prog.obeys : Prog σ W Q R ε α → (α → Local σ τ → Prop) → (ε → Local σ τ → Prop) →
    Local σ τ → Prop
  | .ret a, N, _, x => N a x
  | .raise e, _, E, x => E e x
  | .read k, N, E, x => ∀ v, x.reads v → P.allows x.phase (.read v) ∧
    (k v).obeys N E ⟨some v, P.next x.phase (.read v)⟩
  | .write u k, N, E, x => ∀ v, x.reads v → P.allows x.phase (.write v u) ∧
    k.obeys N E ⟨some (app u v), P.next x.phase (.write v u)⟩
  | .commit k, N, E, x => ∀ v, x.reads v → P.allows x.phase (.commit v) ∧
    k.obeys N E ⟨none, P.next x.phase (.commit v)⟩
  | .call q k, N, E, x => P.allows x.phase (.call q none) ∧
    ∀ r, P.allows x.phase (.call q (some r)) ∧ (k r).obeys N E ⟨x.view, P.next x.phase (.call q (some r))⟩

end

variable {app : W → σ → σ} {P : Protocol σ W Q R τ} {x : Local σ τ} {E : ε → Local σ τ → Prop}

theorem Prog.obeys_mono {p : Prog σ W Q R ε α} {N N' : α → Local σ τ → Prop}
    {E E' : ε → Local σ τ → Prop} (hN : ∀ a y, N a y → N' a y) (hE : ∀ e y, E e y → E' e y)
    (h : p.obeys app P N E x) : p.obeys app P N' E' x := by
  induction p generalizing x with
  | ret a => exact hN a x h
  | raise e => exact hE e x h
  | read k ih => exact fun v hv => ⟨(h v hv).1, ih v (h v hv).2⟩
  | write u k ih => exact fun v hv => ⟨(h v hv).1, ih (h v hv).2⟩
  | commit k ih => exact fun v hv => ⟨(h v hv).1, ih (h v hv).2⟩
  | call q k ih => exact ⟨h.1, fun r => ⟨(h.2 r).1, ih r (h.2 r).2⟩⟩

theorem Prog.obeys_bind {p : Prog σ W Q R ε α} {f : α → Prog σ W Q R ε β}
    {N : β → Local σ τ → Prop} :
    (p >>= f).obeys app P N E x ↔ p.obeys app P (fun a y => (f a).obeys app P N E y) E x := by
  induction p generalizing x with
  | ret a => exact Iff.rfl
  | raise e => exact Iff.rfl
  | read k ih => exact forall_congr' fun v => imp_congr_right fun _ => and_congr_right fun _ => ih v
  | write u k ih => exact forall_congr' fun v => imp_congr_right fun _ => and_congr_right fun _ => ih
  | commit k ih => exact forall_congr' fun v => imp_congr_right fun _ => and_congr_right fun _ => ih
  | call q k ih =>
    exact and_congr_right fun _ => forall_congr' fun r => and_congr_right fun _ => ih r

theorem Prog.obeys_tryCatch {p : Prog σ W Q R ε α} {f : ε → Prog σ W Q R ε α}
    {N : α → Local σ τ → Prop} :
    (p.tryCatch f).obeys app P N E x ↔ p.obeys app P N (fun e y => (f e).obeys app P N E y) x := by
  induction p generalizing x with
  | ret a => exact Iff.rfl
  | raise e => exact Iff.rfl
  | read k ih => exact forall_congr' fun v => imp_congr_right fun _ => and_congr_right fun _ => ih v
  | write u k ih => exact forall_congr' fun v => imp_congr_right fun _ => and_congr_right fun _ => ih
  | commit k ih => exact forall_congr' fun v => imp_congr_right fun _ => and_congr_right fun _ => ih
  | call q k ih =>
    exact and_congr_right fun _ => forall_congr' fun r => and_congr_right fun _ => ih r

theorem Prog.obeys_attempt {ε' : Type} {p : Prog σ W Q R ε α} {N : Except ε α → Local σ τ → Prop}
    {E : ε' → Local σ τ → Prop} : (p.attempt : Prog σ W Q R ε' (Except ε α)).obeys app P N E x ↔
      p.obeys app P (fun a y => N (.ok a) y) (fun e y => N (.error e) y) x := by
  induction p generalizing x with
  | ret a => exact Iff.rfl
  | raise e => exact Iff.rfl
  | read k ih => exact forall_congr' fun v => imp_congr_right fun _ => and_congr_right fun _ => ih v
  | write u k ih => exact forall_congr' fun v => imp_congr_right fun _ => and_congr_right fun _ => ih
  | commit k ih => exact forall_congr' fun v => imp_congr_right fun _ => and_congr_right fun _ => ih
  | call q k ih =>
    exact and_congr_right fun _ => forall_congr' fun r => and_congr_right fun _ => ih r

section

variable {N : σ → Local σ τ → Prop} {M : Unit → Local σ τ → Prop}

@[simp] theorem Prog.obeys_ret {a : α} {N : α → Local σ τ → Prop} :
    (ret a : Prog σ W Q R ε α).obeys app P N E x ↔ N a x := Iff.rfl

@[simp] theorem Prog.obeys_raise {e : ε} {N : α → Local σ τ → Prop} :
    (raise e : Prog σ W Q R ε α).obeys app P N E x ↔ E e x := Iff.rfl

@[simp] theorem Prog.obeys_get : (get : Prog σ W Q R ε σ).obeys app P N E x ↔
    ∀ v, x.reads v → P.allows x.phase (.read v) ∧ N v ⟨some v, P.next x.phase (.read v)⟩ := Iff.rfl

@[simp] theorem Prog.obeys_put {u : W} : (put u : Prog σ W Q R ε Unit).obeys app P M E x ↔
    ∀ v, x.reads v → P.allows x.phase (.write v u) ∧
      M () ⟨some (app u v), P.next x.phase (.write v u)⟩ := Iff.rfl

@[simp] theorem Prog.obeys_commitNow : (commitNow : Prog σ W Q R ε Unit).obeys app P M E x ↔
    ∀ v, x.reads v → P.allows x.phase (.commit v) ∧ M () ⟨none, P.next x.phase (.commit v)⟩ := Iff.rfl

@[simp] theorem Prog.obeys_request {q : Q} {N : R → Local σ τ → Prop} :
    (request q : Prog σ W Q R ε R).obeys app P N E x ↔ P.allows x.phase (.call q none) ∧
      ∀ r, P.allows x.phase (.call q (some r)) ∧ N r ⟨x.view, P.next x.phase (.call q (some r))⟩ :=
  Iff.rfl

end

/-- Where the protocol allows everything and never leaves, every program keeps to it. -/
theorem Prog.obeys_free {p : Prog σ W Q R ε α} {I : τ → Prop}
    (hI : ∀ t e, I t → P.allows t e ∧ I (P.next t e)) (hx : I x.phase) :
    p.obeys app P (fun _ _ => True) (fun _ _ => True) x := by
  induction p generalizing x with
  | ret a => exact trivial
  | raise e => exact trivial
  | read k ih => exact fun v _ => ⟨(hI _ _ hx).1, ih v (hI _ _ hx).2⟩
  | write u k ih => exact fun v _ => ⟨(hI _ _ hx).1, ih (hI _ _ hx).2⟩
  | commit k ih => exact fun v _ => ⟨(hI _ _ hx).1, ih (hI _ _ hx).2⟩
  | call q k ih => exact ⟨(hI _ _ hx).1, fun r => ⟨(hI _ _ hx).1, ih r (hI _ _ hx).2⟩⟩

/-- A program of which every effect is allowed in the phases `I` and leads to one
of them. -/
def Prog.within (app : W → σ → σ) (P : Protocol σ W Q R τ) (I : τ → Prop) (p : Prog σ W Q R ε α) :
    Prop :=
  ∀ x : Local σ τ, I x.phase → p.obeys app P (fun _ y => I y.phase) (fun _ y => I y.phase) x

theorem Prog.within_bind {p : Prog σ W Q R ε α} {f : α → Prog σ W Q R ε β} {I : τ → Prop}
    (hp : p.within app P I) (hf : ∀ a, (f a).within app P I) : (p >>= f).within app P I := by
  intro x hx
  rw [obeys_bind]
  exact obeys_mono (fun a y hy => hf a y hy) (fun _ _ h => h) (hp x hx)

theorem Prog.within_tryCatch {p : Prog σ W Q R ε α} {f : ε → Prog σ W Q R ε α} {I : τ → Prop}
    (hp : p.within app P I) (hf : ∀ e, (f e).within app P I) : (p.tryCatch f).within app P I := by
  intro x hx
  rw [obeys_tryCatch]
  exact obeys_mono (fun _ _ h => h) (fun e y hy => hf e y hy) (hp x hx)

theorem Prog.within_forEach {body : ι → Prog σ W Q R ε Unit} {I : τ → Prop}
    (hbody : ∀ i, (body i).within app P I) (xs : List ι) : (forEach xs body).within app P I := by
  induction xs with
  | nil => exact fun x hx => hx
  | cons i xs ih => exact within_bind (hbody i) fun _ => ih

theorem Prog.within_ofExcept {I : τ → Prop} (v : Except ε α) :
    (ofExcept v : Prog σ W Q R ε α).within app P I := by
  intro x hx
  cases v <;> exact hx

/-- The same program on a part of a larger store. -/
def Prog.zoom {σ' W' : Type} (part : σ' → σ) (whole : W → W') :
    Prog σ W Q R ε α → Prog σ' W' Q R ε α
  | .ret a => .ret a
  | .raise e => .raise e
  | .read k => .read fun s => (k (part s)).zoom part whole
  | .write u k => .write (whole u) (k.zoom part whole)
  | .commit k => .commit (k.zoom part whole)
  | .call q k => .call q fun r => (k r).zoom part whole

section

variable {σ' W' : Type} {sub : σ' → σ} {emb : W → W'}

/-- The effect on the part that an effect on the whole store is. -/
inductive Effect.Zooms (sub : σ' → σ) (emb : W → W') : Effect σ W Q R → Effect σ' W' Q R → Prop where
  | read (v) : Zooms sub emb (.read (sub v)) (.read v)
  | write (v u) : Zooms sub emb (.write (sub v) u) (.write v (emb u))
  | commit (v) : Zooms sub emb (.commit (sub v)) (.commit v)
  | call (q r) : Zooms sub emb (.call q r) (.call q r)

def Local.part (sub : σ' → σ) (x : Local σ' τ) : Local σ τ := ⟨x.view.map sub, x.phase⟩

theorem Local.reads_part {x : Local σ' τ} {v : σ'} (hv : x.reads v) :
    (x.part sub).reads (sub v) := by
  intro w hw
  obtain ⟨v', hv', rfl⟩ := Option.map_eq_some_iff.mp hw
  rw [hv v' hv']

theorem Prog.obeys_zoom {app' : W' → σ' → σ'} {P' : Protocol σ' W' Q R τ}
    (happ : ∀ u v, sub (app' (emb u) v) = app u (sub v))
    (hallows : ∀ {t e e'}, Effect.Zooms sub emb e e' → P.allows t e → P'.allows t e')
    (hnext : ∀ {t e e'}, Effect.Zooms sub emb e e' → P'.next t e' = P.next t e)
    {p : Prog σ W Q R ε α} {N : α → Local σ τ → Prop} {x : Local σ' τ}
    (h : p.obeys app P N E (x.part sub)) :
    (p.zoom sub emb).obeys app' P' (fun a y => N a (y.part sub)) (fun e y => E e (y.part sub)) x := by
  induction p generalizing x with
  | ret a => exact h
  | raise e => exact h
  | read k ih =>
    intro v hv
    have hk := h (sub v) (Local.reads_part hv)
    refine ⟨hallows (.read v) hk.1, ih (sub v) ?_⟩
    rw [hnext (.read v)]
    exact hk.2
  | write u k ih =>
    intro v hv
    have hk := h (sub v) (Local.reads_part hv)
    refine ⟨hallows (.write v u) hk.1, ih ?_⟩
    rw [hnext (.write v u), Local.part, Option.map_some, happ]
    exact hk.2
  | commit k ih =>
    intro v hv
    have hk := h (sub v) (Local.reads_part hv)
    refine ⟨hallows (.commit v) hk.1, ih ?_⟩
    rw [hnext (.commit v)]
    exact hk.2
  | call q k ih =>
    refine ⟨hallows (.call q none) h.1, fun r => ?_⟩
    have hk := h.2 r
    refine ⟨hallows (.call q (some r)) hk.1, ih r ?_⟩
    rw [hnext (.call q (some r))]
    exact hk.2

end

/-- A program that keeps to one protocol keeps to another, if that allows as much in the
phases that correspond. -/
theorem Prog.obeys_simulated {τ' : Type} {P' : Protocol σ W Q R τ'} {Rel : τ → τ' → Prop}
    (hRel : ∀ {t t' e}, Rel t t' → P.allows t e → P'.allows t' e ∧ Rel (P.next t e) (P'.next t' e))
    {p : Prog σ W Q R ε α} {N : α → Local σ τ → Prop} {v : Option σ} {t : τ} {t' : τ'}
    (h : p.obeys app P N E ⟨v, t⟩) (ht : Rel t t') :
    p.obeys app P' (fun _ _ => True) (fun _ _ => True) ⟨v, t'⟩ := by
  induction p generalizing v t t' with
  | ret a => trivial
  | raise e => trivial
  | read k ih =>
    intro u hu
    obtain ⟨hallows, hnext⟩ := hRel ht (h u hu).1
    exact ⟨hallows, ih u (h u hu).2 hnext⟩
  | write w k ih =>
    intro u hu
    obtain ⟨hallows, hnext⟩ := hRel ht (h u hu).1
    exact ⟨hallows, ih (h u hu).2 hnext⟩
  | commit k ih =>
    intro u hu
    obtain ⟨hallows, hnext⟩ := hRel ht (h u hu).1
    exact ⟨hallows, ih (h u hu).2 hnext⟩
  | call q k ih =>
    refine ⟨(hRel ht h.1).1, fun r => ?_⟩
    obtain ⟨hallows, hnext⟩ := hRel ht (h.2 r).1
    exact ⟨hallows, ih r (h.2 r).2 hnext⟩

section

variable {S : System σ W Q R ε α T} {s : σ} {h : List (Move σ W Q R ε α T)}
  {m m' : Machine σ W Q R ε α T} {mv : Move σ W Q R ε α T}

/-- What caller `i` did in a run. -/
def effectsOf (i : Nat) (h : List (Move σ W Q R ε α T)) : List (Effect σ W Q R) :=
  h.filterMap fun mv =>
    match mv.label with
    | .effect e => if mv.who = i then some e else none
    | _ => none

@[simp] theorem effectsOf_append {i : Nat} (h h' : List (Move σ W Q R ε α T)) :
    effectsOf i (h ++ h') = effectsOf i h ++ effectsOf i h' := by
  simp [effectsOf]

theorem mem_effectsOf {i : Nat} {e : Effect σ W Q R} (he : e ∈ effectsOf i h) :
    ∃ mv ∈ h, mv.who = i ∧ mv.label = .effect e := by
  obtain ⟨mv, hmv, hlabel⟩ := List.mem_filterMap.mp he
  refine ⟨mv, hmv, ?_⟩
  cases hl : mv.label with
  | effect e' =>
    simp only [hl] at hlabel
    split at hlabel
    · rename_i hwho
      exact ⟨hwho, congrArg Label.effect (Option.some.inj hlabel)⟩
    · cases hlabel
  | _ =>
    rw [hl] at hlabel
    cases hlabel

def Protocol.phaseOf (P : Protocol σ W Q R τ) (i : Nat) (h : List (Move σ W Q R ε α T)) : τ :=
  (effectsOf i h).foldl P.next P.init

theorem effectsOf_other {i : Nat} (hi : mv.who ≠ i) : effectsOf i (h ++ [mv]) = effectsOf i h := by
  obtain ⟨who, t, label⟩ := mv
  cases label <;> simp [effectsOf, List.filterMap_append, hi]

theorem Protocol.phaseOf_other {i : Nat} (hi : mv.who ≠ i) :
    P.phaseOf i (h ++ [mv]) = P.phaseOf i h := by
  rw [phaseOf, phaseOf, effectsOf_other hi]

theorem Protocol.phaseOf_effect {i : Nat} {t : T} {e : Effect σ W Q R} :
    P.phaseOf i (h ++ [⟨i, t, .effect e⟩]) = P.next (P.phaseOf i h) e := by
  simp [phaseOf, effectsOf, List.filterMap_append]

theorem Protocol.phaseOf_start {i : Nat} {t : T} :
    P.phaseOf i (h ++ [⟨i, t, .start⟩]) = P.phaseOf i h := by
  simp [phaseOf, effectsOf, List.filterMap_append]

theorem Protocol.phaseOf_of_effect {e : Effect σ W Q R} (hlabel : mv.label = .effect e) :
    P.phaseOf mv.who (h ++ [mv]) = P.next (P.phaseOf mv.who h) e := by
  have hmv : mv = ⟨mv.who, mv.task, .effect e⟩ := by rw [← hlabel]
  rw [← P.phaseOf_effect (t := mv.task), ← hmv]

theorem Protocol.phaseOf_of_finish {o : Outcome ε α} {v : σ} (hlabel : mv.label = .finish o v) :
    P.phaseOf mv.who (h ++ [mv]) = P.phaseOf mv.who h := by
  simp [phaseOf, effectsOf, List.filterMap_append, hlabel]

/-- A step leaves the transactions of the other callers as they are. -/
theorem Step.view_of_ne (hstep : Step S m mv m') {j : Nat} (hj : j ≠ mv.who) : m'.view j = m.view j := by
  have hclosed : ∀ {v pr s'}, m.sees mv.who = some v → (m.set mv.who pr s' none).view j = m.view j :=
    fun hv => (Machine.view_of_sees_ne hv hj).symm
  have hopen : ∀ {v w pr s'}, m.sees mv.who = some v →
      (m.set mv.who pr s' (some (mv.who, w))).view j = m.view j :=
    fun hv => (Machine.view_set_of_ne hj).trans (Machine.view_of_sees_ne hv hj).symm
  cases hstep with
  | start hi hm hs => simp [Machine.view, Machine.set, hm]
  | read hi hv => exact hopen hv
  | write hi hv => exact hopen hv
  | commit hi hv => exact hclosed hv
  | call r hi => rfl
  | lost hi hv => exact hclosed hv
  | ret hi hv => exact hclosed hv
  | raise hi hv => exact hclosed hv
  | cut hi hv => exact hclosed hv

/-- No other transaction is open when a caller commits. -/
theorem Step.commit_alone (hstep : Step S m mv m') {v : σ} (hcommit : mv.label = .effect (.commit v))
    {j : Nat} (hj : j ≠ mv.who) : m.view j = none := by
  cases hstep with
  | commit hi hv => exact Machine.view_of_sees_ne hv hj
  | _ => cases hcommit

/-- After the step the caller does nothing more. -/
def Label.ends : Label σ W Q R ε α → Bool
  | .effect (.call _ none) => true
  | .finish _ _ => true
  | _ => false

def ended (i : Nat) (h : List (Move σ W Q R ε α T)) : Prop := ∃ mv ∈ h, mv.who = i ∧ mv.label.ends

theorem ended_other {i : Nat} (hi : mv.who ≠ i) : ended i (h ++ [mv]) ↔ ended i h := by
  constructor
  · rintro ⟨mv', hmv', hwho, hends⟩
    rcases List.mem_append.mp hmv' with hold | hnew
    · exact ⟨mv', hold, hwho, hends⟩
    · rw [List.mem_singleton.mp hnew] at hwho
      exact absurd hwho hi
  · rintro ⟨mv', hmv', hwho, hends⟩
    exact ⟨mv', List.mem_append_left _ hmv', hwho, hends⟩

/-- What a run knows of its callers: the idle ones did nothing, and what the live
ones have left to do keeps to their protocols. -/
structure Obeying (S : System σ W Q R ε α T) (P : T → Protocol σ W Q R τ)
    (N : T → α → Local σ τ → Prop) (E : T → ε → Local σ τ → Prop)
    (h : List (Move σ W Q R ε α T)) (m : Machine σ W Q R ε α T) : Prop where
  idle : ∀ i, m.proc i = .idle → effectsOf i h = [] ∧ m.view i = none
  live : ∀ i t p, m.proc i = .live t p →
    p.obeys S.app (P t) (N t) (E t) ⟨m.view i, (P t).phaseOf i h⟩

variable {P : T → Protocol σ W Q R τ} {N : T → α → Local σ τ → Prop} {E : T → ε → Local σ τ → Prop}

/-- A step of one caller keeps what is known of the others. -/
theorem Obeying.of_self (hm : Obeying S P N E h m) {i : Nat} {pr : Proc σ W Q R ε α T} {s' : σ}
    {holder : Option (Nat × σ)} (hwho : mv.who = i) (hstep : Step S m mv (m.set i pr s' holder))
    (hpr : pr ≠ .idle) (hlive : ∀ t p, pr = .live t p → p.obeys S.app (P t) (N t) (E t)
      ⟨(m.set i pr s' holder).view i, (P t).phaseOf i (h ++ [mv])⟩) :
    Obeying S P N E (h ++ [mv]) (m.set i pr s' holder) where
  idle j hj := by
    by_cases hji : j = i
    · subst hji
      rw [Machine.set_proc_self] at hj
      exact absurd hj hpr
    · have hne : mv.who ≠ j := fun heq => hji (heq ▸ hwho)
      rw [Machine.set_proc_of_ne hji] at hj
      rw [effectsOf_other hne, hstep.view_of_ne (Ne.symm hne)]
      exact hm.idle j hj
  live j t p hj := by
    by_cases hji : j = i
    · subst hji
      rw [Machine.set_proc_self] at hj
      exact hlive t p hj
    · have hne : mv.who ≠ j := fun heq => hji (heq ▸ hwho)
      rw [Machine.set_proc_of_ne hji] at hj
      rw [Protocol.phaseOf_other hne, hstep.view_of_ne (Ne.symm hne)]
      exact hm.live j t p hj

theorem Obeying.step (hbody : ∀ t, (S.body t).obeys S.app (P t) (N t) (E t) ⟨none, (P t).init⟩)
    (hm : Obeying S P N E h m) (hstep : Step S m mv m') : Obeying S P N E (h ++ [mv]) m' ∧
      ∀ e, mv.label = .effect e → (P mv.task).allows ((P mv.task).phaseOf mv.who h) e := by
  cases hstep with
  | @start i t s' hi hnone hs =>
    refine ⟨hm.of_self rfl (.start hi hnone hs) (by simp) ?_, by simp⟩
    rintro t' p hp
    obtain ⟨rfl, rfl⟩ := Proc.live.inj hp
    rw [Protocol.phaseOf_start, Protocol.phaseOf, (hm.idle i hi).1]
    exact hbody t
  | @read i t k v hi hv =>
    have hk := (hm.live i t _ hi) v (Machine.view_of_sees hv)
    refine ⟨hm.of_self rfl (.read hi hv) (by simp) ?_, ?_⟩
    · rintro t' p hp
      obtain ⟨rfl, rfl⟩ := Proc.live.inj hp
      rw [Machine.view_set_self, Protocol.phaseOf_effect]
      exact hk.2
    · rintro e he
      obtain rfl := Label.effect.inj he
      exact hk.1
  | @write i t u k v hi hv =>
    have hk := (hm.live i t _ hi) v (Machine.view_of_sees hv)
    refine ⟨hm.of_self rfl (.write hi hv) (by simp) ?_, ?_⟩
    · rintro t' p hp
      obtain ⟨rfl, rfl⟩ := Proc.live.inj hp
      rw [Machine.view_set_self, Protocol.phaseOf_effect]
      exact hk.2
    · rintro e he
      obtain rfl := Label.effect.inj he
      exact hk.1
  | @commit i t k v hi hv =>
    have hk := (hm.live i t _ hi) v (Machine.view_of_sees hv)
    refine ⟨hm.of_self rfl (.commit hi hv) (by simp) ?_, ?_⟩
    · rintro t' p hp
      obtain ⟨rfl, rfl⟩ := Proc.live.inj hp
      rw [Machine.view_set_none, Protocol.phaseOf_effect]
      exact hk.2
    · rintro e he
      obtain rfl := Label.effect.inj he
      exact hk.1
  | @call i t q k r hi =>
    have hk := hm.live i t _ hi
    refine ⟨hm.of_self rfl (.call r hi) (by simp) ?_, ?_⟩
    · rintro t' p hp
      obtain ⟨rfl, rfl⟩ := Proc.live.inj hp
      rw [Protocol.phaseOf_effect]
      exact (hk.2 r).2
    · rintro e he
      obtain rfl := Label.effect.inj he
      exact (hk.2 r).1
  | @lost i t q k v hi hv =>
    refine ⟨hm.of_self rfl (.lost hi hv) (by simp) (by simp), ?_⟩
    rintro e he
    obtain rfl := Label.effect.inj he
    exact (hm.live i t _ hi).1
  | ret hi hv => exact ⟨hm.of_self rfl (.ret hi hv) (by simp) (by simp), by simp⟩
  | raise hi hv => exact ⟨hm.of_self rfl (.raise hi hv) (by simp) (by simp), by simp⟩
  | cut hi hv => exact ⟨hm.of_self rfl (.cut hi hv) (by simp) (by simp), by simp⟩

/-- If every task's program keeps to its protocol, all that callers do in a run
does. -/
theorem Run.obeying (hbody : ∀ t, (S.body t).obeys S.app (P t) (N t) (E t) ⟨none, (P t).init⟩)
    (hrun : Run S s h m) : Obeying S P N E h m ∧
      ∀ before mv after e, h = before ++ mv :: after → mv.label = .effect e →
        (P mv.task).allows ((P mv.task).phaseOf mv.who before) e := by
  induction hrun with
  | nil =>
    refine ⟨⟨fun i _ => ⟨rfl, rfl⟩, fun i t p hp => ?_⟩, fun before mv after e hsplit => ?_⟩
    · cases hp
    · simp at hsplit
  | @step h m mv m' hrun hstep ih =>
    have hk := ih.1.step hbody hstep
    refine ⟨hk.1, fun before mv' after e hsplit he => ?_⟩
    rcases List.eq_nil_or_concat after with rfl | ⟨after, last, rfl⟩
    · obtain ⟨rfl, hlast⟩ := List.append_inj' hsplit rfl
      obtain rfl := List.singleton_inj.mp hlast
      exact hk.2 e he
    · have hprefix : h ++ [mv] = (before ++ mv' :: after) ++ [last] := by simpa using hsplit
      obtain ⟨hinit, -⟩ := List.append_inj' hprefix rfl
      exact ih.2 before mv' after e hinit he

/-- A run up to any of its steps. -/
theorem Run.split {before after : List (Move σ W Q R ε α T)}
    (hrun : Run S s (before ++ mv :: after) m) :
    ∃ m₁ m₂, Run S s before m₁ ∧ Step S m₁ mv m₂ := by
  generalize hh : before ++ mv :: after = h at hrun
  induction hrun generalizing after with
  | nil => simp at hh
  | @step h m mv' m' hrun hstep ih =>
    rcases List.eq_nil_or_concat after with rfl | ⟨after, last, rfl⟩
    · obtain ⟨rfl, hlast⟩ := List.append_inj' hh rfl
      obtain rfl := List.singleton_inj.mp hlast
      exact ⟨m, m', hrun, hstep⟩
    · have hprefix : (before ++ mv :: after) ++ [last] = h ++ [mv'] := by simpa using hh
      obtain ⟨hinit, -⟩ := List.append_inj' hprefix rfl
      exact ih hinit

theorem Run.upTo {h' : List (Move σ W Q R ε α T)} (hrun : Run S s (h ++ h') m) :
    ∃ m₁, Run S s h m₁ := by
  cases h' with
  | nil => exact ⟨m, by simpa using hrun⟩
  | cons mv after =>
    obtain ⟨m₁, -, hbefore, -⟩ := hrun.split
    exact ⟨m₁, hbefore⟩

/-- A run before its last step. -/
theorem Run.init (hrun : Run S s (h ++ [mv]) m) : ∃ m₁, Run S s h m₁ ∧ Step S m₁ mv m := by
  generalize hh : h ++ [mv] = h' at hrun
  cases hrun with
  | nil => simp at hh
  | @step h₁ m₁ mv₁ m₂ hrun hstep =>
    obtain ⟨rfl, hlast⟩ := List.append_inj' hh rfl
    obtain rfl := List.singleton_inj.mp hlast
    exact ⟨m₁, hrun, hstep⟩

/-- A caller that did nothing has no transaction open. -/
theorem Run.view_none (hrun : Run S s h m) {i : Nat} (hi : effectsOf i h = []) : m.view i = none := by
  induction hrun with
  | nil => rfl
  | @step h m mv m' hrun hstep ih =>
    rw [effectsOf_append, List.append_eq_nil_iff] at hi
    by_cases hwho : mv.who = i
    · subst hwho
      cases hstep with
      | start hidle hm hs => rfl
      | ret hlive hv => rfl
      | raise hlive hv => rfl
      | cut hlive hv => rfl
      | _ => simp [effectsOf] at hi
    · rw [hstep.view_of_ne (Ne.symm hwho)]
      exact ih hi.1

def Proc.task : Proc σ W Q R ε α T → Option T
  | .idle => none
  | .live t _ => some t
  | .ended t _ => some t

theorem Step.task_before (hstep : Step S m mv m') (hstart : mv.label ≠ .start) :
    (m.proc mv.who).task = some mv.task := by
  cases hstep with
  | start => exact absurd rfl hstart
  | read hi hv => simp [hi, Proc.task]
  | write hi hv => simp [hi, Proc.task]
  | commit hi hv => simp [hi, Proc.task]
  | call r hi => simp [hi, Proc.task]
  | lost hi hv => simp [hi, Proc.task]
  | ret hi hv => simp [hi, Proc.task]
  | raise hi hv => simp [hi, Proc.task]
  | cut hi hv => simp [hi, Proc.task]

theorem Step.start_idle (hstep : Step S m mv m') (hstart : mv.label = .start) :
    m.proc mv.who = .idle := by
  cases hstep with
  | start hi => exact hi
  | _ => cases hstart

theorem Step.task_after (hstep : Step S m mv m') :
    (m'.proc mv.who).task = some mv.task ∧ ∀ j, j ≠ mv.who → m'.proc j = m.proc j := by
  cases hstep <;> exact ⟨by simp [Proc.task], fun j hj => Machine.set_proc_of_ne hj⟩

/-- Every caller has one task. -/
theorem Run.task (hrun : Run S s h m) : ∀ mv ∈ h, (m.proc mv.who).task = some mv.task := by
  induction hrun with
  | nil => simp
  | @step h m mv m' hrun hstep ih =>
    intro mv' hmv'
    rcases List.mem_append.mp hmv' with hold | hnew
    · have htask := ih mv' hold
      by_cases hwho : mv'.who = mv.who
      · by_cases hstart : mv.label = .start
        · rw [hwho, hstep.start_idle hstart] at htask
          cases htask
        · have hbefore := hstep.task_before hstart
          rw [← hwho, htask] at hbefore
          rw [hwho, hstep.task_after.1, ← hbefore]
      · rw [hstep.task_after.2 _ hwho, htask]
    · rw [List.mem_singleton.mp hnew]
      exact hstep.task_after.1

/-- Before its start a caller does nothing. -/
theorem Run.before_start {before after : List (Move σ W Q R ε α T)}
    (hrun : Run S s (before ++ mv :: after) m) (hstart : mv.label = .start) :
    ∀ mv' ∈ before, mv'.who ≠ mv.who := by
  intro mv' hmv' hwho
  obtain ⟨m₁, m₂, hbefore, hstep⟩ := hrun.split
  have htask := hbefore.task mv' hmv'
  rw [hwho, hstep.start_idle hstart] at htask
  cases htask

theorem Run.effectsOf_start {before : List (Move σ W Q R ε α T)} {after : List (Move σ W Q R ε α T)}
    (hrun : Run S s (before ++ mv :: after) m) (hstart : mv.label = .start) :
    effectsOf mv.who before = [] := by
  rw [effectsOf, List.filterMap_eq_nil_iff]
  intro mv' hmv'
  have hother : mv'.who ≠ mv.who := hrun.before_start hstart mv' hmv'
  cases hlabel : mv'.label <;> simp [hother]

theorem Run.task_eq (hrun : Run S s h m) {mv mv' : Move σ W Q R ε α T} (hmv : mv ∈ h) (hmv' : mv' ∈ h)
    (hwho : mv.who = mv'.who) : mv.task = mv'.task := by
  have htask := hrun.task mv hmv
  rw [hwho, hrun.task mv' hmv'] at htask
  exact (Option.some.inj htask).symm

theorem Step.effect_live (hstep : Step S m mv m') {e : Effect σ W Q R} (hlabel : mv.label = .effect e) :
    ∃ p, m.proc mv.who = .live mv.task p := by
  cases hstep with
  | read hi hv => exact ⟨_, hi⟩
  | write hi hv => exact ⟨_, hi⟩
  | commit hi hv => exact ⟨_, hi⟩
  | call r hi => exact ⟨_, hi⟩
  | lost hi hv => exact ⟨_, hi⟩
  | _ => cases hlabel

theorem Step.raise_live (hstep : Step S m mv m') {e : ε} {v : σ} (hlabel : mv.label = .finish (.raise e) v) :
    m.proc mv.who = .live mv.task (.raise e) ∧ v = m.store := by
  cases hstep with
  | raise hi hv =>
    cases hlabel
    exact ⟨hi, rfl⟩
  | _ => cases hlabel

/-- A transaction stays open until the caller commits or ends. -/
theorem Step.stays_open (hstep : Step S m mv m') (hview : m.view mv.who ≠ none)
    (hcommit : ∀ v, mv.label ≠ .effect (.commit v)) {t : T} {p : Prog σ W Q R ε α}
    (hlive : m'.proc mv.who = .live t p) : m'.view mv.who ≠ none := by
  cases hstep with
  | start hi hm hs => exact absurd (by simp [Machine.view, hm]) hview
  | read hi hv => simp
  | write hi hv => simp
  | commit hi hv => exact absurd rfl (hcommit _)
  | call r hi => exact hview
  | _ => simp at hlive

theorem Step.opens (hstep : Step S m mv m')
    (hlabel : (∃ v, mv.label = .effect (.read v)) ∨ ∃ v u, mv.label = .effect (.write v u)) :
    m'.view mv.who ≠ none := by
  cases hstep with
  | read hi hv => simp
  | write hi hv => simp
  | _ => simp at hlabel

theorem Step.ends_iff (hstep : Step S m mv m') :
    mv.label.ends ↔ ∃ o, m'.proc mv.who = .ended mv.task o := by
  cases hstep <;> simp [Label.ends]

/-- A live caller has just started, or was live before. -/
theorem Step.live_before (hstep : Step S m mv m') {t : T} {p : Prog σ W Q R ε α}
    (hlive : m'.proc mv.who = .live t p) : mv.label = .start ∨ ∃ p', m.proc mv.who = .live t p' := by
  have htask : mv.task = t := by
    have hafter := hstep.task_after.1
    rw [hlive] at hafter
    exact (Option.some.inj hafter).symm
  cases hlabel : mv.label with
  | start => exact .inl rfl
  | effect e => exact .inr (htask ▸ hstep.effect_live hlabel)
  | finish o v =>
    obtain ⟨o', ho⟩ := hstep.ends_iff.mp (by rw [hlabel]; rfl)
    rw [hlive] at ho
    cases ho

/-- A caller that goes on has not ended. -/
theorem Run.not_ended (hrun : Run S s h m) {i : Nat} (hended : ended i h) :
    ∃ t o, m.proc i = .ended t o := by
  induction hrun with
  | nil =>
    obtain ⟨mv, hmv, -⟩ := hended
    simp at hmv
  | @step h m mv m' hrun hstep ih =>
    by_cases hi : mv.who = i
    · subst hi
      by_cases hends : mv.label.ends
      · obtain ⟨o, ho⟩ := hstep.ends_iff.mp hends
        exact ⟨_, o, ho⟩
      · have hbefore : ended mv.who h := by
          obtain ⟨mv', hmv', hwho, hends'⟩ := hended
          rcases List.mem_append.mp hmv' with hold | hnew
          · exact ⟨mv', hold, hwho, hends'⟩
          · rw [List.mem_singleton.mp hnew] at hends'
            exact absurd hends' hends
        obtain ⟨t, o, ho⟩ := ih hbefore
        cases hstep <;> simp_all
    · rw [ended_other hi] at hended
      obtain ⟨t, o, ho⟩ := ih hended
      exact ⟨t, o, (hstep.task_after.2 i (Ne.symm hi)).trans ho⟩

/-- What holds of the store at first, and is kept by all that was written, holds of
the store and in the open transaction; and `J` holds of all tasks that go on if it does of
those that find such a store when they start. -/
theorem Run.storedBy {I : σ → Prop} {J : T → Prop} (hs : I s)
    (hstart : ∀ t v v', S.start t v = some v' → I v → I v' ∧ J t)
    (hfinish : ∀ t o v, J t → I v → I (S.finish t o v)) (hrun : Run S s h m)
    (hwrite : ∀ mv ∈ h, ∀ v u, mv.label = .effect (.write v u) → J mv.task → I v → I (S.app u v)) :
    (I m.store ∧ ∀ j v, m.holder = some (j, v) → I v) ∧ ∀ j t p, m.proc j = .live t p → J t := by
  induction hrun with
  | nil => exact ⟨⟨hs, by simp [Machine.initial]⟩, by simp [Machine.initial]⟩
  | @step h m mv m' hrun hstep ih =>
    obtain ⟨hm, hlive⟩ := ih fun mv' hmv' => hwrite mv' (List.mem_append_left _ hmv')
    have hsees : ∀ {i v}, m.sees i = some v → I v := by
      intro i v hv
      cases hh : m.holder with
      | none =>
        simp only [Machine.sees, hh, Option.some.injEq] at hv
        exact hv ▸ hm.1
      | some a =>
        obtain ⟨j, u⟩ := a
        by_cases hj : j = i
        · simp only [Machine.sees, hh, hj, if_true, Option.some.injEq] at hv
          exact hv ▸ hm.2 j u hh
        · simp [Machine.sees, hh, hj] at hv
    have hopen : ∀ {i j : Nat} {w v : σ}, I w → some (i, w) = some (j, v) → I v := by
      intro i j w v hw hv
      cases hv
      exact hw
    have hset : ∀ {i : Nat} {pr : Proc σ W Q R ε α T} {s' : σ} {holder : Option (Nat × σ)},
        (∀ t p, pr = .live t p → J t) → ∀ j t p, (m.set i pr s' holder).proc j = .live t p → J t := by
      intro i pr s' holder hpr j t p hj
      by_cases hji : j = i
      · subst hji
        rw [Machine.set_proc_self] at hj
        exact hpr t p hj
      · rw [Machine.set_proc_of_ne hji] at hj
        exact hlive j t p hj
    have hgoes : ∀ {i : Nat} {t : T} {p k : Prog σ W Q R ε α}, m.proc i = .live t p →
        ∀ t' q, Proc.live t k = .live t' q → J t' := by
      intro i t p k hi t' q heq
      cases heq
      exact hlive i t p hi
    cases hstep with
    | @start i t v' hi hnone hs =>
      obtain ⟨hafter, htask⟩ := hstart _ _ _ hs hm.1
      exact ⟨⟨hafter, by simp [Machine.set]⟩, hset fun t' p heq => by cases heq; exact htask⟩
    | read hi hv => exact ⟨⟨hm.1, fun j v hj => hopen (hsees hv) hj⟩, hset (hgoes hi)⟩
    | write hi hv =>
      have hkept := hwrite _ (List.mem_append_right _ (List.mem_singleton_self _)) _ _ rfl (hlive _ _ _ hi) (hsees hv)
      exact ⟨⟨hm.1, fun j v hj => hopen hkept hj⟩, hset (hgoes hi)⟩
    | commit hi hv => exact ⟨⟨hsees hv, by simp [Machine.set]⟩, hset (hgoes hi)⟩
    | call r hi => exact ⟨hm, hset (hgoes hi)⟩
    | lost hi hv =>
      exact ⟨⟨hfinish _ _ _ (hlive _ _ _ hi) hm.1, by simp [Machine.set]⟩, hset fun _ _ heq => by cases heq⟩
    | ret hi hv =>
      exact ⟨⟨hfinish _ _ _ (hlive _ _ _ hi) (hsees hv), by simp [Machine.set]⟩, hset fun _ _ heq => by cases heq⟩
    | raise hi hv =>
      exact ⟨⟨hfinish _ _ _ (hlive _ _ _ hi) hm.1, by simp [Machine.set]⟩, hset fun _ _ heq => by cases heq⟩
    | cut hi hv =>
      exact ⟨⟨hfinish _ _ _ (hlive _ _ _ hi) hm.1, by simp [Machine.set]⟩, hset fun _ _ heq => by cases heq⟩

theorem Run.stored {I : σ → Prop} (hs : I s) (hstart : ∀ t v v', S.start t v = some v' → I v → I v')
    (hfinish : ∀ t o v, I v → I (S.finish t o v)) (hrun : Run S s h m)
    (hwrite : ∀ mv ∈ h, ∀ v u, mv.label = .effect (.write v u) → I v → I (S.app u v)) :
    I m.store ∧ ∀ j v, m.holder = some (j, v) → I v :=
  (hrun.storedBy (J := fun _ => True) hs (fun t v v' hv hs => ⟨hstart t v v' hv hs, trivial⟩)
    (fun t o v _ => hfinish t o v) fun mv hmv v u hlabel _ => hwrite mv hmv v u hlabel).1

/-- What is to happen next: a caller takes up a task, or goes on, with `r` as the
answer if it makes a call. -/
inductive Choice (R T : Type) where
  | start (i : Nat) (t : T)
  | go (i : Nat) (r : R)

def Machine.advance (S : System σ W Q R ε α T) (m : Machine σ W Q R ε α T) :
    Choice R T → Option (Move σ W Q R ε α T × Machine σ W Q R ε α T)
  | .start i t =>
    match m.proc i, m.holder, S.start t m.store with
    | .idle, none, some s => some (⟨i, t, .start⟩, m.set i (.live t (S.body t)) s none)
    | _, _, _ => none
  | .go i r =>
    match m.proc i with
    | .live t (.read k) => (m.sees i).map fun v =>
      (⟨i, t, .effect (.read v)⟩, m.set i (.live t (k v)) m.store (some (i, v)))
    | .live t (.write u k) => (m.sees i).map fun v =>
      (⟨i, t, .effect (.write v u)⟩, m.set i (.live t k) m.store (some (i, S.app u v)))
    | .live t (.commit k) => (m.sees i).map fun v =>
      (⟨i, t, .effect (.commit v)⟩, m.set i (.live t k) v none)
    | .live t (.call q k) =>
      some (⟨i, t, .effect (.call q (some r))⟩, m.set i (.live t (k r)) m.store m.holder)
    | .live t (.ret a) => (m.sees i).map fun v =>
      (⟨i, t, .finish (.ret a) v⟩, m.set i (.ended t (.ret a)) (S.finish t (.ret a) v) none)
    | .live t (.raise e) => (m.sees i).map fun _ =>
      (⟨i, t, .finish (.raise e) m.store⟩,
        m.set i (.ended t (.raise e)) (S.finish t (.raise e) m.store) none)
    | _ => none

theorem Machine.advance_step {c : Choice R T} (hc : m.advance S c = some (mv, m')) :
    Step S m mv m' := by
  cases c with
  | start i t =>
    simp only [advance] at hc
    split at hc
    · rename_i s' hi hnone hs
      cases hc
      exact .start hi hnone hs
    · cases hc
  | go i r =>
    simp only [advance] at hc
    split at hc
    · rename_i t k hi
      obtain ⟨v, hv, hc⟩ := Option.map_eq_some_iff.mp hc
      cases hc
      exact .read hi hv
    · rename_i t u k hi
      obtain ⟨v, hv, hc⟩ := Option.map_eq_some_iff.mp hc
      cases hc
      exact .write hi hv
    · rename_i t k hi
      obtain ⟨v, hv, hc⟩ := Option.map_eq_some_iff.mp hc
      cases hc
      exact .commit hi hv
    · rename_i t q k hi
      cases hc
      exact .call r hi
    · rename_i t a hi
      obtain ⟨v, hv, hc⟩ := Option.map_eq_some_iff.mp hc
      cases hc
      exact .ret hi hv
    · rename_i t e hi
      obtain ⟨v, hv, hc⟩ := Option.map_eq_some_iff.mp hc
      cases hc
      exact .raise hi hv
    · cases hc

/-- The run that makes the given choices, up to the first that cannot be made. -/
def Machine.exec (S : System σ W Q R ε α T) : List (Choice R T) →
    List (Move σ W Q R ε α T) × Machine σ W Q R ε α T →
    List (Move σ W Q R ε α T) × Machine σ W Q R ε α T
  | [], x => x
  | c :: cs, x =>
    match x.2.advance S c with
    | some (mv, m) => exec S cs (x.1 ++ [mv], m)
    | none => x

theorem Machine.exec_run {c : List (Choice R T)} {x : List (Move σ W Q R ε α T) × Machine σ W Q R ε α T}
    (hx : Run S s x.1 x.2) : Run S s (exec S c x).1 (exec S c x).2 := by
  induction c generalizing x with
  | nil => exact hx
  | cons c cs ih =>
    rw [exec]
    cases hc : x.2.advance S c with
    | none => exact hx
    | some y => exact ih (x := (x.1 ++ [y.1], y.2)) (.step hx (Machine.advance_step hc))

/-- What was done before does not matter for what follows. -/
theorem Machine.exec_history {cs : List (Choice R T)} {h : List (Move σ W Q R ε α T)} :
    exec S cs (h, m) = (h ++ (exec S cs ([], m)).1, (exec S cs ([], m)).2) := by
  induction cs generalizing h m with
  | nil => simp [exec]
  | cons c cs ih =>
    rw [exec, exec]
    cases m.advance S c with
    | none => simp
    | some y =>
      dsimp only
      rw [ih, ih (h := [] ++ [y.1]), List.nil_append, List.append_assoc]

/-- A run goes on with the given choices. -/
theorem Run.exec (hrun : Run S s h m) (cs : List (Choice R T)) :
    Run S s (h ++ (Machine.exec S cs ([], m)).1) (Machine.exec S cs ([], m)).2 := by
  have hexec := Machine.exec_run (c := cs) (x := (h, m)) hrun
  rwa [Machine.exec_history] at hexec

end

end Tx
