import PropzaAmlak.Tx.Execution

/-! Weakest preconditions for executions. `Q` holds where the program returns,
`E` where it raises and `C` wherever the process dies. -/

namespace Tx

variable {σ W Q R ε α β ι τ : Type}

section

variable (app : W → σ → σ) (obs : Observer W Q R τ)

def wp : Prog σ W Q R ε α → (α → Session σ τ → Prop) → (ε → Session σ τ → Prop) →
    (Session σ τ → Prop) → Session σ τ → Prop
  | .ret a, N, _, _, x => N a x
  | .raise e, _, E, _, x => E e x
  | .read k, N, E, C, x => wp (k x.working) N E C x
  | .write u k, N, E, C, x =>
    ∀ s, obs x.seen (.write u) s → wp k N E C ⟨x.committed, app u x.working, s⟩
  | .commit k, N, E, C, x =>
    C x ∧ ∀ s, obs x.seen .commit s → wp k N E C ⟨x.working, x.working, s⟩
  | .call q k, N, E, C, x =>
    C x ∧ (∀ r s, obs x.seen (.call q r) s → wp (k r) N E C ⟨x.committed, x.working, s⟩) ∧
      ∀ s, obs x.seen (.lost q) s → C ⟨x.committed, x.working, s⟩

end

variable {app : W → σ → σ} {obs : Observer W Q R τ}

/-- What the three postconditions say of one outcome. -/
def Outcome.meets (N : α → Session σ τ → Prop) (E : ε → Session σ τ → Prop)
    (C : Session σ τ → Prop) : Outcome ε α → Session σ τ → Prop
  | .ret a, y => N a y
  | .raise e, y => E e y
  | .cut, y => C y

theorem wp_sound {p : Prog σ W Q R ε α} {x y : Session σ τ} {o : Outcome ε α}
    {N : α → Session σ τ → Prop} {E : ε → Session σ τ → Prop} {C : Session σ τ → Prop}
    (hp : wp app obs p N E C x) (hx : Exec app obs p x o y) : o.meets N E C y := by
  induction hx with
  | ret a x => exact hp
  | raise e x => exact hp
  | read _ ih => exact ih hp
  | write hs _ ih => exact ih (hp _ hs)
  | commit hs _ ih => exact ih (hp.2 _ hs)
  | call hs _ ih => exact ih (hp.2.1 _ _ hs)
  | lost hs => exact hp.2.2 _ hs
  | cutCommit k x => exact hp.1
  | cutCall q k x => exact hp.1

theorem wp_mono {p : Prog σ W Q R ε α} {x : Session σ τ}
    {N N' : α → Session σ τ → Prop} {E E' : ε → Session σ τ → Prop} {C C' : Session σ τ → Prop}
    (hN : ∀ a y, N a y → N' a y) (hE : ∀ e y, E e y → E' e y) (hC : ∀ y, C y → C' y)
    (h : wp app obs p N E C x) : wp app obs p N' E' C' x := by
  induction p generalizing x with
  | ret a => exact hN a x h
  | raise e => exact hE e x h
  | read k ih => exact ih x.working h
  | write u k ih => exact fun s hs => ih (h s hs)
  | commit k ih => exact ⟨hC x h.1, fun s hs => ih (h.2 s hs)⟩
  | call q k ih =>
    exact ⟨hC x h.1, fun r s hs => ih r (h.2.1 r s hs), fun s hs => hC _ (h.2.2 s hs)⟩

section

variable {x : Session σ τ} {E : ε → Session σ τ → Prop} {C : Session σ τ → Prop}

@[simp] theorem wp_ret {a : α} {N : α → Session σ τ → Prop} :
    wp app obs (.ret a) N E C x ↔ N a x := Iff.rfl

@[simp] theorem wp_raise {e : ε} {N : α → Session σ τ → Prop} :
    wp app obs (.raise e) N E C x ↔ E e x := Iff.rfl

@[simp] theorem wp_get {N : σ → Session σ τ → Prop} :
    wp app obs (.get : Prog σ W Q R ε σ) N E C x ↔ N x.working x := Iff.rfl

@[simp] theorem wp_put {u : W} {N : Unit → Session σ τ → Prop} :
    wp app obs (.put u : Prog σ W Q R ε Unit) N E C x ↔
      ∀ s, obs x.seen (.write u) s → N () ⟨x.committed, app u x.working, s⟩ := Iff.rfl

@[simp] theorem wp_commitNow {N : Unit → Session σ τ → Prop} :
    wp app obs (.commitNow : Prog σ W Q R ε Unit) N E C x ↔
      C x ∧ ∀ s, obs x.seen .commit s → N () ⟨x.working, x.working, s⟩ := Iff.rfl

@[simp] theorem wp_request {q : Q} {N : R → Session σ τ → Prop} :
    wp app obs (.request q : Prog σ W Q R ε R) N E C x ↔
      C x ∧ (∀ r s, obs x.seen (.call q r) s → N r ⟨x.committed, x.working, s⟩) ∧
        ∀ s, obs x.seen (.lost q) s → C ⟨x.committed, x.working, s⟩ := Iff.rfl

/-- The normal postcondition where the value is there, the other where it is
an exception. -/
def resultMeets (v : Except ε α) (N : α → Prop) (E : ε → Prop) : Prop :=
  match v with
  | .ok a => N a
  | .error e => E e

@[simp] theorem resultMeets_ok {a : α} {N : α → Prop} {E : ε → Prop} :
    resultMeets (.ok a) N E ↔ N a := Iff.rfl

@[simp] theorem resultMeets_error {e : ε} {N : α → Prop} {E : ε → Prop} :
    resultMeets (.error e) N E ↔ E e := Iff.rfl

@[simp] theorem wp_ofExcept {v : Except ε α} {N : α → Session σ τ → Prop} :
    wp app obs (.ofExcept v : Prog σ W Q R ε α) N E C x ↔ resultMeets v (N · x) (E · x) := by
  cases v <;> exact Iff.rfl

end

theorem wp_and {p : Prog σ W Q R ε α} {x : Session σ τ} {N N' : α → Session σ τ → Prop}
    {E E' : ε → Session σ τ → Prop} {C C' : Session σ τ → Prop}
    (h : wp app obs p N E C x) (h' : wp app obs p N' E' C' x) :
    wp app obs p (fun a y => N a y ∧ N' a y) (fun e y => E e y ∧ E' e y) (fun y => C y ∧ C' y) x := by
  induction p generalizing x with
  | ret a => exact ⟨h, h'⟩
  | raise e => exact ⟨h, h'⟩
  | read k ih => exact ih x.working h h'
  | write u k ih => exact fun s hs => ih (h s hs) (h' s hs)
  | commit k ih => exact ⟨⟨h.1, h'.1⟩, fun s hs => ih (h.2 s hs) (h'.2 s hs)⟩
  | call q k ih =>
    exact ⟨⟨h.1, h'.1⟩, fun r s hs => ih r (h.2.1 r s hs) (h'.2.1 r s hs),
      fun s hs => ⟨h.2.2 s hs, h'.2.2 s hs⟩⟩

theorem wp_bind {p : Prog σ W Q R ε α} {f : α → Prog σ W Q R ε β} {x : Session σ τ}
    {N : β → Session σ τ → Prop} {E : ε → Session σ τ → Prop} {C : Session σ τ → Prop} :
    wp app obs (p >>= f) N E C x ↔ wp app obs p (fun a y => wp app obs (f a) N E C y) E C x := by
  induction p generalizing x with
  | ret a => exact Iff.rfl
  | raise e => exact Iff.rfl
  | read k ih => exact ih x.working
  | write u k ih => exact forall_congr' fun s => imp_congr_right fun _ => ih
  | commit k ih => exact and_congr_right fun _ => forall_congr' fun s => imp_congr_right fun _ => ih
  | call q k ih =>
    exact and_congr_right fun _ => and_congr_left fun _ =>
      forall_congr' fun r => forall_congr' fun s => imp_congr_right fun _ => ih r

theorem wp_tryCatch {p : Prog σ W Q R ε α} {f : ε → Prog σ W Q R ε α} {x : Session σ τ}
    {N : α → Session σ τ → Prop} {E : ε → Session σ τ → Prop} {C : Session σ τ → Prop} :
    wp app obs (p.tryCatch f) N E C x ↔
      wp app obs p N (fun e y => wp app obs (f e) N E C y) C x := by
  induction p generalizing x with
  | ret a => exact Iff.rfl
  | raise e => exact Iff.rfl
  | read k ih => exact ih x.working
  | write u k ih => exact forall_congr' fun s => imp_congr_right fun _ => ih
  | commit k ih => exact and_congr_right fun _ => forall_congr' fun s => imp_congr_right fun _ => ih
  | call q k ih =>
    exact and_congr_right fun _ => and_congr_left fun _ =>
      forall_congr' fun r => forall_congr' fun s => imp_congr_right fun _ => ih r

/-- `I` holds wherever the run stops: where it returns, raises or dies. -/
def throughout (app : W → σ → σ) (obs : Observer W Q R τ) (p : Prog σ W Q R ε α)
    (I : Session σ τ → Prop) (x : Session σ τ) : Prop :=
  wp app obs p (fun _ y => I y) (fun _ y => I y) I x

theorem throughout_bind {p : Prog σ W Q R ε α} {f : α → Prog σ W Q R ε β}
    {I : Session σ τ → Prop} {x : Session σ τ} (hp : throughout app obs p I x)
    (hf : ∀ a y, I y → throughout app obs (f a) I y) : throughout app obs (p >>= f) I x := by
  rw [throughout, wp_bind]
  exact wp_mono hf (fun _ _ h => h) (fun _ h => h) hp

theorem throughout_tryCatch {p : Prog σ W Q R ε α} {f : ε → Prog σ W Q R ε α}
    {I : Session σ τ → Prop} {x : Session σ τ} (hp : throughout app obs p I x)
    (hf : ∀ e y, I y → throughout app obs (f e) I y) : throughout app obs (p.tryCatch f) I x := by
  rw [throughout, wp_tryCatch]
  exact wp_mono (fun _ _ h => h) hf (fun _ h => h) hp

/-- A loop keeps an invariant that may speak of the elements already done. -/
theorem wp_forEach {body : ι → Prog σ W Q R ε Unit} {xs : List ι} {x : Session σ τ}
    {I : List ι → Session σ τ → Prop} {E : ε → Session σ τ → Prop} {C : Session σ τ → Prop}
    (hbody : ∀ done i rest, xs = done ++ i :: rest → ∀ y, I done y →
      wp app obs (body i) (fun _ z => I (done ++ [i]) z) E C y)
    (hx : I [] x) : wp app obs (Prog.forEach xs body) (fun _ y => I xs y) E C x := by
  have loop : ∀ rest done, xs = done ++ rest → ∀ y, I done y →
      wp app obs (Prog.forEach rest body) (fun _ z => I xs z) E C y := by
    intro rest
    induction rest with
    | nil =>
      intro done hxs y hy
      rw [List.append_nil] at hxs
      exact hxs ▸ hy
    | cons i rest ih =>
      intro done hxs y hy
      rw [Prog.forEach, wp_bind]
      refine wp_mono (fun _ z hz => ?_) (fun _ _ h => h) (fun _ h => h)
        (hbody done i rest hxs y hy)
      exact ih (done ++ [i]) (by simpa using hxs) z hz
  exact loop xs [] rfl x hx

/-- A loop that does something for each element, which later rounds do not
undo. -/
theorem wp_forEach_each {body : ι → Prog σ W Q R ε Unit} {xs : List ι} {x : Session σ τ}
    {I : Session σ τ → Prop} {D : ι → Session σ τ → Prop}
    {r : Session σ τ → Session σ τ → Prop} {E : ε → Session σ τ → Prop} {C : Session σ τ → Prop}
    (hbody : ∀ i ∈ xs, ∀ y, I y → wp app obs (body i) (fun _ z => I z ∧ D i z) E C y)
    (hrel : ∀ i ∈ xs, ∀ y, throughout app obs (body i) (r y) y)
    (hD : ∀ i y z, r y z → D i y → D i z) (hx : I x) :
    wp app obs (Prog.forEach xs body) (fun _ y => I y ∧ ∀ i ∈ xs, D i y) E C x := by
  refine wp_forEach (I := fun done y => I y ∧ ∀ i ∈ done, D i y) ?_ ⟨hx, by simp⟩
  rintro done i rest hxs y ⟨hI, hdone⟩
  have hi : i ∈ xs := by simp [hxs]
  refine wp_mono (fun _ z hz => ⟨hz.1.1, fun j hj => ?_⟩) (fun _ _ h => h.1) (fun _ h => h.1)
    (wp_and (hbody i hi y hI) (hrel i hi y))
  rcases List.mem_append.mp hj with hj | hj
  · exact hD j y z hz.2 (hdone j hj)
  · rw [List.mem_singleton.mp hj]
    exact hz.1.2

/-- A loop whose body keeps `I` keeps it. -/
theorem wp_forEach_inv {body : ι → Prog σ W Q R ε Unit} {xs : List ι} {x : Session σ τ}
    {I : Session σ τ → Prop} {E : ε → Session σ τ → Prop} {C : Session σ τ → Prop}
    (hbody : ∀ i ∈ xs, ∀ y, I y → wp app obs (body i) (fun _ z => I z) E C y)
    (hx : I x) : wp app obs (Prog.forEach xs body) (fun _ y => I y) E C x := by
  refine wp_forEach (I := fun _ y => I y) (fun done i rest hxs y hy => ?_) hx
  exact hbody i (by simp [hxs]) y hy

theorem throughout_forEach {body : ι → Prog σ W Q R ε Unit} {xs : List ι} {x : Session σ τ}
    {I : Session σ τ → Prop} (hbody : ∀ i ∈ xs, ∀ y, I y → throughout app obs (body i) I y)
    (hx : I x) : throughout app obs (Prog.forEach xs body) I x :=
  wp_forEach_inv hbody hx

end Tx
