import PropzaAmlak.Tx.Program

/-! Executions of one program that has the store to itself. An observer follows
the events: it may be the remote service, a record of the run, or both. -/

namespace Tx

inductive Event (W Q R : Type) : Type where
  | write (u : W)
  | commit
  | call (q : Q) (r : R)
  | lost (q : Q)

inductive Outcome (ε α : Type) : Type where
  | ret (a : α)
  | raise (e : ε)
  | cut

/-- What is saved of a transaction: all it wrote, or what it committed. -/
def Outcome.settled {σ ε α : Type} : Outcome ε α → σ → σ → σ
  | .ret _, _, working => working
  | _, committed, _ => committed

/-- The store as last committed, as the open transaction sees it, and the
observer's state. -/
structure Session (σ τ : Type) where
  committed : σ
  working : σ
  seen : τ

/-- `obs s e s'`: the observer in state `s` lets the event happen and is then in
state `s'`. -/
abbrev Observer (W Q R τ : Type) := τ → Event W Q R → τ → Prop

variable {σ W Q R ε α τ : Type}

/-- The process may die at any commit and at any call, in the latter case with
or without the request having gone out. -/
inductive Exec (app : W → σ → σ) (obs : Observer W Q R τ) :
    Prog σ W Q R ε α → Session σ τ → Outcome ε α → Session σ τ → Prop where
  | ret (a x) : Exec app obs (.ret a) x (.ret a) x
  | raise (e x) : Exec app obs (.raise e) x (.raise e) x
  | read {k x o y} (h : Exec app obs (k x.working) x o y) : Exec app obs (.read k) x o y
  | write {u k x o y s} (hs : obs x.seen (.write u) s)
      (h : Exec app obs k ⟨x.committed, app u x.working, s⟩ o y) : Exec app obs (.write u k) x o y
  | commit {k x o y s} (hs : obs x.seen .commit s)
      (h : Exec app obs k ⟨x.working, x.working, s⟩ o y) : Exec app obs (.commit k) x o y
  | call {q k x o y r s} (hs : obs x.seen (.call q r) s)
      (h : Exec app obs (k r) ⟨x.committed, x.working, s⟩ o y) : Exec app obs (.call q k) x o y
  | lost {q k x s} (hs : obs x.seen (.lost q) s) :
      Exec app obs (.call q k) x .cut ⟨x.committed, x.working, s⟩
  | cutCommit (k x) : Exec app obs (.commit k) x .cut x
  | cutCall (q k x) : Exec app obs (.call q k) x .cut x

/-- The observer that writes every event down. -/
def record (ok : List (Event W Q R) → Event W Q R → Prop) : Observer W Q R (List (Event W Q R)) :=
  fun t e t' => ok t e ∧ t' = t ++ [e]

/-- The observer that is a service answering every call it does not leave
hanging. -/
def served (serve : τ → Q → Option (R × τ)) : Observer W Q R τ
  | s, .write _, s' => s' = s
  | s, .commit, s' => s' = s
  | s, .call q r, s' => serve s q = some (r, s')
  | _, .lost _, _ => False

/-- The run against a service; it is cut at the first call left hanging. -/
def Prog.run (app : W → σ → σ) (serve : τ → Q → Option (R × τ)) :
    Prog σ W Q R ε α → Session σ τ → Outcome ε α × Session σ τ
  | .ret a, x => (.ret a, x)
  | .raise e, x => (.raise e, x)
  | .read k, x => (k x.working).run app serve x
  | .write u k, x => k.run app serve ⟨x.committed, app u x.working, x.seen⟩
  | .commit k, x => k.run app serve ⟨x.working, x.working, x.seen⟩
  | .call q k, x =>
    match serve x.seen q with
    | some (r, s) => (k r).run app serve ⟨x.committed, x.working, s⟩
    | none => (.cut, x)

/-- The run that is written down, against answers that may depend on what came
before. -/
def Prog.replay (app : W → σ → σ) (answer : List (Event W Q R) → Q → R) :
    Prog σ W Q R ε α → Session σ (List (Event W Q R)) → Outcome ε α × Session σ (List (Event W Q R))
  | .ret a, x => (.ret a, x)
  | .raise e, x => (.raise e, x)
  | .read k, x => (k x.working).replay app answer x
  | .write u k, x => k.replay app answer ⟨x.committed, app u x.working, x.seen ++ [.write u]⟩
  | .commit k, x => k.replay app answer ⟨x.working, x.working, x.seen ++ [.commit]⟩
  | .call q k, x =>
    (k (answer x.seen q)).replay app answer
      ⟨x.committed, x.working, x.seen ++ [.call q (answer x.seen q)]⟩

theorem Prog.replay_exec {app : W → σ → σ} {answer : List (Event W Q R) → Q → R}
    {ok : List (Event W Q R) → Event W Q R → Prop} (hwrite : ∀ t u, ok t (.write u))
    (hcommit : ∀ t, ok t .commit) (hcall : ∀ t q, ok t (.call q (answer t q)))
    (p : Prog σ W Q R ε α) (x : Session σ (List (Event W Q R))) :
    Exec app (record ok) p x (p.replay app answer x).1 (p.replay app answer x).2 := by
  induction p generalizing x with
  | ret a => exact .ret a x
  | raise e => exact .raise e x
  | read k ih => exact .read (ih x.working x)
  | write u k ih => exact .write ⟨hwrite _ u, rfl⟩ (ih _)
  | commit k ih => exact .commit ⟨hcommit _, rfl⟩ (ih _)
  | call q k ih => exact .call ⟨hcall _ q, rfl⟩ (ih _ _)

theorem Exec.mono {app : W → σ → σ} {obs obs' : Observer W Q R τ} (hobs : ∀ s e s', obs s e s' → obs' s e s')
    {p : Prog σ W Q R ε α} {x y : Session σ τ} {o : Outcome ε α} (h : Exec app obs p x o y) :
    Exec app obs' p x o y := by
  induction h with
  | ret a x => exact .ret a x
  | raise e x => exact .raise e x
  | read _ ih => exact .read ih
  | write hs _ ih => exact .write (hobs _ _ _ hs) ih
  | commit hs _ ih => exact .commit (hobs _ _ _ hs) ih
  | call hs _ ih => exact .call (hobs _ _ _ hs) ih
  | lost hs => exact .lost (hobs _ _ _ hs)
  | cutCommit k x => exact .cutCommit k x
  | cutCall q k x => exact .cutCall q k x

/-- What each event preserves in the observer's state, a run does. -/
theorem Exec.seen_keeps {app : W → σ → σ} {obs : Observer W Q R τ} {I : τ → Prop}
    (hobs : ∀ s e s', obs s e s' → I s → I s') {p : Prog σ W Q R ε α} {x y : Session σ τ} {o : Outcome ε α}
    (h : Exec app obs p x o y) (hx : I x.seen) : I y.seen := by
  induction h with
  | ret a x => exact hx
  | raise e x => exact hx
  | read _ ih => exact ih hx
  | write hs _ ih => exact ih (hobs _ _ _ hs hx)
  | commit hs _ ih => exact ih (hobs _ _ _ hs hx)
  | call hs _ ih => exact ih (hobs _ _ _ hs hx)
  | lost hs => exact hobs _ _ _ hs hx
  | cutCommit k x => exact hx
  | cutCall q k x => exact hx

theorem Prog.run_exec (app : W → σ → σ) (serve : τ → Q → Option (R × τ))
    (p : Prog σ W Q R ε α) (x : Session σ τ) :
    Exec app (served serve) p x (p.run app serve x).1 (p.run app serve x).2 := by
  induction p generalizing x with
  | ret a => exact .ret a x
  | raise e => exact .raise e x
  | read k ih => exact .read (ih x.working x)
  | write u k ih => exact .write rfl (ih _)
  | commit k ih => exact .commit rfl (ih _)
  | call q k ih =>
    cases hs : serve x.seen q with
    | none => simpa only [Prog.run, hs] using Exec.cutCall q k x
    | some a =>
      obtain ⟨r, s⟩ := a
      simpa only [Prog.run, hs] using Exec.call hs (ih r _)

/-- The run as one of those that a wider observer lets happen. -/
theorem Prog.run_observed {app : W → σ → σ} {serve : τ → Q → Option (R × τ)} {obs : Observer W Q R τ}
    (hobs : ∀ s e s', served serve s e s' → obs s e s') (p : Prog σ W Q R ε α) (x : Session σ τ) :
    Exec app obs p x (p.run app serve x).1
      ⟨(p.run app serve x).2.committed, (p.run app serve x).2.working, (p.run app serve x).2.seen⟩ :=
  (p.run_exec app serve x).mono hobs

theorem Prog.run_bind {β : Type} (app : W → σ → σ) (serve : τ → Q → Option (R × τ)) (p : Prog σ W Q R ε α)
    (f : α → Prog σ W Q R ε β) (x : Session σ τ) :
    (p >>= f).run app serve x =
      match p.run app serve x with
      | (.ret a, y) => (f a).run app serve y
      | (.raise e, y) => (.raise e, y)
      | (.cut, y) => (.cut, y) := by
  induction p generalizing x with
  | ret a => rfl
  | raise e => rfl
  | read k ih => exact ih x.working x
  | write u k ih => exact ih _
  | commit k ih => exact ih _
  | call q k ih =>
    simp only [call_bind, Prog.run]
    cases hs : serve x.seen q with
    | none => rfl
    | some a =>
      obtain ⟨r, s⟩ := a
      exact ih r _

theorem Prog.run_not_cut {app : W → σ → σ} {serve : τ → Q → Option (R × τ)}
    (hserve : ∀ s q, (serve s q).isSome) (p : Prog σ W Q R ε α) (x : Session σ τ) :
    (p.run app serve x).1 ≠ .cut := by
  induction p generalizing x with
  | ret a => simp [Prog.run]
  | raise e => simp [Prog.run]
  | read k ih => exact ih x.working x
  | write u k ih => exact ih _
  | commit k ih => exact ih _
  | call q k ih =>
    obtain ⟨⟨r, s⟩, hs⟩ := Option.isSome_iff_exists.mp (hserve x.seen q)
    simpa only [Prog.run, hs] using ih r _

section

variable (app : W → σ → σ)

/-- The store of the open transaction after the events. -/
def workingAfter : σ → List (Event W Q R) → σ
  | w, [] => w
  | w, .write u :: t => workingAfter (app u w) t
  | w, .commit :: t => workingAfter w t
  | w, .call _ _ :: t => workingAfter w t
  | w, .lost _ :: t => workingAfter w t

/-- The stores that the events commit, in their order. -/
def snapshots : σ → List (Event W Q R) → List σ
  | _, [] => []
  | w, .write u :: t => snapshots (app u w) t
  | w, .commit :: t => w :: snapshots w t
  | w, .call _ _ :: t => snapshots w t
  | w, .lost _ :: t => snapshots w t

/-- The store last committed after the events, where `c` was before them. -/
def committedAfter (c w : σ) (t : List (Event W Q R)) : σ := ((snapshots app w t).getLast?).getD c

theorem workingAfter_append (w : σ) (t t' : List (Event W Q R)) :
    workingAfter app w (t ++ t') = workingAfter app (workingAfter app w t) t' := by
  induction t generalizing w with
  | nil => rfl
  | cons e t ih => cases e <;> exact ih _

theorem snapshots_append (w : σ) (t t' : List (Event W Q R)) :
    snapshots app w (t ++ t') = snapshots app w t ++ snapshots app (workingAfter app w t) t' := by
  induction t generalizing w with
  | nil => rfl
  | cons e t ih =>
    cases e with
    | commit => simp only [List.cons_append, snapshots, workingAfter, ih]
    | _ => exact ih _

theorem committedAfter_append (c w : σ) (t t' : List (Event W Q R)) :
    committedAfter app c w (t ++ t') =
      committedAfter app (committedAfter app c w t) (workingAfter app w t) t' := by
  rw [committedAfter, snapshots_append, List.getLast?_append]
  cases hlast : (snapshots app (workingAfter app w t) t').getLast? with
  | none => simp [committedAfter, hlast]
  | some d => simp [committedAfter, hlast]

theorem committedAfter_mem (c w : σ) (t : List (Event W Q R)) :
    committedAfter app c w t = c ∨ committedAfter app c w t ∈ snapshots app w t := by
  cases hlast : (snapshots app w t).getLast? with
  | none => simp [committedAfter, hlast]
  | some d => simpa [committedAfter, hlast] using .inr (List.mem_of_getLast? hlast)

end

end Tx
