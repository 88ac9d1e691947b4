import Mathlib.Data.List.Induction

/-! Runs of an object that threads share. Every operation on it is one step, and
a step may leave a label in the history. -/

namespace Tx

structure Shared (σ κ ℓ : Type) where
  start : σ
  step : σ → κ → Option (Option ℓ × σ)

variable {σ κ ℓ : Type}

namespace Shared

inductive Run (S : Shared σ κ ℓ) : List ℓ → σ → Prop where
  | start : Run S [] S.start
  | step {h s c l s'} (hrun : Run S h s) (hstep : S.step s c = some (l, s')) :
      Run S (h ++ l.toList) s'

/-- The runs in which every operation finds the object as `ok` asks. -/
inductive RunWithin (S : Shared σ κ ℓ) (ok : σ → κ → Prop) : List ℓ → σ → Prop where
  | start : RunWithin S ok [] S.start
  | step {h s c l s'} (hrun : RunWithin S ok h s) (hok : ok s c) (hstep : S.step s c = some (l, s')) :
      RunWithin S ok (h ++ l.toList) s'

variable {S : Shared σ κ ℓ} {ok : σ → κ → Prop} {h : List ℓ} {s : σ}

theorem RunWithin.run (hrun : S.RunWithin ok h s) : S.Run h s := by
  induction hrun with
  | start => exact .start
  | step _ _ hstep ih => exact ih.step hstep

theorem RunWithin.invariant {I : List ℓ → σ → Prop} (hrun : S.RunWithin ok h s) (hstart : I [] S.start)
    (hstep : ∀ h s c l s', I h s → ok s c → S.step s c = some (l, s') → I (h ++ l.toList) s') :
    I h s := by
  induction hrun with
  | start => exact hstart
  | step _ hok hnext ih => exact hstep _ _ _ _ _ ih hok hnext

theorem Run.invariant {I : List ℓ → σ → Prop} (hrun : S.Run h s) (hstart : I [] S.start)
    (hstep : ∀ h s c l s', I h s → S.step s c = some (l, s') → I (h ++ l.toList) s') : I h s := by
  induction hrun with
  | start => exact hstart
  | step _ hnext ih => exact hstep _ _ _ _ _ ih hnext

/-- Every label of a run was left by a step from a state the run was in. -/
theorem Run.split {before after : List ℓ} {l : ℓ} (hrun : S.Run (before ++ l :: after) s) :
    ∃ s₀ c s₁, S.Run before s₀ ∧ S.step s₀ c = some (some l, s₁) := by
  generalize heq : before ++ l :: after = h at hrun
  induction hrun generalizing after with
  | start => simp at heq
  | @step h s c l' s' hrun hstep ih =>
    cases l' with
    | none => exact ih (by simpa using heq)
    | some l' =>
      cases after using List.reverseRecOn with
      | nil =>
        obtain ⟨rfl, hlast⟩ := List.append_inj' heq rfl
        obtain rfl : l = l' := by simpa using hlast
        exact ⟨s, c, s', hrun, hstep⟩
      | append_singleton after last =>
        have hinit : before ++ l :: after = h := by
          have hlists : (before ++ l :: after) ++ [last] = h ++ [l'] := by simpa using heq
          exact (List.append_inj' hlists rfl).1
        exact ih hinit

/-- The run that makes the chosen steps, if none of them is refused. -/
def exec (S : Shared σ κ ℓ) : List κ → List ℓ × σ → Option (List ℓ × σ)
  | [], x => some x
  | c :: cs, x => (S.step x.2 c).bind fun y => S.exec cs (x.1 ++ y.1.toList, y.2)

theorem exec_run {cs : List κ} {x y : List ℓ × σ} (hx : S.Run x.1 x.2) (hexec : S.exec cs x = some y) :
    S.Run y.1 y.2 := by
  induction cs generalizing x with
  | nil =>
    simp only [exec, Option.some.injEq] at hexec
    exact hexec ▸ hx
  | cons c cs ih =>
    obtain ⟨z, hz, hexec⟩ := Option.bind_eq_some_iff.mp hexec
    exact ih (.step hx hz) hexec

end Shared

end Tx
