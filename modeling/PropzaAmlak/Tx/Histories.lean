import Mathlib.Data.List.Infix

/-! Histories of a system in which each action has one outcome: what holds in
every state it goes through, and of every action taken in its state. -/

namespace Tx

variable {σ α : Type} {act : σ → α → σ} {s : σ} {actions : List α} {a : α}

def after (act : σ → α → σ) (s : σ) (actions : List α) : σ := actions.foldl act s

/-- `I` holds in every state on the way. -/
def Always (act : σ → α → σ) (I : σ → Prop) (s : σ) (actions : List α) : Prop :=
  ∀ before, before <+: actions → I (after act s before)

/-- Every action meets `P` in the state it is taken in. -/
def EachStep (act : σ → α → σ) (P : σ → α → Prop) (s : σ) (actions : List α) : Prop :=
  ∀ before a, before ++ [a] <+: actions → P (after act s before) a

@[simp] theorem after_nil : after act s [] = s := rfl

@[simp] theorem after_concat : after act s (actions ++ [a]) = act (after act s actions) a := by
  simp [after]

theorem after_append {more : List α} : after act s (actions ++ more) = after act (after act s actions) more :=
  List.foldl_append

theorem always_nil {I : σ → Prop} : Always act I s [] ↔ I s := by
  constructor
  · intro h
    exact h [] List.prefix_rfl
  · intro h before hbefore
    rw [List.prefix_nil.mp hbefore]
    exact h

theorem always_concat {I : σ → Prop} : Always act I s (actions ++ [a]) ↔
    Always act I s actions ∧ I (act (after act s actions) a) := by
  constructor
  · intro h
    refine ⟨fun before hbefore => h before (hbefore.trans (List.prefix_append actions [a])), ?_⟩
    have hlast := h (actions ++ [a]) List.prefix_rfl
    rwa [after_concat] at hlast
  · rintro ⟨h, hlast⟩ before hbefore
    rcases List.prefix_concat_iff.mp hbefore with rfl | hbefore
    · rwa [after_concat]
    · exact h before hbefore

theorem eachStep_nil {P : σ → α → Prop} : EachStep act P s [] := by
  intro before a hbefore
  simp at hbefore

theorem eachStep_of_forall {P : α → Prop} (h : ∀ a ∈ actions, P a) : EachStep act (fun _ a => P a) s actions := by
  intro before a hbefore
  exact h a (hbefore.subset (by simp))

theorem eachStep_concat {P : σ → α → Prop} : EachStep act P s (actions ++ [a]) ↔
    EachStep act P s actions ∧ P (after act s actions) a := by
  constructor
  · intro h
    exact ⟨fun before b hbefore => h before b (hbefore.trans (List.prefix_append actions [a])),
      h actions a List.prefix_rfl⟩
  · rintro ⟨h, hlast⟩ before b hbefore
    rcases List.prefix_concat_iff.mp hbefore with heq | hbefore
    · obtain ⟨rfl, hb⟩ := List.append_inj' heq rfl
      obtain rfl : b = a := by simpa using hb
      exact hlast
    · exact h before b hbefore

theorem always_of_step {I : σ → Prop} (hs : I s) (hstep : ∀ s a, I s → I (act s a)) : Always act I s actions := by
  induction actions using List.reverseRecOn with
  | nil => exact always_nil.mpr hs
  | append_singleton actions a ih =>
    exact always_concat.mpr ⟨ih, hstep _ _ (ih actions List.prefix_rfl)⟩

theorem always_of_allowed {I : σ → Prop} {Allowed : σ → α → Prop} (hs : I s)
    (hstep : ∀ s a, I s → Allowed s a → I (act s a)) (h : EachStep act Allowed s actions) : Always act I s actions := by
  induction actions using List.reverseRecOn with
  | nil => exact always_nil.mpr hs
  | append_singleton actions a ih =>
    obtain ⟨hbefore, hlast⟩ := eachStep_concat.mp h
    have hI := ih hbefore
    exact always_concat.mpr ⟨hI, hstep _ _ (hI actions List.prefix_rfl) hlast⟩

/-- Where an action that meets `O` is allowed just when it does as it should and keeps
the invariant, a history of such actions is as it should be just when all of them are
allowed. -/
theorem law_iff_within {B I : σ → Prop} {O Law Allowed : σ → α → Prop} (hbase : ∀ s a, B s → B (act s a))
    (hstep : ∀ s a, B s → I s → O s a → (Allowed s a ↔ Law s a ∧ I (act s a))) (hb : B s) (hi : I s)
    (hO : EachStep act O s actions) :
    Always act I s actions ∧ EachStep act Law s actions ↔ EachStep act Allowed s actions := by
  have hall : Always act B s actions := always_of_step hb hbase
  induction actions using List.reverseRecOn with
  | nil => exact ⟨fun _ => eachStep_nil, fun _ => ⟨always_nil.mpr hi, eachStep_nil⟩⟩
  | append_singleton actions a ih =>
    obtain ⟨hbefore, -⟩ := always_concat.mp hall
    obtain ⟨hfirst, hmeets⟩ := eachStep_concat.mp hO
    have hiff := ih hfirst hbefore
    have hlast := hbefore actions List.prefix_rfl
    rw [always_concat, eachStep_concat, eachStep_concat]
    constructor
    · rintro ⟨⟨hI, hnext⟩, hlaw, hdone⟩
      exact ⟨hiff.mp ⟨hI, hlaw⟩, (hstep _ _ hlast (hI actions List.prefix_rfl) hmeets).mpr ⟨hdone, hnext⟩⟩
    · rintro ⟨hsteps, hallowed⟩
      obtain ⟨hI, hlaw⟩ := hiff.mpr hsteps
      obtain ⟨hdone, hnext⟩ := (hstep _ _ hlast (hI actions List.prefix_rfl) hmeets).mp hallowed
      exact ⟨⟨hI, hnext⟩, hlaw, hdone⟩

/-- The same for all actions. -/
theorem law_iff {B I : σ → Prop} {Law Allowed : σ → α → Prop} (hbase : ∀ s a, B s → B (act s a))
    (hstep : ∀ s a, B s → I s → (Allowed s a ↔ Law s a ∧ I (act s a))) (hb : B s) (hi : I s) :
    Always act I s actions ∧ EachStep act Law s actions ↔ EachStep act Allowed s actions :=
  law_iff_within (O := fun _ _ => True) hbase (fun s a hB hI _ => hstep s a hB hI) hb hi fun _ _ _ => trivial

/-- The same where an action has no other duty than to keep the invariant. -/
theorem always_iff {I : σ → Prop} {Allowed : σ → α → Prop} (hstep : ∀ s a, I s → (Allowed s a ↔ I (act s a)))
    (hi : I s) : Always act I s actions ↔ EachStep act Allowed s actions := by
  have hfree : EachStep act (fun _ _ => True) s actions := fun _ _ _ => trivial
  have hiff : Always act I s actions ∧ EachStep act (fun _ _ => True) s actions ↔ EachStep act Allowed s actions :=
    law_iff (B := fun _ => True) (fun _ _ h => h) (fun s a _ hs => by rw [true_and, hstep s a hs]) trivial hi
  rw [← hiff]
  exact ⟨fun h => ⟨h, hfree⟩, fun h => h.1⟩

/-- The same where what is asked for is kept with the help of more. -/
theorem always_iff_of_strong {P I : σ → Prop} {Allowed : σ → α → Prop} (himp : ∀ s, I s → P s)
    (hstep : ∀ s a, I s → (Allowed s a ↔ P (act s a))) (hkeep : ∀ s a, I s → Allowed s a → I (act s a)) (hi : I s) :
    Always act P s actions ↔ EachStep act Allowed s actions := by
  constructor
  · intro h
    induction actions using List.reverseRecOn with
    | nil => exact eachStep_nil
    | append_singleton actions a ih =>
      obtain ⟨hbefore, hlast⟩ := always_concat.mp h
      have hallowed := ih hbefore
      have hI := always_of_allowed hi hkeep hallowed actions List.prefix_rfl
      exact eachStep_concat.mpr ⟨hallowed, (hstep _ _ hI).mpr hlast⟩
  · intro h before hbefore
    exact himp _ (always_of_allowed hi hkeep h before hbefore)

end Tx
