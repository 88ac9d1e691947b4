import Mathlib.Algebra.BigOperators.Group.Finset.Basic
import Mathlib.Algebra.Order.BigOperators.Group.Finset
import Mathlib.Logic.Relation

/-! A worklist: what is taken from it is acted on once, and leads to more. -/

namespace Worklist

variable {α σ : Type} {next : α → List α} {act : α → σ → σ} {all : Finset α} {start a : α} {stack seen : List α} {s : σ}

/-- A loop that only collects. -/
theorem foldl_iff {f : σ → α → σ} (holds : σ → Prop) (adds : α → Prop) (h : ∀ s a, holds (f s a) ↔ holds s ∨ adds a)
    (as : List α) (s : σ) : holds (as.foldl f s) ↔ holds s ∨ ∃ a ∈ as, adds a := by
  induction as generalizing s with
  | nil => simp
  | cons a as ih => rw [List.foldl_cons, ih, h, or_assoc, List.exists_mem_cons_iff]

def run [DecidableEq α] (next : α → List α) (act : α → σ → σ) : Nat → List α → List α → σ → Option σ
  | _, [], _, s => some s
  | 0, _ :: _, _, _ => none
  | fuel + 1, a :: stack, seen, s =>
    if a ∈ seen then run next act fuel stack seen s
    else run next act fuel (stack ++ next a) (a :: seen) (act a s)

def Reaches (next : α → List α) : α → α → Prop := Relation.ReflTransGen fun a b => b ∈ next a

/-- How often the loop goes round at most. -/
def bound (next : α → List α) (all : Finset α) : Nat := 1 + ∑ a ∈ all, (next a).length

/-- Where the loop is. -/
structure Walk (next : α → List α) (all : Finset α) (start : α) (stack seen : List α) : Prop where
  nodup : seen.Nodup
  within : ∀ a ∈ stack, a ∈ all
  reached : ∀ a, a ∈ stack ∨ a ∈ seen → Reaches next start a
  closed : ∀ a ∈ seen, ∀ b ∈ next a, b ∈ stack ∨ b ∈ seen
  started : start ∈ stack ∨ start ∈ seen

theorem Walk.skip (h : Walk next all start (a :: stack) seen) (ha : a ∈ seen) :
    Walk next all start stack seen := by
  have hmem : ∀ b, b ∈ a :: stack ∨ b ∈ seen → b ∈ stack ∨ b ∈ seen := by
    intro b hb
    rcases hb with hb | hb
    · rcases List.mem_cons.mp hb with rfl | hb
      · exact Or.inr ha
      · exact Or.inl hb
    · exact Or.inr hb
  exact ⟨h.nodup, fun b hb => h.within b (List.mem_cons_of_mem _ hb),
    fun b hb => h.reached b (hb.imp_left (List.mem_cons_of_mem _)), fun b hb c hc => hmem c (h.closed b hb c hc),
    hmem start h.started⟩

theorem Walk.visit (h : Walk next all start (a :: stack) seen) (ha : a ∉ seen)
    (hnext : ∀ b ∈ next a, b ∈ all) : Walk next all start (stack ++ next a) (a :: seen) := by
  have hmem : ∀ b, b ∈ a :: stack ∨ b ∈ seen → b ∈ stack ++ next a ∨ b ∈ a :: seen := by
    intro b hb
    rcases hb with hb | hb
    · rcases List.mem_cons.mp hb with rfl | hb
      · exact Or.inr List.mem_cons_self
      · exact Or.inl (List.mem_append_left _ hb)
    · exact Or.inr (List.mem_cons_of_mem _ hb)
  have hreach : Reaches next start a := h.reached a (Or.inl List.mem_cons_self)
  refine ⟨List.nodup_cons.mpr ⟨ha, h.nodup⟩, fun b hb => ?_, fun b hb => ?_, fun b hb c hc => ?_, hmem start h.started⟩
  · rcases List.mem_append.mp hb with hb | hb
    · exact h.within b (List.mem_cons_of_mem _ hb)
    · exact hnext b hb
  · rcases hb with hb | hb
    · rcases List.mem_append.mp hb with hb | hb
      · exact h.reached b (Or.inl (List.mem_cons_of_mem _ hb))
      · exact hreach.tail hb
    · rcases List.mem_cons.mp hb with rfl | hb
      · exact hreach
      · exact h.reached b (Or.inr hb)
  · rcases List.mem_cons.mp hb with rfl | hb
    · exact Or.inl (List.mem_append_right _ hc)
    · exact hmem c (h.closed b hb c hc)

theorem Walk.finish (h : Walk next all start [] seen) : a ∈ seen ↔ Reaches next start a := by
  refine ⟨fun ha => h.reached a (Or.inr ha), fun ha => ?_⟩
  induction ha with
  | refl => exact h.started.resolve_left List.not_mem_nil
  | tail _ hb ih => exact (h.closed _ ih _ hb).resolve_left List.not_mem_nil

variable [DecidableEq α]

theorem sum_sdiff_cons (next : α → List α) (hu : a ∈ all) (ha : a ∉ seen) :
    (next a).length + ∑ b ∈ all \ (a :: seen).toFinset, (next b).length =
      ∑ b ∈ all \ seen.toFinset, (next b).length := by
  have hmem : a ∈ all \ seen.toFinset := Finset.mem_sdiff.mpr ⟨hu, by rwa [List.mem_toFinset]⟩
  have herase : all \ (a :: seen).toFinset = (all \ seen.toFinset).erase a := by
    ext b
    simp only [List.toFinset_cons, Finset.mem_sdiff, Finset.mem_insert, List.mem_toFinset, Finset.mem_erase, not_or]
    tauto
  rw [herase]
  exact Finset.add_sum_erase _ (fun b => (next b).length) hmem

theorem Walk.run_nil (fuel : Nat) (h : Walk next all start [] seen) :
    ∃ visited : List α, run next act fuel [] seen s = some (visited.foldl (fun s a => act a s) s) ∧
      ∀ a, a ∈ visited ∨ a ∈ seen ↔ Reaches next start a := by
  refine ⟨[], by cases fuel <;> rfl, fun a => ?_⟩
  rw [← h.finish]
  exact or_iff_right List.not_mem_nil

theorem Walk.run {fuel : Nat} (h : Walk next all start stack seen)
    (hclosed : ∀ a ∈ all, ∀ b ∈ next a, b ∈ all)
    (hfuel : stack.length + ∑ a ∈ all \ seen.toFinset, (next a).length ≤ fuel) :
    ∃ visited : List α, run next act fuel stack seen s = some (visited.foldl (fun s a => act a s) s) ∧
      ∀ a, a ∈ visited ∨ a ∈ seen ↔ Reaches next start a := by
  induction fuel generalizing stack seen s with
  | zero =>
    cases stack with
    | nil => exact h.run_nil 0
    | cons a stack =>
      rw [List.length_cons] at hfuel
      omega
  | succ fuel ih =>
    cases stack with
    | nil => exact h.run_nil _
    | cons a stack =>
      rw [List.length_cons] at hfuel
      rw [Worklist.run]
      by_cases ha : a ∈ seen
      · rw [if_pos ha]
        exact ih (h.skip ha) (by omega)
      · rw [if_neg ha]
        have hu := h.within a List.mem_cons_self
        have hsum := sum_sdiff_cons next hu ha
        have hfuel' : (stack ++ next a).length + ∑ b ∈ all \ (a :: seen).toFinset, (next b).length ≤ fuel := by
          rw [List.length_append]
          omega
        obtain ⟨visited, hrun, hmem⟩ := ih (h.visit ha (hclosed a hu)) hfuel'
        refine ⟨a :: visited, hrun, fun b => ?_⟩
        rw [← hmem b, List.mem_cons, List.mem_cons]
        tauto

/-- The loop ends, having acted once on each of what the start leads to. -/
theorem run_start (act : α → σ → σ) (s : σ) (hstart : start ∈ all) (hclosed : ∀ a ∈ all, ∀ b ∈ next a, b ∈ all) :
    ∃ visited : List α, run next act (bound next all) [start] [] s = some (visited.foldl (fun s a => act a s) s) ∧
      ∀ a, a ∈ visited ↔ Reaches next start a := by
  have hwalk : Walk next all start [start] [] := by
    refine ⟨List.nodup_nil, fun a ha => ?_, fun a ha => ?_, fun a ha => ?_, Or.inl List.mem_cons_self⟩
    · obtain rfl := List.mem_singleton.mp ha
      exact hstart
    · obtain rfl := List.mem_singleton.mp (ha.resolve_right List.not_mem_nil)
      exact .refl
    · cases ha
  have hfuel : [start].length + ∑ a ∈ all \ ([] : List α).toFinset, (next a).length ≤ bound next all := by
    simp [bound]
  obtain ⟨visited, hrun, hmem⟩ := hwalk.run (s := s) hclosed hfuel
  refine ⟨visited, hrun, fun a => ?_⟩
  rw [← hmem a]
  exact (or_iff_left List.not_mem_nil).symm

end Worklist
