import Mathlib.Data.Nat.ModEq

/-! Numbers that carry a check digit: each digit counts by its place from the right,
and together they have to make up a multiple of the modulus. -/

namespace CheckDigit

variable {m : Nat} {weigh gain : Nat → Nat → Nat} {xs ys pre post : List Nat} {c d : Nat}

/-- The rightmost digit is in place 0. -/
def total (weigh : Nat → Nat → Nat) : List Nat → Nat
  | [] => 0
  | d :: rest => weigh rest.length d + total weigh rest

def Passes (m : Nat) (weigh : Nat → Nat → Nat) (number : List Nat) : Prop := total weigh number % m = 0

instance : Decidable (Passes m weigh xs) := inferInstanceAs (Decidable (_ = _))

theorem total_append : total weigh (xs ++ ys) = total (fun i => weigh (i + ys.length)) xs + total weigh ys := by
  induction xs with
  | nil => simp [total]
  | cons d rest ih => rw [List.cons_append, total, total, ih, List.length_append, Nat.add_assoc]

theorem total_add : total (fun i d => weigh i d + gain i d) xs = total weigh xs + total gain xs := by
  induction xs with
  | nil => rfl
  | cons d rest ih =>
    simp only [total, ih]
    omega

theorem total_modEq (h : ∀ i, ∀ d ∈ xs, weigh i d ≡ gain i d [MOD m]) : total weigh xs ≡ total gain xs [MOD m] := by
  induction xs with
  | nil => rfl
  | cons d rest ih =>
    have hd := h rest.length d (by simp)
    have hrest := ih fun i e he => h i e (List.mem_cons_of_mem d he)
    exact hd.add hrest

theorem passes_concat : Passes m weigh (xs ++ [c]) ↔ (total (fun i => weigh (i + 1)) xs + weigh 0 c) % m = 0 := by
  rw [Passes, total_append]
  simp [total]

/-- Another digit in one place is noticed where the digits of that place count differently. -/
theorem not_passes_of_changed (hplace : weigh post.length d % m ≠ weigh post.length c % m)
    (h : Passes m weigh (pre ++ c :: post)) : ¬Passes m weigh (pre ++ d :: post) := by
  intro hchanged
  apply hplace
  have hsum : total weigh (pre ++ d :: post) ≡ total weigh (pre ++ c :: post) [MOD m] := hchanged.trans h.symm
  rw [total_append, total_append, total, total] at hsum
  exact Nat.ModEq.add_right_cancel' _ (Nat.ModEq.add_left_cancel' _ hsum)

end CheckDigit
