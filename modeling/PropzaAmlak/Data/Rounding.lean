import Mathlib.Tactic.Linarith
import Mathlib.Tactic.NormNum
import Mathlib.Tactic.Positivity
import PropzaAmlak.Data.Calendar

/-! Rounding to the nearest, ties to the even neighbour. -/

/-- `round(x)` -/
def roundInt (x : Rat) : Int :=
  if x - x.floor < 1 / 2 then x.floor else if 1 / 2 < x - x.floor then x.floor + 1
  else if x.floor % 2 = 0 then x.floor else x.floor + 1

theorem pyRound_eq (q : Rat) (digits : Nat) : pyRound q digits = roundInt (q * 10 ^ digits) / 10 ^ digits := rfl

theorem roundInt_cases (x : Rat) : roundInt x = x.floor ∨ roundInt x = x.floor + 1 := by
  unfold roundInt
  split
  · exact .inl rfl
  · split
    · exact .inr rfl
    · split
      · exact .inl rfl
      · exact .inr rfl

theorem roundInt_intCast (n : Int) : roundInt n = n := by
  have hfloor : (n : Rat).floor = n := Rat.floor_intCast n
  simp [roundInt, hfloor]

/-- Rounding moves a number by at most one half. -/
theorem roundInt_error (x : Rat) : x - 1 / 2 ≤ roundInt x ∧ (roundInt x : Rat) ≤ x + 1 / 2 := by
  have hlow : (x.floor : Rat) ≤ x := Rat.floor_le x
  have hhigh : x < x.floor + 1 := by exact_mod_cast Rat.lt_floor_add_one x
  unfold roundInt
  split
  · constructor <;> linarith
  · split
    · push_cast
      constructor <;> linarith
    · split
      · constructor <;> linarith
      · push_cast
        constructor <;> linarith

theorem roundInt_mono {x y : Rat} (h : x ≤ y) : roundInt x ≤ roundInt y := by
  have hfloor : x.floor ≤ y.floor := Rat.floor_monotone h
  rcases hfloor.lt_or_eq with hlt | heq
  · have hx := roundInt_cases x
    have hy := roundInt_cases y
    omega
  · have hrest : x - y.floor ≤ y - y.floor := by linarith
    unfold roundInt
    rw [heq]
    split
    · split
      · exact le_rfl
      · split
        · omega
        · split <;> omega
    · rename_i hx
      rw [if_neg (fun hy => hx (lt_of_le_of_lt hrest hy))]
      split
      · rename_i hx
        rw [if_pos (lt_of_lt_of_le hx hrest)]
      · split
        · split
          · omega
          · exact le_rfl
        · split <;> exact le_rfl

theorem pyRound_mono {p q : Rat} (h : p ≤ q) (digits : Nat) : pyRound p digits ≤ pyRound q digits := by
  rw [pyRound_eq, pyRound_eq]
  have hscaled : p * 10 ^ digits ≤ q * 10 ^ digits := by gcongr
  have hround : (roundInt (p * 10 ^ digits) : Rat) ≤ roundInt (q * 10 ^ digits) := by
    exact_mod_cast roundInt_mono hscaled
  gcongr

theorem pyRound_intCast (n : Int) (digits : Nat) : pyRound n digits = n := by
  have hscaled : (n : Rat) * 10 ^ digits = ((n * 10 ^ digits : Int) : Rat) := by push_cast; ring
  have hpos : (10 : Rat) ^ digits ≠ 0 := by positivity
  rw [pyRound_eq, hscaled, roundInt_intCast]
  push_cast
  field_simp
