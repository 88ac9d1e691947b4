import Mathlib.Algebra.Group.Nat.Defs
import Mathlib.Data.List.Basic

/-! Texts that can be read back: texts joined by a separator, and numbers padded
with zeros. -/

namespace Text

/-- Texts without the separator are determined by the joined text. -/
theorem join_injective {sep : Char} {xs ys : List String} (hxs : ∀ s ∈ xs, sep ∉ s.toList)
    (hys : ∀ s ∈ ys, sep ∉ s.toList) (hx : xs ≠ []) (hy : ys ≠ [])
    (h : (String.singleton sep).intercalate xs = (String.singleton sep).intercalate ys) : xs = ys := by
  have hsplit : ∀ {zs : List String}, (∀ s ∈ zs, sep ∉ s.toList) → zs ≠ [] →
      ((String.singleton sep).intercalate zs).toList.splitOn sep = zs.map String.toList := by
    intro zs hzs hz
    rw [String.toList_intercalate, String.toList_singleton]
    refine List.splitOn_intercalate sep ?_ (by simpa using hz)
    intro l hl
    obtain ⟨s, hs, rfl⟩ := List.mem_map.mp hl
    exact hzs s hs
  have hlists := (hsplit hxs hx).symm.trans ((congrArg (fun s => s.toList.splitOn sep) h).trans (hsplit hys hy))
  exact List.map_injective_iff.mpr (fun s t hst => String.toList_inj.mp hst) hlists

theorem toList_pushn (s : String) (c : Char) (n : Nat) :
    (s.pushn c n).toList = s.toList ++ List.replicate n c := by
  rw [String.pushn_eq_repeat_push]
  induction n with
  | zero => simp [Nat.repeat]
  | succ n ih => rw [Nat.repeat, String.toList_push, ih, List.append_assoc, List.replicate_succ']

/-- `n` in decimal, filled up with zeros on the left. -/
def pad (width n : Nat) : String :=
  let digits := toString n
  "".pushn '0' (width - digits.length) ++ digits

theorem toList_pad (width n : Nat) : (pad width n).toList =
    List.replicate (width - (toString n).length) '0' ++ Nat.toDigits 10 n := by
  simp [pad, toList_pushn, toString]

theorem length_pad (width n : Nat) : (pad width n).toList.length = max width (Nat.toDigits 10 n).length := by
  have hdigits : (toString n).length = (Nat.toDigits 10 n).length := by
    rw [← String.length_toList, Nat.toString_eq_ofList_toDigits, String.toList_ofList]
  rw [toList_pad, List.length_append, List.length_replicate, hdigits]
  omega

theorem length_pad_of_lt {width n : Nat} (hwidth : 0 < width) (hn : n < 10 ^ width) :
    (pad width n).toList.length = width := by
  rw [length_pad, Nat.max_eq_left ((Nat.length_toDigits_le_iff (by decide) hwidth).mpr hn)]

theorem digit_of_mem_pad {width n : Nat} {c : Char} (hc : c ∈ (pad width n).toList) : c.isDigit := by
  rw [toList_pad, List.mem_append] at hc
  rcases hc with hzero | hdigit
  · rw [List.eq_of_mem_replicate hzero]
    rfl
  · exact Nat.isDigit_of_mem_toDigits (by decide) (by decide) hdigit

theorem pad_injective {width m n : Nat} (h : pad width m = pad width n) : m = n := by
  have hread : ∀ k, Nat.ofDigitChars 10 (pad width k).toList 0 = k := by
    intro k
    rw [toList_pad, Nat.ofDigitChars_append, Nat.ofDigitChars_replicate_zero, Nat.mul_zero]
    exact Nat.ofDigitChars_toDigits (by decide) (by decide)
  rw [← hread m, ← hread n, h]

theorem toString_injective {m n : Nat} (h : toString m = toString n) : m = n := by
  have hpad : pad 0 m = pad 0 n := by rw [pad, pad, h]
  exact pad_injective hpad

theorem digit_of_mem_toString {n : Nat} {c : Char} (hc : c ∈ (toString n).toList) : c.isDigit := by
  have hpad : c ∈ (pad 0 n).toList := by
    rw [toList_pad]
    exact List.mem_append_right _ (by simpa using hc)
  exact digit_of_mem_pad hpad

end Text
