import Mathlib.Algebra.Group.Nat.Defs
import Mathlib.Data.List.Basic
import Mathlib.Tactic.IntervalCases
import PropzaAmlak.Data.Splits

/-! Integers read from texts. -/

namespace Text

/-- The zeros of the ten-digit blocks of Unicode decimal digits. -/
def digitZeros : List Nat :=
  [0x30, 0x660, 0x6f0, 0x7c0, 0x966, 0x9e6, 0xa66, 0xae6, 0xb66, 0xbe6, 0xc66, 0xce6, 0xd66, 0xde6,
   0xe50, 0xed0, 0xf20, 0x1040, 0x1090, 0x17e0, 0x1810, 0x1946, 0x19d0, 0x1a80, 0x1a90, 0x1b50,
   0x1bb0, 0x1c40, 0x1c50, 0xa620, 0xa8d0, 0xa900, 0xa9d0, 0xa9f0, 0xaa50, 0xabf0, 0xff10, 0x104a0,
   0x10d30, 0x11066, 0x110f0, 0x11136, 0x111d0, 0x112f0, 0x11450, 0x114d0, 0x11650, 0x116c0,
   0x11730, 0x118e0, 0x11950, 0x11c50, 0x11d50, 0x11da0, 0x16a60, 0x16ac0, 0x16b50, 0x1d7ce,
   0x1d7d8, 0x1d7e2, 0x1d7ec, 0x1d7f6, 0x1e140, 0x1e2f0, 0x1e950, 0x1fbf0]

/-- `\d` -/
def isDecimalDigit (c : Char) : Bool :=
  digitZeros.any fun z => z ≤ c.toNat && c.toNat ≤ z + 9

/-- `int(c)` of one character. -/
def digit (c : Char) : Option Nat :=
  (digitZeros.find? fun first => first ≤ c.toNat && c.toNat ≤ first + 9).map (c.toNat - ·)

/-- The digits that are left, with underscores between some of them. -/
def readDigits : Nat → List Char → Option Nat
  | acc, [] => some acc
  | acc, '_' :: c :: rest => (digit c).bind fun d => readDigits (10 * acc + d) rest
  | acc, c :: rest => (digit c).bind fun d => readDigits (10 * acc + d) rest

def readNat : List Char → Option Nat
  | [] => none
  | c :: rest => (digit c).bind fun d => readDigits d rest

/-- `int(text)`, without the limit on how many digits it reads. -/
def int (text : List Char) : Option Int :=
  match strip text with
  | '-' :: digits => (readNat digits).map fun n : Nat => -(n : Int)
  | '+' :: digits => (readNat digits).map Int.ofNat
  | digits => (readNat digits).map Int.ofNat

variable {c : Char} {text digits : List Char} {n acc : Nat} {i : Int}

theorem digit_of_isDigit (hc : c.isDigit) : digit c = some (c.toNat - '0'.toNat) := by
  have hrange : 48 ≤ c.toNat ∧ c.toNat ≤ 57 := Char.isDigit_iff_toNat.mp hc
  simp [digit, digitZeros, hrange]

theorem decimal_of_isDigit (hc : c.isDigit) : isDecimalDigit c := by
  have hrange : 48 ≤ c.toNat ∧ c.toNat ≤ 57 := Char.isDigit_iff_toNat.mp hc
  simp [isDecimalDigit, digitZeros, hrange]

theorem readDigits_cons (hc : c.isDigit) :
    readDigits acc (c :: digits) = readDigits (10 * acc + (c.toNat - '0'.toNat)) digits := by
  have hne : c ≠ '_' := by
    rintro rfl
    simp at hc
  rw [readDigits.eq_3 acc c digits (fun x rest h _ => hne h), digit_of_isDigit hc, Option.bind_some]

theorem readDigits_digits (h : ∀ c ∈ digits, c.isDigit) :
    readDigits acc digits = some (Nat.ofDigitChars 10 digits acc) := by
  induction digits generalizing acc with
  | nil => simp [readDigits]
  | cons c digits ih =>
    rw [readDigits_cons (h c List.mem_cons_self), ih fun d hd => h d (List.mem_cons_of_mem _ hd), Nat.ofDigitChars_cons]

theorem readNat_toDigits : readNat (Nat.toDigits 10 n) = some n := by
  have hdigits : ∀ c ∈ Nat.toDigits 10 n, c.isDigit := fun c hc =>
    Nat.isDigit_of_mem_toDigits (by decide) (by decide) hc
  have hread : Nat.ofDigitChars 10 (Nat.toDigits 10 n) 0 = n := Nat.ofDigitChars_toDigits (by decide) (by decide)
  cases hcases : Nat.toDigits 10 n with
  | nil => exact (Nat.toDigits_ne_nil hcases).elim
  | cons c rest =>
    rw [hcases] at hdigits hread
    rw [readNat, digit_of_isDigit (hdigits c List.mem_cons_self), Option.bind_some,
      readDigits_digits fun d hd => hdigits d (List.mem_cons_of_mem _ hd)]
    rw [Nat.ofDigitChars_cons, Nat.mul_zero, Nat.zero_add] at hread
    rw [hread]

theorem not_isSpace_of_isDigit (hc : c.isDigit) : isSpace c = false := by
  have hrange : 48 ≤ c.toNat ∧ c.toNat ≤ 57 := by
    simp only [Char.isDigit, Bool.and_eq_true, decide_eq_true_eq] at hc
    exact ⟨UInt32.le_iff_toNat_le.mp hc.1, UInt32.le_iff_toNat_le.mp hc.2⟩
  rw [isSpace]
  generalize c.toNat = n at hrange ⊢
  obtain ⟨h1, h2⟩ := hrange
  interval_cases n <;> rfl

/-- What `str` makes of an integer is read back. -/
def str (i : Int) : List Char :=
  match i with
  | .ofNat n => Nat.toDigits 10 n
  | .negSucc n => '-' :: Nat.toDigits 10 (n + 1)

theorem digit_or_minus_of_mem_str (hc : c ∈ str i) : c = '-' ∨ c.isDigit := by
  cases i with
  | ofNat n => exact Or.inr (Nat.isDigit_of_mem_toDigits (by decide) (by decide) hc)
  | negSucc n =>
    rcases List.mem_cons.mp hc with rfl | hc
    · exact Or.inl rfl
    · exact Or.inr (Nat.isDigit_of_mem_toDigits (by decide) (by decide) hc)

theorem stripped_str : Stripped (str i) := by
  refine stripped_of_forall fun c hc => ?_
  rcases digit_or_minus_of_mem_str hc with rfl | hc
  · decide
  · exact not_isSpace_of_isDigit hc

theorem int_str : int (str i) = some i := by
  have hstripped : strip (str i) = str i := stripped_str
  rw [int, hstripped]
  cases i with
  | ofNat n =>
    rw [str]
    have hdigits : ∀ c ∈ Nat.toDigits 10 n, c.isDigit :=
      fun c hc => Nat.isDigit_of_mem_toDigits (by decide) (by decide) hc
    split
    · rename_i digits heq
      have hminus := hdigits '-' (by rw [heq]; exact List.mem_cons_self)
      simp at hminus
    · rename_i digits heq
      have hplus := hdigits '+' (by rw [heq]; exact List.mem_cons_self)
      simp at hplus
    · rw [readNat_toDigits]
      rfl
  | negSucc n =>
    rw [str]
    change (readNat (Nat.toDigits 10 (n + 1))).map (fun n : Nat => -(n : Int)) = _
    rw [readNat_toDigits]
    rfl

end Text
