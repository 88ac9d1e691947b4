import Mathlib.Data.List.Forall2
import PropzaAmlak.Data.CheckDigit
import PropzaAmlak.Sadad.Invoice

/-! The check digit of SADAD bill numbers against the standard Luhn check. -/

namespace Sadad

open CheckDigit

variable {payload number pre post : List Char} {digits digits' ds : List Nat} {c c' : Char} {check d e i s : Nat}

/-- The values of the characters of a number, as `int` reads them one by one. -/
def Reads (number : List Char) (digits : List Nat) : Prop := List.Forall₂ (fun c d => intOfChar c =
    some d) number digits

/-- From the right every second digit is doubled, and the digits of the double are added up. -/
def standardWeight (i d : Nat) : Nat := if i % 2 = 0 then d else d * 2 / 10 + d * 2 % 10

def PassesLuhn (number : List Char) : Prop := ∃ digits, Reads number digits ∧ Passes 10 standardWeight digits

/-- The payload with its check digit passes the standard check, and no longer does with
another digit in any one place. -/
structure CheckedBy (payload : List Char) (check : Nat) : Prop where
  passes : PassesLuhn (payload ++ (toString check).toList)
  noticed : ∀ pre c c' post, payload ++ (toString check).toList = pre ++ c :: post →
    (intOfChar c').isSome → intOfChar c' ≠ intOfChar c → ¬PassesLuhn (pre ++ c' :: post)

/-- What doubling adds to a digit, up to tens. -/
def doublingGain (d : Nat) : Nat := if d < 5 then d else d + 1

/-- The digits in even places from the right gain as much by doubling as those in odd places. -/
def Balanced (digits : List Nat) : Prop :=
  total (fun i d => if i % 2 = 0 then doublingGain d else 0) digits % 10 =
    total (fun i d => if i % 2 = 0 then 0 else doublingGain d) digits % 10

theorem intOfChar_lt (h : intOfChar c = some d) : d < 10 := by
  obtain ⟨first, hfirst, rfl⟩ := Option.map_eq_some_iff.mp h
  have hrange := List.find?_some hfirst
  simp only [Bool.and_eq_true, decide_eq_true_eq] at hrange
  omega

theorem Reads.lt (h : Reads number digits) (hd : d ∈ digits) : d < 10 := by
  induction h with
  | nil => simp at hd
  | cons hfirst _ ih =>
    rcases List.mem_cons.mp hd with rfl | hd
    · exact intOfChar_lt hfirst
    · exact ih hd

theorem Reads.unique (h : Reads number digits) (h' : Reads number digits') : digits = digits' := by
  induction h generalizing digits' with
  | nil => exact (List.forall₂_nil_left_iff.mp h').symm
  | cons hfirst _ ih =>
    obtain ⟨d, ds, hd, hds, rfl⟩ := List.forall₂_cons_left_iff.mp h'
    obtain rfl : _ = d := Option.some.inj (hfirst.symm.trans hd)
    rw [ih hds]

theorem Reads.append (hpre : Reads pre digits) (hpost : Reads post ds) : Reads (pre ++ post) (digits ++ ds) :=
  List.rel_append hpre hpost

theorem Reads.split (h : Reads (pre ++ c :: post) digits) :
    ∃ before d after, Reads pre before ∧ intOfChar c = some d ∧ Reads post after ∧ digits = before ++ d :: after := by
  induction pre generalizing digits with
  | nil =>
    obtain ⟨d, after, hd, hafter, rfl⟩ := List.forall₂_cons_left_iff.mp h
    exact ⟨[], d, after, .nil, hd, hafter, rfl⟩
  | cons first pre ih =>
    obtain ⟨e, rest, he, hrest, rfl⟩ := List.forall₂_cons_left_iff.mp h
    obtain ⟨before, d, after, hbefore, hd, hafter, rfl⟩ := ih hrest
    exact ⟨e :: before, d, after, .cons he hbefore, hd, hafter, rfl⟩

theorem reads_check : ∀ check < 10, Reads (toString check).toList [check] := by
  intro check hcheck
  rw [Nat.toString_eq_ofList_toDigits, String.toList_ofList, Nat.toDigits_of_lt_base hcheck]
  refine .cons ?_ .nil
  revert check
  decide

theorem passesLuhn_iff (h : Reads number digits) : PassesLuhn number ↔ Passes 10 standardWeight digits := by
  constructor
  · rintro ⟨digits', hreads, hpasses⟩
    rwa [h.unique hreads]
  · intro hpasses
    exact ⟨digits, h, hpasses⟩

theorem standardWeight_eq (hd : d < 10) : standardWeight i d = if i % 2 = 0 then d else luhnDouble d := by
  unfold standardWeight luhnDouble
  split
  · rfl
  · split <;> omega

theorem standardWeight_injective (hd : d < 10) (he : e < 10)
    (h : standardWeight i d % 10 = standardWeight i e % 10) : d = e := by
  unfold standardWeight at h
  split at h <;> omega

/-- `_luhn_check_digit` adds the payload up as if it were the whole number. -/
theorem luhnSum_eq (h : Reads payload digits) : luhnSum payload = some (total standardWeight digits) := by
  induction h with
  | nil => rfl
  | @cons c d rest others hfirst hothers ih =>
    have hlength : rest.length = others.length := hothers.length_eq
    have hparity : (others.length + 1) % 2 = 0 ↔ ¬others.length % 2 = 0 := by omega
    rw [luhnSum, hfirst, ih, total, standardWeight_eq (intOfChar_lt hfirst), hlength]
    simp only [hparity, Option.bind_some, Option.map_some]
    split <;> simp_all

theorem doublingGain_eq : ∀ d < 10, (d * 2 / 10 + d * 2 % 10) % 10 = (d + doublingGain d) % 10 := by
  decide

theorem total_shifted (h : ∀ d ∈ digits, d < 10) :
    total (fun i => standardWeight (i + 1)) digits + total (fun i d => if i % 2 = 0 then 0 else doublingGain d) digits ≡
      total standardWeight digits + total (fun i d => if i % 2 = 0 then doublingGain d else 0) digits [MOD 10] := by
  rw [← total_add, ← total_add]
  apply total_modEq
  intro i d hd
  have hgain := doublingGain_eq d (h d hd)
  rcases Nat.mod_two_eq_zero_or_one i with hi | hi
  · have hnext : (i + 1) % 2 = 1 := by omega
    simpa [standardWeight, hi, hnext, Nat.ModEq] using hgain
  · have hnext : (i + 1) % 2 = 0 := by omega
    simpa [standardWeight, hi, hnext, Nat.ModEq] using hgain.symm

theorem passes_check_iff (h : Reads payload digits) (hs : s = total standardWeight digits) :
    Passes 10 standardWeight (digits ++ [(10 - s % 10) % 10]) ↔ Balanced digits := by
  have hshifted := total_shifted fun d hd => h.lt hd
  rw [passes_concat, Balanced, standardWeight]
  unfold Nat.ModEq at hshifted
  simp only [Nat.zero_mod, if_true]
  omega

/-- Another digit in one place of a number that passes. -/
theorem not_passesLuhn_of_changed (h : PassesLuhn (pre ++ c :: post)) (hread : (intOfChar c').isSome)
    (hne : intOfChar c' ≠ intOfChar c) : ¬PassesLuhn (pre ++ c' :: post) := by
  obtain ⟨digits, hdigits, hpasses⟩ := h
  obtain ⟨before, d, after, hbefore, hd, hafter, rfl⟩ := hdigits.split
  obtain ⟨e, he⟩ := Option.isSome_iff_exists.mp hread
  have hchanged : Reads (pre ++ c' :: post) (before ++ e :: after) := hbefore.append (.cons he hafter)
  rw [passesLuhn_iff hchanged]
  refine not_passes_of_changed (fun hplace => hne ?_) hpasses
  rw [he, hd, standardWeight_injective (intOfChar_lt he) (intOfChar_lt hd) hplace]

theorem check_digit_luhn_iff (h : Reads payload digits) :
    (∃ check, luhnCheckDigit payload = some check ∧ CheckedBy payload check) ↔ Balanced digits := by
  have hcode : luhnCheckDigit payload = some ((10 - total standardWeight digits % 10) % 10) := by
    rw [luhnCheckDigit, luhnSum_eq h]
    rfl
  have hnumber := h.append (reads_check ((10 - total standardWeight digits % 10) % 10) (Nat.mod_lt _ (by decide)))
  rw [← passes_check_iff h rfl, ← passesLuhn_iff hnumber]
  constructor
  · rintro ⟨check, hcheck, hchecked⟩
    obtain rfl : _ = check := Option.some.inj (hcode.symm.trans hcheck)
    exact hchecked.passes
  · intro hpasses
    refine ⟨_, hcode, hpasses, ?_⟩
    intro pre c c' post hsplit hread hne
    rw [hsplit] at hpasses
    exact not_passesLuhn_of_changed hpasses hread hne

theorem check_digit_luhn_fiftyFive : (∃ check, luhnCheckDigit ['5', '5'] = some check ∧ CheckedBy ['5', '5'] check) ↔
    Balanced [5, 5] :=
  check_digit_luhn_iff (.cons rfl (.cons rfl .nil))

/-- Payload 1 gets check digit 9, where the standard one is 8. -/
theorem check_digit_not_luhn : ¬∀ payload digits, Reads payload digits →
    ∃ check, luhnCheckDigit payload = some check ∧ CheckedBy payload check := by
  intro h
  obtain ⟨check, hcheck, hchecked⟩ := h ['1'] [1] (.cons rfl .nil)
  obtain rfl : 9 = check := Option.some.inj hcheck
  have hreads : Reads ['1', '9'] [1, 9] := .cons rfl (.cons rfl .nil)
  have hpasses : Passes 10 standardWeight [1, 9] := (passesLuhn_iff hreads).mp hchecked.passes
  exact absurd hpasses (by decide)

end Sadad
