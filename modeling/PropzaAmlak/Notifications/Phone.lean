import PropzaAmlak.Ejar.Payload

/-! The two normalisers of phone numbers: `_normalize_phone` of
`messaging_gateway.py` and `_normalize_mobile` of `payload_builder.py`. -/

namespace Notifications

open Ejar
open Text (isDecimalDigit decimal_of_isDigit)

variable {phone r : String} {digits mobile : List Char}

def countryCode : List Char := ['9', '6', '6']

/-- `re.sub(r'\D', '', phone)` -/
def digitsOf (phone : String) : List Char := phone.toList.filter isDecimalDigit

def withoutExitCode (digits : List Char) : List Char :=
  if ['0', '0'].isPrefixOf digits then digits.drop 2 else digits

def withoutTrunkZero (digits : List Char) : List Char :=
  if ['0'].isPrefixOf digits && digits.length == 10 then countryCode ++ digits.drop 1 else digits

def withCountryCode (digits : List Char) : List Char :=
  if countryCode.isPrefixOf digits then digits else countryCode ++ digits

/-- `_normalize_phone` -/
def normalizePhone (phone : CharField) : Option String :=
  match phone with
  | none => none
  | some phone =>
    if phone = "" then none else
    let digits := withCountryCode (withoutTrunkZero (withoutExitCode (digitsOf phone)))
    if 11 ≤ digits.length ∧ digits.length ≤ 13 then some (String.ofList digits) else none

/-- The nine digits of a Saudi mobile. -/
def SaudiMobile (mobile : List Char) : Prop := mobile.length = 9 ∧ (∀ c ∈ mobile, c.isDigit) ∧ ['5'] <+: mobile

/-- The ways to write a Saudi mobile, with spaces and dashes anywhere. -/
def Spells (phone : String) (mobile : List Char) : Prop :=
  ∃ start ∈ ["0", "", "+966", "00966", "9660"],
    phone.toList.filter (fun c => c ≠ ' ' ∧ c ≠ '-') = start.toList ++ mobile

/-- What the two normalisers should do with a phone number. -/
structure Normalised (phone : String) : Prop where
  agree : ∀ r, normalizePhone (some phone) = some r → normalizeMobile (some phone) = "+" ++ r
  oneForm : ∀ mobile, SaudiMobile mobile → Spells phone mobile →
    normalizePhone (some phone) = some (String.ofList (countryCode ++ mobile)) ∧
      normalizeMobile (some phone) = String.ofList ('+' :: (countryCode ++ mobile))
  stable : ∀ r, normalizePhone (some phone) = some r → normalizePhone (some r) = some r
  mobileStable : normalizeMobile (some (normalizeMobile (some phone))) = normalizeMobile (some phone)

/-- Digits that `_normalize_phone` makes a number of 11 to 13 digits. -/
def Callable (digits : List Char) : Prop :=
  if countryCode <+: digits then 11 ≤ digits.length ∧ digits.length ≤ 13 else 8 ≤ digits.length ∧ digits.length ≤ 10

/-- Digits that `_normalize_mobile` has a rule for. -/
def Recognised (digits : List Char) : Prop :=
  countryCode <+: digits ∨ digits.length = 9 ∨ digits.length = 10 ∧ ['0'] <+: digits

/-- The mobile's zero is left after the country code. -/
def KeepsTrunkZero (phone : String) : Prop :=
  ∃ mobile, SaudiMobile mobile ∧
    phone.toList.filter (fun c => c ≠ ' ' ∧ c ≠ '-') = countryCode ++ '0' :: mobile

theorem digit_of_mem_digitsOf {c : Char} (hc : c ∈ digitsOf phone) : isDecimalDigit c := (List.mem_filter.mp hc).2

theorem digitsOf_ofList (h : ∀ c ∈ digits, isDecimalDigit c) : digitsOf (String.ofList digits) = digits := by
  rw [digitsOf, String.toList_ofList, List.filter_eq_self]
  exact h

theorem digitsOf_plus (h : ∀ c ∈ digits, isDecimalDigit c) : digitsOf (String.ofList ('+' :: digits)) = digits := by
  rw [digitsOf, String.toList_ofList, List.filter_cons_of_neg (by decide), List.filter_eq_self]
  exact h

theorem normalizePhone_some (phone : String) : normalizePhone (some phone) =
    let digits := withCountryCode (withoutTrunkZero (withoutExitCode (digitsOf phone)))
    if 11 ≤ digits.length ∧ digits.length ≤ 13 then some (String.ofList digits) else none := by
  by_cases hempty : phone = ""
  · rw [hempty]
    rfl
  · rw [normalizePhone, if_neg hempty]

theorem normalizeMobile_some (phone : String) : normalizeMobile (some phone) =
    if countryCode <+: digitsOf phone then String.ofList ('+' :: digitsOf phone)
    else if ['0'] <+: digitsOf phone ∧ (digitsOf phone).length = 10 then
      String.ofList ('+' :: (countryCode ++ (digitsOf phone).drop 1))
    else if (digitsOf phone).length = 9 then String.ofList ('+' :: (countryCode ++ digitsOf phone))
    else phone := by
  by_cases hempty : phone = ""
  · rw [hempty]
    rfl
  · rw [normalizeMobile, if_neg hempty]
    simp only [List.isPrefixOf_iff_prefix, Bool.and_eq_true, beq_iff_eq, digitsOf, countryCode]
    rfl

theorem zero_not_first (h : countryCode <+: digits) : ¬['0'] <+: digits := by
  obtain ⟨rest, rfl⟩ := h
  simp [countryCode]

theorem withCountryCode_eq (digits : List Char) : withCountryCode (withoutTrunkZero digits) =
    if countryCode <+: digits then digits
    else if ['0'] <+: digits ∧ digits.length = 10 then countryCode ++ digits.drop 1
    else countryCode ++ digits := by
  by_cases hcode : countryCode <+: digits
  · simp [withCountryCode, withoutTrunkZero, hcode, zero_not_first hcode]
  · by_cases htrunk : ['0'] <+: digits ∧ digits.length = 10
    · simp [withCountryCode, withoutTrunkZero, hcode, htrunk]
    · have hkept : withoutTrunkZero digits = digits := by
        rw [withoutTrunkZero, if_neg (by simpa using htrunk)]
      rw [hkept, withCountryCode, if_neg hcode, if_neg htrunk]
      simp [hcode]

theorem callable_iff (digits : List Char) : Callable digits ↔
    11 ≤ (withCountryCode (withoutTrunkZero digits)).length ∧ (withCountryCode (withoutTrunkZero digits)).length ≤
      13 := by
  rw [withCountryCode_eq, Callable]
  have hlength : countryCode.length = 3 := rfl
  by_cases hcode : countryCode <+: digits
  · rw [if_pos hcode, if_pos hcode]
  · rw [if_neg hcode, if_neg hcode]
    split
    · rename_i htrunk
      simp only [List.length_append, List.length_drop]
      omega
    · rw [List.length_append]
      omega

theorem normalizePhone_eq_some : normalizePhone (some phone) = some r ↔ Callable (withoutExitCode (digitsOf phone)) ∧
    String.ofList (withCountryCode (withoutTrunkZero (withoutExitCode (digitsOf phone)))) = r := by
  rw [normalizePhone_some, callable_iff]
  by_cases hlength : 11 ≤ (withCountryCode (withoutTrunkZero (withoutExitCode (digitsOf phone)))).length ∧
      (withCountryCode (withoutTrunkZero (withoutExitCode (digitsOf phone)))).length ≤ 13
  · simp [hlength]
  · simp [hlength]

theorem code_first (digits : List Char) : countryCode <+: withCountryCode digits := by
  unfold withCountryCode
  split
  · rename_i hcode
    simpa using hcode
  · exact List.prefix_append _ _

theorem countryCode_digits : ∀ c ∈ countryCode, isDecimalDigit c := by
  intro c hc
  simp only [countryCode, List.mem_cons, List.not_mem_nil, or_false] at hc
  rcases hc with rfl | rfl | rfl <;> exact decimal_of_isDigit rfl

theorem digit_of_mem_normalized (h : ∀ c ∈ digits, isDecimalDigit c) :
    ∀ c ∈ withCountryCode (withoutTrunkZero (withoutExitCode digits)), isDecimalDigit c := by
  have hcode := countryCode_digits
  have hexit : ∀ c ∈ withoutExitCode digits, isDecimalDigit c := by
    intro c hc
    unfold withoutExitCode at hc
    split at hc
    · exact h c (List.mem_of_mem_drop hc)
    · exact h c hc
  intro c hc
  rw [withCountryCode_eq] at hc
  split at hc
  · exact hexit c hc
  · split at hc
    · rcases List.mem_append.mp hc with hc | hc
      · exact hcode c hc
      · exact hexit c (List.mem_of_mem_drop hc)
    · rcases List.mem_append.mp hc with hc | hc
      · exact hcode c hc
      · exact hexit c hc

theorem withoutExitCode_of_code (h : countryCode <+: digits) : withoutExitCode digits = digits := by
  obtain ⟨rest, rfl⟩ := h
  rfl

/-- Where a normalised number is returned as it came, it came with the country code. -/
theorem code_of_unchanged (h : phone = String.ofList ('+' :: withCountryCode
    (withoutTrunkZero (withoutExitCode (digitsOf phone))))) :
    countryCode <+: digitsOf phone := by
  have hdigits := congrArg digitsOf h
  rw [digitsOf_plus (digit_of_mem_normalized fun c hc => digit_of_mem_digitsOf hc)] at hdigits
  rw [hdigits]
  exact code_first _

theorem not_agree_of_exitCode (hcall : Callable (withoutExitCode (digitsOf phone)))
    (hexit : ['0', '0'] <+: digitsOf phone) :
    normalizeMobile (some phone) ≠
      String.ofList ('+' :: withCountryCode (withoutTrunkZero (withoutExitCode (digitsOf phone)))) := by
  have hunchanged := @code_of_unchanged phone
  rw [normalizeMobile_some]
  generalize digitsOf phone = digits at hcall hexit hunchanged
  obtain ⟨rest, rfl⟩ := hexit
  have hrest : withoutExitCode (['0', '0'] ++ rest) = rest := rfl
  have hcode : ¬countryCode <+: ['0', '0'] ++ rest := by simp [countryCode]
  rw [hrest] at hcall hunchanged
  rw [hrest, if_neg hcode]
  simp only [List.length_append, List.length_cons, List.length_nil]
  split
  · rename_i htrunk
    have hlength : rest.length = 8 := by omega
    have hbare : ¬countryCode <+: rest := by
      intro hrestCode
      rw [Callable, if_pos hrestCode] at hcall
      omega
    have hten : ¬(['0'] <+: rest ∧ rest.length = 10) := by omega
    rw [withCountryCode_eq, if_neg hbare, if_neg hten]
    intro heq
    have hlengths := congrArg String.length heq
    simp [hlength] at hlengths
  · split
    · rename_i hnine
      unfold Callable at hcall
      split at hcall <;> omega
    · exact fun heq => hcode (hunchanged heq)

theorem agree_iff (hcall : Callable (withoutExitCode (digitsOf phone))) :
    normalizeMobile (some phone) =
        String.ofList ('+' :: withCountryCode (withoutTrunkZero (withoutExitCode (digitsOf phone)))) ↔
      ¬['0', '0'] <+: digitsOf phone ∧ Recognised (digitsOf phone) := by
  by_cases hexit : ['0', '0'] <+: digitsOf phone
  · exact ⟨fun heq => absurd heq (not_agree_of_exitCode hcall hexit), fun h => absurd hexit h.1⟩
  · have hunchanged := @code_of_unchanged phone
    have hkept : withoutExitCode (digitsOf phone) = digitsOf phone := by simp [withoutExitCode, hexit]
    rw [normalizeMobile_some]
    rw [hkept] at hcall hunchanged ⊢
    rw [withCountryCode_eq] at hunchanged ⊢
    unfold Recognised
    by_cases hcode : countryCode <+: digitsOf phone
    · simp [hcode, hexit]
    · rw [if_neg hcode] at hunchanged
      rw [if_neg hcode, if_neg hcode]
      by_cases htrunk : ['0'] <+: digitsOf phone ∧ (digitsOf phone).length = 10
      · simp [htrunk, hexit]
      · rw [if_neg htrunk] at hunchanged
        rw [if_neg htrunk, if_neg htrunk]
        by_cases hnine : (digitsOf phone).length = 9
        · simp [hnine, hexit]
        · rw [if_neg hnine]
          constructor
          · intro heq
            exact absurd (hunchanged heq) hcode
          · rintro ⟨-, hrecognised⟩
            rcases hrecognised with h | h | h
            · exact absurd h hcode
            · exact absurd h hnine
            · exact absurd h.symm htrunk

theorem normalizePhone_of_code (hdigits : ∀ c ∈ digits, isDecimalDigit c) (hcode : countryCode <+: digits)
    (hcall : Callable digits) : normalizePhone (some (String.ofList digits)) = some (String.ofList digits) := by
  rw [normalizePhone_eq_some, digitsOf_ofList hdigits, withoutExitCode_of_code hcode]
  refine ⟨hcall, ?_⟩
  rw [withCountryCode_eq, if_pos hcode]

theorem normalizePhone_stable (h : normalizePhone (some phone) = some r) : normalizePhone (some r) = some r := by
  obtain ⟨hcall, rfl⟩ := normalizePhone_eq_some.mp h
  have hdigits := digit_of_mem_normalized fun c (hc : c ∈ digitsOf phone) => digit_of_mem_digitsOf hc
  apply normalizePhone_of_code hdigits (code_first _)
  rw [Callable, if_pos (code_first _)]
  exact (callable_iff _).mp hcall

theorem normalizeMobile_of_code (hdigits : ∀ c ∈ digits, isDecimalDigit c) (hcode : countryCode <+: digits) :
    normalizeMobile (some (String.ofList ('+' :: digits))) = String.ofList ('+' :: digits) := by
  rw [normalizeMobile_some, digitsOf_plus hdigits, if_pos hcode]

theorem normalizeMobile_stable (phone : String) :
    normalizeMobile (some (normalizeMobile (some phone))) = normalizeMobile (some phone) := by
  have hdigits : ∀ c ∈ digitsOf phone, isDecimalDigit c := fun c hc => digit_of_mem_digitsOf hc
  have happend : ∀ l : List Char, (∀ c ∈ l, c ∈ digitsOf phone) → ∀ c ∈ countryCode ++ l, isDecimalDigit c := by
    intro l hl c hc
    rcases List.mem_append.mp hc with hc | hc
    · exact countryCode_digits c hc
    · exact hdigits c (hl c hc)
  have hsame := normalizeMobile_some phone
  split at hsame
  · rename_i hcode
    rw [hsame, normalizeMobile_of_code hdigits hcode]
  · split at hsame
    · rw [hsame, normalizeMobile_of_code (happend _ fun c => List.mem_of_mem_drop) (List.prefix_append _ _)]
    · split at hsame
      · rw [hsame, normalizeMobile_of_code (happend _ fun c hc => hc) (List.prefix_append _ _)]
      · rw [hsame, hsame]

theorem digitsOf_spelled {start : List Char} (hmobile : SaudiMobile mobile)
    (h : phone.toList.filter (fun c => c ≠ ' ' ∧ c ≠ '-') = start ++ mobile) :
    digitsOf phone = start.filter isDecimalDigit ++ mobile := by
  have hignored : digitsOf phone = (phone.toList.filter fun c => c ≠ ' ' ∧ c ≠ '-').filter isDecimalDigit := by
    rw [digitsOf, List.filter_filter]
    apply List.filter_congr
    intro c _
    by_cases hspace : c = ' '
    · rw [hspace]
      rfl
    · by_cases hdash : c = '-'
      · rw [hdash]
        rfl
      · simp [hspace, hdash]
  rw [hignored, h, List.filter_append]
  congr 1
  exact List.filter_eq_self.mpr fun c hc => decimal_of_isDigit (hmobile.2.1 c hc)

/-- What `_normalize_phone` makes of the digits of a mobile written with any of the
prefixes but the last. -/
theorem spelled_digits (hmobile : SaudiMobile mobile) {start : List Char}
    (hstart : start ∈ [['0'], [], countryCode, '0' :: '0' :: countryCode]) :
    Callable (withoutExitCode (start ++ mobile)) ∧
      withCountryCode (withoutTrunkZero (withoutExitCode (start ++ mobile))) = countryCode ++ mobile := by
  obtain ⟨hlength, -, rest, rfl⟩ := hmobile
  have hcoded : Callable (countryCode ++ (['5'] ++ rest)) ∧
      withCountryCode (withoutTrunkZero (countryCode ++ (['5'] ++ rest))) = countryCode ++ (['5'] ++ rest) := by
    rw [Callable, withCountryCode_eq, if_pos (List.prefix_append _ _), if_pos (List.prefix_append _ _),
      List.length_append, hlength]
    exact ⟨by decide, rfl⟩
  have hbare : ¬countryCode <+: '5' :: rest := by simp [countryCode]
  have htrunk : ¬countryCode <+: '0' :: '5' :: rest := by simp [countryCode]
  simp only [List.mem_cons, List.not_mem_nil, or_false] at hstart
  rcases hstart with rfl | rfl | rfl | rfl
  · have hkept : withoutExitCode (['0'] ++ (['5'] ++ rest)) = '0' :: '5' :: rest := by simp [withoutExitCode]
    rw [hkept, Callable, withCountryCode_eq, if_neg htrunk, if_neg htrunk]
    simp_all
  · have hkept : withoutExitCode ([] ++ (['5'] ++ rest)) = '5' :: rest := by simp [withoutExitCode]
    rw [hkept, Callable, withCountryCode_eq, if_neg hbare, if_neg hbare]
    simp_all
  · rwa [withoutExitCode_of_code (List.prefix_append _ _)]
  · exact hcoded

theorem normalizePhone_spelled (hmobile : SaudiMobile mobile) (h : Spells phone mobile)
    (hzero : ¬KeepsTrunkZero phone) :
    normalizePhone (some phone) = some (String.ofList (countryCode ++ mobile)) := by
  obtain ⟨start, hstart, hspelled⟩ := h
  have hdigits := digitsOf_spelled hmobile hspelled
  have hprefixes : ∀ start ∈ ["0", "", "+966", "00966", "9660"],
      start.toList.filter isDecimalDigit ∈ [['0'], [], countryCode, '0' :: '0' :: countryCode] ∨ start = "9660" := by
    decide
  rcases hprefixes start hstart with hknown | rfl
  · obtain ⟨hcall, heq⟩ := spelled_digits hmobile hknown
    rw [normalizePhone_eq_some, hdigits, heq]
    exact ⟨hcall, rfl⟩
  · exact absurd ⟨mobile, hmobile, hspelled⟩ hzero

/-- The spelling with the country code and the zero keeps the zero. -/
theorem normalizePhone_trunkZero (hmobile : SaudiMobile mobile)
    (h : phone.toList.filter (fun c => c ≠ ' ' ∧ c ≠ '-') = countryCode ++ '0' :: mobile) :
    normalizePhone (some phone) = some (String.ofList (countryCode ++ '0' :: mobile)) := by
  have hspelled : phone.toList.filter (fun c => c ≠ ' ' ∧ c ≠ '-') = (countryCode ++ ['0']) ++ mobile :=
    by simpa using h
  have hdigits : digitsOf phone = countryCode ++ '0' :: mobile := digitsOf_spelled hmobile hspelled
  have hcode : countryCode <+: digitsOf phone := hdigits ▸ List.prefix_append _ _
  rw [normalizePhone_eq_some, withoutExitCode_of_code hcode, withCountryCode_eq, if_pos hcode, Callable, if_pos hcode,
    hdigits, List.length_append, List.length_cons, hmobile.1]
  exact ⟨by decide, rfl⟩

theorem normalisers_agree_iff (phone : String) : Normalised phone ↔
    (Callable (withoutExitCode (digitsOf phone)) → ¬['0', '0'] <+: digitsOf phone ∧ Recognised (digitsOf phone)) ∧
      ¬KeepsTrunkZero phone := by
  have hplus : ∀ l : List Char, "+" ++ String.ofList l = String.ofList ('+' :: l) := by
    intro l
    rw [← String.toList_inj]
    simp
  constructor
  · intro h
    constructor
    · intro hcall
      rw [← agree_iff hcall, ← hplus]
      exact h.agree _ (normalizePhone_eq_some.mpr ⟨hcall, rfl⟩)
    · rintro ⟨mobile, hmobile, hspelled⟩
      have hform := (h.oneForm mobile hmobile ⟨"9660", by simp, hspelled⟩).1
      rw [normalizePhone_trunkZero hmobile hspelled] at hform
      have hlists := String.ofList_injective (Option.some.inj hform)
      simp at hlists
  · rintro ⟨hagree, hzero⟩
    have hmobile : ∀ r, normalizePhone (some phone) = some r → normalizeMobile (some phone) = "+" ++ r := by
      intro r hr
      obtain ⟨hcall, rfl⟩ := normalizePhone_eq_some.mp hr
      rw [hplus]
      exact (agree_iff hcall).mpr (hagree hcall)
    refine ⟨hmobile, ?_, fun r => normalizePhone_stable, normalizeMobile_stable phone⟩
    intro mobile hdigits hspelled
    have hphone := normalizePhone_spelled hdigits hspelled hzero
    refine ⟨hphone, ?_⟩
    rw [hmobile _ hphone, hplus]

/-- Written with 00966 a mobile reaches Ejar as it was typed. -/
theorem normalisers_disagree : ¬∀ phone, Normalised phone := by
  intro h
  have hagree := (h "00966512345678").agree "966512345678" (by decide)
  exact absurd hagree (by decide)

end Notifications
