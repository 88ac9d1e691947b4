import PropzaAmlak.Notifications.Phone

/-! `_find_partner_by_phone` of `telephony_gateway.py`: a caller's number is
searched in a few spellings before every partner's numbers are normalised. -/

namespace CallCenter

open Ejar Notifications
open Text (isDecimalDigit decimal_of_isDigit)

structure Partner where
  id : Nat
  mobile : CharField
  phone : CharField
deriving DecidableEq

/-- What follows the country code. -/
def localPart (normalized : List Char) : List Char :=
  if countryCode.isPrefixOf normalized then normalized.drop 3 else normalized

def candidates (normalized : String) : List String :=
  let rest := String.ofList (localPart normalized.toList)
  [normalized, "+" ++ normalized, "00" ++ normalized, "0" ++ rest, rest]

/-- The field is one of the candidates. -/
def listed (normalized : String) (field : CharField) : Bool := field.any (· ∈ candidates normalized)

def Partner.answers (p : Partner) (normalized : String) : Bool :=
  normalizePhone p.mobile == some normalized || normalizePhone p.phone == some normalized

/-- `_find_partner_by_phone` over the partners in the order of a search. -/
def findPartnerByPhone (table : List Partner) (phone : CharField) : Option Partner :=
  match normalizePhone phone with
  | none => none
  | some normalized =>
    match table.find? (listed normalized ·.mobile) with
    | some p => some p
    | none =>
      match table.find? (listed normalized ·.phone) with
      | some p => some p
      | none => (table.filter fun p => p.mobile.isSome || p.phone.isSome).find? (·.answers normalized)

/-- The lookup finds a partner exactly if one answers to the caller's normal
form, and finds no other. -/
structure LookupRight (table : List Partner) (phone : CharField) : Prop where
  found : (findPartnerByPhone table phone).isSome ↔
    ∃ r, normalizePhone phone = some r ∧ ∃ p ∈ table, p.answers r
  right : ∀ p, findPartnerByPhone table phone = some p →
    p ∈ table ∧ ∃ r, normalizePhone phone = some r ∧ p.answers r

/-- A candidate spelling that is not normalised to the number it is made from:
with a zero before other than nine digits or before a zero, or without a country
code where the number goes on like an exit code, a country code or a trunk zero. -/
def Misspelled (normalized : String) (field : CharField) : Prop :=
  ∃ s, field = some s ∧
    (s.toList = '0' :: localPart normalized.toList ∧
        ((localPart normalized.toList).length ≠ 9 ∨ ['0'] <+: localPart normalized.toList) ∨
      s.toList = localPart normalized.toList ∧
        (['0', '0'] <+: localPart normalized.toList ∨ countryCode <+: localPart normalized.toList ∨
          (localPart normalized.toList).length = 10 ∧ ['0'] <+: localPart normalized.toList))

/-- The first partner of the table whose field is a candidate. -/
def FirstListed (field : Partner → CharField) (normalized : String) (table : List Partner) (p : Partner) : Prop :=
  ∃ before after, table = before ++ p :: after ∧ listed normalized (field p) ∧
    ∀ q ∈ before, ¬ listed normalized (field q)

/-- The first partner listed by mobile, or with none of these the first listed by
phone, is listed by a right spelling or has the number in its other field. -/
structure WellListed (table : List Partner) (normalized : String) : Prop where
  mobile : ∀ p, FirstListed Partner.mobile normalized table p → Misspelled normalized p.mobile →
    normalizePhone p.phone = some normalized
  phone : (∀ q ∈ table, ¬ listed normalized q.mobile) → ∀ p, FirstListed Partner.phone normalized table p →
    Misspelled normalized p.phone → normalizePhone p.mobile = some normalized

section NormalForms

variable {phone : CharField} {r : String} {rest : List Char}

/-- The country code and the eight to ten digits after it. -/
structure NormalForm (r : String) (rest : List Char) : Prop where
  eq : r = String.ofList (countryCode ++ rest)
  digits : ∀ c ∈ rest, isDecimalDigit c
  least : 8 ≤ rest.length
  most : rest.length ≤ 10

theorem normalForm_of_normalizePhone (hr : normalizePhone phone = some r) : ∃ rest, NormalForm r rest := by
  cases phone with
  | none => simp [normalizePhone] at hr
  | some phone =>
    obtain ⟨hcall, rfl⟩ := normalizePhone_eq_some.mp hr
    have hdigits := digit_of_mem_normalized fun c (hc : c ∈ digitsOf phone) => digit_of_mem_digitsOf hc
    have hlength := (callable_iff _).mp hcall
    obtain ⟨rest, hrest⟩ := code_first (withoutTrunkZero (withoutExitCode (digitsOf phone)))
    rw [← hrest] at hdigits hlength ⊢
    have hcode : countryCode.length = 3 := rfl
    rw [List.length_append, hcode] at hlength
    refine ⟨rest, rfl, ?_, by omega, by omega⟩
    intro c hc
    exact hdigits c (List.mem_append_right _ hc)

theorem NormalForm.localPart_eq (hform : NormalForm r rest) : localPart r.toList = rest := by
  rw [hform.eq, String.toList_ofList, localPart, if_pos (by simp)]
  rfl

/-- A number is normalised to this one exactly if the rules make it of its digits. -/
theorem NormalForm.normalizes_iff (hform : NormalForm r rest) {s : String} {digits : List Char}
    (hs : digitsOf s = digits) : normalizePhone (some s) = some r ↔
      withCountryCode (withoutTrunkZero (withoutExitCode digits)) = countryCode ++ rest := by
  rw [normalizePhone_eq_some, hs, callable_iff, hform.eq, String.ofList_inj]
  constructor
  · exact And.right
  · intro heq
    have hcode : countryCode.length = 3 := rfl
    have hleast := hform.least
    have hmost := hform.most
    rw [heq, List.length_append, hcode]
    exact ⟨by omega, rfl⟩

theorem length_rules_le (digits : List Char) :
    (withCountryCode (withoutTrunkZero digits)).length ≤ digits.length + 3 := by
  have hcode : countryCode.length = 3 := rfl
  rw [withCountryCode_eq]
  split
  · omega
  · split
    all_goals
      simp only [List.length_append, List.length_drop, hcode]
      omega

theorem rules_of_code {start : List Char} (hstart : start ∈ [[], ['0', '0']]) :
    withCountryCode (withoutTrunkZero (withoutExitCode (start ++ (countryCode ++ rest)))) = countryCode ++ rest := by
  have hcode : countryCode <+: countryCode ++ rest := List.prefix_append _ _
  have hexit : withoutExitCode (start ++ (countryCode ++ rest)) = countryCode ++ rest := by
    simp only [List.mem_cons, List.not_mem_nil, or_false] at hstart
    rcases hstart with rfl | rfl
    · exact withoutExitCode_of_code hcode
    · rfl
  rw [hexit, withCountryCode_eq, if_pos hcode]

theorem rules_ne_of_shorter {digits : List Char} (hshorter : digits.length < rest.length) :
    withCountryCode (withoutTrunkZero digits) ≠ countryCode ++ rest := by
  intro heq
  have hcode : countryCode.length = 3 := rfl
  have hle := length_rules_le digits
  rw [heq, List.length_append, hcode] at hle
  omega

theorem rules_of_zero :
    withCountryCode (withoutTrunkZero (withoutExitCode ('0' :: rest))) = countryCode ++ rest ↔
      rest.length = 9 ∧ ¬ ['0'] <+: rest := by
  by_cases hzero : ['0'] <+: rest
  · obtain ⟨tail, rfl⟩ := hzero
    have hexit : withoutExitCode ('0' :: (['0'] ++ tail)) = tail := rfl
    simp only [List.prefix_append, not_true_eq_false, and_false, iff_false]
    rw [hexit]
    exact rules_ne_of_shorter (by simp)
  · have hexit : withoutExitCode ('0' :: rest) = '0' :: rest := by
      unfold withoutExitCode
      rw [if_neg (by simpa using hzero)]
    have hbare : ¬ countryCode <+: '0' :: rest := by simp [countryCode]
    rw [hexit, withCountryCode_eq, if_neg hbare]
    by_cases hnine : rest.length = 9
    · simp [hnine, hzero]
    · simp [hnine]

theorem NormalForm.rules_of_bare (hform : NormalForm r rest) :
    withCountryCode (withoutTrunkZero (withoutExitCode rest)) = countryCode ++ rest ↔
      ¬ (['0', '0'] <+: rest ∨ countryCode <+: rest ∨ rest.length = 10 ∧ ['0'] <+: rest) := by
  have hleast := hform.least
  by_cases hexit : ['0', '0'] <+: rest
  · obtain ⟨tail, rfl⟩ := hexit
    have htail : withoutExitCode (['0', '0'] ++ tail) = tail := rfl
    simp only [List.prefix_append, true_or, not_true_eq_false, iff_false]
    rw [htail]
    apply rules_ne_of_shorter
    simp only [List.length_append, List.length_cons]
    omega
  · have hkept : withoutExitCode rest = rest := by
      unfold withoutExitCode
      rw [if_neg (by simpa using hexit)]
    rw [hkept, withCountryCode_eq]
    by_cases hcoded : countryCode <+: rest
    · have hne : ¬ countryCode = [] := by decide
      simp [hcoded, hne]
    · rw [if_neg hcoded]
      by_cases htrunk : ['0'] <+: rest ∧ rest.length = 10
      · have hne : rest.tail ≠ rest := by
          intro heq
          have hlengths := congrArg List.length heq
          simp only [List.length_tail] at hlengths
          omega
        simp [htrunk, hne]
      · simp [hexit, hcoded, and_comm, htrunk]

theorem misspelled_iff {s : String} (hform : NormalForm r rest) : Misspelled r (some s) ↔
    s.toList = '0' :: rest ∧ (rest.length ≠ 9 ∨ ['0'] <+: rest) ∨
      s.toList = rest ∧ (['0', '0'] <+: rest ∨ countryCode <+: rest ∨ rest.length = 10 ∧ ['0'] <+: rest) := by
  simp [Misspelled, hform.localPart_eq]

theorem not_misspelled_of_length {s : String} (hform : NormalForm r rest)
    (hlength : rest.length + 1 < s.toList.length) : ¬ Misspelled r (some s) := by
  rw [misspelled_iff hform]
  rintro (⟨heq, -⟩ | ⟨heq, -⟩)
  all_goals
    rw [heq] at hlength
    simp at hlength

/-- Written with the country code, a candidate is always right. -/
theorem right_of_code {s : String} (start : List Char) (hform : NormalForm r rest)
    (hs : digitsOf s = start ++ (countryCode ++ rest)) (hstart : start ∈ [[], ['0', '0']])
    (hlength : rest.length + 1 < s.toList.length) : normalizePhone (some s) = some r ↔ ¬ Misspelled r (some s) := by
  have hright := not_misspelled_of_length hform hlength
  rw [hform.normalizes_iff hs]
  simp only [hright, not_false_eq_true, iff_true]
  exact rules_of_code hstart

theorem mem_candidates {s : String} (hform : NormalForm r rest) (hs : s ∈ candidates r) :
    s.toList ∈ [countryCode ++ rest, '+' :: (countryCode ++ rest), ['0', '0'] ++ (countryCode ++ rest), '0' :: rest,
      rest] := by
  have hr : r.toList = countryCode ++ rest := by rw [hform.eq, String.toList_ofList]
  simp only [candidates, hform.localPart_eq, List.mem_cons, List.not_mem_nil, or_false] at hs
  rcases hs with rfl | rfl | rfl | rfl | rfl
  all_goals simp [hr]

/-- A candidate is normalised to the number it was made from, unless it is misspelled. -/
theorem normalizes_of_listed {field : CharField} (hform : NormalForm r rest) (hlisted : listed r field) :
    normalizePhone field = some r ↔ ¬ Misspelled r field := by
  obtain ⟨s, rfl, hs⟩ := (Option.any_eq_true _ _).mp hlisted
  have hmem := mem_candidates hform (of_decide_eq_true hs)
  have hcode : countryCode.length = 3 := rfl
  have hnumber : ∀ c ∈ countryCode ++ rest, isDecimalDigit c :=
    List.forall_mem_append.mpr ⟨countryCode_digits, hform.digits⟩
  have hzero : isDecimalDigit '0' := decimal_of_isDigit rfl
  have hlong (start : List Char) :
      rest.length + 1 < (String.ofList (start ++ (countryCode ++ rest))).toList.length := by
    rw [String.toList_ofList, List.length_append, List.length_append, hcode]
    omega
  obtain ⟨digits, rfl⟩ : ∃ digits, s = String.ofList digits := ⟨s.toList, by simp⟩
  rw [String.toList_ofList] at hmem
  simp only [List.mem_cons, List.not_mem_nil, or_false] at hmem
  rcases hmem with rfl | rfl | rfl | rfl | hrest
  · exact right_of_code [] hform (digitsOf_ofList hnumber) (by simp) (hlong [])
  · exact right_of_code [] hform (digitsOf_plus hnumber) (by simp) (hlong ['+'])
  · have hdigits : ∀ c ∈ ['0', '0'] ++ (countryCode ++ rest), isDecimalDigit c :=
      List.forall_mem_append.mpr ⟨by simp [hzero], hnumber⟩
    exact right_of_code ['0', '0'] hform (digitsOf_ofList hdigits) (by simp) (hlong ['0', '0'])
  · have hne : '0' :: rest ≠ rest := List.cons_ne_self _ _
    have hdigits : ∀ c ∈ '0' :: rest, isDecimalDigit c := List.forall_mem_cons.mpr ⟨hzero, hform.digits⟩
    rw [hform.normalizes_iff (digitsOf_ofList hdigits), rules_of_zero, misspelled_iff hform]
    simp [hne]
  · rw [hrest]
    have hne : rest ≠ '0' :: rest := (List.cons_ne_self _ _).symm
    rw [hform.normalizes_iff (digitsOf_ofList hform.digits), hform.rules_of_bare, misspelled_iff hform]
    simp [hne]

end NormalForms

section Lookup

variable {table : List Partner} {phone : CharField} {r : String} {p : Partner}

theorem answers_iff : p.answers r ↔ normalizePhone p.mobile = some r ∨ normalizePhone p.phone = some r := by
  simp [Partner.answers]

theorem firstListed_iff {field : Partner → CharField} :
    FirstListed field r table p ↔ table.find? (listed r <| field ·) = some p := by
  rw [List.find?_eq_some_iff_append]
  constructor
  · rintro ⟨before, after, rfl, hlisted, hnone⟩
    exact ⟨hlisted, before, after, rfl, by simpa using hnone⟩
  · rintro ⟨hlisted, before, after, rfl, hnone⟩
    exact ⟨before, after, rfl, hlisted, by simpa using hnone⟩

/-- What the lookup returns, by the search that finds it. -/
theorem findPartnerByPhone_cases (table : List Partner) (hr : normalizePhone phone = some r) :
    (∃ p, FirstListed Partner.mobile r table p ∧ findPartnerByPhone table phone = some p) ∨
      (∀ q ∈ table, ¬ listed r q.mobile) ∧
        ((∃ p, FirstListed Partner.phone r table p ∧ findPartnerByPhone table phone = some p) ∨
          findPartnerByPhone table phone =
            (table.filter fun p => p.mobile.isSome || p.phone.isSome).find? (·.answers r)) := by
  unfold findPartnerByPhone
  simp only [hr, firstListed_iff]
  cases hmobile : table.find? (listed r ·.mobile) with
  | some p => exact .inl ⟨p, rfl, rfl⟩
  | none =>
    right
    refine ⟨by simpa using List.find?_eq_none.mp hmobile, ?_⟩
    cases hphone : table.find? (listed r ·.phone) with
    | some p => exact .inl ⟨p, rfl, rfl⟩
    | none => exact .inr rfl

theorem FirstListed.mem {field : Partner → CharField} (hfirst : FirstListed field r table p) : p ∈ table := by
  obtain ⟨before, after, rfl, -, -⟩ := hfirst
  simp

/-- Partners without a number cannot answer, so the scan covers all that can. -/
theorem find_scan_isSome_iff :
    ((table.filter fun p => p.mobile.isSome || p.phone.isSome).find? (·.answers r)).isSome ↔
      ∃ p ∈ table, p.answers r := by
  rw [List.find?_isSome]
  constructor
  · rintro ⟨p, hp, hanswers⟩
    exact ⟨p, (List.mem_filter.mp hp).1, hanswers⟩
  · rintro ⟨p, hp, hanswers⟩
    refine ⟨p, List.mem_filter.mpr ⟨hp, ?_⟩, hanswers⟩
    by_contra hnone
    simp only [Bool.or_eq_true, not_or, Option.not_isSome_iff_eq_none] at hnone
    simp [answers_iff, hnone, normalizePhone] at hanswers

theorem lookupRight_of_found (hr : normalizePhone phone = some r) (hfound : findPartnerByPhone table phone = some p)
    (hp : p ∈ table) (hanswers : p.answers r) : LookupRight table phone := by
  constructor
  · simp only [hfound, Option.isSome_some, true_iff]
    exact ⟨r, hr, p, hp, hanswers⟩
  · intro q hq
    obtain rfl : p = q := by simpa [hfound] using hq
    exact ⟨hp, r, hr, hanswers⟩

theorem LookupRight.answers (hright : LookupRight table phone) (hr : normalizePhone phone = some r)
    (hfound : findPartnerByPhone table phone = some p) : p.answers r := by
  obtain ⟨-, r', hr', hanswers⟩ := hright.right p hfound
  obtain rfl : r = r' := by simpa [hr] using hr'
  exact hanswers

theorem FirstListed.is_listed {field : Partner → CharField} (hfirst : FirstListed field r table p) :
    listed r (field p) := by
  obtain ⟨before, after, rfl, hlisted, -⟩ := hfirst
  exact hlisted

theorem lookupRight_of_wellListed (hlisted : ∀ r, normalizePhone phone = some r → WellListed table r) :
    LookupRight table phone := by
  cases hr : normalizePhone phone with
  | none =>
    have hfound : findPartnerByPhone table phone = none := by simp [findPartnerByPhone, hr]
    constructor
    · simp [hfound, hr]
    · simp [hfound]
  | some r =>
    obtain ⟨rest, hform⟩ := normalForm_of_normalizePhone hr
    have hwell := hlisted r hr
    rcases findPartnerByPhone_cases table hr with
      ⟨p, hfirst, hfound⟩ | ⟨hnone, ⟨p, hfirst, hfound⟩ | hscan⟩
    · refine lookupRight_of_found hr hfound hfirst.mem (answers_iff.mpr ?_)
      by_cases hmisspelled : Misspelled r p.mobile
      · exact .inr (hwell.mobile p hfirst hmisspelled)
      · exact .inl ((normalizes_of_listed hform hfirst.is_listed).mpr hmisspelled)
    · refine lookupRight_of_found hr hfound hfirst.mem (answers_iff.mpr ?_)
      by_cases hmisspelled : Misspelled r p.phone
      · exact .inl (hwell.phone hnone p hfirst hmisspelled)
      · exact .inr ((normalizes_of_listed hform hfirst.is_listed).mpr hmisspelled)
    · constructor
      · rw [hscan, find_scan_isSome_iff]
        simp [hr]
      · intro p hp
        rw [hscan] at hp
        have hmem := List.mem_of_find?_eq_some hp
        exact ⟨(List.mem_filter.mp hmem).1, r, hr, by simpa using List.find?_some hp⟩

/-- The lookup is right exactly if the partner that the search in a few spellings
settles on answers to the number. -/
theorem lookup_right_iff (table : List Partner) (phone : CharField) :
    LookupRight table phone ↔ ∀ r, normalizePhone phone = some r → WellListed table r := by
  constructor
  · intro hright r hr
    obtain ⟨rest, hform⟩ := normalForm_of_normalizePhone hr
    constructor
    · intro p hfirst hmisspelled
      have hfind := firstListed_iff.mp hfirst
      have hfound : findPartnerByPhone table phone = some p := by simp [findPartnerByPhone, hr, hfind]
      have hwrong : normalizePhone p.mobile ≠ some r := by
        rw [ne_eq, normalizes_of_listed hform hfirst.is_listed, not_not]
        exact hmisspelled
      exact (answers_iff.mp (hright.answers hr hfound)).resolve_left hwrong
    · intro hnone p hfirst hmisspelled
      have hfind := firstListed_iff.mp hfirst
      have hmobile : table.find? (listed r ·.mobile) = none := by simpa using hnone
      have hfound : findPartnerByPhone table phone = some p := by simp [findPartnerByPhone, hr, hmobile, hfind]
      have hwrong : normalizePhone p.phone ≠ some r := by
        rw [ne_eq, normalizes_of_listed hform hfirst.is_listed, not_not]
        exact hmisspelled
      exact (answers_iff.mp (hright.answers hr hfound)).resolve_right hwrong
  · exact lookupRight_of_wellListed

end Lookup

/-- A caller with eight digits is taken for a partner of another number. -/
theorem wrong_partner_found : ¬ ∀ table phone, LookupRight table phone := by
  intro hall
  have hright := hall [⟨1, some "012345678", none⟩] (some "12345678")
  have hfound : findPartnerByPhone [⟨1, some "012345678", none⟩] (some "12345678") =
      some ⟨1, some "012345678", none⟩ := by decide +kernel
  have hanswers := hright.answers (r := "96612345678") (by decide +kernel) hfound
  revert hanswers
  decide +kernel

end CallCenter
