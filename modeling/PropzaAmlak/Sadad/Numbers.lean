import PropzaAmlak.Sadad.Invoice

/-! Which invoices a SADAD bill number tells apart. -/

namespace Sadad

variable {billerCode : String} {payment partner : Nat} {c : Char}

def FourDigits (billerCode : String) : Prop := billerCode.toList.length = 4 ∧ ∀ c ∈ billerCode.toList, c.isDigit

/-- An invoice with the number that `create` gives it, for a 4-digit biller code and
positive ids. -/
structure SadadBill.Issued (bill : SadadBill) : Prop where
  biller : FourDigits bill.billerCode
  payment : 0 < bill.payment
  partner : 0 < bill.partner
  billNumber : generateBillNumber bill.billerCode bill.payment bill.partner = some bill.billNumber

/-- Invoices for different rent payments have different numbers, and a number leads to
an invoice of the rent payment it was issued for. -/
structure Identify (bills : Table SadadBill) : Prop where
  distinct : ∀ j ∈ bills.ids, ∀ k ∈ bills.ids, (bills.row j).payment ≠ (bills.row k).payment →
    (bills.row j).billNumber ≠ (bills.row k).billNumber
  found : ∀ k ∈ bills.ids, ∃ j, findBill bills (· = (bills.row k).billNumber) = some j ∧
    (bills.row j).payment = (bills.row k).payment

/-- What holds of the invoices for rent payments with ids up to `last`. -/
structure IdentifiedUpTo (last : Nat) : Prop where
  digits : ∀ billerCode payment partner, FourDigits billerCode → 0 < payment → payment ≤ last → 0 < partner →
    ∃ number, generateBillNumber billerCode payment partner = some number ∧ number.toList.length = 15 ∧
      ∀ c ∈ number.toList, c.isDigit
  bills : ∀ bills : Table SadadBill, (∀ k ∈ bills.ids, (bills.row k).Issued ∧ (bills.row k).payment ≤ last) →
    Identify bills

theorem intOfChar_isDigit (hc : c.isDigit) : ∃ d, intOfChar c = some d :=
  ⟨_, Text.digit_of_isDigit hc⟩

theorem luhnSum_digits {payload : List Char} (h : ∀ c ∈ payload, c.isDigit) : ∃ s, luhnSum payload = some s := by
  induction payload with
  | nil => exact ⟨0, rfl⟩
  | cons c rest ih =>
    obtain ⟨d, hd⟩ := intOfChar_isDigit (h c (by simp))
    obtain ⟨s, hs⟩ := ih fun c hc => h c (List.mem_cons_of_mem _ hc)
    exact ⟨_, by rw [luhnSum, hd, hs]; rfl⟩

theorem zfill_fourDigits (h : FourDigits billerCode) : (zfill billerCode.toList 4).take 4 = billerCode.toList := by
  obtain ⟨hlength, hdigits⟩ := h
  generalize billerCode.toList = biller at hlength hdigits
  have hnone : List.replicate (4 - biller.length) '0' = [] := by simp [hlength]
  unfold zfill
  rw [hnone]
  have htake : biller.take 4 = biller := List.take_of_length_le hlength.le
  split <;> simpa using htake

theorem customerReference_length (payment partner : Nat) : (customerReference payment partner).length = 10 := by
  rw [customerReference, List.length_take, List.length_append, Text.length_pad, Text.length_pad]
  omega

theorem digit_of_mem_customerReference (hc : c ∈ customerReference payment partner) : c.isDigit := by
  rcases List.mem_append.mp (List.mem_of_mem_take hc) with hc | hc
  · exact Text.digit_of_mem_pad hc
  · exact Text.digit_of_mem_pad hc

theorem customerReference_payment (h : payment < 100000) :
    (customerReference payment partner).take 5 = (Text.pad 5 payment).toList := by
  have hlength : (Text.pad 5 payment).toList.length = 5 := Text.length_pad_of_lt (by decide) h
  rw [customerReference, List.take_take, List.take_append_of_le_length (by omega), List.take_of_length_le (by omega)]

/-- The number is the biller code, the reference and one more digit. -/
theorem generateBillNumber_digits (h : FourDigits billerCode) (payment partner : Nat) :
    ∃ check < 10, generateBillNumber billerCode payment partner =
      some (String.ofList (billerCode.toList ++ customerReference payment partner ++ (toString check).toList)) := by
  have hdigits : ∀ c ∈ billerCode.toList ++ customerReference payment partner, c.isDigit := by
    intro c hc
    rcases List.mem_append.mp hc with hc | hc
    · exact h.2 c hc
    · exact digit_of_mem_customerReference hc
  obtain ⟨s, hs⟩ := luhnSum_digits hdigits
  have hbiller : billerCode ≠ "" := by
    rintro rfl
    exact absurd h.1 (by decide)
  refine ⟨(10 - s % 10) % 10, Nat.mod_lt _ (by decide), ?_⟩
  rw [generateBillNumber, if_neg hbiller, zfill_fourDigits h, luhnCheckDigit, hs]
  rfl

theorem generateBillNumber_fifteen (h : FourDigits billerCode) (payment partner : Nat) :
    ∃ number, generateBillNumber billerCode payment partner = some number ∧ number.toList.length = 15 ∧
      ∀ c ∈ number.toList, c.isDigit := by
  obtain ⟨check, hcheck, hnumber⟩ := generateBillNumber_digits h payment partner
  have hlength : (toString check).toList.length = 1 := by
    rw [Nat.toString_eq_ofList_toDigits, String.toList_ofList, Nat.toDigits_of_lt_base hcheck]
    rfl
  refine ⟨_, hnumber, ?_, ?_⟩
  · rw [String.toList_ofList, List.length_append, List.length_append, h.1, customerReference_length, hlength]
  · intro c hc
    rw [String.toList_ofList] at hc
    rcases List.mem_append.mp hc with hc | hc
    · rcases List.mem_append.mp hc with hc | hc
      · exact h.2 c hc
      · exact digit_of_mem_customerReference hc
    · exact Text.digit_of_mem_toString hc

theorem SadadBill.Issued.toList {bill : SadadBill} (h : bill.Issued) : ∃ check : List Char,
    bill.billNumber.toList = bill.billerCode.toList ++ (customerReference bill.payment bill.partner ++ check) := by
  obtain ⟨check, -, hnumber⟩ := generateBillNumber_digits h.biller bill.payment bill.partner
  refine ⟨(toString check).toList, ?_⟩
  rw [Option.some.inj (h.billNumber.symm.trans hnumber), String.toList_ofList, List.append_assoc]

/-- The five digits after the biller code are a 5-digit id of the rent payment. -/
theorem SadadBill.Issued.payment_digits {bill : SadadBill} (h : bill.Issued) (hsmall : bill.payment < 100000) :
    (bill.billNumber.toList.drop 4).take 5 = (Text.pad 5 bill.payment).toList := by
  obtain ⟨check, hnumber⟩ := h.toList
  have hlength := customerReference_length bill.payment bill.partner
  rw [hnumber, List.drop_append_of_le_length h.biller.1.ge, List.drop_of_length_le h.biller.1.le, List.nil_append,
    List.take_append_of_le_length (by omega), customerReference_payment hsmall]

theorem SadadBill.Issued.payment_eq {bill bill' : SadadBill} (h : bill.Issued) (h' : bill'.Issued)
    (hsmall : bill.payment < 100000) (hsmall' : bill'.payment < 100000)
    (hnumber : bill.billNumber = bill'.billNumber) : bill.payment = bill'.payment := by
  have hdigits := h.payment_digits hsmall
  rw [hnumber, h'.payment_digits hsmall'] at hdigits
  exact Text.pad_injective (String.toList_inj.mp hdigits.symm)

theorem identify_of_small {bills : Table SadadBill} (hissued : ∀ k ∈ bills.ids, (bills.row k).Issued)
    (hsmall : ∀ k ∈ bills.ids, (bills.row k).payment < 100000) : Identify bills where
  distinct := by
    intro j hj k hk hpayment hnumber
    exact hpayment ((hissued j hj).payment_eq (hissued k hk) (hsmall j hj) (hsmall k hk) hnumber)
  found := by
    intro k hk
    have hfound : ∃ j, findBill bills (· = (bills.row k).billNumber) = some j := exists_findBill hk (by simp)
    obtain ⟨j, hfind⟩ := hfound
    obtain ⟨⟨hj, hnumber⟩, -⟩ := findBill_eq_some.mp hfind
    exact ⟨j, hfind, (hissued j hj).payment_eq (hissued k hk) (hsmall j hj) (hsmall k hk) (of_decide_eq_true hnumber)⟩

def billed (payment partner : Nat) : SadadBill where
  billNumber := (generateBillNumber "9999" payment partner).getD ""
  payment := payment
  partner := partner
  billerCode := "9999"
  issueDate := .january1
  expiryDate := .january31

theorem nines_fourDigits : FourDigits "9999" := ⟨by decide, List.all_eq_true.mp (by decide)⟩

theorem billed_issued (hpayment : 0 < payment) (hpartner : 0 < partner) : (billed payment partner).Issued where
  biller := nines_fourDigits
  payment := hpayment
  partner := hpartner
  billNumber := by
    obtain ⟨check, -, hnumber⟩ := generateBillNumber_digits nines_fourDigits payment partner
    simp [billed, hnumber]

/-- The payments 100000 and 10000 billed to these tenants have one number. -/
def sameNumber : Table SadadBill :=
  ((Table.empty fun _ => billed 1 1).insert (billed 100000 12345)).insert (billed 10000 1234)

theorem sameNumber_issued : ∀ k ∈ sameNumber.ids, (sameNumber.row k).Issued ∧ (sameNumber.row k).payment ≤ 100000 := by
  have hids : sameNumber.ids = {1, 0} := rfl
  rw [hids]
  simp only [Finset.mem_insert, Finset.mem_singleton, forall_eq_or_imp, forall_eq]
  exact ⟨⟨billed_issued (by decide) (by decide), by decide⟩, billed_issued (by decide) (by decide), by decide⟩

theorem sameNumber_payment : (sameNumber.row 0).payment ≠ (sameNumber.row 1).payment := by
  show (100000 : Nat) ≠ 10000
  omega

theorem sameReference : customerReference 100000 12345 = customerReference 10000 1234 := by
  simp only [customerReference, Text.toList_pad, Nat.toString_eq_ofList_toDigits, ← String.length_toList,
    String.toList_ofList]
  have hlong : Nat.toDigits 10 100000 = ['1', '0', '0', '0', '0', '0'] := by
    simp [Nat.toDigits_of_base_le, Nat.toDigits_of_lt_base]
  rw [hlong]
  decide +kernel

theorem sameNumber_same : (sameNumber.row 0).billNumber = (sameNumber.row 1).billNumber := by
  show (generateBillNumber "9999" 100000 12345).getD "" = (generateBillNumber "9999" 10000 1234).getD ""
  rw [generateBillNumber, generateBillNumber, sameReference]

/-- The numbers identify the rent payments as long as their ids have five digits. -/
theorem bill_numbers_identify_iff (last : Nat) : IdentifiedUpTo last ↔ last < 100000 := by
  constructor
  · intro hidentified
    by_contra hlarge
    have hissued : ∀ k ∈ sameNumber.ids, (sameNumber.row k).Issued ∧ (sameNumber.row k).payment ≤ last :=
      fun k hk => ⟨(sameNumber_issued k hk).1, (sameNumber_issued k hk).2.trans (Nat.le_of_not_lt hlarge)⟩
    have hdistinct := (hidentified.bills sameNumber hissued).distinct 0 (by decide) 1 (by decide) sameNumber_payment
    exact hdistinct sameNumber_same
  · intro hlast
    refine ⟨fun billerCode payment partner hbiller _ _ _ => ?_, fun bills hissued => ?_⟩
    · exact generateBillNumber_fifteen hbiller payment partner
    · exact identify_of_small (fun k hk => (hissued k hk).1) fun k hk => (hissued k hk).2.trans_lt hlast

/-- A payment with a 6-digit id is billed under the number of another one. -/
theorem bill_number_shared : ¬ ∀ last, IdentifiedUpTo last := by
  intro hall
  have hdistinct := ((hall 100000).bills sameNumber sameNumber_issued).distinct 0 (by decide) 1 (by decide)
    sameNumber_payment
  exact hdistinct sameNumber_same

end Sadad
