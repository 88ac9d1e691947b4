import Mathlib.Data.List.MinMax
import Mathlib.Data.Prod.Lex
import PropzaAmlak.Data.Json
import PropzaAmlak.Data.Table
import PropzaAmlak.Ejar.Payload
import PropzaAmlak.Rental.Days
import PropzaAmlak.Rental.PaymentStates

/-! The SADAD invoices of `sa_sadad_invoice.py`: their numbers, and how they are
looked up by number. -/

namespace Sadad

open Rental

/-- An invoice with the rent payment it is for. -/
structure SadadBill extends SadadInvoice where
  payment : Nat
  partner : Nat
  billerCode : String
  issueDate : Date
  expiryDate : Date
deriving DecidableEq

/-- `int(ch)` -/
def intOfChar (ch : Char) : Option Nat := Text.digit ch

def luhnDouble (d : Nat) : Nat := if 9 < d * 2 then d * 2 - 9 else d * 2

def luhnSum : List Char → Option Nat
  | [] => some 0
  | ch :: rest =>
    (intOfChar ch).bind fun d => (luhnSum rest).map fun s =>
      (if (rest.length + 1) % 2 = 0 then luhnDouble d else d) + s

/-- `_luhn_check_digit`; there is none where `int` does not read a character. -/
def luhnCheckDigit (payload : List Char) : Option Nat := (luhnSum payload).map fun s => (10 - s % 10) % 10

/-- `s.zfill(width)` -/
def zfill (s : List Char) (width : Nat) : List Char :=
  let zeros := List.replicate (width - s.length) '0'
  match s with
  | '+' :: rest => '+' :: (zeros ++ rest)
  | '-' :: rest => '-' :: (zeros ++ rest)
  | _ => zeros ++ s

/-- The first ten digits of the padded ids. -/
def customerReference (payment partner : Nat) : List Char :=
  ((Text.pad 5 payment).toList ++ (Text.pad 5 partner).toList).take 10

/-- `_generate_bill_number` -/
def generateBillNumber (billerCode : String) (payment partner : Nat) : Option String :=
  let biller := (zfill (if billerCode = "" then "9999" else billerCode).toList 4).take 4
  let base := customerReference payment partner
  (luhnCheckDigit (biller ++ base)).map fun check => String.ofList (biller ++ base ++ (toString check).toList)

/-- The settings `sa_sadad.biller_code` and `sa_sadad.expiry_days`. -/
structure Config where
  billerCode : String := "9999"
  expiryDays : Int := 30

/-- `create`; there is no invoice where a number is not read or a date leaves the
calendar. -/
def newBill (payment partner : Nat) (config : Config) (today : Date) : Option SadadBill :=
  (generateBillNumber config.billerCode payment partner).bind fun billNumber =>
    (addDays today config.expiryDays).map fun expiryDate =>
      { billNumber := billNumber
        payment := payment
        partner := partner
        billerCode := config.billerCode
        issueDate := today
        expiryDate := expiryDate }

/-- `issue_date desc, id desc` -/
def sortKey (bills : Table SadadBill) (k : Nat) : Nat ×ₗ Nat := toLex ((bills.row k).issueDate.toordinal, k)

def matching (bills : Table SadadBill) (found : String → Bool) : List Nat :=
  (List.range bills.next).filter fun k => k ∈ bills.ids ∧ found (bills.row k).billNumber

/-- `search([('bill_number', '=', bill_number)], limit=1)` -/
def findBill (bills : Table SadadBill) (found : String → Bool) : Option Nat :=
  (matching bills found).argmax (sortKey bills)

section

variable {bills bills' : Table SadadBill} {bill : SadadBill} {found : String → Bool} {j k : Nat}

theorem newBill_some {payment partner : Nat} {config : Config} {today : Date}
    (h : newBill payment partner config today = some bill) : bill.payment = payment ∧ bill.state = .pending := by
  obtain ⟨billNumber, -, h⟩ := Option.bind_eq_some_iff.mp h
  obtain ⟨expiryDate, -, rfl⟩ := Option.map_eq_some_iff.mp h
  exact ⟨rfl, rfl⟩

theorem sortKey_injective (h : sortKey bills j = sortKey bills k) : j = k :=
  congrArg Prod.snd (toLex.injective h)

theorem mem_matching : k ∈ matching bills found ↔ k ∈ bills.ids ∧ found (bills.row k).billNumber := by
  simp only [matching, List.mem_filter, List.mem_range, Bool.decide_and, Bool.decide_eq_true, Bool.and_eq_true,
    decide_eq_true_eq, and_iff_right_iff_imp, and_imp]
  exact fun hk _ => bills.lt_next k hk

theorem exists_findBill (hk : k ∈ bills.ids) (hfound : found (bills.row k).billNumber) :
    ∃ j, findBill bills found = some j := by
  rw [← Option.ne_none_iff_exists', findBill, Ne, List.argmax_eq_none]
  exact List.ne_nil_of_mem (mem_matching.mpr ⟨hk, hfound⟩)

theorem findBill_eq_some : findBill bills found = some k ↔ (k ∈ bills.ids ∧ found (bills.row k).billNumber) ∧
    ∀ j ∈ bills.ids, found (bills.row j).billNumber → sortKey bills j ≤ sortKey bills k := by
  have hlast : ∀ {i}, findBill bills found = some i → (i ∈ bills.ids ∧ found (bills.row i).billNumber) ∧
      ∀ j ∈ bills.ids, found (bills.row j).billNumber → sortKey bills j ≤ sortKey bills i := by
    intro i hi
    exact ⟨mem_matching.mp (List.argmax_mem hi),
      fun j hj hfound => List.le_of_mem_argmax (mem_matching.mpr ⟨hj, hfound⟩) hi⟩
  refine ⟨hlast, fun ⟨⟨hk, hfound⟩, hmax⟩ => ?_⟩
  obtain ⟨i, hfind⟩ := exists_findBill hk hfound
  obtain ⟨⟨hi, hfoundI⟩, hmaxI⟩ := hlast hfind
  rw [hfind, sortKey_injective (le_antisymm (hmax i hi hfoundI) (hmaxI k hk hfound))]

theorem findBill_congr (hids : bills'.ids = bills.ids) (hrow : ∀ i ∈ bills.ids,
    (bills'.row i).billNumber = (bills.row i).billNumber ∧ (bills'.row i).issueDate = (bills.row i).issueDate)
    (found : String → Bool) : findBill bills' found = findBill bills found := by
  apply Option.ext
  intro k
  rw [findBill_eq_some, findBill_eq_some, hids]
  by_cases hk : k ∈ bills.ids
  · have hkey : ∀ i ∈ bills.ids, sortKey bills' i = sortKey bills i := by
      intro i hi
      rw [sortKey, sortKey, (hrow i hi).2]
    rw [(hrow k hk).1]
    refine and_congr_right fun _ => forall₂_congr fun j hj => ?_
    rw [(hrow j hj).1, hkey j hj, hkey k hk]
  · simp [hk]

/-- Of the old invoices a new one leaves to be found only what was found. -/
theorem findBill_insert (hk : k ∈ bills.ids) (h : findBill (bills.insert bill) found = some k) :
    findBill bills found = some k := by
  obtain ⟨⟨-, hfound⟩, hmax⟩ := findBill_eq_some.mp h
  rw [Table.insert_row_of_mem hk] at hfound
  refine findBill_eq_some.mpr ⟨⟨hk, hfound⟩, fun j hj hfoundJ => ?_⟩
  have hle := hmax j (Table.mem_insert.mpr (.inr hj)) (by rwa [Table.insert_row_of_mem hj])
  rwa [sortKey, sortKey, Table.insert_row_of_mem hj, Table.insert_row_of_mem hk] at hle

end

end Sadad
