import PropzaAmlak.Data.Table
import PropzaAmlak.Rental.Schedule

/-! `sa_broker_commission.py` and `sa_broker_commission_line.py`: the commission of a
broker, its lines and the vendor bills made for them. -/

namespace Broker

open Rental (Error IntervalType)

inductive CommissionType where
  | percentage
  | fixed

inductive PaymentSchedule where
  | onSignup
  | monthly
  | split

inductive LineState where
  | pending
  | billed
  | paid
  | cancelled
deriving DecidableEq

/-- `partly` is the state called "partial". -/
inductive CommissionState where
  | draft
  | confirmed
  | partly
  | paid
  | cancelled
deriving DecidableEq

/-- A bill that is `paid` is posted, with the payment state "paid". -/
inductive BillState where
  | draft
  | posted
  | paid
  | cancel
deriving DecidableEq

/-- An `in_invoice` with its one line and the total that accounting makes of it. -/
structure Bill where
  name : String
  partner : Nat
  date : Date
  journal : Nat
  ref : String
  lineName : String
  priceUnit : ℚ
  account : Option Nat
  amountTotal : ℚ
  state : BillState

def Bill.live (b : Bill) : Bool := b.state ≠ .cancel

structure Line where
  description : String
  dueDate : Date
  amount : ℚ
  state : LineState := .pending
  bill : Option Nat := none
deriving DecidableEq

/-- What a commission reads of its tenancy. -/
structure Lease where
  rentAmount : ℚ
  duration : Int
  intervalType : IntervalType

structure Commission where
  name : String
  broker : Nat
  tenancy : Lease
  commissionType : CommissionType := .percentage
  commissionRate : ℚ := 5
  fixedAmount : ℚ := 0
  paymentSchedule : PaymentSchedule := .onSignup
  dateSigned : Date
  state : CommissionState := .draft
  lines : Table Line
  bills : Table Bill

/-- How far `action_post` gets, which is not let to fail. -/
inductive Posting where
  | failed
  | posted
  | paid

def Posting.state : Posting → BillState
  | failed => .draft
  | posted => .posted
  | paid => .paid

/-- What `action_create_bill` finds in accounting, and the total of the bill in the currency of
the journal and with its taxes. -/
structure Accounting where
  journal : Option Nat
  expenseAccount : Option Nat
  moveName : String
  amountTotal : ℚ
  posting : Posting

/-- Some line is paid. -/
def anyPaid (lines : Table Line) : Bool := decide (∃ i ∈ lines.ids, (lines.row i).state = .paid)

def allPaid (lines : Table Line) : Bool := decide (∀ i ∈ lines.ids, (lines.row i).state = .paid)

namespace Commission

def annualRent (c : Commission) : ℚ := c.tenancy.rentAmount * 12

def commissionAmount (c : Commission) : ℚ :=
  match c.commissionType with
  | .percentage => c.annualRent * c.commissionRate / 100
  | .fixed => c.fixedAmount

/-- `duration_months` -/
def durationMonths (c : Commission) : Int :=
  let duration := if c.tenancy.duration = 0 then 12 else c.tenancy.duration
  match c.tenancy.intervalType with
  | .years => duration * 12
  | .months => duration

def monthLine (c : Commission) (i : Nat) : Except Error Line :=
  match c.dateSigned.addMonths i with
  | none => .error .valueError
  | some dueDate =>
    .ok { description := "الشهر " ++ toString (i + 1), dueDate, amount := c.commissionAmount / c.durationMonths }

/-- The lines that `_generate_lines` creates. -/
def lineVals (c : Commission) : Except Error (List Line) :=
  match c.paymentSchedule with
  | .onSignup =>
    .ok [{ description := "دفعة كاملة عند التوقيع", dueDate := c.dateSigned, amount := c.commissionAmount }]
  | .split =>
    match c.dateSigned.addMonths 6 with
    | none => .error .valueError
    | some later =>
      .ok [
        { description := "الدفعة الأولى عند التوقيع (50%)"
          dueDate := c.dateSigned
          amount := c.commissionAmount / 2 },
        { description := "الدفعة الثانية بعد 6 أشهر (50%)"
          dueDate := later
          amount := c.commissionAmount / 2 }]
  | .monthly => (List.range c.durationMonths.toNat).mapM c.monthLine

/-- `_generate_lines` -/
def generateLines (c : Commission) : Except Error Commission :=
  let kept := { c with lines := c.lines.filter fun line => line.state = .paid }
  if c.commissionAmount ≤ 0 then .ok kept
  else
    match c.lineVals with
    | .error e => .error e
    | .ok lines => .ok { kept with lines := kept.lines.insertAll lines }

/-- `action_confirm` -/
def confirm (c : Commission) : Except Error Commission :=
  if c.state ≠ .draft then .error (.userError "يمكن تأكيد العقد فقط من حالة \"مسودة\"")
  else if c.commissionAmount ≤ 0 then .error (.userError "قيمة العمولة غير صحيحة")
  else
    match c.generateLines with
    | .error e => .error e
    | .ok c => .ok { c with state := .confirmed }

/-- `action_cancel` -/
def cancel (c : Commission) : Except Error Commission :=
  if anyPaid c.lines then .error (.userError "لا يمكن إلغاء عقد به دفعات مُسدَّدة. الرجاء عكس الدفعات أولاً.")
  else .ok { c with state := .cancelled }

/-- `action_set_to_draft` -/
def setToDraft (c : Commission) : Except Error Commission :=
  if anyPaid c.lines then .error (.userError "لا يمكن العودة لـ مسودة بعد دفع جزء من العمولة")
  else .ok { c with state := .draft }

/-- The state that `_refresh_state_from_lines` finds in the lines. -/
def stateFromLines (lines : Table Line) : CommissionState :=
  if lines.ids.Nonempty ∧ allPaid lines then .paid
  else if anyPaid lines then .partly
  else .confirmed

/-- `_refresh_state_from_lines` -/
def refreshStateFromLines (c : Commission) : Commission :=
  if c.state = .draft ∨ c.state = .cancelled then c else { c with state := stateFromLines c.lines }

/-- The bill of line `i`. -/
def billOf (c : Commission) (i : Nat) : Option Bill := (c.lines.row i).bill.map c.bills.row

/-- `write` of a line: a line whose bill turns out to be paid is paid. -/
def writeLine (c : Commission) (i : Nat) (f : Line → Line) : Commission :=
  let written := { c with lines := c.lines.modify i f }
  if (written.billOf i).any (·.state = .paid) ∧ (written.lines.row i).state ≠ .paid then
    refreshStateFromLines { written with lines := written.lines.modify i fun line => { line with state := .paid } }
  else written

/-- The bill that `action_create_bill` makes for line `i`. -/
def newBill (c : Commission) (i journal : Nat) (accounting : Accounting) : Bill where
  name := accounting.moveName
  partner := c.broker
  date := (c.lines.row i).dueDate
  journal := journal
  ref := "عمولة " ++ c.name
  lineName := "عمولة " ++ c.name ++ " — " ++ (c.lines.row i).description
  priceUnit := (c.lines.row i).amount
  account := accounting.expenseAccount
  amountTotal := accounting.amountTotal
  state := accounting.posting.state

/-- `action_create_bill` of line `i` -/
def createBill (c : Commission) (i : Nat) (accounting : Accounting) : Except Error Commission :=
  if (c.lines.row i).state = .cancelled then .error (.userError "لا يمكن فوترة دفعة ملغاة")
  else
    match (c.billOf i).filter Bill.live with
    | some bill => .error (.userError ("الفاتورة موجودة بالفعل: " ++ bill.name))
    | none =>
      match accounting.journal with
      | none => .error (.userError "لا توجد يومية مشتريات لإصدار الفاتورة")
      | some journal =>
        let billed := { c with bills := c.bills.insert (c.newBill i journal accounting) }
        let linked := billed.writeLine i fun line => { line with bill := some c.bills.next }
        .ok (linked.writeLine i fun line => { line with state := .billed }).refreshStateFromLines

/-- `action_mark_paid` of line `i` -/
def markPaid (c : Commission) (i : Nat) : Commission :=
  (c.writeLine i fun line => { line with state := .paid }).refreshStateFromLines

/-- `action_cancel` of line `i` -/
def cancelLine (c : Commission) (i : Nat) : Except Error Commission :=
  if (c.billOf i).any fun bill => bill.state = .posted ∨ bill.state = .paid then
    .error (.userError "لا يمكن إلغاء دفعة لها فاتورة مُرحَّلة. الرجاء عكس الفاتورة أولاً.")
  else .ok (c.writeLine i fun line => { line with state := .cancelled }).refreshStateFromLines

/-- `copy`: the lines are copied with their states, the links to the bills are not. -/
def copy (c : Commission) (name : String) : Commission :=
  { c with
    name
    state := .draft
    lines := c.lines.map fun line => { line with bill := none }
    bills := .empty c.bills.row }

end Commission

inductive Commission.Action where
  | confirm
  | cancel
  | setToDraft
  | createBill (i : Nat) (accounting : Accounting)
  | markPaid (i : Nat)
  | cancelLine (i : Nat)
  /-- A bill is edited, posted, paid, cancelled or reset in accounting. -/
  | accounting (b : Nat) (state : BillState) (amountTotal : ℚ)

namespace Commission

/-- What is raised undoes the transaction. -/
def act (c : Commission) : Action → Commission
  | .confirm => c.confirm.toOption.getD c
  | .cancel => c.cancel.toOption.getD c
  | .setToDraft => c.setToDraft.toOption.getD c
  | .createBill i accounting => if i ∈ c.lines.ids then (c.createBill i accounting).toOption.getD c else c
  | .markPaid i => if i ∈ c.lines.ids then c.markPaid i else c
  | .cancelLine i => if i ∈ c.lines.ids then (c.cancelLine i).toOption.getD c else c
  | .accounting b state amountTotal =>
    if b ∈ c.bills.ids then { c with bills := c.bills.modify b fun bill => { bill with state, amountTotal } } else c

end Commission

theorem anyPaid_iff {lines : Table Line} : anyPaid lines ↔ ∃ i ∈ lines.ids, (lines.row i).state = .paid :=
  decide_eq_true_iff

theorem allPaid_iff {lines : Table Line} : allPaid lines ↔ ∀ i ∈ lines.ids, (lines.row i).state = .paid :=
  decide_eq_true_iff

namespace Commission

variable {c c' : Commission} {i : Nat} {accounting : Accounting}

theorem monthLines_ok {is : List Nat} {lines : List Line} (h : is.mapM c.monthLine = .ok lines) :
    lines.length = is.length ∧ ∀ line ∈ lines, line.amount = c.commissionAmount / c.durationMonths ∧
      line.state = .pending ∧ line.bill = none := by
  induction is generalizing lines with
  | nil =>
    cases h
    simp
  | cons i is ih =>
    rw [List.mapM_cons] at h
    cases hfirst : c.monthLine i with
    | error e =>
      rw [hfirst] at h
      cases h
    | ok first =>
      cases hrest : is.mapM c.monthLine with
      | error e =>
        rw [hfirst, hrest] at h
        cases h
      | ok rest =>
        rw [hfirst, hrest] at h
        obtain rfl : first :: rest = lines := Except.ok.inj h
        obtain ⟨hlength, hall⟩ := ih hrest
        refine ⟨by simp [hlength], fun line hline => ?_⟩
        rcases List.mem_cons.mp hline with rfl | hline
        · simp only [monthLine] at hfirst
          split at hfirst
          · cases hfirst
          · obtain rfl := Except.ok.inj hfirst
            exact ⟨rfl, rfl, rfl⟩
        · exact hall line hline

theorem lineVals_ok {lines : List Line} (hduration : 0 < c.durationMonths) (h : c.lineVals = .ok lines) :
    lines ≠ [] ∧ (lines.map Line.amount).sum = c.commissionAmount ∧
      ∀ line ∈ lines, line.state = .pending ∧ line.bill = none ∧ (0 < c.commissionAmount → 0 < line.amount) := by
  unfold lineVals at h
  split at h
  · obtain rfl := Except.ok.inj h
    simp
  · split at h
    · cases h
    · obtain rfl := Except.ok.inj h
      simp
  · obtain ⟨hlength, hall⟩ := monthLines_ok h
    rw [List.length_range] at hlength
    have hmonths : (lines.length : ℚ) = c.durationMonths := by
      have hcast : (lines.length : Int) = c.durationMonths := by omega
      exact_mod_cast hcast
    have hpos : (0 : ℚ) < c.durationMonths := by exact_mod_cast hduration
    refine ⟨?_, ?_, fun line hline => ?_⟩
    · rintro rfl
      simp only [List.length_nil] at hlength
      omega
    · have hconst : lines.map Line.amount = List.replicate lines.length (c.commissionAmount / c.durationMonths) := by
        rw [List.eq_replicate_iff]
        refine ⟨by simp, fun a ha => ?_⟩
        obtain ⟨line, hline, rfl⟩ := List.mem_map.mp ha
        exact (hall line hline).1
      rw [hconst, List.sum_replicate, nsmul_eq_mul, hmonths]
      field_simp
    · obtain ⟨hamount, hstate, hbill⟩ := hall line hline
      exact ⟨hstate, hbill, fun hcommission => by rw [hamount]; positivity⟩

/-- The commission with its lines drawn up anew. -/
def confirmed (c : Commission) (lines : List Line) : Commission :=
  { c with lines := (c.lines.filter fun line => line.state = .paid).insertAll lines, state := .confirmed }

/-- A confirmation keeps the paid lines and adds lines for the whole amount. -/
theorem confirm_ok : c.confirm = .ok c' ↔ c.state = .draft ∧ 0 < c.commissionAmount ∧ ∃ lines,
    c.lineVals = .ok lines ∧ c' = c.confirmed lines := by
  unfold confirm generateLines
  by_cases hstate : c.state = .draft
  · by_cases hamount : c.commissionAmount ≤ 0
    · simp [hstate, hamount]
    · have hpos := not_le.mp hamount
      cases hvals : c.lineVals with
      | error e => simp [hstate, hamount]
      | ok lines =>
        simp only [hstate, ne_eq, not_true_eq_false, if_false, hamount, Except.ok.injEq, hpos, true_and,
          exists_eq_left']
        exact eq_comm
  · simp [hstate]

theorem stateFromLines_open (lines : Table Line) :
    stateFromLines lines ≠ .draft ∧ stateFromLines lines ≠ .cancelled := by
  unfold stateFromLines
  split
  · simp
  · split
    all_goals simp

@[simp] theorem refresh_lines (c : Commission) : c.refreshStateFromLines.lines = c.lines := by
  unfold refreshStateFromLines
  split
  all_goals rfl

@[simp] theorem refresh_bills (c : Commission) : c.refreshStateFromLines.bills = c.bills := by
  unfold refreshStateFromLines
  split
  all_goals rfl

theorem refresh_with_lines (c : Commission) (lines : Table Line) :
    ({ c.refreshStateFromLines with lines } : Commission).refreshStateFromLines =
      ({ c with lines } : Commission).refreshStateFromLines := by
  obtain ⟨hdraft, hcancelled⟩ := stateFromLines_open c.lines
  by_cases hclosed : c.state = .draft ∨ c.state = .cancelled
  · rw [refreshStateFromLines.eq_1 c, if_pos hclosed]
  · simp [refreshStateFromLines, hclosed, hdraft, hcancelled]

theorem refresh_refresh (c : Commission) : c.refreshStateFromLines.refreshStateFromLines = c.refreshStateFromLines := by
  by_cases hclosed : c.state = .draft ∨ c.state = .cancelled
  · have hsame : c.refreshStateFromLines = c := if_pos hclosed
    rw [hsame, hsame]
  · have hnew : c.refreshStateFromLines = { c with state := stateFromLines c.lines } := if_neg hclosed
    obtain ⟨hdraft, hcancelled⟩ := stateFromLines_open c.lines
    rw [hnew, refreshStateFromLines, if_neg (by simp [hdraft, hcancelled])]

end Commission

/-- A line whose bill is paid is paid. -/
def Line.settle (bills : Table Bill) (line : Line) : Line :=
  if (line.bill.map bills.row).any (·.state = .paid) then { line with state := .paid } else line

namespace Commission

variable {c c' : Commission} {i : Nat} {accounting : Accounting} {f g : Line → Line}

theorem writeLine_cases (c : Commission) (i : Nat) (f : Line → Line) :
    c.writeLine i f = { c with lines := c.lines.modify i (Line.settle c.bills ∘ f) } ∨
      c.writeLine i f =
        ({ c with lines := c.lines.modify i (Line.settle c.bills ∘ f) } : Commission).refreshStateFromLines := by
  have hbill : ({ c with lines := c.lines.modify i f } : Commission).billOf i =
      (f (c.lines.row i)).bill.map c.bills.row := by simp [billOf]
  by_cases hpaid : ((f (c.lines.row i)).bill.map c.bills.row).any (·.state = .paid)
  · have hsettle : c.lines.modify i (Line.settle c.bills ∘ f) =
        (c.lines.modify i f).modify i fun line => { line with state := .paid } := by
      rw [Table.modify_modify]
      exact Table.modify_congr (by simp only [Function.comp, Line.settle, hpaid, if_true])
    rw [hsettle]
    by_cases hstate : (f (c.lines.row i)).state = .paid
    · left
      have hsame : (c.lines.modify i f).modify i (fun line => { line with state := .paid }) = c.lines.modify i f := by
        rw [Table.modify_modify]
        exact Table.modify_congr (by simp [Function.comp, ← hstate])
      rw [hsame, writeLine]
      simp [hstate]
    · right
      simp [writeLine, hbill, hpaid, hstate]
  · left
    have hsettle : c.lines.modify i (Line.settle c.bills ∘ f) = c.lines.modify i f :=
      Table.modify_congr (by simp only [Function.comp, Line.settle, hpaid, if_false, Bool.false_eq_true])
    rw [hsettle]
    simp [writeLine, hbill, hpaid]

@[simp] theorem writeLine_lines : (c.writeLine i f).lines = c.lines.modify i (Line.settle c.bills ∘ f) := by
  rcases c.writeLine_cases i f with h | h
  all_goals simp [h]

@[simp] theorem writeLine_bills : (c.writeLine i f).bills = c.bills := by
  rcases c.writeLine_cases i f with h | h
  all_goals simp [h]

theorem writeLine_refresh (c : Commission) (i : Nat) (f : Line → Line) : (c.writeLine i f).refreshStateFromLines =
    ({ c with lines := c.lines.modify i (Line.settle c.bills ∘ f) } : Commission).refreshStateFromLines := by
  rcases c.writeLine_cases i f with h | h
  · rw [h]
  · rw [h, refresh_refresh]

theorem writeLine_writeLine (c : Commission) (i : Nat) (f g : Line → Line) :
    ((c.writeLine i f).writeLine i g).refreshStateFromLines =
      ({ c with lines := c.lines.modify i (Line.settle c.bills ∘ g ∘ Line.settle c.bills ∘ f) } :
        Commission).refreshStateFromLines := by
  rw [writeLine_refresh, writeLine_bills, writeLine_lines, Table.modify_modify]
  rcases c.writeLine_cases i f with h | h
  · rw [h]
    rfl
  · have hlast := refresh_with_lines { c with lines := c.lines.modify i (Line.settle c.bills ∘ f) }
      (c.lines.modify i (Line.settle c.bills ∘ g ∘ Line.settle c.bills ∘ f))
    simp only [refresh_bills] at hlast
    rw [h]
    exact hlast

/-- The commission with line `i` in another state. -/
def setLine (c : Commission) (i : Nat) (state : LineState) : Commission :=
  ({ c with lines := c.lines.modify i fun line => { line with state } } : Commission).refreshStateFromLines

theorem markPaid_eq (c : Commission) (i : Nat) : c.markPaid i = c.setLine i .paid := by
  have hline : c.lines.modify i (Line.settle c.bills ∘ fun line => { line with state := .paid }) =
      c.lines.modify i fun line => { line with state := .paid } :=
    Table.modify_congr (by simp only [Function.comp, Line.settle, ite_self])
  rw [markPaid, writeLine_refresh, hline, setLine]

theorem cancelLine_ok : c.cancelLine i = .ok c' ↔
    (∀ bill, c.billOf i = some bill → bill.state ≠ .posted ∧ bill.state ≠ .paid) ∧ c' = c.setLine i .cancelled := by
  unfold cancelLine
  by_cases hposted : (c.billOf i).any fun bill => bill.state = .posted ∨ bill.state = .paid
  · rw [if_pos hposted]
    obtain ⟨bill, hbill, hstate⟩ := (Option.any_eq_true _ _).mp hposted
    simp only [reduceCtorEq, false_iff, not_and]
    intro hnone
    have hfree := hnone bill hbill
    simp [hfree] at hstate
  · have hline : c.lines.modify i (Line.settle c.bills ∘ fun line => { line with state := .cancelled }) =
        c.lines.modify i fun line => { line with state := .cancelled } := by
      apply Table.modify_congr
      simp only [Function.comp, Line.settle]
      rw [if_neg]
      intro hpaid
      apply hposted
      cases hbill : (c.lines.row i).bill with
      | none => simp [hbill] at hpaid
      | some b => simpa [billOf, hbill] using .inr (by simpa [hbill] using hpaid)
    rw [if_neg hposted, writeLine_refresh, hline, Except.ok.injEq]
    constructor
    · rintro rfl
      refine ⟨fun bill hbill => ?_, rfl⟩
      simpa [hbill] using hposted
    · rintro ⟨-, rfl⟩
      rfl

/-- The commission once line `i` has got a new bill. -/
def billed (c : Commission) (i journal : Nat) (accounting : Accounting) : Commission :=
  ({ c with
    bills := c.bills.insert (c.newBill i journal accounting)
    lines := c.lines.modify i fun line => { line with
      bill := some c.bills.next
      state := if accounting.posting.state = .paid then .paid else .billed } } : Commission).refreshStateFromLines

theorem createBill_ok : c.createBill i accounting = .ok c' ↔ (c.lines.row i).state ≠ .cancelled ∧
    (∀ bill, c.billOf i = some bill → bill.live = false) ∧
      ∃ journal, accounting.journal = some journal ∧ c' = c.billed i journal accounting := by
  unfold createBill
  by_cases hcancelled : (c.lines.row i).state = .cancelled
  · simp [hcancelled]
  cases hlive : (c.billOf i).filter Bill.live with
  | some bill =>
    obtain ⟨hbill, hstate⟩ := Option.filter_eq_some_iff.mp hlive
    simp [hcancelled, hbill, hstate]
  | none =>
    have hnone : ∀ bill, c.billOf i = some bill → bill.live = false := by
      intro bill hbill
      simpa [hbill, Option.filter] using hlive
    cases hjournal : accounting.journal with
    | none => simp [hcancelled]
    | some journal =>
      have hline : (c.lines.modify i (Line.settle (c.bills.insert (c.newBill i journal accounting)) ∘
          (fun line => { line with state := .billed }) ∘
            Line.settle (c.bills.insert (c.newBill i journal accounting)) ∘
              fun line => { line with bill := some c.bills.next })) =
          c.lines.modify i fun line => { line with
            bill := some c.bills.next
            state := if accounting.posting.state = .paid then .paid else .billed } := by
        apply Table.modify_congr
        by_cases hpaid : accounting.posting.state = .paid
        · simp [Function.comp, Line.settle, newBill, hpaid]
        · simp [Function.comp, Line.settle, newBill, hpaid]
      rw [if_neg hcancelled]
      simp only [writeLine_writeLine, hline, Except.ok.injEq]
      constructor
      · rintro rfl
        exact ⟨hcancelled, hnone, journal, rfl, rfl⟩
      · rintro ⟨-, -, journal', hjournal', rfl⟩
        obtain rfl := Option.some.inj hjournal'
        rfl

/-- What an action does to a commission. -/
inductive Next (c : Commission) : Action → Commission → Prop where
  | refused (a : Action) : Next c a c
  | confirmed (lines : List Line) (hstate : c.state = .draft) (hpos : 0 < c.commissionAmount)
      (hvals : c.lineVals = .ok lines) : Next c .confirm (c.confirmed lines)
  | cancelled (hnone : ¬ anyPaid c.lines) : Next c .cancel { c with state := .cancelled }
  | drafted (hnone : ¬ anyPaid c.lines) : Next c .setToDraft { c with state := .draft }
  | billed (i journal : Nat) (accounting : Accounting) (hi : i ∈ c.lines.ids)
      (hstate : (c.lines.row i).state ≠ .cancelled) (hfree : ∀ bill, c.billOf i = some bill → bill.live = false)
      (hjournal : accounting.journal = some journal) :
      Next c (.createBill i accounting) (c.billed i journal accounting)
  | paid (i : Nat) (hi : i ∈ c.lines.ids) : Next c (.markPaid i) (c.setLine i .paid)
  | lineCancelled (i : Nat) (hi : i ∈ c.lines.ids)
      (hopen : ∀ bill, c.billOf i = some bill → bill.state ≠ .posted ∧ bill.state ≠ .paid) :
      Next c (.cancelLine i) (c.setLine i .cancelled)
  | accounted (b : Nat) (state : BillState) (amountTotal : ℚ) (hb : b ∈ c.bills.ids) :
      Next c (.accounting b state amountTotal)
        { c with bills := c.bills.modify b fun bill => { bill with state, amountTotal } }

theorem act_of_ok {result : Except Error Commission} (h : result = .ok c') : result.toOption.getD c = c' := by
  rw [h]
  rfl

theorem act_of_error {result : Except Error Commission} (h : ∀ c', result ≠ .ok c') : result.toOption.getD c = c := by
  cases hresult : result with
  | error e => rfl
  | ok c' => exact absurd hresult (h c')

theorem act_next (c : Commission) (a : Action) : c.Next a (c.act a) := by
  cases a with
  | confirm =>
    by_cases hok : ∃ c', c.confirm = .ok c'
    · obtain ⟨c', hok⟩ := hok
      rw [act, act_of_ok hok]
      obtain ⟨hstate, hpos, lines, hvals, rfl⟩ := confirm_ok.mp hok
      exact .confirmed lines hstate hpos hvals
    · rw [act, act_of_error (not_exists.mp hok)]
      exact .refused _
  | cancel =>
    by_cases hpaid : anyPaid c.lines
    · simpa [act, cancel, hpaid, Except.toOption] using Next.refused (c := c) .cancel
    · simpa [act, cancel, hpaid, Except.toOption] using Next.cancelled hpaid
  | setToDraft =>
    by_cases hpaid : anyPaid c.lines
    · simpa [act, setToDraft, hpaid, Except.toOption] using Next.refused (c := c) .setToDraft
    · simpa [act, setToDraft, hpaid, Except.toOption] using Next.drafted hpaid
  | createBill i accounting =>
    by_cases hi : i ∈ c.lines.ids
    · rw [act, if_pos hi]
      by_cases hok : ∃ c', c.createBill i accounting = .ok c'
      · obtain ⟨c', hok⟩ := hok
        rw [act_of_ok hok]
        obtain ⟨hstate, hfree, journal, hjournal, rfl⟩ := createBill_ok.mp hok
        exact .billed i journal accounting hi hstate hfree hjournal
      · rw [act_of_error (not_exists.mp hok)]
        exact .refused _
    · rw [act, if_neg hi]
      exact .refused _
  | markPaid i =>
    by_cases hi : i ∈ c.lines.ids
    · rw [act, if_pos hi, markPaid_eq]
      exact .paid i hi
    · rw [act, if_neg hi]
      exact .refused _
  | cancelLine i =>
    by_cases hi : i ∈ c.lines.ids
    · rw [act, if_pos hi]
      by_cases hok : ∃ c', c.cancelLine i = .ok c'
      · obtain ⟨c', hok⟩ := hok
        rw [act_of_ok hok]
        obtain ⟨hopen, rfl⟩ := cancelLine_ok.mp hok
        exact .lineCancelled i hi hopen
      · rw [act_of_error (not_exists.mp hok)]
        exact .refused _
    · rw [act, if_neg hi]
      exact .refused _
  | accounting b state amountTotal =>
    by_cases hb : b ∈ c.bills.ids
    · rw [act, if_pos hb]
      exact .accounted b state amountTotal hb
    · rw [act, if_neg hb]
      exact .refused _

end Commission

/-- The commissions, those that were copied from others among them. -/
abbrev Register := Table Commission

inductive Register.Action where
  | on (k : Nat) (a : Commission.Action)
  | copy (k : Nat) (name : String)

def Register.act (s : Register) : Register.Action → Register
  | .on k a => s.modify k fun c => c.act a
  | .copy k name => if k ∈ s.ids then s.insert ((s.row k).copy name) else s

/-- A commission just made. -/
structure Commission.New (c : Commission) : Prop where
  state : c.state = .draft
  lines : c.lines.ids = ∅
  bills : c.bills.ids = ∅
  amount : 0 < c.commissionAmount
  duration : 1 ≤ c.tenancy.duration

namespace Register

variable {I : Commission → Prop} {s : Register}

theorem act_on_row (s : Register) (k : Nat) (a : Commission.Action) :
    (s.act (.on k a)).row k = (s.row k).act a := by
  rw [act, Table.modify_row_self]

theorem act_on {k : Nat} {a : Commission.Action} (hact : k ∈ s.ids → I ((s.row k).act a))
    (hs : ∀ k ∈ s.ids, I (s.row k)) : ∀ j ∈ (s.act (.on k a)).ids, I ((s.act (.on k a)).row j) := by
  intro j hj
  simp only [act, Table.modify_ids] at hj ⊢
  rw [Table.modify_row]
  split
  · rename_i heq
    exact hact (heq ▸ hj)
  · exact hs j hj

theorem act_copy (hcopy : ∀ c name, I c → I (c.copy name)) (k : Nat) (name : String)
    (hs : ∀ k ∈ s.ids, I (s.row k)) : ∀ j ∈ (s.act (.copy k name)).ids, I ((s.act (.copy k name)).row j) := by
  intro j hj
  by_cases hk : k ∈ s.ids
  · simp only [act, if_pos hk] at hj ⊢
    rcases Table.mem_insert.mp hj with rfl | hj
    · rw [Table.insert_row_next]
      exact hcopy _ name (hs k hk)
    · rw [Table.insert_row_of_mem hj]
      exact hs j hj
  · simp only [act, if_neg hk] at hj ⊢
    exact hs j hj

theorem act_all (hact : ∀ c a, I c → I (c.act a)) (hcopy : ∀ c name, I c → I (c.copy name)) (a : Action)
    (hs : ∀ k ∈ s.ids, I (s.row k)) : ∀ k ∈ (s.act a).ids, I ((s.act a).row k) := by
  cases a with
  | on k a => exact act_on (fun hk => hact _ a (hs k hk)) hs
  | copy k name => exact act_copy hcopy k name hs

end Register

end Broker
