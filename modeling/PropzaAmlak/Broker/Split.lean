import PropzaAmlak.Broker.Commission
import PropzaAmlak.Tx.Histories

/-! When the lines of a commission split its amount. -/

namespace Broker

namespace Commission

/-- The sum of the lines that are not cancelled. -/
def owed (c : Commission) : ℚ := c.lines.sum fun line => if line.state = .cancelled then 0 else line.amount

/-- The sum of the lines that are paid. -/
def settled (c : Commission) : ℚ := c.lines.sum fun line => if line.state = .paid then line.amount else 0

/-- `action_confirm` goes through. -/
def Confirms (c : Commission) : Prop := ∃ c', c.confirm = .ok c'

/-- The amount can be split, and every line is for something. -/
structure Splits (c : Commission) : Prop where
  amount : 0 < c.commissionAmount
  duration : 0 < c.durationMonths
  lines : ∀ i ∈ c.lines.ids, 0 < (c.lines.row i).amount

variable {c c' : Commission} {a : Action}

theorem New.splits (h : c.New) : c.Splits where
  amount := h.amount
  duration := by
    have hduration := h.duration
    unfold durationMonths
    have hsome : c.tenancy.duration ≠ 0 := by omega
    simp only [hsome, if_false]
    split
    all_goals omega
  lines := by simp [h.lines]

theorem setLine_amount (c : Commission) (i : Nat) (state : LineState) :
    (c.setLine i state).lines.ids = c.lines.ids ∧
      ∀ j, ((c.setLine i state).lines.row j).amount = (c.lines.row j).amount := by
  refine ⟨by simp [setLine], fun j => ?_⟩
  rw [setLine, refresh_lines, Table.modify_row]
  split
  · rename_i heq
    rw [heq]
  · rfl

theorem billed_amount (c : Commission) (i journal : Nat) (accounting : Accounting) :
    (c.billed i journal accounting).lines.ids = c.lines.ids ∧
      ∀ j, ((c.billed i journal accounting).lines.row j).amount = (c.lines.row j).amount := by
  refine ⟨by simp [billed], fun j => ?_⟩
  rw [billed, refresh_lines, Table.modify_row]
  split
  · rename_i heq
    rw [heq]
  · rfl

theorem refresh_terms (c : Commission) : c.refreshStateFromLines.commissionAmount = c.commissionAmount ∧
    c.refreshStateFromLines.durationMonths = c.durationMonths := by
  unfold refreshStateFromLines
  split
  all_goals exact ⟨rfl, rfl⟩

theorem Next.terms (h : c.Next a c') :
    c'.commissionAmount = c.commissionAmount ∧ c'.durationMonths = c.durationMonths := by
  cases h with
  | billed => exact refresh_terms _
  | paid => exact refresh_terms _
  | lineCancelled => exact refresh_terms _
  | _ => exact ⟨rfl, rfl⟩

theorem Splits.next (hc : c.Splits) (h : c.Next a c') : c'.Splits := by
  obtain ⟨hamount, hduration⟩ := h.terms
  refine ⟨hamount ▸ hc.amount, hduration ▸ hc.duration, ?_⟩
  have hkept : ∀ {lines : Table Line}, lines.ids = c.lines.ids →
      (∀ j, (lines.row j).amount = (c.lines.row j).amount) → ∀ i ∈ lines.ids, 0 < (lines.row i).amount := by
    intro lines hids hrow i hi
    rw [hrow]
    exact hc.lines i (hids ▸ hi)
  cases h with
  | confirmed lines _ _ hvals =>
    obtain ⟨-, -, hnew⟩ := lineVals_ok hc.duration hvals
    refine Table.insertAll_cases (P := fun _ (line : Line) => 0 < line.amount) ?_ ?_
    · intro i hi
      exact hc.lines i (Table.mem_filter.mp hi).1
    · intro i _ line hline
      exact (hnew line hline).2.2 hc.amount
  | billed i journal accounting =>
    obtain ⟨hids, hrow⟩ := c.billed_amount i journal accounting
    exact hkept hids hrow
  | paid i =>
    obtain ⟨hids, hrow⟩ := c.setLine_amount i .paid
    exact hkept hids hrow
  | lineCancelled i =>
    obtain ⟨hids, hrow⟩ := c.setLine_amount i .cancelled
    exact hkept hids hrow
  | _ => exact hc.lines

/-- The lines of a confirmed commission are its amount and what was paid before. -/
theorem confirmed_owed {lines : List Line} (hduration : 0 < c.durationMonths) (hvals : c.lineVals = .ok lines) :
    (c.confirmed lines).owed = c.settled + c.commissionAmount := by
  obtain ⟨-, hsum, hnew⟩ := lineVals_ok hduration hvals
  have hold : (c.lines.filter fun line => line.state = .paid).sum
      (fun line => if line.state = .cancelled then 0 else line.amount) = c.settled := by
    rw [settled, Table.sum_filter]
    refine Table.sum_congr rfl fun i _ => ?_
    by_cases hpaid : (c.lines.row i).state = .paid
    · simp [hpaid]
    · simp [hpaid]
  have hadded : lines.map (fun line => if line.state = .cancelled then 0 else line.amount) = lines.map Line.amount :=
    List.map_congr_left fun line hline => by simp [(hnew line hline).1]
  rw [owed, confirmed, Table.sum_insertAll, hold, hadded, hsum]

theorem settled_eq_zero (hc : c.Splits) : c.settled = 0 ↔ ¬ anyPaid c.lines := by
  have hnonneg : ∀ i ∈ c.lines.ids, (0 : ℚ) ≤ if (c.lines.row i).state = .paid then (c.lines.row i).amount else 0 := by
    intro i hi
    split
    · exact (hc.lines i hi).le
    · exact le_rfl
  rw [settled, Table.sum, Finset.sum_eq_zero_iff_of_nonneg hnonneg, anyPaid_iff]
  constructor
  · rintro hzero ⟨i, hi, hpaid⟩
    have hamount := hzero i hi
    rw [if_pos hpaid] at hamount
    exact absurd hamount (hc.lines i hi).ne'
  · intro hnone i hi
    exact if_neg fun hpaid => hnone ⟨i, hi, hpaid⟩

end Commission

/-- After a confirmation the lines that are not cancelled add up to the amount. -/
def Register.SplitExact (s : Register) : Register.Action → Prop
  | .on k .confirm => k ∈ s.ids → (s.row k).Confirms →
    ((s.act (.on k .confirm)).row k).owed = ((s.act (.on k .confirm)).row k).commissionAmount
  | _ => True

/-- A confirmation finds no line that is paid. -/
def Register.ConfirmsUnpaid (s : Register) : Register.Action → Prop
  | .on k .confirm => k ∈ s.ids → (s.row k).Confirms → ¬ anyPaid (s.row k).lines
  | _ => True

theorem Register.splitExact_iff {s : Register} (hs : ∀ k ∈ s.ids, (s.row k).Splits) (a : Register.Action) :
    s.ConfirmsUnpaid a ↔ s.SplitExact a := by
  cases a with
  | copy k name => exact Iff.rfl
  | on k a =>
    cases a with
    | confirm =>
      refine imp_congr_right fun hk => imp_congr_right fun hconfirms => ?_
      obtain ⟨c', hok⟩ := hconfirms
      obtain ⟨-, -, lines, hvals, rfl⟩ := Commission.confirm_ok.mp hok
      have hrow : (s.act (.on k .confirm)).row k = (s.row k).confirmed lines := by
        rw [Register.act, Table.modify_row_self, Commission.act, Commission.act_of_ok hok]
      have hamount : ((s.row k).confirmed lines).commissionAmount = (s.row k).commissionAmount := rfl
      rw [hrow, Commission.confirmed_owed (hs k hk).duration hvals, hamount, add_eq_right,
        Commission.settled_eq_zero (hs k hk)]
    | _ => exact Iff.rfl

/-- The split is exact all along just when every confirmation finds no line that is paid. -/
theorem split_exact_iff {s : Register} (hnew : ∀ k ∈ s.ids, (s.row k).New) (actions : List Register.Action) :
    Tx.EachStep Register.act Register.SplitExact s actions ↔
      Tx.EachStep Register.act Register.ConfirmsUnpaid s actions := by
  have hsplits : Tx.Always Register.act (fun s => ∀ k ∈ s.ids, (s.row k).Splits) s actions := by
    refine Tx.always_of_step (fun k hk => (hnew k hk).splits) fun s a hs => ?_
    exact Register.act_all (fun c a hc => hc.next (c.act_next a)) (fun c name hc => ⟨hc.amount, hc.duration, hc.lines⟩)
      a hs
  refine forall_congr' fun before => forall_congr' fun a => imp_congr_right fun hbefore => ?_
  exact (Register.splitExact_iff (hsplits before ((List.prefix_append _ _).trans hbefore)) a).symm

/-- A commission of 100, paid on signup. -/
def hundred : Commission where
  name := "BC/1"
  broker := 3
  tenancy := ⟨1000, 12, .months⟩
  commissionType := .fixed
  fixedAmount := 100
  dateSigned := .january1
  lines := .empty fun _ => { description := "", dueDate := .january1, amount := 0 }
  bills := .empty fun _ =>
    { name := "", partner := 0, date := .january1, journal := 0, ref := "", lineName := "", priceUnit := 0,
      account := none, amountTotal := 0, state := .draft }

def hundredOnly : Register := (Table.empty fun _ => hundred).insert hundred

theorem hundredOnly_new : ∀ k ∈ hundredOnly.ids, (hundredOnly.row k).New := by
  intro k hk
  obtain rfl : k = 0 := by simpa [hundredOnly, Table.insert, Table.empty] using hk
  exact ⟨rfl, rfl, rfl, by decide +kernel, by decide⟩

/-- Confirmed, reset, paid and confirmed again. -/
def paidInDraft : List Register.Action := [.on 0 .confirm, .on 0 .setToDraft, .on 0 (.markPaid 0), .on 0 .confirm]

theorem split_exact_paidInDraft : ¬ Tx.EachStep Register.act Register.SplitExact hundredOnly paidInDraft := by
  rw [split_exact_iff hundredOnly_new]
  intro hunpaid
  have hlast := hunpaid [.on 0 .confirm, .on 0 .setToDraft, .on 0 (.markPaid 0)] (.on 0 .confirm) List.prefix_rfl
  exact hlast (by decide) (Exists.intro _ rfl) (by decide +kernel)

/-- A line that is paid while the commission is a draft is billed again. -/
theorem split_not_exact : ¬ ∀ (s : Register), (∀ k ∈ s.ids, (s.row k).New) → ∀ actions : List Register.Action,
    Tx.EachStep Register.act Register.SplitExact s actions := by
  intro hall
  have hexact := hall hundredOnly hundredOnly_new paidInDraft
    [.on 0 .confirm, .on 0 .setToDraft, .on 0 (.markPaid 0)] (.on 0 .confirm) List.prefix_rfl (by decide)
    (Exists.intro _ rfl)
  revert hexact
  decide +kernel

end Broker
