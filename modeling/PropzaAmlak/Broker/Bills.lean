import PropzaAmlak.Broker.Split

/-! What is billed for a commission, and what becomes of the lines that it was billed for. -/

namespace Broker

namespace Commission

/-- Line `i` has a bill that is not cancelled. -/
def BilledLine (c : Commission) (i : Nat) : Prop := ∃ bill, c.billOf i = some bill ∧ bill.live

/-- What each line is for. -/
def share (c : Commission) : ℚ := c.commissionAmount / c.lines.ids.card

/-- Every live bill is the bill of a line, and its total is within the share of a line. -/
structure Backed (c : Commission) : Prop where
  splits : c.Splits
  linked : ∀ b ∈ c.bills.ids, (c.bills.row b).live → ∃ i ∈ c.lines.ids, (c.lines.row i).bill = some b
  within : ∀ b ∈ c.bills.ids, (c.bills.row b).live → (c.bills.row b).amountTotal ≤ c.share

/-- The commission is drawn up only where no line is paid or has a live bill, a bill that is
not cancelled comes to no more than the share of a line, and a bill becomes live again
only while it is the one of a line. -/
def Careful (c : Commission) : Action → Prop
  | .confirm => c.Confirms → ¬ anyPaid c.lines ∧ ∀ i ∈ c.lines.ids, ¬ c.BilledLine i
  | .createBill i accounting => i ∈ c.lines.ids → (∃ c', c.createBill i accounting = .ok c') →
    accounting.amountTotal ≤ c.share
  | .accounting b state amountTotal => b ∈ c.bills.ids → state ≠ .cancel → amountTotal ≤ c.share ∧
    ((c.bills.row b).live = false → ∃ i ∈ c.lines.ids, (c.lines.row i).bill = some b)
  | _ => True

variable {c c' : Commission} {a : Action} {i : Nat}

theorem New.backed (h : c.New) : c.Backed where
  splits := h.splits
  linked := by simp [h.bills]
  within := by simp [h.bills]

theorem Backed.congr (hc : c.Backed) (hsplits : c'.Splits) (hids : c'.lines.ids = c.lines.ids)
    (hrow : ∀ i, (c'.lines.row i).bill = (c.lines.row i).bill) (hbills : c'.bills = c.bills)
    (hamount : c'.commissionAmount = c.commissionAmount) : c'.Backed where
  splits := hsplits
  linked := by
    intro b hb hlive
    rw [hbills] at hb hlive
    obtain ⟨i, hi, hbill⟩ := hc.linked b hb hlive
    exact ⟨i, hids ▸ hi, (hrow i).trans hbill⟩
  within := by
    rw [share, hids, hbills, hamount]
    exact hc.within

theorem setLine_bill (c : Commission) (i : Nat) (state : LineState) (j : Nat) :
    ((c.setLine i state).lines.row j).bill = (c.lines.row j).bill := by
  rw [setLine, refresh_lines, Table.modify_row]
  split
  · rename_i heq
    rw [heq]
  · rfl

theorem Backed.setLine (hc : c.Backed) (i : Nat) (state : LineState) (hsplits : (c.setLine i state).Splits) :
    (c.setLine i state).Backed :=
  hc.congr hsplits (c.setLine_amount i state).1 (c.setLine_bill i state) (by simp [Commission.setLine])
    (refresh_terms _).1

theorem Backed.billed (hc : c.Backed) {journal : Nat} {accounting : Accounting} (hi : i ∈ c.lines.ids)
    (hfree : ∀ bill, c.billOf i = some bill → bill.live = false) (htotal : accounting.amountTotal ≤ c.share)
    (hsplits : (c.billed i journal accounting).Splits) : (c.billed i journal accounting).Backed := by
  have hlines : (c.billed i journal accounting).lines = c.lines.modify i fun line => { line with
      bill := some c.bills.next
      state := if accounting.posting.state = .paid then .paid else .billed } := by simp [Commission.billed]
  have hbills : (c.billed i journal accounting).bills = c.bills.insert (c.newBill i journal accounting) := by
    simp [Commission.billed]
  obtain ⟨hids, -⟩ := c.billed_amount i journal accounting
  have hshare : (c.billed i journal accounting).share = c.share := by
    have hterms : (c.billed i journal accounting).commissionAmount = c.commissionAmount := (refresh_terms _).1
    rw [share, hterms, hids, share]
  refine ⟨hsplits, ?_, ?_⟩
  · intro b hb hlive
    rw [hbills] at hb hlive
    rw [hids, hlines]
    rcases Table.mem_insert.mp hb with rfl | hb
    · exact ⟨i, hi, by rw [Table.modify_row_self]⟩
    · rw [Table.insert_row_of_mem hb] at hlive
      obtain ⟨j, hj, hbill⟩ := hc.linked b hb hlive
      have hji : j ≠ i := by
        rintro rfl
        have hdead := hfree (c.bills.row b) (by simp [billOf, hbill])
        rw [hlive] at hdead
        cases hdead
      exact ⟨j, hj, by rw [Table.modify_row_of_ne hji]; exact hbill⟩
  · intro b hb hlive
    rw [hbills] at hb hlive
    rw [hshare, hbills]
    rcases Table.mem_insert.mp hb with rfl | hb
    · rw [Table.insert_row_next]
      exact htotal
    · rw [Table.insert_row_of_mem hb] at hlive ⊢
      exact hc.within b hb hlive

theorem Backed.confirmed (hc : c.Backed) {lines : List Line} (hfree : ∀ i ∈ c.lines.ids, ¬ c.BilledLine i)
    (hsplits : (c.confirmed lines).Splits) : (c.confirmed lines).Backed := by
  have hdead : ∀ b ∈ c.bills.ids, (c.bills.row b).live → False := by
    intro b hb hlive
    obtain ⟨i, hi, hbill⟩ := hc.linked b hb hlive
    exact hfree i hi ⟨_, by simp [billOf, hbill], hlive⟩
  exact ⟨hsplits, fun b hb hlive => (hdead b hb hlive).elim, fun b hb hlive => (hdead b hb hlive).elim⟩

theorem Backed.accounted (hc : c.Backed) {b : Nat} {state : BillState} {amountTotal : ℚ} (hb : b ∈ c.bills.ids)
    (hcareful : c.Careful (.accounting b state amountTotal))
    (hsplits : ({ c with bills := c.bills.modify b fun bill => { bill with state, amountTotal } } :
      Commission).Splits) :
    ({ c with bills := c.bills.modify b fun bill => { bill with state, amountTotal } } : Commission).Backed := by
  refine ⟨hsplits, ?_, ?_⟩
  · intro b' hb' hlive
    by_cases heq : b' = b
    · subst heq
      rw [Table.modify_row_self] at hlive
      obtain ⟨-, hreset⟩ := hcareful hb (by simpa [Bill.live] using hlive)
      cases hbefore : (c.bills.row b').live with
      | true => exact hc.linked b' hb hbefore
      | false => exact hreset hbefore
    · rw [Table.modify_row_of_ne heq] at hlive
      exact hc.linked b' hb' hlive
  · intro b' hb' hlive
    by_cases heq : b' = b
    · subst heq
      rw [Table.modify_row_self] at hlive ⊢
      exact (hcareful hb (by simpa [Bill.live] using hlive)).1
    · rw [Table.modify_row_of_ne heq] at hlive ⊢
      exact hc.within b' hb' hlive

theorem Backed.next (hc : c.Backed) (h : c.Next a (c.act a)) (hcareful : c.Careful a) : (c.act a).Backed := by
  have hsplits := hc.splits.next h
  generalize hact : c.act a = c' at h hsplits
  cases h with
  | refused => exact hc
  | confirmed lines hstate hpos hvals =>
    exact hc.confirmed (hcareful ⟨_, confirm_ok.mpr ⟨hstate, hpos, lines, hvals, rfl⟩⟩).2 hsplits
  | billed i journal accounting hi hstate hfree hjournal =>
    have hcreates : ∃ c', c.createBill i accounting = .ok c' :=
      ⟨_, createBill_ok.mpr ⟨hstate, hfree, journal, hjournal, rfl⟩⟩
    exact hc.billed hi hfree (hcareful hi hcreates) hsplits
  | paid i => exact hc.setLine i .paid hsplits
  | lineCancelled i => exact hc.setLine i .cancelled hsplits
  | accounted b state amountTotal hb => exact hc.accounted hb hcareful hsplits
  | _ => exact hc.congr hsplits rfl (fun _ => rfl) rfl rfl

theorem Backed.copy (hc : c.Backed) (name : String) : (c.copy name).Backed where
  splits := ⟨hc.splits.amount, hc.splits.duration, hc.splits.lines⟩
  linked := by
    intro b hb
    simp [Commission.copy, Table.empty] at hb
  within := by
    intro b hb
    simp [Commission.copy, Table.empty] at hb

end Commission

namespace Register

def Careful (s : Register) : Action → Prop
  | .on k a => k ∈ s.ids → (s.row k).Careful a
  | .copy .. => True

end Register

end Broker
