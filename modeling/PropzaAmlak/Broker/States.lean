import PropzaAmlak.Broker.Split

/-! The state of a commission and the states of its lines. -/

namespace Broker

/-- There are lines that are not cancelled, and all of them are paid. -/
def FullyPaid (lines : Table Line) : Prop :=
  (∃ i ∈ lines.ids, (lines.row i).state ≠ .cancelled) ∧
    ∀ i ∈ lines.ids, (lines.row i).state ≠ .cancelled → (lines.row i).state = .paid

/-- Some lines are paid, and some that are not cancelled are not. -/
def PartlyPaid (lines : Table Line) : Prop :=
  (∃ i ∈ lines.ids, (lines.row i).state = .paid) ∧
    ∃ i ∈ lines.ids, (lines.row i).state ≠ .cancelled ∧ (lines.row i).state ≠ .paid

/-- All lines are paid but some that are cancelled. -/
def Blurred (lines : Table Line) : Prop :=
  (∃ i ∈ lines.ids, (lines.row i).state = .cancelled) ∧ FullyPaid lines

namespace Commission

/-- The state of the commission is what the states of its lines call for. -/
structure Agrees (c : Commission) : Prop where
  cancelled : c.state = .cancelled → ¬ anyPaid c.lines
  confirmed : c.state ≠ .draft → c.state ≠ .cancelled →
    (c.state = .paid ↔ FullyPaid c.lines) ∧ (c.state = .partly ↔ PartlyPaid c.lines)

/-- Lines that are paid stay so. -/
def KeepsPaid (c : Commission) (a : Action) : Prop :=
  ∀ i ∈ c.lines.ids, (c.lines.row i).state = .paid →
    i ∈ (c.act a).lines.ids ∧ ((c.act a).lines.row i).state = .paid

/-- Some line other than `i` is in `state`. -/
def OtherIn (c : Commission) (i : Nat) (state : LineState) : Prop :=
  ∃ j ∈ c.lines.ids, j ≠ i ∧ (c.lines.row j).state = state

/-- The lines other than `i` are cancelled or paid. -/
def OthersPaid (c : Commission) (i : Nat) : Prop :=
  ∀ j ∈ c.lines.ids, j ≠ i → (c.lines.row j).state ≠ .cancelled → (c.lines.row j).state = .paid

/-- The commission is not cancelled, and line `i` is not the last to be paid beside cancelled ones. -/
def MayPay (c : Commission) (i : Nat) : Prop :=
  c.state ≠ .cancelled ∧ (c.state = .draft ∨ ¬ (c.OtherIn i .cancelled ∧ c.OthersPaid i))

/-- Line `i` is not paid, nor the last that is open beside paid ones. -/
def MayCancel (c : Commission) (i : Nat) : Prop :=
  (c.lines.row i).state ≠ .paid ∧
    (c.state = .draft ∨ c.state = .cancelled ∨ ¬ (c.OtherIn i .paid ∧ c.OthersPaid i))

/-- The actions that leave the states in agreement. -/
def Allowed (c : Commission) : Action → Prop
  | .confirm => c.Confirms → ¬ anyPaid c.lines
  | .createBill i accounting => i ∈ c.lines.ids → (∃ c', c.createBill i accounting = .ok c') →
    if accounting.posting.state = .paid then c.MayPay i else (c.lines.row i).state ≠ .paid
  | .markPaid i => i ∈ c.lines.ids → c.MayPay i
  | .cancelLine i => i ∈ c.lines.ids → (∃ c', c.cancelLine i = .ok c') → c.MayCancel i
  | _ => True

end Commission

theorem stateFromLines_paid {lines : Table Line} (h : ¬ Blurred lines) :
    Commission.stateFromLines lines = .paid ↔ FullyPaid lines := by
  have hstate : Commission.stateFromLines lines = .paid ↔ lines.ids.Nonempty ∧ allPaid lines := by
    unfold Commission.stateFromLines
    split
    · rename_i hall
      simpa using hall
    · rename_i hall
      split
      all_goals simpa using hall
  rw [hstate, allPaid_iff]
  constructor
  · rintro ⟨⟨i, hi⟩, hall⟩
    exact ⟨⟨i, hi, by simp [hall i hi]⟩, fun j hj _ => hall j hj⟩
  · intro hfully
    obtain ⟨⟨i, hi, -⟩, hall⟩ := id hfully
    refine ⟨⟨i, hi⟩, fun j hj => hall j hj fun hcancelled => ?_⟩
    exact h ⟨⟨j, hj, hcancelled⟩, hfully⟩

theorem stateFromLines_partly {lines : Table Line} (h : ¬ Blurred lines) :
    Commission.stateFromLines lines = .partly ↔ PartlyPaid lines := by
  have hstate : Commission.stateFromLines lines = .partly ↔
      ¬ (lines.ids.Nonempty ∧ allPaid lines) ∧ anyPaid lines := by
    unfold Commission.stateFromLines
    split
    · rename_i hall
      simp [hall]
    · rename_i hall
      split
      · rename_i hany
        simp only [hall, not_false_eq_true, hany, and_self]
      · rename_i hany
        simp [hany]
  rw [hstate, anyPaid_iff, allPaid_iff]
  constructor
  · rintro ⟨hnotAll, i, hi, hpaid⟩
    refine ⟨⟨i, hi, hpaid⟩, ?_⟩
    by_contra hnone
    have hopen : ∀ j ∈ lines.ids, (lines.row j).state ≠ .cancelled → (lines.row j).state = .paid := by
      intro j hj hlive
      by_contra hunpaid
      exact hnone ⟨j, hj, hlive, hunpaid⟩
    have hfully : FullyPaid lines := ⟨⟨i, hi, by simp [hpaid]⟩, hopen⟩
    apply hnotAll
    refine ⟨⟨i, hi⟩, fun j hj => hopen j hj fun hcancelled => ?_⟩
    exact h ⟨⟨j, hj, hcancelled⟩, hfully⟩
  · rintro ⟨hany, j, hj, -, hunpaid⟩
    exact ⟨fun hall => hunpaid (hall.2 j hj), hany⟩

theorem blurred_state {lines : Table Line} (h : Blurred lines) : Commission.stateFromLines lines ≠ .paid := by
  obtain ⟨⟨i, hi, hcancelled⟩, -⟩ := h
  have hnotAll : ¬ (lines.ids.Nonempty ∧ allPaid lines) := by
    rintro ⟨-, hall⟩
    have hpaid := allPaid_iff.mp hall i hi
    rw [hcancelled] at hpaid
    cases hpaid
  rw [Commission.stateFromLines, if_neg hnotAll]
  split
  all_goals simp

namespace Commission

variable {c c' : Commission} {i : Nat} {accounting : Accounting}

theorem refresh_agrees (c : Commission) : c.refreshStateFromLines.Agrees ↔
    (c.state = .cancelled → ¬ anyPaid c.lines) ∧ (c.state = .draft ∨ c.state = .cancelled ∨ ¬ Blurred c.lines) := by
  by_cases hclosed : c.state = .draft ∨ c.state = .cancelled
  · have hsame : c.refreshStateFromLines = c := if_pos hclosed
    rw [hsame]
    constructor
    · intro hagrees
      exact ⟨hagrees.cancelled, hclosed.elim .inl (fun h => .inr (.inl h))⟩
    · rintro ⟨hcancelled, -⟩
      exact ⟨hcancelled, fun hdraft hlive => absurd hclosed (by simp [hdraft, hlive])⟩
  · have hnew : c.refreshStateFromLines = { c with state := stateFromLines c.lines } := if_neg hclosed
    obtain ⟨hdraft, hcancelled⟩ := not_or.mp hclosed
    obtain ⟨hdraft', hcancelled'⟩ := stateFromLines_open c.lines
    rw [hnew]
    simp only [hdraft, hcancelled, false_imp_iff, true_and, false_or]
    constructor
    · intro hagrees hblurred
      exact blurred_state hblurred ((hagrees.confirmed hdraft' hcancelled').1.mpr hblurred.2)
    · intro hclear
      exact ⟨fun h => absurd h hcancelled', fun _ _ => ⟨stateFromLines_paid hclear, stateFromLines_partly hclear⟩⟩

section

variable {f : Line → Line}

/-- Lines that are paid after one of them is written were so before, unless it is the one. -/
theorem anyPaid_modify (hf : (f (c.lines.row i)).state ≠ .paid) (h : anyPaid (c.lines.modify i f)) :
    anyPaid c.lines := by
  obtain ⟨j, hj, hpaid⟩ := anyPaid_iff.mp h
  have hji : j ≠ i := by
    rintro rfl
    rw [Table.modify_row_self] at hpaid
    exact hf hpaid
  rw [Table.modify_row_of_ne hji] at hpaid
  exact anyPaid_iff.mpr ⟨j, hj, hpaid⟩

theorem othersPaid_iff (hi : i ∈ c.lines.ids) : (∀ j ∈ (c.lines.modify i f).ids,
    ((c.lines.modify i f).row j).state ≠ .cancelled → ((c.lines.modify i f).row j).state = .paid) ↔
      ((f (c.lines.row i)).state ≠ .cancelled → (f (c.lines.row i)).state = .paid) ∧ c.OthersPaid i := by
  constructor
  · intro hall
    refine ⟨?_, fun j hj hji => ?_⟩
    · have hself := hall i hi
      rwa [Table.modify_row_self] at hself
    · have hother := hall j hj
      rwa [Table.modify_row_of_ne hji] at hother
  · rintro ⟨hself, hothers⟩ j hj
    by_cases hji : j = i
    · subst hji
      rwa [Table.modify_row_self]
    · rw [Table.modify_row_of_ne hji]
      exact hothers j hj hji

theorem otherIn_iff {state : LineState} (hf : (f (c.lines.row i)).state ≠ state) :
    (∃ j ∈ (c.lines.modify i f).ids, ((c.lines.modify i f).row j).state = state) ↔ c.OtherIn i state := by
  constructor
  · rintro ⟨j, hj, hstate⟩
    have hji : j ≠ i := by
      rintro rfl
      rw [Table.modify_row_self] at hstate
      exact hf hstate
    rw [Table.modify_row_of_ne hji] at hstate
    exact ⟨j, hj, hji, hstate⟩
  · rintro ⟨j, hj, hji, hstate⟩
    exact ⟨j, hj, by rwa [Table.modify_row_of_ne hji]⟩

theorem blurred_pay (hi : i ∈ c.lines.ids) (hf : (f (c.lines.row i)).state = .paid) :
    Blurred (c.lines.modify i f) ↔ c.OtherIn i .cancelled ∧ c.OthersPaid i := by
  have hopen : ∃ j ∈ (c.lines.modify i f).ids, ((c.lines.modify i f).row j).state ≠ .cancelled :=
    ⟨i, hi, by rw [Table.modify_row_self, hf]; simp⟩
  rw [Blurred, FullyPaid, otherIn_iff (by simp [hf]), othersPaid_iff hi]
  constructor
  · rintro ⟨hother, -, -, hothers⟩
    exact ⟨hother, hothers⟩
  · rintro ⟨hother, hothers⟩
    exact ⟨hother, hopen, fun _ => hf, hothers⟩

theorem blurred_cancel (hi : i ∈ c.lines.ids) (hf : (f (c.lines.row i)).state = .cancelled) :
    Blurred (c.lines.modify i f) ↔ c.OtherIn i .paid ∧ c.OthersPaid i := by
  have hcancelled : ∃ j ∈ (c.lines.modify i f).ids, ((c.lines.modify i f).row j).state = .cancelled :=
    ⟨i, hi, by rw [Table.modify_row_self, hf]⟩
  rw [Blurred, FullyPaid, othersPaid_iff hi]
  simp only [hcancelled, true_and, hf, ne_eq, not_true_eq_false, false_imp_iff]
  constructor
  · rintro ⟨⟨j, hj, hlive⟩, hothers⟩
    have hji : j ≠ i := by
      rintro rfl
      rw [Table.modify_row_self] at hlive
      exact hlive hf
    rw [Table.modify_row_of_ne hji] at hlive
    exact ⟨⟨j, hj, hji, hothers j hj hji hlive⟩, hothers⟩
  · rintro ⟨⟨j, hj, hji, hpaid⟩, hothers⟩
    exact ⟨⟨j, hj, by rw [Table.modify_row_of_ne hji, hpaid]; simp⟩, hothers⟩

theorem blurred_open (hi : i ∈ c.lines.ids) (hpaid : (f (c.lines.row i)).state ≠ .paid)
    (hcancelled : (f (c.lines.row i)).state ≠ .cancelled) : ¬ Blurred (c.lines.modify i f) := by
  rintro ⟨-, -, hall⟩
  exact hpaid (((othersPaid_iff hi).mp hall).1 hcancelled)

end

theorem keeps_modify {f : Line → Line} (hi : i ∈ c.lines.ids) :
    (∀ j ∈ c.lines.ids, (c.lines.row j).state = .paid →
      j ∈ (c.lines.modify i f).ids ∧ ((c.lines.modify i f).row j).state = .paid) ↔
        ((c.lines.row i).state = .paid → (f (c.lines.row i)).state = .paid) := by
  constructor
  · intro hall hpaid
    have hself := (hall i hi hpaid).2
    rwa [Table.modify_row_self] at hself
  · intro hself j hj hpaid
    refine ⟨hj, ?_⟩
    by_cases hji : j = i
    · subst hji
      rw [Table.modify_row_self]
      exact hself hpaid
    · rwa [Table.modify_row_of_ne hji]

theorem pay_iff (hi : i ∈ c.lines.ids) {f : Line → Line} (hf : (f (c.lines.row i)).state = .paid) {bills : Table Bill} :
    c.MayPay i ↔ ({ c with lines := c.lines.modify i f, bills } : Commission).refreshStateFromLines.Agrees := by
  have hpaid : anyPaid (c.lines.modify i f) := anyPaid_iff.mpr ⟨i, hi, by rw [Table.modify_row_self, hf]⟩
  rw [refresh_agrees, MayPay]
  simp only [hpaid, not_true_eq_false, imp_false, blurred_pay hi hf]
  constructor
  · rintro ⟨hopen, hclear⟩
    exact ⟨hopen, hclear.imp_right .inr⟩
  · rintro ⟨hopen, hclear⟩
    exact ⟨hopen, hclear.imp_right fun h => h.resolve_left hopen⟩

theorem cancel_iff (hc : c.Agrees) (hi : i ∈ c.lines.ids) :
    c.MayCancel i ↔ ((c.lines.row i).state ≠ .paid ∧ (c.setLine i .cancelled).Agrees) := by
  have hnone : c.state = .cancelled → ¬ anyPaid (c.lines.modify i fun line => { line with state := .cancelled }) :=
    fun hstate hpaid => hc.cancelled hstate (anyPaid_modify (by simp) hpaid)
  have hblurred := blurred_cancel (f := fun line => { line with state := .cancelled }) hi rfl
  rw [setLine, refresh_agrees, MayCancel, hblurred]
  exact and_congr_right fun _ => ⟨fun h => ⟨hnone, h⟩, And.right⟩

theorem bill_iff (hc : c.Agrees) (hi : i ∈ c.lines.ids) {f : Line → Line} (hf : (f (c.lines.row i)).state = .billed)
    {bills : Table Bill} :
    ({ c with lines := c.lines.modify i f, bills } : Commission).refreshStateFromLines.Agrees := by
  rw [refresh_agrees]
  refine ⟨fun hstate hpaid => hc.cancelled hstate (anyPaid_modify (by simp [hf]) hpaid), .inr (.inr ?_)⟩
  exact blurred_open hi (by simp [hf]) (by simp [hf])

theorem confirmed_agrees {lines : List Line} (hduration : 0 < c.durationMonths) (hvals : c.lineVals = .ok lines) :
    (c.confirmed lines).Agrees ↔ ¬ anyPaid c.lines := by
  obtain ⟨hsome, -, hnew⟩ := lineVals_ok hduration hvals
  obtain ⟨first, hfirst⟩ := List.exists_mem_of_ne_nil lines hsome
  obtain ⟨i, hi, hrow⟩ := Table.exists_insertAll (t := c.lines.filter fun line => line.state = .paid) hfirst
  have hpending : ((c.confirmed lines).lines.row i).state = .pending := by
    rw [confirmed, hrow, (hnew first hfirst).1]
  have hnotFully : ¬ FullyPaid (c.confirmed lines).lines := by
    rintro ⟨-, hall⟩
    have hpaid := hall i hi (by simp [hpending])
    rw [hpending] at hpaid
    cases hpaid
  have hpartly : PartlyPaid (c.confirmed lines).lines ↔ anyPaid c.lines := by
    rw [anyPaid_iff]
    constructor
    · rintro ⟨⟨j, hj, hpaid⟩, -⟩
      have hcases := Table.insertAll_cases (t := c.lines.filter fun line => line.state = .paid) (l := lines)
        (P := fun j (line : Line) => line.state = .paid → ∃ j ∈ c.lines.ids, (c.lines.row j).state = .paid)
        (fun j hj hpaid => ⟨j, (Table.mem_filter.mp hj).1, hpaid⟩)
        (fun j _ line hline hpaid => by simp [(hnew line hline).1] at hpaid)
      exact hcases j hj hpaid
    · rintro ⟨j, hj, hpaid⟩
      obtain ⟨hmem, hsame⟩ := Table.insertAll_keeps (t := c.lines.filter fun line => line.state = .paid) (l := lines)
        (i := j) (Table.mem_filter.mpr ⟨hj, by simp [hpaid]⟩)
      refine ⟨⟨j, hmem, ?_⟩, i, hi, by simp [hpending], by simp [hpending]⟩
      rw [confirmed, hsame]
      exact hpaid
  constructor
  · intro hagrees hpaid
    have hstate := (hagrees.confirmed (by simp [confirmed]) (by simp [confirmed])).2.mpr (hpartly.mpr hpaid)
    cases hstate
  · intro hnone
    refine ⟨fun h => ?_, fun _ _ => ⟨⟨fun h => ?_, fun h => absurd h hnotFully⟩,
      ⟨fun h => ?_, fun h => absurd (hpartly.mp h) hnone⟩⟩⟩
    all_goals cases h

theorem keepsPaid_of_lines {a : Action} (h : (c.act a).lines = c.lines) : c.KeepsPaid a := by
  intro i hi hpaid
  rw [h]
  exact ⟨hi, hpaid⟩

theorem keepsPaid_iff {a : Action} (hi : i ∈ c.lines.ids) {f : Line → Line}
    (h : (c.act a).lines = c.lines.modify i f) :
    c.KeepsPaid a ↔ ((c.lines.row i).state = .paid → (f (c.lines.row i)).state = .paid) := by
  rw [KeepsPaid, h]
  exact keeps_modify hi

/-- An action that changes nothing. -/
theorem agrees_of_same {a : Action} (hc : c.Agrees) (h : c.act a = c) : c.KeepsPaid a ∧ (c.act a).Agrees := by
  rw [h]
  exact ⟨keepsPaid_of_lines (by rw [h]), hc⟩

theorem allowed_confirm_iff (hc : c.Agrees) (hduration : 0 < c.durationMonths) :
    c.Allowed .confirm ↔ c.KeepsPaid .confirm ∧ (c.act .confirm).Agrees := by
  by_cases hok : c.Confirms
  · obtain ⟨c', hok'⟩ := id hok
    obtain ⟨-, -, lines, hvals, rfl⟩ := confirm_ok.mp hok'
    have hact : c.act .confirm = c.confirmed lines := act_of_ok hok'
    have hkeeps : c.KeepsPaid .confirm := by
      intro i hi hpaid
      obtain ⟨hmem, hrow⟩ := Table.insertAll_keeps (t := c.lines.filter fun line => line.state = .paid) (l := lines)
        (i := i) (Table.mem_filter.mpr ⟨hi, by simp [hpaid]⟩)
      rw [hact]
      exact ⟨hmem, by rw [confirmed, hrow]; exact hpaid⟩
    simp only [Allowed, hok, true_imp_iff, hkeeps, true_and, hact]
    exact (confirmed_agrees hduration hvals).symm
  · exact iff_of_true (fun h => absurd h hok) (agrees_of_same hc (act_of_error fun c' h => hok ⟨c', h⟩))

theorem allowed_createBill_iff (hc : c.Agrees) (i : Nat) (accounting : Accounting) :
    c.Allowed (.createBill i accounting) ↔
      c.KeepsPaid (.createBill i accounting) ∧ (c.act (.createBill i accounting)).Agrees := by
  by_cases hi : i ∈ c.lines.ids
  · by_cases hok : ∃ c', c.createBill i accounting = .ok c'
    · obtain ⟨c', hok'⟩ := id hok
      obtain ⟨-, -, journal, -, rfl⟩ := createBill_ok.mp hok'
      have hact : c.act (.createBill i accounting) = c.billed i journal accounting := by
        rw [act, if_pos hi]
        exact act_of_ok hok'
      have hkeeps := keepsPaid_iff (a := .createBill i accounting) hi (by rw [hact, billed, refresh_lines])
      simp only [Allowed, hi, hok, true_imp_iff]
      rw [hkeeps, hact, billed]
      by_cases hpaid : accounting.posting.state = .paid
      · simp only [hpaid, if_true, implies_true, true_and]
        exact pay_iff hi rfl
      · simp only [hpaid, if_false, reduceCtorEq, imp_false]
        exact ⟨fun h => ⟨h, bill_iff hc hi rfl⟩, And.left⟩
    · refine iff_of_true (fun _ h => absurd h hok) (agrees_of_same hc ?_)
      rw [act, if_pos hi]
      exact act_of_error fun c' h => hok ⟨c', h⟩
  · exact iff_of_true (fun h => absurd h hi) (agrees_of_same hc (if_neg hi))

theorem allowed_markPaid_iff (hc : c.Agrees) (i : Nat) :
    c.Allowed (.markPaid i) ↔ c.KeepsPaid (.markPaid i) ∧ (c.act (.markPaid i)).Agrees := by
  by_cases hi : i ∈ c.lines.ids
  · have hact : c.act (.markPaid i) = c.setLine i .paid := by rw [act, if_pos hi, markPaid_eq]
    have hkeeps := keepsPaid_iff (a := .markPaid i) hi (by rw [hact, setLine, refresh_lines])
    simp only [Allowed, hi, true_imp_iff]
    rw [hkeeps, hact, setLine]
    simp only [implies_true, true_and]
    exact pay_iff hi rfl
  · exact iff_of_true (fun h => absurd h hi) (agrees_of_same hc (if_neg hi))

theorem allowed_cancelLine_iff (hc : c.Agrees) (i : Nat) :
    c.Allowed (.cancelLine i) ↔ c.KeepsPaid (.cancelLine i) ∧ (c.act (.cancelLine i)).Agrees := by
  by_cases hi : i ∈ c.lines.ids
  · by_cases hok : ∃ c', c.cancelLine i = .ok c'
    · obtain ⟨c', hok'⟩ := id hok
      obtain ⟨-, rfl⟩ := cancelLine_ok.mp hok'
      have hact : c.act (.cancelLine i) = c.setLine i .cancelled := by
        rw [act, if_pos hi]
        exact act_of_ok hok'
      have hkeeps := keepsPaid_iff (a := .cancelLine i) hi (by rw [hact, setLine, refresh_lines])
      simp only [Allowed, hi, hok, true_imp_iff]
      rw [hkeeps, hact]
      simp only [reduceCtorEq, imp_false]
      exact cancel_iff hc hi
    · refine iff_of_true (fun _ h => absurd h hok) (agrees_of_same hc ?_)
      rw [act, if_pos hi]
      exact act_of_error fun c' h => hok ⟨c', h⟩
  · exact iff_of_true (fun h => absurd h hi) (agrees_of_same hc (if_neg hi))

theorem allowed_iff (hc : c.Agrees) (hduration : 0 < c.durationMonths) (a : Action) :
    c.Allowed a ↔ c.KeepsPaid a ∧ (c.act a).Agrees := by
  cases a with
  | confirm => exact allowed_confirm_iff hc hduration
  | cancel =>
    refine iff_of_true trivial ⟨keepsPaid_of_lines ?_, ?_⟩
    all_goals by_cases hpaid : anyPaid c.lines
    · simp [act, cancel, hpaid, Except.toOption]
    · simp [act, cancel, hpaid, Except.toOption]
    · simpa [act, cancel, hpaid, Except.toOption] using hc
    · rw [act, cancel, if_neg hpaid]
      exact ⟨fun _ => hpaid, fun _ h => absurd rfl h⟩
  | setToDraft =>
    refine iff_of_true trivial ⟨keepsPaid_of_lines ?_, ?_⟩
    all_goals by_cases hpaid : anyPaid c.lines
    · simp [act, setToDraft, hpaid, Except.toOption]
    · simp [act, setToDraft, hpaid, Except.toOption]
    · simpa [act, setToDraft, hpaid, Except.toOption] using hc
    · rw [act, setToDraft, if_neg hpaid]
      exact ⟨fun h => (by cases h), fun h => absurd rfl h⟩
  | createBill i accounting => exact allowed_createBill_iff hc i accounting
  | markPaid i => exact allowed_markPaid_iff hc i
  | cancelLine i => exact allowed_cancelLine_iff hc i
  | accounting b state amountTotal =>
    by_cases hb : b ∈ c.bills.ids
    · refine iff_of_true trivial ⟨keepsPaid_of_lines ?_, ?_⟩
      · rw [act, if_pos hb]
      · rw [act, if_pos hb]
        exact ⟨hc.cancelled, hc.confirmed⟩
    · exact iff_of_true trivial (agrees_of_same hc (if_neg hb))

end Commission

namespace Register

def Agrees (s : Register) : Prop := ∀ k ∈ s.ids, (s.row k).Agrees

def KeepsPaid (s : Register) : Action → Prop
  | .on k a => k ∈ s.ids → (s.row k).KeepsPaid a
  | .copy .. => True

def Allowed (s : Register) : Action → Prop
  | .on k a => k ∈ s.ids → (s.row k).Allowed a
  | .copy .. => True

theorem allowed_iff {s : Register} (hsplits : ∀ k ∈ s.ids, (s.row k).Splits) (hs : s.Agrees) (a : Action) :
    s.Allowed a ↔ s.KeepsPaid a ∧ (s.act a).Agrees := by
  cases a with
  | on k a =>
    constructor
    · intro hallowed
      have hboth := fun hk => (Commission.allowed_iff (hs k hk) (hsplits k hk).duration a).mp (hallowed hk)
      exact ⟨fun hk => (hboth hk).1, act_on (fun hk => (hboth hk).2) hs⟩
    · rintro ⟨hkeeps, hagrees⟩ hk
      have hrow := hagrees k hk
      rw [act_on_row] at hrow
      exact (Commission.allowed_iff (hs k hk) (hsplits k hk).duration a).mpr ⟨hkeeps hk, hrow⟩
  | copy k name =>
    refine iff_of_true trivial ⟨trivial, act_copy (fun c name _ => ?_) k name hs⟩
    exact ⟨fun h => (by cases h), fun h => absurd rfl h⟩

end Register

/-- The states of commissions and lines agree all along, and lines that are paid stay so,
just when every action is allowed. -/
theorem states_agree_iff {s : Register} (hnew : ∀ k ∈ s.ids, (s.row k).New) (actions : List Register.Action) :
    Tx.Always Register.act Register.Agrees s actions ∧ Tx.EachStep Register.act Register.KeepsPaid s actions ↔
      Tx.EachStep Register.act Register.Allowed s actions := by
  refine Tx.law_iff (B := fun s : Register => ∀ k ∈ s.ids, (s.row k).Splits) (fun s a hs => ?_)
    (fun s a hsplits hs => Register.allowed_iff hsplits hs a) (fun k hk => (hnew k hk).splits) fun k hk => ?_
  · exact Register.act_all (fun c a hc => hc.next (c.act_next a)) (fun c name hc => ⟨hc.amount, hc.duration, hc.lines⟩)
      a hs
  · have hdraft := (hnew k hk).state
    exact ⟨fun h => by simp [hdraft] at h, fun h => absurd hdraft h⟩

/-- The one line of a commission, paid and then cancelled. -/
def paidThenCancelled : List Register.Action := [.on 0 .confirm, .on 0 (.markPaid 0), .on 0 (.cancelLine 0)]

theorem states_agree_paidThenCancelled : ¬ (Tx.Always Register.act Register.Agrees hundredOnly paidThenCancelled ∧
    Tx.EachStep Register.act Register.KeepsPaid hundredOnly paidThenCancelled) := by
  rw [states_agree_iff hundredOnly_new]
  intro hallowed
  have hlast := hallowed [.on 0 .confirm, .on 0 (.markPaid 0)] (.on 0 (.cancelLine 0)) List.prefix_rfl (by decide)
    (by decide +kernel) (Exists.intro _ rfl)
  exact hlast.1 (by decide +kernel)

theorem states_disagree : ¬ ∀ (s : Register), (∀ k ∈ s.ids, (s.row k).New) → ∀ actions : List Register.Action,
    Tx.Always Register.act Register.Agrees s actions ∧ Tx.EachStep Register.act Register.KeepsPaid s actions := by
  intro hall
  have hkeeps := (hall hundredOnly hundredOnly_new paidThenCancelled).2 [.on 0 .confirm, .on 0 (.markPaid 0)]
    (.on 0 (.cancelLine 0)) List.prefix_rfl (by decide) 0 (by decide +kernel) (by decide +kernel)
  have hstate := hkeeps.2
  revert hstate
  decide +kernel

end Broker
