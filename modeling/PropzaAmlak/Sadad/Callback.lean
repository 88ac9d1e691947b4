import PropzaAmlak.Sadad.Desk
import PropzaAmlak.Tx.Histories

/-! What a SADAD callback may do to an invoice and to its rent payment. -/

namespace Sadad

open Rental

namespace Desk

/-- What one action may do: a call that does not report the amount of its invoice does
nothing, paid and cancelled invoices stay as they are, and expired ones are not paid. -/
structure Law (g : Gateway) (s : Desk) (a : Action) : Prop where
  ignored : ∀ c, a = .call c → (∀ k, s.finds g c = some k → ¬ s.Reports g c k) → s.act g a = s
  paid : ∀ k ∈ s.bills.ids, (s.bill k).state = .paid → ((s.act g a).bill k).state = .paid
  cancelled : ∀ k ∈ s.bills.ids, (s.bill k).state = .cancelled → ((s.act g a).bill k).state = .cancelled
  expired : ∀ k ∈ s.bills.ids, (s.bill k).state = .expired → ((s.act g a).bill k).state ≠ .paid

/-- Some call for an invoice of payment `p` reported the amount of the invoice. -/
def Reported (g : Gateway) (s : Desk) (p : Nat) (actions : List Action) : Prop :=
  ∃ before c k, before ++ [.call c] <+: actions ∧ (Tx.after (act g) s before).finds g c = some k ∧
    ((Tx.after (act g) s before).bill k).payment = p ∧ (Tx.after (act g) s before).Reports g c k

structure Safe (g : Gateway) (s : Desk) (actions : List Action) : Prop where
  reported : ∀ before, before <+: actions → ∀ p, (s.payments p).state ≠ .paid →
    ((Tx.after (act g) s before).payments p).state = .paid → Reported g s p before
  law : Tx.EachStep (act g) (Law g) s actions

/-- A call that is let through finds its invoice pending and reports its amount. -/
def Allowed (g : Gateway) (s : Desk) : Action → Prop
  | .call c => ∀ k, s.pays g c = some k → (s.bill k).state = .pending ∧ s.Reports g c k
  | _ => True

variable {g : Gateway} {s : Desk} {c : Call} {a : Action} {k j p : Nat}

theorem markPaid_state (h : (s.bill k).state ≠ .paid) (paymentRef channel : String) (m : Moment) :
    ((s.markPaid k paymentRef channel m).bill j).state = if j = k then .paid else (s.bill j).state := by
  rw [markPaid_eq h, bill, Table.modify_row]
  split <;> rfl

theorem markPaid_payments (h : (s.bill k).state ≠ .paid) (paymentRef channel : String) (m : Moment)
    (hp : p ≠ (s.bill k).payment) : (s.markPaid k paymentRef channel m).payments p = s.payments p := by
  rw [markPaid_eq h]
  exact Function.update_of_ne hp _ _

theorem cancelBill_act (g : Gateway) (s : Desk) (k : Nat) : s.act g (.cancelBill k) =
    if (s.bill k).state = .paid then s
    else { s with bills := s.bills.modify k fun bill => { bill with state := .cancelled } } := by
  rw [act, cancelBill]
  split <;> rfl

theorem expire_state (s : Desk) (today : Date) (j : Nat) : ((s.expire today).bill j).state =
    if (s.bill j).state = .pending ∧ (s.bill j).expiryDate < today then .expired else (s.bill j).state := by
  rw [expire, bill, Table.map_row]
  show (if (s.bill j).state = .pending ∧ (s.bill j).expiryDate < today then
    { s.bill j with state := .expired } else s.bill j).state = _
  split <;> rfl

theorem act_payments (ha : ∀ c, a ≠ .call c) : (s.act g a).payments = s.payments := by
  cases a with
  | call c => exact absurd rfl (ha c)
  | cancelBill k =>
    rw [cancelBill_act]
    split <;> rfl
  | expire today => rfl

theorem act_state (ha : ∀ c, a ≠ .call c) (j : Nat) : ((s.act g a).bill j).state = (s.bill j).state ∨
    (s.bill j).state ≠ .paid ∧ ((s.act g a).bill j).state = .cancelled ∨
    (s.bill j).state = .pending ∧ ((s.act g a).bill j).state = .expired := by
  cases a with
  | call c => exact absurd rfl (ha c)
  | cancelBill k =>
    rw [cancelBill_act]
    split
    · exact .inl rfl
    · rename_i hpaid
      by_cases hjk : j = k
      · subst hjk
        refine .inr (.inl ⟨hpaid, ?_⟩)
        rw [bill, Table.modify_row_self]
      · refine .inl ?_
        rw [bill, Table.modify_row_of_ne hjk, bill]
  | expire today =>
    rw [act, expire_state]
    split
    · rename_i hold
      exact .inr (.inr ⟨hold.1, rfl⟩)
    · exact .inl rfl

theorem law_of_other (ha : ∀ c, a ≠ .call c) : Law g s a where
  ignored c hcall := absurd hcall (ha c)
  paid k _ hstate := by
    rcases act_state (g := g) (s := s) ha k with h | ⟨h, -⟩ | ⟨h, -⟩
    · rw [h, hstate]
    · exact absurd hstate h
    · simp [hstate] at h
  cancelled k _ hstate := by
    rcases act_state (g := g) (s := s) ha k with h | ⟨-, h⟩ | ⟨h, -⟩
    · rw [h, hstate]
    · exact h
    · simp [hstate] at h
  expired k _ hstate := by
    rcases act_state (g := g) (s := s) ha k with h | ⟨-, h⟩ | ⟨-, h⟩
    · simp [h, hstate]
    · simp [h]
    · simp [h]

theorem law_call_iff : Law g s (.call c) ↔ Allowed g s (.call c) := by
  cases hpays : s.pays g c with
  | none =>
    have hsame : s.act g (.call c) = s := by rw [act_call, hpays]; rfl
    simp only [Allowed, hpays, reduceCtorEq, false_imp_iff, implies_true, iff_true]
    refine ⟨fun _ _ _ => hsame, ?_, ?_, ?_⟩
    · exact fun k _ h => by rw [hsame, h]
    · exact fun k _ h => by rw [hsame, h]
    · exact fun k _ h => by simp [hsame, h]
  | some k =>
    obtain ⟨hfinds, hpaid, hcancelled, -⟩ := pays_eq_some.mp hpays
    have hact : s.act g (.call c) = s.markPaid k c.paymentRef c.channel c.moment := by rw [act_call, hpays]; rfl
    have hstate : ∀ j, ((s.act g (.call c)).bill j).state = if j = k then .paid else (s.bill j).state := by
      intro j
      rw [hact, markPaid_state hpaid]
    simp only [Allowed, hpays, Option.some.injEq, forall_eq']
    constructor
    · intro hlaw
      refine ⟨?_, ?_⟩
      · cases hold : (s.bill k).state with
        | pending => rfl
        | paid => exact absurd hold hpaid
        | cancelled => exact absurd hold hcancelled
        | expired =>
          have hnot := hlaw.expired k (mem_of_finds hfinds) hold
          rw [hstate, if_pos rfl] at hnot
          exact absurd rfl hnot
      · by_contra hreports
        have hsame := hlaw.ignored c rfl fun j hj => by rwa [← Option.some.inj (hfinds.symm.trans hj)]
        have hnow := hstate k
        rw [hsame, if_pos rfl] at hnow
        exact hpaid hnow
    · rintro ⟨hpending, hreports⟩
      refine ⟨fun c' hc' hmissing => ?_, fun j _ h => ?_, fun j _ h => ?_, fun j _ h => ?_⟩
      · obtain rfl := Action.call.inj hc'
        exact absurd hreports (hmissing k hfinds)
      · rw [hstate, h, ite_self]
      · have hjk : j ≠ k := by
          rintro rfl
          exact hcancelled h
        rw [hstate, if_neg hjk, h]
      · have hjk : j ≠ k := by
          rintro rfl
          simp [hpending] at h
        simp [hstate, hjk, h]

theorem law_iff (a : Action) : Law g s a ↔ Allowed g s a := by
  cases a with
  | call c => exact law_call_iff
  | cancelBill k => exact ⟨fun _ => trivial, fun _ => law_of_other (by simp)⟩
  | expire today => exact ⟨fun _ => trivial, fun _ => law_of_other (by simp)⟩

/-- A payment that is paid now and was not at first has been paid by a call that was
let through. -/
theorem reported_of_allowed {actions : List Action} (hallowed : Tx.EachStep (act g) (Allowed g) s actions)
    (hopen : (s.payments p).state ≠ .paid) (hpaid : ((Tx.after (act g) s actions).payments p).state = .paid) :
    Reported g s p actions := by
  induction actions using List.reverseRecOn with
  | nil => exact absurd hpaid hopen
  | append_singleton actions a ih =>
    obtain ⟨hbefore, hlast⟩ := Tx.eachStep_concat.mp hallowed
    by_cases hearlier : ((Tx.after (act g) s actions).payments p).state = .paid
    · obtain ⟨before, c, k, hprefix, hreports⟩ := ih hbefore hearlier
      exact ⟨before, c, k, hprefix.trans (List.prefix_append actions [a]), hreports⟩
    · rw [Tx.after_concat] at hpaid
      generalize hnow : Tx.after (act g) s actions = now at *
      cases a with
      | call c =>
        cases hpays : now.pays g c with
        | none =>
          rw [act_call, hpays] at hpaid
          exact absurd hpaid hearlier
        | some k =>
          obtain ⟨hfinds, hunpaid, -⟩ := pays_eq_some.mp hpays
          have hp : p = (now.bill k).payment := by
            by_contra hp
            rw [act_call, hpays, Option.elim_some, markPaid_payments hunpaid _ _ _ hp] at hpaid
            exact hearlier hpaid
          exact ⟨actions, c, k, List.prefix_rfl, hnow ▸ hfinds, hnow ▸ hp.symm, hnow ▸ (hlast k hpays).2⟩
      | cancelBill k =>
        rw [act_payments (by simp)] at hpaid
        exact absurd hpaid hearlier
      | expire today => exact absurd hpaid hearlier

end Desk

/-- SADAD callbacks are safe just when each that is let through finds its invoice
pending and reports the amount. -/
theorem callbacks_safe_iff (g : Gateway) (s : Desk) (actions : List Desk.Action) :
    Desk.Safe g s actions ↔ Tx.EachStep (Desk.act g) (Desk.Allowed g) s actions := by
  constructor
  · intro hsafe before a hbefore
    exact (Desk.law_iff a).mp (hsafe.law before a hbefore)
  · intro hallowed
    refine ⟨fun before hbefore p hopen hpaid => ?_, fun before a hbefore => ?_⟩
    · have hprefix : Tx.EachStep (Desk.act g) (Desk.Allowed g) s before :=
        fun earlier a h => hallowed earlier a (h.trans hbefore)
      exact Desk.reported_of_allowed hprefix hopen hpaid
    · exact (Desk.law_iff a).mpr (hallowed before a hbefore)

/-- Texts are compared as texts, and `float` reads numbers. -/
def plainGateway : Gateway where
  token := "secret"
  equals
    | .str s, number => s = number
    | _, _ => false
  float
    | .int n => some (some n)
    | .float q _ _ => some (some q)
    | _ => none

def rentBill : SadadBill where
  billNumber := "999900001000011"
  payment := 1
  partner := 1
  billerCode := "9999"
  issueDate := .january1
  expiryDate := .january31

def rentBilled : Desk where
  payments := fun p =>
    { id := p
      name := "RP/1"
      dueDate := .january5
      amount := 100 }
  bills := (Table.empty fun _ => rentBill).insert rentBill

/-- A callback that names the invoice and no amount. -/
def withoutAmount : Call where
  token := "secret"
  body := some (.obj [("bill_number", .str "999900001000011")])
  moment :=
    { now := 0
      today := .january5
      invoicing := .failed "" }

theorem unreported_payment : ¬ ∀ (g : Gateway) (s : Desk) (actions : List Desk.Action), Desk.Safe g s actions := by
  intro hall
  have hlaw := (hall plainGateway rentBilled [.call withoutAmount]).law [] (.call withoutAmount) List.prefix_rfl
  have hpays : rentBilled.pays plainGateway withoutAmount = some 0 := by decide
  obtain ⟨-, q, hreported, -⟩ := (Desk.law_iff _).mp hlaw 0 hpays
  have hnothing : withoutAmount.reported plainGateway = none := by decide
  rw [hnothing] at hreported
  cases hreported

end Sadad
