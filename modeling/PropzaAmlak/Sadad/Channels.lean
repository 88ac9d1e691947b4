import PropzaAmlak.Sadad.Callback

/-! What the payment wizard and the SADAD invoices together collect for a rent payment.
Amounts are doubles, and the wizard rounds the sum that it stores. -/

namespace Sadad

open Rental

namespace Desk

/-- The button or some call would pay invoice `k`. -/
def Payable (g : Gateway) (s : Desk) (k : Nat) : Prop :=
  k ∈ s.bills.ids ∧ ((s.bill k).state = .pending ∨ ∃ c, s.pays g c = some k)

/-- The same invoices, of which only the states may differ. -/
structure SameBills (s s' : Desk) : Prop where
  ids : s'.bills.ids = s.bills.ids
  row : ∀ k, (s'.bill k).billNumber = (s.bill k).billNumber ∧ (s'.bill k).issueDate = (s.bill k).issueDate ∧
    (s'.bill k).payment = (s.bill k).payment

variable {g : Gateway} {s s' : Desk} {c : Call} {k j p : Nat}

theorem SameBills.finds (h : s.SameBills s') (c : Call) : s'.finds g c = s.finds g c := by
  have hfind : ∀ found, findBill s'.bills found = findBill s.bills found :=
    findBill_congr h.ids fun k _ => ⟨(h.row k).1, (h.row k).2.1⟩
  rw [Desk.finds, Desk.finds]
  simp only [hfind]

theorem SameBills.payable (h : s.SameBills s') (hstate : (s'.bill k).state = (s.bill k).state) :
    s'.Payable g k ↔ s.Payable g k := by
  simp only [Payable, h.ids, hstate, pays_eq_some, h.finds]

/-- An invoice that was paid or cancelled is payable no more, and one that expired was
payable before. -/
theorem SameBills.was_payable (h : s.SameBills s') (hpayable : s'.Payable g k)
    (hstate : (s'.bill k).state = (s.bill k).state ∨ (s'.bill k).state = .paid ∨ (s'.bill k).state = .cancelled ∨
      (s.bill k).state = .pending) : s.Payable g k := by
  rcases hstate with hstate | hstate | hstate | hstate
  · exact (h.payable hstate).mp hpayable
  · obtain ⟨-, hpending | ⟨c, hpays⟩⟩ := hpayable
    · simp [hstate] at hpending
    · exact absurd hstate (pays_eq_some.mp hpays).2.1
  · obtain ⟨-, hpending | ⟨c, hpays⟩⟩ := hpayable
    · simp [hstate] at hpending
    · exact absurd hstate (pays_eq_some.mp hpays).2.2.1
  · exact ⟨h.ids ▸ hpayable.1, .inl hstate⟩

theorem Payable.unpaid (h : s.Payable g k) : (s.bill k).state ≠ .paid := by
  obtain ⟨-, hpending | ⟨c, hpays⟩⟩ := h
  · simp [hpending]
  · exact (pays_eq_some.mp hpays).2.1

theorem payable_of_bills (h : s'.bills = s.bills) : s'.Payable g k ↔ s.Payable g k := by
  have hsame : s.SameBills s' := ⟨congrArg Table.ids h, fun k => by simp [bill, h]⟩
  exact hsame.payable (by simp [bill, h])

theorem markPaid_sameBills (s : Desk) (k : Nat) (paymentRef channel : String) (m : Moment) :
    s.SameBills (s.markPaid k paymentRef channel m) := by
  by_cases hpaid : (s.bill k).state = .paid
  · rw [markPaid, if_pos hpaid]
    exact ⟨rfl, fun _ => ⟨rfl, rfl, rfl⟩⟩
  · rw [markPaid_eq hpaid]
    refine ⟨rfl, fun j => ?_⟩
    rw [bill, Table.modify_row]
    split
    · rename_i hj
      subst hj
      exact ⟨rfl, rfl, rfl⟩
    · exact ⟨rfl, rfl, rfl⟩

theorem act_sameBills {a : Action} (ha : ∀ c, a ≠ .call c) : s.SameBills (s.act g a) := by
  cases a with
  | call c => exact absurd rfl (ha c)
  | cancelBill k =>
    rw [cancelBill_act]
    split
    · exact ⟨rfl, fun _ => ⟨rfl, rfl, rfl⟩⟩
    · refine ⟨rfl, fun j => ?_⟩
      rw [bill, Table.modify_row]
      split
      · rename_i hj
        subst hj
        exact ⟨rfl, rfl, rfl⟩
      · exact ⟨rfl, rfl, rfl⟩
  | expire today =>
    refine ⟨rfl, fun j => ?_⟩
    rw [act, expire, bill, Table.map_row]
    split
    · exact ⟨rfl, rfl, rfl⟩
    · exact ⟨rfl, rfl, rfl⟩

theorem generateSadad_eq_ok {partner : Nat} {config : Config} {today : Date} :
    s.generateSadad p partner config today = .ok s' ↔
      ((s.payments p).state ≠ .paid ∧ (s.payments p).state ≠ .cancelled) ∧ ¬ s.hasActiveSadad p ∧
        ∃ bill, newBill p partner config today = some bill ∧ s' = { s with bills := s.bills.insert bill } := by
  unfold generateSadad
  by_cases hopen : (s.payments p).state = .paid ∨ (s.payments p).state = .cancelled
  · simp only [hopen, if_true, reduceCtorEq, false_iff]
    exact fun h => (not_or.mpr h.1) hopen
  · rw [if_neg hopen, ← not_or]
    by_cases hactive : s.hasActiveSadad p
    · simp [hactive]
    · cases hnew : newBill p partner config today with
      | none => simp [hactive]
      | some bill =>
        simp only [hopen, hactive, if_false, Except.ok.injEq, Option.some.injEq, exists_eq_left', not_false_eq_true,
          true_and, Bool.false_eq_true]
        exact eq_comm

theorem payable_insert {bill : SadadBill} (h : ({ s with bills := s.bills.insert bill } : Desk).Payable g k)
    (hk : k ≠ s.bills.next) :
    s.Payable g k ∧ ({ s with bills := s.bills.insert bill } : Desk).bill k = s.bill k := by
  obtain ⟨hmem, hpays⟩ := h
  have hmem : k ∈ s.bills.ids := (Table.mem_insert.mp hmem).resolve_left hk
  have hbill : ({ s with bills := s.bills.insert bill } : Desk).bill k = s.bill k := Table.insert_row_of_mem hmem
  refine ⟨⟨hmem, ?_⟩, hbill⟩
  rw [hbill] at hpays
  rcases hpays with hpending | ⟨c, hpays⟩
  · exact .inl hpending
  · obtain ⟨hfinds, hstate⟩ := pays_eq_some.mp hpays
    obtain ⟨htoken, number, hnumber, hfind⟩ := finds_eq_some.mp hfinds
    rw [hbill] at hstate
    exact .inr ⟨c, pays_eq_some.mpr ⟨finds_eq_some.mpr ⟨htoken, number, hnumber, findBill_insert hmem hfind⟩, hstate⟩⟩

end Desk

/-- The desk and what has been collected for each rent payment. -/
structure Till where
  desk : Desk
  collected : Nat → ℚ

namespace Till

inductive Action where
  | register (p : Nat) (wizard : PaymentWizard)
  | generate (p partner : Nat) (config : Config) (today : Date)
  | sadad (a : Desk.Action)
  | simulate (k : Nat) (m : Moment)
  | markOverdue (today : Date)
  | cancel (p : Nat)

def step (g : Gateway) (s : Desk) : Action → Desk
  | .register p wizard =>
    { s with
      payments := Function.update s.payments p
        (((s.payments p).registerWith Double.add wizard).toOption.getD (s.payments p)) }
  | .generate p partner config today => (s.generateSadad p partner config today).toOption.getD s
  | .sadad a => s.act g a
  | .simulate k m => if k ∈ s.bills.ids then (s.simulatePayment k m).toOption.getD s else s
  | .markOverdue today => { s with payments := fun p => (s.payments p).markOverdue today }
  | .cancel p => { s with payments := Function.update s.payments p (s.payments p).cancel }

/-- The money that an action brings in, and the rent payment it is for. An invoice
brings in what it bills. -/
def receipt (g : Gateway) (s : Desk) : Action → Option (Nat × ℚ)
  | .register p wizard => if wizard.amountPaid ≤ 0 then none else some (p, wizard.amountPaid)
  | .sadad (.call c) => (s.pays g c).map fun k => ((s.bill k).payment, s.amount k)
  | .simulate k _ =>
    if k ∈ s.bills.ids ∧ (s.bill k).state = .pending then some ((s.bill k).payment, s.amount k) else none
  | _ => none

def received (g : Gateway) (s : Desk) (a : Action) (p : Nat) : ℚ :=
  (receipt g s a).elim 0 fun r => if p = r.1 then r.2 else 0

def act (g : Gateway) (t : Till) (a : Action) : Till where
  desk := step g t.desk a
  collected := fun p => t.collected p + received g t.desk a p

/-- No more is collected than is due, `amount_paid` says how much, and an invoice that
can be paid bills what is still open of a rent payment that is neither paid nor
cancelled. -/
structure Sound (g : Gateway) (t : Till) : Prop where
  within : ∀ p, t.collected p ≤ (t.desk.payments p).amount
  books : ∀ p, (t.desk.payments p).amountPaid = t.collected p
  settled : ∀ k, t.desk.Payable g k → (t.desk.payments (t.desk.bill k).payment).state ≠ .paid ∧
    (t.desk.payments (t.desk.bill k).payment).state ≠ .cancelled
  balance : ∀ k, t.desk.Payable g k → t.desk.amount k =
    (t.desk.payments (t.desk.bill k).payment).amount - (t.desk.payments (t.desk.bill k).payment).amountPaid

/-- A call that pays an invoice does not report another amount, and all that is
received is added to `amount_paid`. -/
structure Law (g : Gateway) (t : Till) (a : Action) : Prop where
  accepts : ∀ c k, a = .sadad (.call c) → t.desk.pays g c = some k → c.reported g = none ∨ t.desk.Reports g c k
  billed : ∀ p, ((t.act g a).desk.payments p).amountPaid = (t.desk.payments p).amountPaid + received g t.desk a p

/-- Invoice `k` is the only one of its rent payment that can be paid. -/
def Only (g : Gateway) (s : Desk) (k : Nat) : Prop :=
  ∀ j, s.Payable g j → (s.bill j).payment = (s.bill k).payment → j = k

/-- What each channel would have to see of the other. -/
def Allowed (g : Gateway) (t : Till) : Action → Prop
  | .register p wizard => wizard.amountPaid ≤ 0 ∨
    (t.desk.payments p).amountPaid + wizard.amountPaid ≤ (t.desk.payments p).amount ∧
      Double.add (t.desk.payments p).amountPaid wizard.amountPaid =
        (t.desk.payments p).amountPaid + wizard.amountPaid ∧
      ∀ k, t.desk.Payable g k → (t.desk.bill k).payment ≠ p
  | .generate p partner config today => (t.desk.payments p).state ≠ .paid → (t.desk.payments p).state ≠ .cancelled →
    ¬ t.desk.hasActiveSadad p → (newBill p partner config today).isSome → (t.desk.payments p).amountPaid = 0
  | .sadad (.call c) => ∀ k, t.desk.pays g c = some k →
    (c.reported g = none ∨ t.desk.Reports g c k) ∧ Only g t.desk k
  | .sadad _ => True
  | .simulate k _ => k ∈ t.desk.bills.ids → (t.desk.bill k).state = .pending → Only g t.desk k
  | .markOverdue _ => True
  | .cancel p => ∀ k, t.desk.Payable g k → (t.desk.bill k).payment ≠ p

/-- No invoices so far, and at most the amount collected. -/
structure New (t : Till) : Prop where
  bills : t.desk.bills.ids = ∅
  collected : ∀ p, 0 ≤ t.collected p ∧ t.collected p ≤ (t.desk.payments p).amount
  books : ∀ p, (t.desk.payments p).amountPaid = t.collected p

variable {g : Gateway} {t : Till} {a : Action} {k p : Nat}

/-- No payment is negative. -/
def Counts (payments : Nat → RentPayment) : Prop := ∀ p, 0 ≤ (payments p).amount ∧ 0 ≤ (payments p).amountPaid

theorem act_same (hdesk : step g t.desk a = t.desk) (hreceipt : receipt g t.desk a = none) : t.act g a = t := by
  have hcollected : (fun p => t.collected p + received g t.desk a p) = t.collected := by
    funext p
    simp [received, hreceipt]
  rw [act, hdesk, hcollected]

theorem nothing_iff (hs : t.Sound g) (hdesk : step g t.desk a = t.desk) (hreceipt : receipt g t.desk a = none)
    (hcall : ∀ c k, a = .sadad (.call c) → t.desk.pays g c ≠ some k) : t.Law g a ∧ (t.act g a).Sound g := by
  refine ⟨⟨fun c k ha hpays => absurd hpays (hcall c k ha), fun p => ?_⟩, ?_⟩
  · simp [act_same hdesk hreceipt, received, hreceipt]
  · rwa [act_same hdesk hreceipt]

theorem law_of_sound (hs : t.Sound g) (hs' : (t.act g a).Sound g)
    (haccepts : ∀ c k, a = .sadad (.call c) → t.desk.pays g c = some k → c.reported g = none ∨ t.desk.Reports g c k) :
    t.Law g a := by
  refine ⟨haccepts, fun p => ?_⟩
  rw [hs'.books, hs.books]
  rfl

/-- The same is open of a rent payment. -/
structure SameOpen (p p' : RentPayment) : Prop where
  amount : p'.amount = p.amount
  amountPaid : p'.amountPaid = p.amountPaid
  paid : p'.state = .paid → p.state = .paid
  cancelled : p'.state = .cancelled → p.state = .cancelled

theorem SameOpen.refl (p : RentPayment) : SameOpen p p := ⟨rfl, rfl, id, id⟩

/-- It is enough that no invoice becomes payable and that of those which stay so the
same is open. -/
theorem Sound.keep {t' : Till} (hs : t.Sound g) (hwithin : ∀ p, t'.collected p ≤ (t'.desk.payments p).amount)
    (hbooks : ∀ p, (t'.desk.payments p).amountPaid = t'.collected p)
    (hkeep : ∀ k, t'.desk.Payable g k → t.desk.Payable g k ∧ (t'.desk.bill k).payment = (t.desk.bill k).payment ∧
      SameOpen (t.desk.payments (t.desk.bill k).payment) (t'.desk.payments (t.desk.bill k).payment)) :
    t'.Sound g where
  within := hwithin
  books := hbooks
  settled := by
    intro k hk
    obtain ⟨hold, hpayment, hopen⟩ := hkeep k hk
    obtain ⟨hpaid, hcancelled⟩ := hs.settled k hold
    rw [hpayment]
    exact ⟨fun h => hpaid (hopen.paid h), fun h => hcancelled (hopen.cancelled h)⟩
  balance := by
    intro k hk
    obtain ⟨hold, hpayment, hopen⟩ := hkeep k hk
    rw [Desk.amount, hpayment, hopen.amount, hopen.amountPaid]
    exact hs.balance k hold

/-- One rent payment is changed, and no invoice of it is payable afterwards. -/
theorem Sound.keep_of_update {t' : Till} {p' : RentPayment} {x : ℚ} (hs : t.Sound g)
    (hpayments : t'.desk.payments = Function.update t.desk.payments p p')
    (hcollected : ∀ q, t'.collected q = t.collected q + if q = p then x else 0)
    (hamount : p'.amount = (t.desk.payments p).amount) (hpaid : p'.amountPaid = t.collected p + x)
    (hle : t.collected p + x ≤ (t.desk.payments p).amount)
    (hkeep : ∀ k, t'.desk.Payable g k → t.desk.Payable g k ∧ (t'.desk.bill k).payment = (t.desk.bill k).payment ∧
      (t.desk.bill k).payment ≠ p) : t'.Sound g := by
  have hself : t'.desk.payments p = p' := by rw [hpayments, Function.update_self]
  have hother : ∀ q, q ≠ p → t'.desk.payments q = t.desk.payments q := by
    intro q hq
    rw [hpayments, Function.update_of_ne hq]
  refine hs.keep (fun q => ?_) (fun q => ?_) fun k hk => ?_
  · rw [hcollected]
    by_cases hq : q = p
    · rw [hq, if_pos rfl, hself, hamount]
      exact hle
    · rw [if_neg hq, hother q hq, add_zero]
      exact hs.within q
  · rw [hcollected]
    by_cases hq : q = p
    · rw [hq, if_pos rfl, hself, hpaid]
    · rw [if_neg hq, hother q hq, add_zero]
      exact hs.books q
  · obtain ⟨hold, hpayment, hne⟩ := hkeep k hk
    rw [hother _ hne]
    exact ⟨hold, hpayment, SameOpen.refl _⟩

theorem Sound.unpaid (hs : t.Sound g) (hk : t.desk.Payable g k) :
    (t.desk.payments (t.desk.bill k).payment).amountPaid = 0 := by
  have hbalance := hs.balance k hk
  rw [Desk.amount] at hbalance
  linarith

theorem register_iff (hc : Counts t.desk.payments) (hs : t.Sound g) (p : Nat) (wizard : PaymentWizard) :
    t.Allowed g (.register p wizard) ↔ t.Law g (.register p wizard) ∧ (t.act g (.register p wizard)).Sound g := by
  cases hregister : (t.desk.payments p).registerWith Double.add wizard with
  | error e =>
    have hnone := registerWith_error_iff.mp ⟨e, hregister⟩
    have hdesk : step g t.desk (.register p wizard) = t.desk := by simp [step, hregister, Except.toOption]
    have hreceipt : receipt g t.desk (.register p wizard) = none := by simp [receipt, hnone]
    exact ⟨fun _ => nothing_iff hs hdesk hreceipt (by simp), fun _ => .inl hnone⟩
  | ok p' =>
    obtain ⟨hpos, hpaid, hamount, -⟩ := registerWith_ok hregister
    have hsome : ¬ wizard.amountPaid ≤ 0 := not_le_of_gt hpos
    have hpayments : (t.act g (.register p wizard)).desk.payments = Function.update t.desk.payments p p' := by
      simp [act, step, hregister, Except.toOption]
    have hpayable : ∀ k, (t.act g (.register p wizard)).desk.Payable g k ↔ t.desk.Payable g k :=
      fun k => Desk.payable_of_bills rfl
    have hcollected : ∀ q, (t.act g (.register p wizard)).collected q =
        t.collected q + if q = p then wizard.amountPaid else 0 := by
      intro q
      simp [act, received, receipt, hsome]
    simp only [Allowed, hsome, false_or]
    constructor
    · rintro ⟨hle, hexact, hfree⟩
      rw [hexact, hs.books] at hpaid
      rw [hs.books] at hle
      have hs' : (t.act g (.register p wizard)).Sound g := by
        refine hs.keep_of_update hpayments hcollected hamount hpaid hle fun k hk => ?_
        have hold := (hpayable k).mp hk
        exact ⟨hold, rfl, hfree k hold⟩
      exact ⟨law_of_sound hs hs' (by simp), hs'⟩
    · rintro ⟨-, hs'⟩
      have hexact : Double.add (t.desk.payments p).amountPaid wizard.amountPaid =
          (t.desk.payments p).amountPaid + wizard.amountPaid := by
        have hbooks := hs'.books p
        rw [hcollected, if_pos rfl, hpayments, Function.update_self, hpaid, ← hs.books] at hbooks
        exact hbooks
      refine ⟨?_, hexact, fun k hk hp => ?_⟩
      · have hwithin := hs'.within p
        rw [hcollected, if_pos rfl, hpayments, Function.update_self, hamount, ← hs.books] at hwithin
        exact hwithin
      · have hnothing := hs'.unpaid ((hpayable k).mpr hk)
        have hbill : ((t.act g (.register p wizard)).desk.bill k).payment = p := hp
        rw [hbill, hpayments, Function.update_self, hpaid, hexact] at hnothing
        have hnonneg := (hc p).2
        linarith

theorem cancel_iff (hs : t.Sound g) (p : Nat) :
    t.Allowed g (.cancel p) ↔ t.Law g (.cancel p) ∧ (t.act g (.cancel p)).Sound g := by
  have hpayments : (t.act g (.cancel p)).desk.payments =
      Function.update t.desk.payments p (t.desk.payments p).cancel := rfl
  have hpaid : (t.desk.payments p).cancel.amountPaid = t.collected p + 0 := (hs.books p).trans (add_zero _).symm
  have hle : t.collected p + 0 ≤ (t.desk.payments p).amount := (add_zero _).trans_le (hs.within p)
  have hcollected : ∀ q, (t.act g (.cancel p)).collected q = t.collected q + if q = p then 0 else 0 := by
    intro q
    rw [ite_self]
    rfl
  have hpayable : ∀ k, (t.act g (.cancel p)).desk.Payable g k ↔ t.desk.Payable g k := fun k => Desk.payable_of_bills rfl
  constructor
  · intro hfree
    have hs' : (t.act g (.cancel p)).Sound g := by
      refine hs.keep_of_update hpayments hcollected rfl hpaid hle fun k hk => ?_
      have hold := (hpayable k).mp hk
      exact ⟨hold, rfl, hfree k hold⟩
    exact ⟨law_of_sound hs hs' (by simp), hs'⟩
  · rintro ⟨-, hs'⟩ k hk hp
    obtain ⟨-, hnot⟩ := hs'.settled k ((hpayable k).mpr hk)
    have hbill : ((t.act g (.cancel p)).desk.bill k).payment = p := hp
    rw [hbill, hpayments, Function.update_self] at hnot
    exact hnot rfl

theorem markOverdue_sound (hs : t.Sound g) (today : Date) :
    t.Law g (.markOverdue today) ∧ (t.act g (.markOverdue today)).Sound g := by
  have hopen : ∀ q, SameOpen (t.desk.payments q) ((t.act g (.markOverdue today)).desk.payments q) := by
    intro q
    obtain ⟨hamount, hpaid, hstatePaid, hstateCancelled⟩ := (t.desk.payments q).markOverdue_frame today
    exact ⟨hamount, hpaid, hstatePaid.mp, hstateCancelled.mp⟩
  have hcollected : ∀ q, (t.act g (.markOverdue today)).collected q = t.collected q := fun q => add_zero _
  have hs' : (t.act g (.markOverdue today)).Sound g := by
    refine hs.keep (fun q => ?_) (fun q => ?_) fun k hk => ?_
    · rw [hcollected, (hopen q).amount]
      exact hs.within q
    · rw [hcollected, (hopen q).amountPaid]
      exact hs.books q
    · exact ⟨(Desk.payable_of_bills rfl).mp hk, rfl, hopen _⟩
  exact ⟨law_of_sound hs hs' (by simp), hs'⟩

theorem generate_iff (hs : t.Sound g) (p partner : Nat) (config : Config) (today : Date) :
    t.Allowed g (.generate p partner config today) ↔
      t.Law g (.generate p partner config today) ∧ (t.act g (.generate p partner config today)).Sound g := by
  cases hgenerate : t.desk.generateSadad p partner config today with
  | error e =>
    have hdesk : step g t.desk (.generate p partner config today) = t.desk := by
      simp [step, hgenerate, Except.toOption]
    refine ⟨fun _ => nothing_iff hs hdesk rfl (by simp), fun _ hpaid hcancelled hactive hsome => ?_⟩
    obtain ⟨bill, hnew⟩ := Option.isSome_iff_exists.mp hsome
    have hok := Desk.generateSadad_eq_ok.mpr ⟨⟨hpaid, hcancelled⟩, hactive, bill, hnew, rfl⟩
    rw [hgenerate] at hok
    cases hok
  | ok desk' =>
    obtain ⟨hopen, hactive, bill, hbillNew, rfl⟩ := Desk.generateSadad_eq_ok.mp hgenerate
    obtain ⟨hpayment, hpending⟩ := newBill_some hbillNew
    have hdesk : (t.act g (.generate p partner config today)).desk =
        { t.desk with bills := t.desk.bills.insert bill } := by
      simp [act, step, hgenerate, Except.toOption]
    generalize hact : t.act g (.generate p partner config today) = t' at hdesk
    have hcollected : t'.collected = t.collected := by
      rw [← hact]
      funext q
      exact add_zero _
    have hnew : t'.desk.bill t.desk.bills.next = bill := by rw [hdesk, Desk.bill, Table.insert_row_next]
    have hpayable : t'.desk.Payable g t.desk.bills.next := by
      refine ⟨?_, .inl (hnew ▸ hpending)⟩
      rw [hdesk]
      exact Table.mem_insert.mpr (.inl rfl)
    have hold : ∀ k, t'.desk.Payable g k → k ≠ t.desk.bills.next →
        t.desk.Payable g k ∧ t'.desk.bill k = t.desk.bill k := by
      intro k hk hne
      rw [hdesk] at hk ⊢
      exact Desk.payable_insert hk hne
    constructor
    · intro hallowed
      have hnothing := hallowed hopen.1 hopen.2 hactive (by rw [hbillNew]; rfl)
      have hs' : t'.Sound g := by
        refine ⟨fun q => ?_, fun q => ?_, fun k hk => ?_, fun k hk => ?_⟩
        · rw [hcollected, hdesk]
          exact hs.within q
        · rw [hcollected, hdesk]
          exact hs.books q
        · by_cases hne : k = t.desk.bills.next
          · rw [hne, hnew, hpayment, hdesk]
            exact hopen
          · obtain ⟨hk, hbill⟩ := hold k hk hne
            rw [hbill, hdesk]
            exact hs.settled k hk
        · by_cases hne : k = t.desk.bills.next
          · rw [Desk.amount, hne, hnew, hpayment, hdesk, hnothing, sub_zero]
          · obtain ⟨hk, hbill⟩ := hold k hk hne
            rw [Desk.amount, hbill, hdesk]
            exact hs.balance k hk
      exact ⟨law_of_sound hs (by rw [hact]; exact hs') (by simp), hs'⟩
    · rintro ⟨-, hs'⟩ _ _ _ _
      have hnothing := hs'.unpaid hpayable
      rwa [hnew, hpayment, hdesk] at hnothing

theorem other_sound (hs : t.Sound g) {a : Desk.Action} (ha : ∀ c, a ≠ .call c) :
    t.Law g (.sadad a) ∧ (t.act g (.sadad a)).Sound g := by
  have hpayments : (t.act g (.sadad a)).desk.payments = t.desk.payments := Desk.act_payments ha
  have hreceipt : receipt g t.desk (.sadad a) = none := by
    cases a with
    | call c => exact absurd rfl (ha c)
    | cancelBill k => rfl
    | expire today => rfl
  have hcollected : ∀ q, (t.act g (.sadad a)).collected q = t.collected q := by
    intro q
    simp [act, received, hreceipt]
  have hsame : t.desk.SameBills (t.act g (.sadad a)).desk := Desk.act_sameBills ha
  have hs' : (t.act g (.sadad a)).Sound g := by
    refine hs.keep (fun q => ?_) (fun q => ?_) fun k hk => ?_
    · rw [hcollected, hpayments]
      exact hs.within q
    · rw [hcollected, hpayments]
      exact hs.books q
    · have hstate := Desk.act_state (g := g) (s := t.desk) ha k
      refine ⟨hsame.was_payable hk ?_, (hsame.row k).2.2, ?_⟩
      · rcases hstate with h | ⟨-, h⟩ | ⟨h, -⟩
        · exact .inl h
        · exact .inr (.inr (.inl h))
        · exact .inr (.inr (.inr h))
      · rw [hpayments]
        exact SameOpen.refl _
  exact ⟨law_of_sound hs hs' fun c k hc => absurd (Action.sadad.inj hc) (ha c), hs'⟩

theorem pay_iff (hs : t.Sound g) (hk : t.desk.Payable g k) {paymentRef channel : String} {m : Moment}
    (hdesk : step g t.desk a = t.desk.markPaid k paymentRef channel m)
    (hreceipt : receipt g t.desk a = some ((t.desk.bill k).payment, t.desk.amount k)) :
    Only g t.desk k ↔ (t.act g a).Sound g := by
  obtain ⟨hpaid, hcancelled⟩ := hs.settled k hk
  have hawaiting := RentPayment.awaiting_iff.mpr ⟨hpaid, hcancelled⟩
  obtain ⟨hamount, hstate, hmoney⟩ := RentPayment.sadadPaid_awaiting hawaiting (t.desk.bill k).billNumber paymentRef m
  have hpayments : (t.act g a).desk.payments = Function.update t.desk.payments (t.desk.bill k).payment
      ((t.desk.payments (t.desk.bill k).payment).sadadPaid (t.desk.bill k).billNumber paymentRef m) := by
    rw [act, hdesk, Desk.markPaid_eq hk.unpaid]
  have hcollected : ∀ q, (t.act g a).collected q =
      t.collected q + if q = (t.desk.bill k).payment then t.desk.amount k else 0 := by
    intro q
    simp [act, received, hreceipt]
  have hsame : t.desk.SameBills (t.act g a).desk := by
    rw [act, hdesk]
    exact Desk.markPaid_sameBills ..
  have hbill : ∀ j, ((t.act g a).desk.bill j).state = if j = k then .paid else (t.desk.bill j).state := by
    intro j
    rw [act, hdesk, Desk.markPaid_state hk.unpaid]
  have hnothing := hs.unpaid hk
  rw [hs.books] at hnothing
  constructor
  · intro honly
    have hpaid : t.collected (t.desk.bill k).payment + t.desk.amount k =
        (t.desk.payments (t.desk.bill k).payment).amount := by rw [hnothing, zero_add, Desk.amount]
    refine hs.keep_of_update hpayments hcollected hamount (hmoney.trans hpaid.symm) hpaid.le fun j hj => ?_
    have hjk : j ≠ k := by
      rintro rfl
      exact hj.unpaid (by rw [hbill, if_pos rfl])
    have hold := (hsame.payable (by rw [hbill, if_neg hjk])).mp hj
    exact ⟨hold, (hsame.row j).2.2, fun hpayment => hjk (honly j hold hpayment)⟩
  · intro hs' j hj hpayment
    by_contra hjk
    have hstill := (hsame.payable (by rw [hbill, if_neg hjk])).mpr hj
    obtain ⟨hnot, -⟩ := hs'.settled j hstill
    rw [(hsame.row j).2.2, hpayment, hpayments, Function.update_self] at hnot
    exact hnot hstate

theorem call_iff (hs : t.Sound g) (c : Call) :
    t.Allowed g (.sadad (.call c)) ↔ t.Law g (.sadad (.call c)) ∧ (t.act g (.sadad (.call c))).Sound g := by
  cases hpays : t.desk.pays g c with
  | none =>
    have hdesk : step g t.desk (.sadad (.call c)) = t.desk := by rw [step, Desk.act_call, hpays]; rfl
    have hreceipt : receipt g t.desk (.sadad (.call c)) = none := by simp [receipt, hpays]
    simp only [Allowed, hpays, reduceCtorEq, false_imp_iff, implies_true, true_iff]
    refine nothing_iff hs hdesk hreceipt fun c' k hc' => ?_
    obtain rfl := Desk.Action.call.inj (Action.sadad.inj hc')
    simp [hpays]
  | some k =>
    have hk : t.desk.Payable g k := ⟨Desk.mem_of_finds (Desk.pays_eq_some.mp hpays).1, .inr ⟨c, hpays⟩⟩
    have hdesk : step g t.desk (.sadad (.call c)) = t.desk.markPaid k c.paymentRef c.channel c.moment := by
      rw [step, Desk.act_call, hpays]
      rfl
    have hreceipt : receipt g t.desk (.sadad (.call c)) = some ((t.desk.bill k).payment, t.desk.amount k) := by
      simp [receipt, hpays]
    simp only [Allowed, hpays, Option.some.injEq, forall_eq']
    rw [pay_iff hs hk hdesk hreceipt]
    constructor
    · rintro ⟨haccepts, hs'⟩
      refine ⟨law_of_sound hs hs' fun c' j hc' hj => ?_, hs'⟩
      obtain rfl := Desk.Action.call.inj (Action.sadad.inj hc')
      obtain rfl := Option.some.inj (hpays.symm.trans hj)
      exact haccepts
    · rintro ⟨hlaw, hs'⟩
      exact ⟨hlaw.accepts c k rfl hpays, hs'⟩

theorem simulate_iff (hs : t.Sound g) (k : Nat) (m : Moment) :
    t.Allowed g (.simulate k m) ↔ t.Law g (.simulate k m) ∧ (t.act g (.simulate k m)).Sound g := by
  by_cases hpays : k ∈ t.desk.bills.ids ∧ (t.desk.bill k).state = .pending
  · obtain ⟨hmem, hpending⟩ := hpays
    have hdesk : step g t.desk (.simulate k m) = t.desk.markPaid k ("SIM-" ++ toString k) "Simulation" m := by
      simp [step, hmem, Desk.simulatePayment, hpending, Except.toOption]
    have hreceipt : receipt g t.desk (.simulate k m) = some ((t.desk.bill k).payment, t.desk.amount k) := by
      simp [receipt, hmem, hpending]
    simp only [Allowed, hmem, hpending, true_imp_iff]
    rw [pay_iff hs ⟨hmem, .inl hpending⟩ hdesk hreceipt]
    exact ⟨fun hs' => ⟨law_of_sound hs hs' (by simp), hs'⟩, fun h => h.2⟩
  · have hdesk : step g t.desk (.simulate k m) = t.desk := by
      by_cases hmem : k ∈ t.desk.bills.ids
      · have hstate : (t.desk.bill k).state ≠ .pending := fun h => hpays ⟨hmem, h⟩
        simp [step, Desk.simulatePayment, hstate, Except.toOption]
      · simp [step, hmem]
    have hreceipt : receipt g t.desk (.simulate k m) = none := by simp [receipt, hpays]
    exact ⟨fun _ => nothing_iff hs hdesk hreceipt (by simp), fun _ hmem hpending => absurd ⟨hmem, hpending⟩ hpays⟩

theorem allowed_iff (hc : Counts t.desk.payments) (hs : t.Sound g) (a : Action) :
    t.Allowed g a ↔ t.Law g a ∧ (t.act g a).Sound g := by
  cases a with
  | register p wizard => exact register_iff hc hs p wizard
  | generate p partner config today => exact generate_iff hs p partner config today
  | sadad a =>
    cases a with
    | call c => exact call_iff hs c
    | cancelBill k => exact ⟨fun _ => other_sound hs (by simp), fun _ => trivial⟩
    | expire today => exact ⟨fun _ => other_sound hs (by simp), fun _ => trivial⟩
  | simulate k m => exact simulate_iff hs k m
  | markOverdue today => exact ⟨fun _ => markOverdue_sound hs today, fun _ => trivial⟩
  | cancel p => exact cancel_iff hs p

theorem Counts.update {payments : Nat → RentPayment} (hc : Counts payments) (p : Nat) {p' : RentPayment}
    (hp' : 0 ≤ p'.amount ∧ 0 ≤ p'.amountPaid) : Counts (Function.update payments p p') := by
  intro q
  rw [Function.update_apply]
  split
  · exact hp'
  · exact hc q

theorem Counts.markPaid {s : Desk} (hc : Counts s.payments) (k : Nat) (paymentRef channel : String) (m : Moment) :
    Counts (s.markPaid k paymentRef channel m).payments := by
  by_cases hpaid : (s.bill k).state = .paid
  · rwa [Desk.markPaid, if_pos hpaid]
  · rw [Desk.markPaid_eq hpaid]
    apply hc.update
    by_cases hawaiting : (s.payments (s.bill k).payment).awaiting
    · obtain ⟨hamount, -, hmoney⟩ := RentPayment.sadadPaid_awaiting hawaiting (s.bill k).billNumber paymentRef m
      rw [hamount, hmoney]
      exact ⟨(hc _).1, (hc _).1⟩
    · rw [RentPayment.sadadPaid_settled hawaiting]
      exact hc _

theorem Counts.step {s : Desk} (hc : Counts s.payments) (a : Action) : Counts (step g s a).payments := by
  cases a with
  | register p wizard =>
    apply hc.update
    cases hregister : (s.payments p).registerWith Double.add wizard with
    | error e => exact hc p
    | ok p' =>
      obtain ⟨hpos, hpaid, hamount, -⟩ := registerWith_ok hregister
      have hsum : 0 ≤ Double.add (s.payments p).amountPaid wizard.amountPaid :=
        Double.round_nonneg (add_nonneg (hc p).2 hpos.le)
      simp only [Except.toOption, Option.getD_some, hamount, hpaid]
      exact ⟨(hc p).1, hsum⟩
  | generate p partner config today =>
    cases hgenerate : s.generateSadad p partner config today with
    | error e => simpa [Till.step, hgenerate, Except.toOption] using hc
    | ok s' =>
      obtain ⟨-, -, bill, -, rfl⟩ := Desk.generateSadad_eq_ok.mp hgenerate
      simpa [Till.step, hgenerate, Except.toOption] using hc
  | sadad a =>
    cases a with
    | call c =>
      rw [Till.step, Desk.act_call]
      cases s.pays g c with
      | none => exact hc
      | some k => exact hc.markPaid k _ _ _
    | cancelBill k => rwa [Till.step, Desk.act_payments (by simp)]
    | expire today => exact hc
  | simulate k m =>
    rw [Till.step]
    split
    · rw [Desk.simulatePayment]
      split
      · exact hc
      · exact hc.markPaid k _ _ _
    · exact hc
  | markOverdue today =>
    intro q
    obtain ⟨hamount, hmoney, -⟩ := (s.payments q).markOverdue_frame today
    simp only [Till.step, hamount, hmoney]
    exact hc q
  | cancel p => exact hc.update p (hc p)

theorem New.sound (hnew : t.New) : t.Sound g := by
  have hnone : ∀ k, ¬ t.desk.Payable g k := fun k hk => by simpa [hnew.bills] using hk.1
  exact ⟨fun p => (hnew.collected p).2, hnew.books, fun k hk => absurd hk (hnone k), fun k hk => absurd hk (hnone k)⟩

theorem New.counts (hnew : t.New) : Counts t.desk.payments := by
  intro p
  obtain ⟨hnonneg, hle⟩ := hnew.collected p
  exact ⟨hnonneg.trans hle, by rwa [hnew.books]⟩

end Till

/-- The channels collect a rent payment once just when each action finds the other
channel as it has to be. -/
theorem channels_agree_iff {g : Gateway} {t : Till} (hnew : t.New) (actions : List Till.Action) :
    Tx.Always (Till.act g) (Till.Sound g) t actions ∧ Tx.EachStep (Till.act g) (Till.Law g) t actions ↔
      Tx.EachStep (Till.act g) (Till.Allowed g) t actions := by
  refine Tx.law_iff (B := fun t => Till.Counts t.desk.payments) ?_ ?_ hnew.counts hnew.sound
  · exact fun _ a hc => hc.step a
  · exact fun _ a hc hs => Till.allowed_iff hc hs a

def openRent : Till where
  desk := { rentBilled with bills := .empty fun _ => rentBill }
  collected := fun _ => 0

theorem openRent_new : openRent.New := ⟨rfl, fun _ => ⟨le_rfl, by norm_num [openRent, rentBilled]⟩, fun _ => rfl⟩

/-- An invoice is made, and then all is paid in cash. -/
def billedAndCash : List Till.Action := [.generate 1 1 {} .january1, .register 1 (cash 100)]

theorem channels_agree_billedAndCash :
    ¬ (Tx.Always (Till.act plainGateway) (Till.Sound plainGateway) openRent billedAndCash ∧
      Tx.EachStep (Till.act plainGateway) (Till.Law plainGateway) openRent billedAndCash) := by
  rw [channels_agree_iff openRent_new]
  intro hallowed
  have hpayable : (openRent.act plainGateway (.generate 1 1 {} .january1)).desk.Payable plainGateway 0 :=
    ⟨by decide +kernel, .inl (by decide +kernel)⟩
  rcases hallowed [.generate 1 1 {} .january1] (.register 1 (cash 100)) List.prefix_rfl with hnone | ⟨-, -, hfree⟩
  · revert hnone
    decide +kernel
  · exact hfree 0 hpayable (by decide +kernel)

theorem paid_twice : ¬ ∀ (g : Gateway) (t : Till), t.New → ∀ actions : List Till.Action,
    Tx.Always (Till.act g) (Till.Sound g) t actions ∧ Tx.EachStep (Till.act g) (Till.Law g) t actions := by
  intro hall
  obtain ⟨hsound, -⟩ := hall plainGateway openRent openRent_new billedAndCash
  have hpayable : (Tx.after (Till.act plainGateway) openRent billedAndCash).desk.Payable plainGateway 0 :=
    ⟨by decide +kernel, .inl (by decide +kernel)⟩
  obtain ⟨hpaid, -⟩ := (hsound billedAndCash List.prefix_rfl).settled 0 hpayable
  revert hpaid
  decide +kernel

end Sadad
