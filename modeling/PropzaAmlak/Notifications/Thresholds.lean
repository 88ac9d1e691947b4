import Mathlib.Data.List.Count
import Mathlib.Data.List.Nodup
import PropzaAmlak.Notifications.Overdue

/-! The overdue days on which a tenant has a notice. -/

namespace Notifications

open Rental

theorem count_flatMap_of_key {α κ β : Type} [DecidableEq β] {l : List α} {key : α → κ} (hkeys : (l.map key).Nodup)
    {f : α → List β} {a : α} (ha : a ∈ l) {x : β} (hother : ∀ b ∈ l, key b ≠ key a → x ∉ f b) :
    (l.flatMap f).count x = (f a).count x := by
  induction l with
  | nil => simp at ha
  | cons b rest ih =>
    rw [List.map_cons, List.nodup_cons] at hkeys
    obtain ⟨hnot, hrest⟩ := hkeys
    rw [List.flatMap_cons, List.count_append]
    rcases List.mem_cons.mp ha with rfl | ha
    · have hzero : x ∉ rest.flatMap f := by
        intro hx
        obtain ⟨b, hb, hx⟩ := List.mem_flatMap.mp hx
        exact hother b (by simp [hb]) (fun heq => hnot (heq ▸ List.mem_map_of_mem hb)) hx
      rw [List.count_eq_zero.mpr hzero, Nat.add_zero]
    · have hne : key b ≠ key a := fun heq => hnot (heq ▸ List.mem_map_of_mem ha)
      have hzero := List.count_eq_zero.mpr (hother b (by simp) hne)
      rw [hzero, ih hrest ha fun c hc => hother c (by simp [hc]), Nat.zero_add]

section Dates

variable {today due : Date} {days : List Nat} {dates : List (Nat × Date)}

theorem toordinal_pos (d : Date) : 0 < d.toordinal := by
  have hday := d.day_le.1
  unfold Date.toordinal
  omega

theorem addDays_neg_succ (today : Date) (n : Nat) :
    addDays today (-(n + 1 : Nat)) = (addDays today (-n)).bind Date.yesterday := by
  have hiterate : ∀ n : Nat, addDays today (-n) = (fun day => Option.bind day Date.yesterday)^[n] (some today) := by
    intro n
    cases n <;> rfl
  rw [hiterate, hiterate, Function.iterate_succ_apply']

theorem addDays_neg_isSome {n : Nat} : (addDays today (-n)).isSome ↔ n < today.toordinal := by
  constructor
  · intro h
    obtain ⟨e, he⟩ := Option.isSome_iff_exists.mp h
    have hordinal := addDays_eq_some.mp he
    have hpos := toordinal_pos e
    omega
  · intro h
    induction n with
    | zero => rfl
    | succ n ih =>
      obtain ⟨e, he⟩ := Option.isSome_iff_exists.mp (ih (by omega))
      have hordinal := addDays_eq_some.mp he
      have hfirst : ∃ d : Date, d.toordinal = 1 := by
        refine ⟨⟨1, 1, 1, by omega, by omega, by simp [daysInMonth]⟩, ?_⟩
        simp [Date.toordinal, Date.daysBeforeYear, Date.daysBeforeMonth]
      obtain ⟨d, hd⟩ := hfirst
      have hlt : d.toordinal < e.toordinal := by omega
      obtain ⟨c, hc⟩ := exists_yesterday hlt
      rw [addDays_neg_succ, he, Option.bind_some, hc]
      rfl

theorem targets_eq_some : targets today days = some dates ↔
    dates.map Prod.fst = days ∧ ∀ x ∈ dates, addDays today (-x.1) = some x.2 := by
  rw [targets]
  induction days generalizing dates with
  | nil => cases dates <;> simp
  | cons d rest ih =>
    simp only [List.mapM_cons, Option.bind_eq_bind, Option.bind_eq_some_iff, Option.map_eq_some_iff, Option.pure_def,
      Option.some.injEq]
    constructor
    · rintro ⟨-, ⟨target, htarget, rfl⟩, dates, hdates, rfl⟩
      obtain ⟨hmap, hall⟩ := ih.mp hdates
      refine ⟨by simp [hmap], ?_⟩
      intro x hx
      rcases List.mem_cons.mp hx with rfl | hx
      · exact htarget
      · exact hall x hx
    · rintro ⟨hmap, hall⟩
      cases dates with
      | nil => simp at hmap
      | cons x dates =>
        rw [List.map_cons, List.cons.injEq] at hmap
        obtain ⟨rfl, hmap⟩ := hmap
        have hrest := ih.mpr ⟨hmap, fun y hy => hall y (by simp [hy])⟩
        exact ⟨x, ⟨x.2, hall x (by simp), rfl⟩, dates, hrest, rfl⟩

theorem targets_isSome (today : Date) (days : List Nat) :
    (targets today days).isSome ↔ ∀ d ∈ days, d < today.toordinal := by
  constructor
  · intro h d hd
    obtain ⟨dates, hdates⟩ := Option.isSome_iff_exists.mp h
    obtain ⟨rfl, hall⟩ := targets_eq_some.mp hdates
    obtain ⟨x, hx, rfl⟩ := List.mem_map.mp hd
    exact addDays_neg_isSome.mp (by rw [hall x hx]; rfl)
  · intro h
    have hdate : ∀ d : Nat, ∃ e, d ∈ days → addDays today (-d) = some e := by
      intro d
      by_cases hd : d ∈ days
      · obtain ⟨e, he⟩ := Option.isSome_iff_exists.mp (addDays_neg_isSome.mpr (h d hd))
        exact ⟨e, fun _ => he⟩
      · exact ⟨today, fun hmem => absurd hmem hd⟩
    choose date hdate using hdate
    have hsome : targets today days = some (days.map fun d => (d, date d)) := by
      rw [targets_eq_some]
      refine ⟨by simp [Function.comp_def], fun x hx => ?_⟩
      obtain ⟨d, hd, rfl⟩ := List.mem_map.mp hx
      exact hdate d hd
    rw [hsome]
    rfl

end Dates

/-- An overdue day that has its notice. -/
def Threshold (due today : Date) : Prop := ∃ d ∈ targetOverdueDays, addDays due d = some today

variable {param : Option String} {today : Date} {rows : List PaymentRow} {r : PaymentRow} {dates : List (Nat × Date)}

/-- The tenant has an address. -/
def PaymentRow.reachable (r : PaymentRow) : Prop := ∃ tenant, r.tenant = some tenant ∧ (given tenant.email).isSome

theorem mail_mem_notices {days id : Nat} : Notice.mail id ∈ r.notices days → r.payment.id = id := by
  rw [PaymentRow.notices]
  cases r.tenant with
  | none => simp
  | some tenant =>
    cases given tenant.email <;> cases given tenant.phone <;> simp [eq_comm]

theorem count_notices (h : r.reachable) (days : Nat) : (r.notices days).count (.mail r.payment.id) = 1 := by
  obtain ⟨tenant, htenant, hemail⟩ := h
  obtain ⟨email, hemail⟩ := Option.isSome_iff_exists.mp hemail
  rw [PaymentRow.notices, htenant]
  cases hphone : given tenant.phone <;> simp [hemail, hphone]

theorem count_overdueSince (hids : (rows.map fun r => r.payment.id).Nodup) (hr : r ∈ rows) (hreachable : r.reachable)
    (target : Date) (days : Nat) : ((rows.filter fun r => r.overdueSince target).flatMap fun r => r.notices days).count
      (.mail r.payment.id) = if r.overdueSince target then 1 else 0 := by
  have hkeys : ((rows.filter fun r => r.overdueSince target).map fun r => r.payment.id).Nodup :=
    hids.sublist (List.filter_sublist.map _)
  split
  · rename_i hoverdue
    have hmem : r ∈ rows.filter fun r => r.overdueSince target := List.mem_filter.mpr ⟨hr, hoverdue⟩
    rw [count_flatMap_of_key hkeys hmem fun b _ hne hmail => hne (mail_mem_notices hmail)]
    exact count_notices hreachable days
  · rename_i hoverdue
    rw [List.count_eq_zero]
    intro hmail
    obtain ⟨b, hb, hmail⟩ := List.mem_flatMap.mp hmail
    obtain ⟨hb, hbOverdue⟩ := List.mem_filter.mp hb
    have hsame : b = r := List.inj_on_of_nodup_map hids hb hr (mail_mem_notices hmail)
    exact hoverdue (hsame ▸ hbOverdue)

theorem alerts_eq (henabled : isEnabled param) : alerts param today rows = ((targets today targetOverdueDays).map
    fun dates => dates.flatMap fun x => (rows.filter fun r => r.overdueSince x.2).flatMap fun r => r.notices x.1).getD
      [] := by
  rw [alerts, sendOverdueAlerts, if_pos henabled]
  cases targets today targetOverdueDays with
  | none => rfl
  | some dates => simp [List.flatMap_assoc, List.flatMap_map]

/-- One run of the alerts sends one e-mail for a payment that is overdue on such a day, and
otherwise none. -/
theorem count_alerts (henabled : isEnabled param) (hids : (rows.map fun r => r.payment.id).Nodup) (hr : r ∈ rows)
    (hreachable : r.reachable) (hrent : r.payment.paymentType = .rent)
    (hthreshold : Threshold r.payment.dueDate today) :
    (alerts param today rows).count (.mail r.payment.id) =
      if 30 < today.toordinal ∧ r.payment.state = .overdue then 1 else 0 := by
  obtain ⟨d, hd, hdue⟩ := hthreshold
  have hordinal := addDays_eq_some.mp hdue
  rw [alerts_eq henabled]
  cases hdates : targets today targetOverdueDays with
  | none =>
    have hearly : ¬ 30 < today.toordinal := by
      intro hlate
      have hsome := (targets_isSome today targetOverdueDays).mpr fun d hd => by
        have hle : d ≤ 30 := by
          simp only [targetOverdueDays, List.mem_cons, List.not_mem_nil, or_false] at hd
          omega
        omega
      simp [hdates] at hsome
    rw [if_neg fun h => hearly h.1]
    rfl
  | some dates =>
    obtain ⟨hmap, hall⟩ := targets_eq_some.mp hdates
    have hlate : 30 < today.toordinal := by
      have hsome := (targets_isSome today targetOverdueDays).mp (by rw [hdates]; rfl)
      exact hsome 30 (by decide)
    have hkeys : (dates.map Prod.fst).Nodup := by
      rw [hmap]
      decide
    rw [← hmap] at hd
    obtain ⟨x, hx, rfl⟩ := List.mem_map.mp hd
    -- the date that these days lead back to is the due date, and the others are not
    have hordinals : ∀ y ∈ dates, y.2 = r.payment.dueDate → y.1 = x.1 := by
      intro y hy hdue
      have htarget := addDays_eq_some.mp (hall y hy)
      rw [hdue] at htarget
      omega
    have hdueDate : x.2 = r.payment.dueDate := by
      have htarget := addDays_eq_some.mp (hall x hx)
      exact Date.toordinal_injective (by omega)
    rw [Option.map_some, Option.getD_some, count_flatMap_of_key hkeys hx, count_overdueSince hids hr hreachable]
    · simp [PaymentRow.overdueSince, hdueDate, hrent, hlate]
    · intro y hy hne hmail
      have hpos := List.count_pos_iff.mpr hmail
      rw [count_overdueSince hids hr hreachable] at hpos
      have hoverdue : r.overdueSince y.2 := by
        by_contra hnot
        simp [hnot] at hpos
      simp only [PaymentRow.overdueSince, Bool.and_eq_true, decide_eq_true_eq] at hoverdue
      exact hne (hordinals y hy hoverdue.1.2.symm)

/-- A registration for the payment goes through. -/
def Pays (payment : Nat) (l : List (Nat × PaymentWizard)) : Prop := ∃ x ∈ l, x.1 = payment ∧ 0 < x.2.amountPaid

/-- The payment is overdue when the alerts of the day run: they run after the marking with
no registration in between, or the payment was overdue already when the day began. -/
structure Ready (p : RentPayment) (day : Day) : Prop where
  calendar : 30 < day.date.toordinal
  marked : day.marksFirst = true → ¬ Pays p.id day.middle
  standing : day.marksFirst = false → p.state = .overdue ∧ ¬ Pays p.id day.early

/-- The payment is open in every state of every day. -/
def StaysOpen (p : RentPayment) (days : List Day) : Prop :=
  Tx.EachStep Day.onPayment
    (fun p day => Tx.Always (Event.onPayment day.date) (fun p => p.awaiting) p day.events) p days

variable {p : RentPayment} {l : List (Nat × PaymentWizard)} {events : List Event} {day : Day} {o : Office}

/-- The events of a day before the alerts. -/
def Day.before (day : Day) : List Event :=
  Day.registrations day.early ++ if day.marksFirst then .markOverdue :: Day.registrations day.middle else []

theorem Day.before_prefix (day : Day) : ∃ rest, day.events = day.before ++ .sendAlerts :: rest ∧
    Event.sendAlerts ∉ day.before ∧ .sendAlerts ∉ rest := by
  have hnone : ∀ l, Event.sendAlerts ∉ Day.registrations l := by simp [Day.registrations]
  rw [Day.events, Day.before]
  cases day.marksFirst with
  | true => exact ⟨Day.registrations day.late, by simp, by simp [hnone], hnone _⟩
  | false =>
    exact ⟨Day.registrations day.middle ++ .markOverdue :: Day.registrations day.late, by simp, by simp [hnone],
      by simp [hnone]⟩

theorem after_same (today : Date) (p : RentPayment) (events : List Event) :
    (Tx.after (Event.onPayment today) p events).id = p.id ∧
      (Tx.after (Event.onPayment today) p events).dueDate = p.dueDate ∧
      (Tx.after (Event.onPayment today) p events).paymentType = p.paymentType := by
  have hsame : Tx.Always (Event.onPayment today)
      (fun q => q.id = p.id ∧ q.dueDate = p.dueDate ∧ q.paymentType = p.paymentType) p events := by
    refine Tx.always_of_step ⟨rfl, rfl, rfl⟩ fun q e h => ?_
    obtain ⟨hid, hdue, htype⟩ := e.onPayment_same today q
    exact ⟨hid.trans h.1, hdue.trans h.2.1, htype.trans h.2.2⟩
  exact hsame events List.prefix_rfl

theorem after_days_same (p : RentPayment) (days : List Day) :
    (Tx.after Day.onPayment p days).id = p.id ∧ (Tx.after Day.onPayment p days).dueDate = p.dueDate ∧
      (Tx.after Day.onPayment p days).paymentType = p.paymentType := by
  have hsame : Tx.Always Day.onPayment
      (fun q => q.id = p.id ∧ q.dueDate = p.dueDate ∧ q.paymentType = p.paymentType) p days := by
    refine Tx.always_of_step ⟨rfl, rfl, rfl⟩ fun q day h => ?_
    obtain ⟨hid, hdue, htype⟩ := after_same day.date q day.events
    exact ⟨hid.trans h.1, hdue.trans h.2.1, htype.trans h.2.2⟩
  exact hsame days List.prefix_rfl

/-- Registrations that do not go through leave the payment, and after one that does it is
overdue no more. -/
theorem after_registrations (today : Date) (p : RentPayment) (l : List (Nat × PaymentWizard)) :
    (¬ Pays p.id l → Tx.after (Event.onPayment today) p (Day.registrations l) = p) ∧
      (Pays p.id l → (Tx.after (Event.onPayment today) p (Day.registrations l)).state ≠ .overdue) := by
  induction l using List.reverseRecOn with
  | nil => exact ⟨fun _ => rfl, fun ⟨x, hx, _⟩ => absurd hx (by simp)⟩
  | append_singleton l x ih =>
    obtain ⟨hkeep, hpaid⟩ := ih
    have hid := (after_same today p (Day.registrations l)).1
    have happend : Day.registrations (l ++ [x]) = Day.registrations l ++ [.register x.1 x.2] := by
      simp [Day.registrations]
    have hpays : Pays p.id (l ++ [x]) ↔ Pays p.id l ∨ x.1 = p.id ∧ 0 < x.2.amountPaid := by
      simp [Pays, or_and_right, exists_or]
    rw [happend, Tx.after_concat, hpays, Event.onPayment, hid]
    by_cases hx : p.id = x.1 ∧ 0 < x.2.amountPaid
    · obtain ⟨hx, hpos⟩ := hx
      refine ⟨fun h => absurd (.inr ⟨hx.symm, hpos⟩) h, fun _ => ?_⟩
      rw [if_pos hx]
      cases hregister : (Tx.after (Event.onPayment today) p (Day.registrations l)).register x.2 with
      | error e => exact absurd (register_error_iff.mp ⟨e, hregister⟩) (not_le_of_gt hpos)
      | ok p' =>
        obtain ⟨-, -, -, -, hstate, -⟩ := register_ok hregister
        have hnot : p'.state ≠ .overdue := by
          rw [hstate]
          split <;> simp
        exact hnot
    · have hsame : (if p.id = x.1 then ((Tx.after (Event.onPayment today) p (Day.registrations l)).register
          x.2).toOption.getD (Tx.after (Event.onPayment today) p (Day.registrations l)) else
            Tx.after (Event.onPayment today) p (Day.registrations l)) =
          Tx.after (Event.onPayment today) p (Day.registrations l) := by
        split
        · rename_i hx'
          have hnone : x.2.amountPaid ≤ 0 := not_lt.mp fun hpos => hx ⟨hx', hpos⟩
          obtain ⟨e, he⟩ := register_error_iff (p := Tx.after (Event.onPayment today) p (Day.registrations l)).mpr hnone
          rw [he]
          rfl
        · rfl
      rw [hsame]
      refine ⟨fun h => hkeep fun hl => h (.inl hl), fun h => ?_⟩
      rcases h with hl | ⟨hx', hpos⟩
      · exact hpaid hl
      · exact absurd ⟨hx'.symm, hpos⟩ hx

theorem overdue_before_iff (hlate : p.dueDate < day.date)
    (hopen : Tx.Always (Event.onPayment day.date) (fun p => p.awaiting) p day.events) :
    (Tx.after (Event.onPayment day.date) p day.before).state = .overdue ↔
      (day.marksFirst = true → ¬ Pays p.id day.middle) ∧
      (day.marksFirst = false → p.state = .overdue ∧ ¬ Pays p.id day.early) := by
  obtain ⟨hid, hdue, -⟩ := after_same day.date p (Day.registrations day.early)
  cases hfirst : day.marksFirst with
  | true =>
    have hbefore : day.before = Day.registrations day.early ++ (.markOverdue :: Day.registrations day.middle) := by
      simp [Day.before, hfirst]
    have hprefix : Day.registrations day.early <+: day.events := List.prefix_append _ _
    have hawaiting := hopen _ hprefix
    have hmarked : Tx.after (Event.onPayment day.date) p day.before = Tx.after (Event.onPayment day.date)
        ((Tx.after (Event.onPayment day.date) p (Day.registrations day.early)).markOverdue day.date)
        (Day.registrations day.middle) := by
      rw [hbefore, Tx.after_append]
      rfl
    generalize Tx.after (Event.onPayment day.date) p (Day.registrations day.early) = q at *
    have hoverdue : (q.markOverdue day.date).state = .overdue := by
      rw [RentPayment.markOverdue]
      rw [RentPayment.awaiting_iff] at hawaiting
      rw [← hdue] at hlate
      cases hstate : q.state <;> simp_all
    have hmarkedId : (q.markOverdue day.date).id = p.id :=
      (Event.onPayment_same day.date q .markOverdue).1.trans hid
    obtain ⟨hkeep, hpaid⟩ := after_registrations day.date (q.markOverdue day.date) day.middle
    rw [hmarkedId] at hkeep hpaid
    rw [hmarked]
    constructor
    · intro hstate
      exact ⟨fun _ hpays => hpaid hpays hstate, fun h => absurd h (by simp)⟩
    · rintro ⟨hnot, -⟩
      rw [hkeep (hnot rfl)]
      exact hoverdue
  | false =>
    have hbefore : day.before = Day.registrations day.early := by simp [Day.before, hfirst]
    obtain ⟨hkeep, hpaid⟩ := after_registrations day.date p day.early
    rw [hbefore]
    constructor
    · intro hstate
      have hnot : ¬ Pays p.id day.early := fun hpays => hpaid hpays hstate
      rw [hkeep hnot] at hstate
      exact ⟨fun h => absurd h (by simp), fun _ => ⟨hstate, hnot⟩⟩
    · rintro ⟨-, hstanding⟩
      obtain ⟨hstate, hnot⟩ := hstanding rfl
      rw [hkeep hnot]
      exact hstate

namespace Office

theorem after_rows (today : Date) (o : Office) (events : List Event) : (Tx.after (act today) o events).param = o.param ∧
    (Tx.after (act today) o events).rows =
      o.rows.map fun r => { r with payment := Tx.after (Event.onPayment today) r.payment events } := by
  induction events using List.reverseRecOn with
  | nil => exact ⟨rfl, by simp⟩
  | append_singleton events e ih =>
    obtain ⟨hparam, hrows⟩ := ih
    rw [Tx.after_concat]
    refine ⟨hparam, ?_⟩
    rw [act_rows, hrows, List.map_map]
    refine List.map_congr_left fun r _ => ?_
    rw [Tx.after_concat]
    rfl

theorem after_outbox (o : Office) (hnone : .sendAlerts ∉ events) :
    (Tx.after (act today) o events).outbox = o.outbox := by
  have hsent : ∀ (o : Office) (e : Event), e ≠ .sendAlerts → o.sent today e = [] := by
    intro o e he
    cases e with
    | sendAlerts => exact absurd rfl he
    | register payment wizard => rfl
    | markOverdue => rfl
  have hallowed : Tx.EachStep (act today) (fun _ e => e ≠ .sendAlerts) o events :=
    Tx.eachStep_of_forall fun e he hsends => hnone (hsends ▸ he)
  have hsame : Tx.Always (act today) (fun o' => o'.outbox = o.outbox) o events := by
    refine Tx.always_of_allowed rfl (fun o' e h he => ?_) hallowed
    rw [act_outbox, hsent o' e he, h]
    simp
  exact hsame events List.prefix_rfl

/-- The rows when the alerts of the day run. -/
def rowsBefore (o : Office) (day : Day) : List PaymentRow :=
  o.rows.map fun r => { r with payment := Tx.after (Event.onPayment day.date) r.payment day.before }

theorem day_outbox (o : Office) (day : Day) : (o.day day).outbox =
    o.outbox ++ (alerts o.param day.date (o.rowsBefore day)).map fun notice => (day.date, notice) := by
  obtain ⟨rest, hevents, hbefore, hrest⟩ := day.before_prefix
  obtain ⟨hparam, hrows⟩ := after_rows day.date o day.before
  have hlist : day.events = (day.before ++ [.sendAlerts]) ++ rest := by simp [hevents]
  rw [Office.day, hlist, Tx.after_append, after_outbox _ hrest, Tx.after_concat, act_outbox,
    after_outbox _ hbefore, sent, hparam, hrows]
  rfl

theorem after_days (o : Office) (days : List Day) : (Tx.after Office.day o days).param = o.param ∧
    (Tx.after Office.day o days).rows =
      o.rows.map fun r => { r with payment := Tx.after Day.onPayment r.payment days } := by
  induction days using List.reverseRecOn with
  | nil => exact ⟨rfl, by simp⟩
  | append_singleton days day ih =>
    obtain ⟨hparam, hrows⟩ := ih
    obtain ⟨hparam', hrows'⟩ := after_rows day.date (Tx.after Office.day o days) day.events
    rw [Tx.after_concat]
    refine ⟨hparam'.trans hparam, ?_⟩
    rw [Office.day, hrows', hrows, List.map_map]
    refine List.map_congr_left fun r _ => ?_
    rw [Tx.after_concat]
    rfl

theorem count_other_days (o : Office) {days : List Day} {date : Date} (hother : ∀ day ∈ days, day.date ≠ date)
    (notice : Notice) : (Tx.after Office.day o days).outbox.count (date, notice) = o.outbox.count (date, notice) := by
  have hsame : Tx.Always Office.day
      (fun o' => o'.outbox.count (date, notice) = o.outbox.count (date, notice)) o days := by
    refine Tx.always_of_allowed rfl (fun o' day h hne => ?_) (Tx.eachStep_of_forall hother)
    have hnone : (date, notice) ∉ (alerts o'.param day.date (o'.rowsBefore day)).map fun notice => (day.date,
      notice) := by
      intro hmem
      obtain ⟨n, -, heq⟩ := List.mem_map.mp hmem
      exact hne (congrArg Prod.fst heq)
    rw [day_outbox, List.count_append, List.count_eq_zero.mpr hnone, Nat.add_zero]
    exact h
  exact hsame days List.prefix_rfl

/-- On an overdue day that is to have its notice, there is one just when the payment is
ready. -/
theorem count_day (o : Office) (day : Day) (henabled : isEnabled o.param) (hr : r ∈ o.rows) (hreachable : r.reachable)
    (hrent : r.payment.paymentType = .rent) (hthreshold : Threshold r.payment.dueDate day.date)
    (hopen : Tx.Always (Event.onPayment day.date) (fun p => p.awaiting) r.payment day.events) :
    (alerts o.param day.date (o.rowsBefore day)).count (.mail r.payment.id) = 1 ↔ Ready r.payment day := by
  obtain ⟨hid, hdue, htype⟩ := after_same day.date r.payment day.before
  have hmem : { r with payment := Tx.after (Event.onPayment day.date) r.payment day.before } ∈ o.rowsBefore day :=
    List.mem_map_of_mem hr
  have hids : ((o.rowsBefore day).map fun r => r.payment.id).Nodup := by
    have hsame := (after_rows day.date o day.before).2
    rw [rowsBefore, ← hsame]
    exact (Tx.after (act day.date) o day.before).ids_nodup
  have hcount := count_alerts henabled hids hmem hreachable (htype.trans hrent) (hdue.symm ▸ hthreshold)
  have hlate : r.payment.dueDate < day.date := by
    obtain ⟨d, hd, hdate⟩ := hthreshold
    have hordinal := addDays_eq_some.mp hdate
    have hpos : 0 < d := by
      simp only [targetOverdueDays, List.mem_cons, List.not_mem_nil, or_false] at hd
      omega
    show r.payment.dueDate.toordinal < day.date.toordinal
    omega
  have hoverdue := overdue_before_iff hlate hopen
  simp only [hid] at hcount
  rw [hcount]
  constructor
  · intro h
    split at h
    · rename_i hready
      obtain ⟨hmarked, hstanding⟩ := hoverdue.mp hready.2
      exact ⟨hready.1, hmarked, hstanding⟩
    · cases h
  · intro h
    rw [if_pos ⟨h.calendar, hoverdue.mpr ⟨h.marked, h.standing⟩⟩]

end Office

theorem Schedule.chronological (schedule : Schedule) :
    schedule.days.Pairwise fun day next => day.date.toordinal < next.date.toordinal := by
  have hchain : schedule.days.IsChain fun day next => day.date.toordinal < next.date.toordinal :=
    schedule.consecutive.imp fun day next h => by
      have hnext := tomorrow_toordinal h
      omega
  exact List.isChain_iff_pairwise.mp hchain

/-- The tenant has exactly one notice on each of the overdue days 1, 7, 14 and 30 of a
schedule just when the payment is ready on each of these days. -/
theorem overdue_noticed_once_iff {o : Office} (hnew : o.outbox = []) (henabled : isEnabled o.param) (hr : r ∈ o.rows)
    (hreachable : r.reachable) (hrent : r.payment.paymentType = .rent) (schedule : Schedule)
    (hopen : StaysOpen r.payment schedule.days) :
    (∀ day ∈ schedule.days, Threshold r.payment.dueDate day.date →
      (Tx.after Office.day o schedule.days).outbox.count (day.date, .mail r.payment.id) = 1) ↔
    Tx.EachStep Day.onPayment (fun p day => Threshold p.dueDate day.date → Ready p day) r.payment schedule.days := by
  -- the notices of one day of the schedule are those of its alerts
  have hcount : ∀ before day rest, schedule.days = before ++ day :: rest → Threshold r.payment.dueDate day.date →
      ((Tx.after Office.day o schedule.days).outbox.count (day.date, .mail r.payment.id) = 1 ↔
        Ready (Tx.after Day.onPayment r.payment before) day) := by
    intro before day rest hdays hthreshold
    have hdates := schedule.chronological
    rw [hdays] at hdates
    obtain ⟨-, hafter, hearlier⟩ := List.pairwise_append.mp hdates
    rw [List.pairwise_cons] at hafter
    have hbeforeDates : ∀ d ∈ before, d.date ≠ day.date := by
      intro d hd heq
      have hlt := hearlier d hd day List.mem_cons_self
      rw [heq] at hlt
      exact lt_irrefl _ hlt
    have hrestDates : ∀ d ∈ rest, d.date ≠ day.date := by
      intro d hd heq
      have hlt := hafter.1 d hd
      rw [heq] at hlt
      exact lt_irrefl _ hlt
    obtain ⟨hparam, hrows⟩ := o.after_days before
    obtain ⟨hid, hdue, htype⟩ := after_days_same r.payment before
    have hmem : { r with payment := Tx.after Day.onPayment r.payment before } ∈
        (Tx.after Office.day o before).rows := by
      rw [hrows]
      exact List.mem_map_of_mem hr
    have hday := Office.count_day (Tx.after Office.day o before) day (hparam.symm ▸ henabled) hmem hreachable
      (htype.trans hrent) (hdue.symm ▸ hthreshold) (hopen before day (by simp [hdays]))
    simp only [hid] at hday
    have hlist : schedule.days = (before ++ [day]) ++ rest := by simp [hdays]
    rw [hlist, Tx.after_append, Office.count_other_days _ hrestDates, Tx.after_concat, Office.day_outbox,
      List.count_append, Office.count_other_days _ hbeforeDates, hnew, List.count_nil, Nat.zero_add,
      List.count_map_of_injective _ _ (Prod.mk_right_injective day.date)]
    exact hday
  constructor
  · intro h before day hprefix hthreshold
    obtain ⟨rest, hdays⟩ := hprefix
    have hdays : schedule.days = before ++ day :: rest := by simpa using hdays.symm
    rw [(after_days_same r.payment before).2.1] at hthreshold
    exact (hcount before day rest hdays hthreshold).mp (h day (by simp [hdays]) hthreshold)
  · intro h day hday hthreshold
    obtain ⟨before, rest, hdays⟩ := List.append_of_mem hday
    have hready : Threshold (Tx.after Day.onPayment r.payment before).dueDate day.date →
        Ready (Tx.after Day.onPayment r.payment before) day := h before day (by simp [hdays])
    rw [(after_days_same r.payment before).2.1] at hready
    exact (hcount before day rest hdays hthreshold).mpr (hready hthreshold)

/-- A day without registrations. -/
def quiet (date : Date) (marksFirst : Bool) : Day := ⟨date, marksFirst, [], [], []⟩

theorem staysOpen_of_quiet (hp : p.awaiting) {days : List Day}
    (hquiet : ∀ day ∈ days, day = quiet day.date day.marksFirst) : StaysOpen p days := by
  have hstep : ∀ (today : Date) (p : RentPayment) (e : Event), p.awaiting →
      (∀ payment wizard, e ≠ .register payment wizard) → (e.onPayment today p).awaiting := by
    intro today p e hp he
    cases e with
    | register payment wizard => exact absurd rfl (he payment wizard)
    | markOverdue =>
      obtain ⟨-, -, hpaid, hcancelled⟩ := p.markOverdue_frame today
      rw [RentPayment.awaiting_iff] at hp ⊢
      exact ⟨hpaid.not.mpr hp.1, hcancelled.not.mpr hp.2⟩
    | sendAlerts => exact hp
  have hday : ∀ (p : RentPayment) (day : Day), p.awaiting → day = quiet day.date day.marksFirst →
      Tx.Always (Event.onPayment day.date) (fun p => p.awaiting) p day.events := by
    intro p day hp hquiet
    have hfree : Tx.EachStep (Event.onPayment day.date) (fun _ e => ∀ payment wizard, e ≠ .register payment wizard) p
        day.events := by
      refine Tx.eachStep_of_forall fun e hmem payment wizard he => ?_
      rw [he, hquiet] at hmem
      cases hfirst : day.marksFirst <;> simp [quiet, Day.events, Day.registrations, hfirst] at hmem
    exact Tx.always_of_allowed hp (fun p e hp he => hstep day.date p e hp he) hfree
  have hopen : Tx.Always Day.onPayment (fun p => p.awaiting) p days :=
    Tx.always_of_allowed hp (fun p day hp hquiet => hday p day hp hquiet _ List.prefix_rfl)
      (Tx.eachStep_of_forall hquiet)
  intro before day hprefix
  have hbefore := hopen before ((List.prefix_append before [day]).trans hprefix)
  have hmem : day ∈ days := hprefix.subset (by simp)
  exact hday _ day hbefore (hquiet day hmem)

theorem newYear_consecutive (marksFirst : Bool) : [quiet Date.nextJanuary1 marksFirst, quiet Date.nextJanuary2
    marksFirst].IsChain fun day next => tomorrow day.date = some next.date := by
  have hnext : tomorrow Date.nextJanuary1 = some Date.nextJanuary2 := tomorrow_eq_some.mpr (by decide)
  simp [quiet, hnext]

/-- The due date and the first overdue day. -/
def newYear (marksFirst : Bool) : Schedule where
  days := [quiet Date.nextJanuary1 marksFirst, quiet Date.nextJanuary2 marksFirst]
  consecutive := newYear_consecutive marksFirst

def newYearRent : PaymentRow where
  payment := { id := 1, name := "RENT/1", dueDate := Date.nextJanuary1, amount := 100 }
  tenant := some ⟨some "tenant@example.com", none⟩

def newYearOffice : Office where
  param := none
  rows := [newYearRent]
  ids_nodup := List.nodup_singleton 1
  outbox := []

theorem newYearRent_reachable : newYearRent.reachable := ⟨_, rfl, by decide⟩

theorem newYear_open (marksFirst : Bool) : StaysOpen newYearRent.payment (newYear marksFirst).days := by
  apply staysOpen_of_quiet
  · decide
  · intro day hday
    simp only [newYear, List.mem_cons, List.not_mem_nil, or_false] at hday
    rcases hday with rfl | rfl <;> rfl

theorem overdue_noticed_once_newYear :
    (∀ day ∈ (newYear true).days, Threshold newYearRent.payment.dueDate day.date →
      (Tx.after Office.day newYearOffice (newYear true).days).outbox.count
        (day.date, .mail newYearRent.payment.id) = 1) ↔
    Tx.EachStep Day.onPayment (fun p day => Threshold p.dueDate day.date → Ready p day) newYearRent.payment
      (newYear true).days :=
  overdue_noticed_once_iff (o := newYearOffice) rfl (by decide) List.mem_cons_self newYearRent_reachable rfl
    (newYear true) (newYear_open true)

/-- The alerts run before the payment is marked. -/
theorem first_notice_missed : ¬ ∀ (o : Office), o.outbox = [] → isEnabled o.param → ∀ r ∈ o.rows, r.reachable →
    r.payment.paymentType = .rent → ∀ schedule : Schedule, StaysOpen r.payment schedule.days →
      ∀ day ∈ schedule.days, Threshold r.payment.dueDate day.date →
        (Tx.after Office.day o schedule.days).outbox.count (day.date, .mail r.payment.id) = 1 := by
  intro hall
  have hthreshold : Threshold newYearRent.payment.dueDate (quiet Date.nextJanuary2 false).date :=
    ⟨1, by decide, addDays_eq_some.mpr (by decide)⟩
  have hone := hall newYearOffice rfl (by decide) newYearRent List.mem_cons_self newYearRent_reachable rfl
    (newYear false) (newYear_open false) (quiet Date.nextJanuary2 false) (by simp [newYear]) hthreshold
  revert hone
  decide

end Notifications
