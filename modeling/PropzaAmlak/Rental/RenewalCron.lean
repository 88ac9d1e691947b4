import PropzaAmlak.Rental.LeaseTerms
import PropzaAmlak.Tx.Histories

/-! The daily renewal of all due tenancies. What a tenancy that fails leaves
behind depends on how far its renewal has come. -/

namespace Rental

theorem renewalEndDate_lt_iff {startDate endDate : Date} {period : Int}
    (h : renewalEndDate startDate period = some endDate) : endDate < startDate ↔ period ≤ 0 := by
  obtain ⟨shifted, hshifted, hyesterday⟩ := Option.bind_eq_some_iff.mp h
  have hindex := (Date.addMonths_eq_some.mp hshifted).1
  have hordinal := Date.yesterday_toordinal hyesterday
  change endDate.toordinal < startDate.toordinal ↔ period ≤ 0
  by_cases hzero : period = 0
  · rw [hzero, Date.addMonths_zero] at hshifted
    obtain rfl := Option.some.inj hshifted
    omega
  by_cases hneg : period < 0
  · have hbefore : shifted.toordinal < startDate.toordinal := Date.lt_of_index_lt (by omega)
    omega
  · have hafter : startDate.toordinal < shifted.toordinal := Date.lt_of_index_lt (by omega)
    omega

theorem TenancyRecord.build_lt_iff {t : TenancyRecord} {frozen : Bool} {today : Date} {vals : RenewalVals}
    (h : t.build frozen today {} = some vals) : vals.endDate < vals.startDate ↔ t.renewalPeriodMonths < 0 := by
  have hend := buildRenewalVals_endDate h
  have hduration : vals.duration = renewalPeriod (t.terms frozen) 0 := by
    obtain ⟨startDate, -, h⟩ := Option.bind_eq_some_iff.mp h
    obtain ⟨endDate, -, rfl⟩ := Option.map_eq_some_iff.mp h
    rfl
  have hperiod : vals.duration = if t.renewalPeriodMonths ≠ 0 then t.renewalPeriodMonths else 12 := hduration
  by_cases hzero : t.renewalPeriodMonths = 0
  · rw [if_neg (not_not.mpr hzero)] at hperiod
    have hiff := renewalEndDate_lt_iff hend
    rw [hiff]
    omega
  · rw [if_pos hzero] at hperiod
    have hiff := renewalEndDate_lt_iff hend
    rw [hiff]
    omega

namespace RenewalStore

variable {s : RenewalStore} {today : Date} {failures : Nat → Option FailurePoint}
  {failure : Option FailurePoint} {i k : Nat} {t t' : TenancyRecord} {ids : List Nat}

/-- The renewal raises before it has written anything. -/
def stops (s : RenewalStore) (today : Date) (failure : Option FailurePoint) (t : TenancyRecord) : Bool :=
  (t.build (s.frozen t.property) today {}).isNone || failure = some .beforeInsert

/-- Nothing raises once the new row is there. -/
def completes (s : RenewalStore) (failure : Option FailurePoint) (t : TenancyRecord) : Bool :=
  failure = none && decide (0 ≤ t.renewalPeriodMonths) &&
    !(s.frozen t.property && decide (0 < t.renewalRentIncreasePct))

theorem completes_iff : s.completes failure t ↔
    failure = none ∧ 0 ≤ t.renewalPeriodMonths ∧ ¬ (s.frozen t.property ∧ 0 < t.renewalRentIncreasePct) := by
  simp only [completes, Bool.and_eq_true, Bool.not_eq_true', Bool.and_eq_false_iff, decide_eq_true_eq,
    decide_eq_false_iff_not, and_assoc, not_and]
  cases s.frozen t.property
  all_goals simp

theorem doRenewal_stops (hrenewed : t.renewedTo = none) (h : s.stops today failure t) :
    ∃ e, s.doRenewal i t today {} failure = (s, .error e) := by
  unfold doRenewal
  rw [if_neg (by simp [hrenewed])]
  cases hbuild : t.build (s.frozen t.property) today {} with
  | none => exact ⟨_, rfl⟩
  | some vals =>
    have hbefore : failure = some .beforeInsert := by simpa [stops, hbuild] using h
    exact ⟨.failed, by simp [hbefore]⟩

/-- A renewal that does not stop writes the new row, and what it writes further
and returns depends on whether it completes. -/
theorem doRenewal_inserts (hrenewed : t.renewedTo = none) (h : ¬ s.stops today failure t) :
    ∃ vals, t.build (s.frozen t.property) today {} = some vals ∧
      ((s.completes failure t ∧ s.doRenewal i t today {} failure =
          ((s.insert (t.successor i vals)).link i t s.tenancies.length, .ok s.tenancies.length)) ∨
        (¬ s.completes failure t ∧ ∃ e, s.doRenewal i t today {} failure =
          (s.insert (t.successor i vals), .error e)) ∨
        (failure = some .afterLink ∧ ∃ e, s.doRenewal i t today {} failure =
          ((s.insert (t.successor i vals)).link i t s.tenancies.length, .error e))) := by
  rw [stops, Bool.or_eq_true, not_or, Bool.not_eq_true, decide_eq_true_eq] at h
  obtain ⟨hsome, hbefore⟩ := h
  cases hbuild : t.build (s.frozen t.property) today {} with
  | none => simp [hbuild] at hsome
  | some vals =>
    have hdates := TenancyRecord.build_lt_iff hbuild
    refine ⟨vals, rfl, ?_⟩
    unfold doRenewal
    simp only [hrenewed, Option.isSome_none, Bool.false_eq_true, if_false, hbuild, hbefore, check_successor]
    rw [completes_iff]
    by_cases hneg : vals.endDate < vals.startDate
    · right
      left
      have hperiod := hdates.mp hneg
      exact ⟨fun hcomplete => absurd hcomplete.2.1 (by omega), .dates, by simp [hneg]⟩
    have hperiod : 0 ≤ t.renewalPeriodMonths := by
      have hnot := mt hdates.mpr hneg
      omega
    by_cases hfreeze : s.frozen t.property ∧ 0 < t.renewalRentIncreasePct
    · right
      left
      exact ⟨fun hcomplete => hcomplete.2.2 hfreeze, .rentFreeze, by simp [hneg, hfreeze]⟩
    cases failure with
    | none =>
      left
      exact ⟨⟨rfl, hperiod, hfreeze⟩, by simp [hneg, hfreeze]⟩
    | some point =>
      right
      cases point with
      | beforeInsert => exact absurd rfl hbefore
      | afterInsert =>
        left
        exact ⟨fun hcomplete => (by cases hcomplete.1), .failed, by simp [hneg, hfreeze]⟩
      | afterLink =>
        right
        exact ⟨rfl, .failed, by simp [hneg, hfreeze]⟩

theorem insert_before {t' : TenancyRecord} (ht : s.tenancies[k]? = some t) : (s.insert t').tenancies[k]? = some t := by
  obtain ⟨hk, -⟩ := List.getElem?_eq_some_iff.mp ht
  rwa [insert, List.getElem?_append_left hk]

theorem link_other {id : Nat} (hk : k ≠ i) : (s.link i t id).tenancies[k]? = s.tenancies[k]? := by
  rw [link, List.getElem?_set_ne hk.symm]

/-- The tenancy is there, and not renewed. -/
def Open (s : RenewalStore) (i : Nat) : Prop := ∃ t, s.tenancies[i]? = some t ∧ t.renewedTo = none

theorem autoRenew_eq (ht : s.tenancies[i]? = some t) :
    autoRenew today failures s i = (s.doRenewal i t today {} (failures i)).1 := by
  rw [autoRenew, ht]

theorem autoRenew_cases (today : Date) (failures : Nat → Option FailurePoint)
    (ht : s.tenancies[i]? = some t) (hrenewed : t.renewedTo = none) :
    (s.stops today (failures i) t ∧ autoRenew today failures s i = s) ∨
    (¬ s.stops today (failures i) t ∧ ∃ vals, t.build (s.frozen t.property) today {} = some vals ∧
      (((s.completes (failures i) t ∨ failures i = some .afterLink) ∧
          autoRenew today failures s i = (s.insert (t.successor i vals)).link i t s.tenancies.length) ∨
        (¬ s.completes (failures i) t ∧ autoRenew today failures s i = s.insert (t.successor i vals)))) := by
  rw [autoRenew_eq ht]
  by_cases hstops : s.stops today (failures i) t
  · obtain ⟨e, he⟩ := doRenewal_stops hrenewed hstops (i := i)
    left
    exact ⟨hstops, by rw [he]⟩
  · obtain ⟨vals, hbuild, hmade⟩ := doRenewal_inserts hrenewed hstops (i := i)
    right
    refine ⟨hstops, vals, hbuild, ?_⟩
    rcases hmade with ⟨hdone, hmade⟩ | ⟨hbroken, e, hmade⟩ | ⟨hlate, e, hmade⟩
    · exact Or.inl ⟨Or.inl hdone, by rw [hmade]⟩
    · exact Or.inr ⟨hbroken, by rw [hmade]⟩
    · exact Or.inl ⟨Or.inr hlate, by rw [hmade]⟩

theorem autoRenew_frame (today : Date) (failures : Nat → Option FailurePoint)
    (hopen : s.Open i) (hk : k ≠ i) (ht : s.tenancies[k]? = some t) :
    (autoRenew today failures s i).tenancies[k]? = some t := by
  obtain ⟨t', ht', hrenewed⟩ := hopen
  rcases autoRenew_cases today failures ht' hrenewed with ⟨-, hmade⟩ | ⟨-, vals, -, ⟨-, hmade⟩ | ⟨-, hmade⟩⟩
  · rwa [hmade]
  · rw [hmade, link_other hk]
    exact insert_before ht
  · rw [hmade]
    exact insert_before ht

theorem autoRenew_frozen (today : Date) (failures : Nat → Option FailurePoint)
    (hopen : s.Open i) : (autoRenew today failures s i).frozen = s.frozen := by
  obtain ⟨t, ht, hrenewed⟩ := hopen
  rcases autoRenew_cases today failures ht hrenewed with ⟨-, hmade⟩ | ⟨-, vals, -, ⟨-, hmade⟩ | ⟨-, hmade⟩⟩
  all_goals rw [hmade]
  all_goals rfl

theorem autoRenew_open (today : Date) (failures : Nat → Option FailurePoint)
    (hopen : s.Open i) (hk : k ≠ i) (h : s.Open k) : (autoRenew today failures s i).Open k := by
  obtain ⟨t, ht, hrenewed⟩ := h
  exact ⟨t, autoRenew_frame today failures hopen hk ht, hrenewed⟩

/-- The renewal of the tenancy writes a row. -/
def inserts (s : RenewalStore) (today : Date) (failures : Nat → Option FailurePoint) (i : Nat) : Bool :=
  s.tenancies[i]?.any fun t => !s.stops today (failures i) t

/-- The renewal of the tenancy raises nothing. -/
def renews (s : RenewalStore) (today : Date) (failures : Nat → Option FailurePoint) (i : Nat) : Bool :=
  s.tenancies[i]?.any fun t => (s.doRenewal i t today {} (failures i)).2.isOk

theorem renews_iff (ht : s.tenancies[i]? = some t) (hrenewed : t.renewedTo = none) : s.renews today failures i ↔
    ¬ s.stops today (failures i) t ∧ s.completes (failures i) t := by
  rw [renews, ht, Option.any_some]
  by_cases hstops : s.stops today (failures i) t
  · obtain ⟨e, he⟩ := doRenewal_stops hrenewed hstops (i := i)
    simp [he, hstops, Except.isOk, Except.toBool]
  · obtain ⟨vals, -, hmade⟩ := doRenewal_inserts hrenewed hstops (i := i)
    rcases hmade with ⟨hdone, hmade⟩ | ⟨hbroken, e, hmade⟩ | ⟨hlate, e, hmade⟩
    · simp [hmade, hstops, hdone, Except.isOk, Except.toBool]
    · simp [hmade, hbroken, Except.isOk, Except.toBool]
    · have hbroken : ¬ s.completes (failures i) t := by simp [completes, hlate]
      simp [hmade, hbroken, Except.isOk, Except.toBool]

theorem inserts_iff (ht : s.tenancies[i]? = some t) : s.inserts today failures i ↔
    ¬ s.stops today (failures i) t := by
  rw [inserts, ht, Option.any_some, Bool.not_eq_true', Bool.not_eq_true]

/-- Nothing that decides on the renewal of another tenancy changes in a turn. -/
theorem autoRenew_renews (hi : s.Open i) (hki : k ≠ i) (hk : s.Open k) :
    (autoRenew today failures s i).renews today failures k = s.renews today failures k := by
  obtain ⟨t, ht, hrenewed⟩ := hk
  have hfrozen := autoRenew_frozen today failures hi
  rw [Bool.eq_iff_iff, renews_iff (autoRenew_frame today failures hi hki ht) hrenewed, renews_iff ht hrenewed]
  simp only [stops, completes, hfrozen]

theorem autoRenew_inserts (hi : s.Open i) (hki : k ≠ i) (hk : s.Open k) :
    (autoRenew today failures s i).inserts today failures k = s.inserts today failures k := by
  obtain ⟨t, ht, -⟩ := hk
  have hfrozen := autoRenew_frozen today failures hi
  rw [Bool.eq_iff_iff, inserts_iff (autoRenew_frame today failures hi hki ht), inserts_iff ht]
  simp only [stops, hfrozen]

theorem autoRenew_length (hi : s.Open i) : (autoRenew today failures s i).tenancies.length =
    s.tenancies.length + if s.inserts today failures i then 1 else 0 := by
  obtain ⟨t, ht, hrenewed⟩ := hi
  rcases autoRenew_cases today failures ht hrenewed with
    ⟨hstops, hmade⟩ | ⟨hstops, vals, -, ⟨-, hmade⟩ | ⟨-, hmade⟩⟩
  · rw [hmade, if_neg (by rw [inserts_iff ht]; exact not_not.mpr hstops), Nat.add_zero]
  · rw [hmade, if_pos ((inserts_iff ht).mpr hstops)]
    simp [insert, link]
  · rw [hmade, if_pos ((inserts_iff ht).mpr hstops)]
    simp [insert]

/-- The rest of a batch of open tenancies without repetitions is one after a turn. -/
theorem autoRenew_batch (today : Date) (failures : Nat → Option FailurePoint)
    (hnodup : (i :: ids).Nodup) (hopen : ∀ k ∈ i :: ids, s.Open k) :
    ids.Nodup ∧ (∀ k ∈ ids, (autoRenew today failures s i).Open k) ∧ ∀ k ∈ ids, k ≠ i ∧ s.Open k := by
  obtain ⟨hi, hids⟩ := List.nodup_cons.mp hnodup
  have hother : ∀ k ∈ ids, k ≠ i := by
    intro k hk heq
    exact hi (heq ▸ hk)
  refine ⟨hids, ?_, fun k hk => ⟨hother k hk, hopen k (List.mem_cons_of_mem i hk)⟩⟩
  intro k hk
  exact autoRenew_open today failures (hopen i List.mem_cons_self) (hother k hk) (hopen k (List.mem_cons_of_mem i hk))

theorem renewAll_cons : s.renewAll today failures (i :: ids) =
    (autoRenew today failures s i).renewAll today failures ids := rfl

theorem renewAll_length (today : Date) (failures : Nat → Option FailurePoint)
    (hnodup : ids.Nodup) (hopen : ∀ i ∈ ids, s.Open i) :
    (s.renewAll today failures ids).tenancies.length =
      s.tenancies.length + ids.countP (s.inserts today failures) := by
  induction ids generalizing s with
  | nil => rfl
  | cons i ids ih =>
    have hi := hopen i List.mem_cons_self
    obtain ⟨hids, hrest, hother⟩ := autoRenew_batch today failures hnodup hopen
    have hsame : ids.countP ((autoRenew today failures s i).inserts today failures) =
        ids.countP (s.inserts today failures) := by
      apply List.countP_congr
      intro k hk
      rw [autoRenew_inserts hi (hother k hk).1 (hother k hk).2]
    rw [renewAll_cons, ih hids hrest, hsame, autoRenew_length hi, List.countP_cons]
    omega

theorem renewAll_frame (today : Date) (failures : Nat → Option FailurePoint)
    (hnodup : ids.Nodup) (hopen : ∀ i ∈ ids, s.Open i) (hk : k ∉ ids)
    (ht : s.tenancies[k]? = some t) : (s.renewAll today failures ids).tenancies[k]? = some t := by
  induction ids generalizing s with
  | nil => exact ht
  | cons i ids ih =>
    obtain ⟨hids, hrest, -⟩ := autoRenew_batch today failures hnodup hopen
    have hki : k ≠ i := fun heq => hk (heq ▸ List.mem_cons_self)
    have hturn := autoRenew_frame today failures (hopen i List.mem_cons_self) hki ht
    exact ih hids hrest (fun hmem => hk (List.mem_cons_of_mem i hmem)) hturn

theorem autoRenew_clean (ht : s.tenancies[i]? = some t) (hrenewed : t.renewedTo = none)
    (hclean : s.inserts today failures i → s.renews today failures i) :
    (¬ s.renews today failures i ∧ autoRenew today failures s i = s) ∨
    (s.renews today failures i ∧ ∃ vals, t.build (s.frozen t.property) today {} = some vals ∧
      autoRenew today failures s i = (s.insert (t.successor i vals)).link i t s.tenancies.length) := by
  rcases autoRenew_cases today failures ht hrenewed with
    ⟨hstops, hmade⟩ | ⟨hstops, vals, hbuild, hmade⟩
  · left
    exact ⟨fun hdone => ((renews_iff ht hrenewed).mp hdone).1 hstops, hmade⟩
  · have hdone := hclean ((inserts_iff ht).mpr hstops)
    right
    refine ⟨hdone, vals, hbuild, ?_⟩
    rcases hmade with ⟨-, hmade⟩ | ⟨hbroken, -⟩
    · exact hmade
    · exact absurd ((renews_iff ht hrenewed).mp hdone).2 hbroken

/-- Without a tenancy that has written its row and raises, the failing ones can be left out. -/
theorem renewAll_filter (hnodup : ids.Nodup) (hopen : ∀ i ∈ ids, s.Open i)
    (hclean : ∀ i ∈ ids, s.inserts today failures i → s.renews today failures i) :
    s.renewAll today failures ids = s.renewAll today failures (ids.filter (s.renews today failures)) := by
  induction ids generalizing s with
  | nil => rfl
  | cons i ids ih =>
    have hi := hopen i List.mem_cons_self
    obtain ⟨hids, hrest, hother⟩ := autoRenew_batch today failures hnodup hopen
    by_cases hrenews : s.renews today failures i
    · have hsame : ids.filter ((autoRenew today failures s i).renews today failures) =
          ids.filter (s.renews today failures) := by
        apply List.filter_congr
        intro k hk
        exact autoRenew_renews hi (hother k hk).1 (hother k hk).2
      rw [List.filter_cons_of_pos hrenews, renewAll_cons, renewAll_cons, ← hsame]
      apply ih hids hrest
      intro k hk
      rw [autoRenew_inserts hi (hother k hk).1 (hother k hk).2, autoRenew_renews hi (hother k hk).1 (hother k hk).2]
      exact hclean k (List.mem_cons_of_mem i hk)
    · have hstays : autoRenew today failures s i = s := by
        obtain ⟨t, ht, hrenewed⟩ := hi
        rcases autoRenew_clean ht hrenewed (hclean i List.mem_cons_self) with ⟨-, hmade⟩ | ⟨hdone, -⟩
        · exact hmade
        · exact absurd hdone hrenews
      rw [List.filter_cons_of_neg hrenews, renewAll_cons, hstays]
      exact ih hids (fun k hk => (hother k hk).2) fun k hk => hclean k (List.mem_cons_of_mem i hk)

/-- The links in the two directions are the same. -/
def Linked (s : RenewalStore) : Prop := ∀ i j : Nat,
  (∃ t : TenancyRecord, s.tenancies[j]? = some t ∧ t.renewedFrom = some i) ↔
    ∃ t : TenancyRecord, s.tenancies[i]? = some t ∧ t.renewedTo = some j

theorem renewal_get (ht : s.tenancies[i]? = some t) (t' : TenancyRecord) (k : Nat) :
    ((s.insert t').link i t s.tenancies.length).tenancies[k]? =
      if k = i then some { t with renewedTo := some s.tenancies.length, cycleState := .renewed }
      else if k = s.tenancies.length then some t' else s.tenancies[k]? := by
  obtain ⟨hi, -⟩ := List.getElem?_eq_some_iff.mp ht
  by_cases hki : k = i
  · rw [if_pos hki, hki]
    simp only [link, insert]
    rw [List.getElem?_set_self (by simp; omega)]
  rw [if_neg hki, link_other hki]
  by_cases hlast : k = s.tenancies.length
  · rw [if_pos hlast, hlast]
    simp [insert]
  · rw [if_neg hlast, insert]
    by_cases hlt : k < s.tenancies.length
    · exact List.getElem?_append_left hlt
    · rw [List.getElem?_eq_none (by simp; omega), List.getElem?_eq_none (by omega)]

theorem linked_renewal (hs : s.Linked) (ht : s.tenancies[i]? = some t) (hrenewed : t.renewedTo = none)
    (vals : RenewalVals) : ((s.insert (t.successor i vals)).link i t s.tenancies.length).Linked := by
  obtain ⟨hi, -⟩ := List.getElem?_eq_some_iff.mp ht
  intro a b
  rw [renewal_get ht, renewal_get ht]
  by_cases hb : b = s.tenancies.length
  · -- the new row has one predecessor
    have hbi : b ≠ i := by omega
    rw [if_neg hbi, if_pos hb]
    by_cases ha : a = i
    · rw [if_pos ha]
      simp [TenancyRecord.successor, ha, hb]
    · have hnone : ¬ ∃ t, s.tenancies[a]? = some t ∧ t.renewedTo = some b := by
        rw [← hs a b, hb]
        simp
      rw [if_neg ha]
      by_cases halast : a = s.tenancies.length
      · simp [TenancyRecord.successor, halast, hi.ne]
      · rw [if_neg halast]
        simp only [hnone, iff_false]
        simp [TenancyRecord.successor, Ne.symm ha]
  · have hleft : (∃ t', (if b = i then some { t with renewedTo := some s.tenancies.length, cycleState := .renewed }
        else if b = s.tenancies.length then some (t.successor i vals) else s.tenancies[b]?) = some t' ∧
          t'.renewedFrom = some a) ↔ ∃ t', s.tenancies[b]? = some t' ∧ t'.renewedFrom = some a := by
      by_cases hbi : b = i
      · simp [hbi, ht]
      · rw [if_neg hbi, if_neg hb]
    rw [hleft, hs a b]
    by_cases ha : a = i
    · simp [ha, ht, hrenewed, Ne.symm hb]
    · rw [if_neg ha]
      by_cases halast : a = s.tenancies.length
      · simp [halast, TenancyRecord.successor]
      · rw [if_neg halast]

/-- A batch in which no tenancy writes its row and raises keeps the links, and
links what it renews. -/
theorem renewAll_linked (hs : s.Linked) (hnodup : ids.Nodup) (hopen : ∀ i ∈ ids, s.Open i)
    (hclean : ∀ i ∈ ids, s.inserts today failures i → s.renews today failures i) :
    (s.renewAll today failures ids).Linked ∧ ∀ i ∈ ids, s.renews today failures i →
      ∃ j, ∃ t : TenancyRecord,
        (s.renewAll today failures ids).tenancies[i]? = some t ∧ t.renewedTo = some j := by
  induction ids generalizing s with
  | nil => exact ⟨hs, fun i hi => absurd hi List.not_mem_nil⟩
  | cons i ids ih =>
    have hi := hopen i List.mem_cons_self
    obtain ⟨t, ht, hrenewed⟩ := hopen i List.mem_cons_self
    obtain ⟨hids, hrest, hother⟩ := autoRenew_batch today failures hnodup hopen
    have hturn := autoRenew_clean ht hrenewed (hclean i List.mem_cons_self)
    have hlinked : (autoRenew today failures s i).Linked := by
      rcases hturn with ⟨-, hmade⟩ | ⟨-, vals, -, hmade⟩
      · rwa [hmade]
      · rw [hmade]
        exact linked_renewal hs ht hrenewed vals
    have hclean' : ∀ k ∈ ids, (autoRenew today failures s i).inserts today failures k →
        (autoRenew today failures s i).renews today failures k := by
      intro k hk
      rw [autoRenew_inserts hi (hother k hk).1 (hother k hk).2, autoRenew_renews hi (hother k hk).1 (hother k hk).2]
      exact hclean k (List.mem_cons_of_mem i hk)
    obtain ⟨hafter, hlinks⟩ := ih hlinked hids hrest hclean'
    refine ⟨hafter, ?_⟩
    intro k hk hdone
    rcases List.mem_cons.mp hk with rfl | hk
    · rcases hturn with ⟨hfails, -⟩ | ⟨-, vals, -, hmade⟩
      · exact absurd hdone hfails
      · have hrow : (autoRenew today failures s k).tenancies[k]? =
            some { t with renewedTo := some s.tenancies.length, cycleState := .renewed } := by
          rw [hmade, renewal_get ht, if_pos rfl]
        have hkept := renewAll_frame today failures hids hrest (List.nodup_cons.mp hnodup).1 hrow
        exact ⟨_, _, hkept, rfl⟩
    · apply hlinks k hk
      rwa [autoRenew_renews hi (hother k hk).1 (hother k hk).2]

theorem due_nodup : (s.due today).Nodup := List.nodup_range.filter _

theorem due_open (hi : i ∈ s.due today) : s.Open i := by
  obtain ⟨-, hdue⟩ := List.mem_filter.mp hi
  obtain ⟨t, ht, hcandidate⟩ := (Option.any_eq_true _ _).mp hdue
  exact ⟨t, ht, by simp_all [TenancyRecord.candidate]⟩

/-- A tenancy that fails is as if it had not been there for the cron, and one
that does not has one successor. -/
structure Atomic (s : RenewalStore) (today : Date) (failures : Nat → Option FailurePoint) : Prop where
  asIf : s.cron today failures = s.renewAll today failures ((s.due today).filter (s.renews today failures))
  renewed : ∀ i ∈ s.due today, s.renews today failures i →
    ∃! j : Nat, ∃ t : TenancyRecord, (s.cron today failures).tenancies[j]? = some t ∧ t.renewedFrom = some i

/-- The renewal of each due tenancy raises before it writes, or not at all. -/
def Clean (s : RenewalStore) (today : Date) (failures : Nat → Option FailurePoint) : Prop :=
  ∀ i ∈ s.due today, ∀ t, s.tenancies[i]? = some t →
    s.stops today (failures i) t ∨ s.completes (failures i) t

theorem clean_iff : s.Clean today failures ↔
    ∀ i ∈ s.due today, s.inserts today failures i → s.renews today failures i := by
  constructor
  · intro hclean i hi hinserts
    obtain ⟨t, ht, hrenewed⟩ := due_open hi
    have hstops := (inserts_iff ht).mp hinserts
    exact (renews_iff ht hrenewed).mpr ⟨hstops, (hclean i hi t ht).resolve_left hstops⟩
  · intro h i hi t ht
    by_cases hstops : s.stops today (failures i) t
    · exact Or.inl hstops
    · obtain ⟨t', ht', hrenewed⟩ := due_open hi
      obtain rfl := Option.some.inj (ht.symm.trans ht')
      exact Or.inr ((renews_iff ht hrenewed).mp (h i hi ((inserts_iff ht).mpr hstops))).2

theorem atomic_iff (hs : s.Linked) : s.Clean today failures ↔
    s.Atomic today failures ∧ (s.cron today failures).Linked := by
  have hopen : ∀ i ∈ s.due today, s.Open i := fun i hi => due_open hi
  rw [clean_iff]
  constructor
  · intro hclean
    obtain ⟨hlinked, hlinks⟩ := renewAll_linked hs due_nodup hopen hclean
    refine ⟨⟨renewAll_filter due_nodup hopen hclean, ?_⟩, hlinked⟩
    intro i hi hdone
    obtain ⟨j, t, ht, hj⟩ := hlinks i hi hdone
    refine ⟨j, (hlinked i j).mpr ⟨t, ht, hj⟩, ?_⟩
    intro k hk
    obtain ⟨t', ht', hk⟩ := (hlinked i k).mp hk
    obtain rfl := Option.some.inj (ht.symm.trans ht')
    exact Option.some.inj (hk.symm.trans hj)
  · rintro ⟨⟨hasIf, -⟩, -⟩
    -- a row too many shows in the number of rows
    have hopen' : ∀ i ∈ (s.due today).filter (s.renews today failures), s.Open i :=
      fun i hi => hopen i (List.mem_filter.mp hi).1
    have hlength := renewAll_length today failures due_nodup hopen
    have hlength' := renewAll_length today failures (due_nodup.filter _) hopen'
    have hcount : (s.due today).countP (s.inserts today failures) =
        ((s.due today).filter (s.renews today failures)).countP (s.inserts today failures) := by
      rw [← hasIf, cron, hlength] at hlength'
      omega
    have hsplit := List.countP_eq_countP_filter_add (s.due today) (s.inserts today failures) (s.renews today failures)
    have hnone : ((s.due today).filter fun i => !s.renews today failures i).countP (s.inserts today failures) = 0 := by
      omega
    intro i hi hinserts
    by_contra hfails
    exact List.countP_eq_zero.mp hnone i (List.mem_filter.mpr ⟨hi, by simpa using hfails⟩) hinserts

end RenewalStore

/-- The days of the cron, and what goes on between them: the wizard, new
tenancies, changes of all but the links, and of the freeze. -/
inductive RenewalAction where
  | cron (today : Date) (failures : Nat → Option FailurePoint)
  | wizard (i : Nat) (w : RenewalWizard) (today : Date)
  | create (t : TenancyRecord)
  | edit (i : Nat) (t : TenancyRecord)
  | freeze (frozen : Nat → Bool)

namespace RenewalStore

/-- A confirmation that is refused leaves everything as it was. -/
def confirm (s : RenewalStore) (i : Nat) (w : RenewalWizard) (today : Date) : RenewalStore :=
  match s.tenancies[i]? with
  | none => s
  | some t => (s.actionRenew i t w today).toOption.getD s

def act (s : RenewalStore) : RenewalAction → RenewalStore
  | .cron today failures => s.cron today failures
  | .wizard i w today => s.confirm i w today
  | .create t => s.insert { t with renewedTo := none, renewedFrom := none }
  | .edit i t => { s with
      tenancies := s.tenancies.modify i fun old =>
        { t with renewedTo := old.renewedTo, renewedFrom := old.renewedFrom } }
  | .freeze frozen => { s with frozen }

variable {s s' : RenewalStore} {today : Date} {i k : Nat} {t : TenancyRecord} {w : RenewalWizard}

theorem confirm_eq (ht : s.tenancies[i]? = some t) :
    s.confirm i w today = (s.actionRenew i t w today).toOption.getD s := by
  rw [confirm, ht]

/-- What the wizard and the check of the new row ask for, apart from the dates. -/
structure Accepts (s : RenewalStore) (t : TenancyRecord) (w : RenewalWizard) : Prop where
  renewedTo : t.renewedTo = none
  rentIncreasePct : ¬ (s.frozen t.property ∧ 0 < w.rentIncreasePct)
  newRent : 0 < w.newRent
  newStartDate : w.newStartDate ≠ none
  periodMonths : w.periodMonths ≠ 0
  renewalRentIncreasePct : ¬ (s.frozen t.property ∧ 0 < t.renewalRentIncreasePct)

theorem actionRenew_ok (h : s.actionRenew i t w today = .ok s') : s.Accepts t w ∧ ∃ vals,
    t.build (s.frozen t.property) today ⟨some w.newRent, w.periodMonths, w.newStartDate⟩ = some vals ∧
    ¬ vals.endDate < vals.startDate ∧
    s' = (s.insert (t.successor i vals)).link i t s.tenancies.length := by
  unfold actionRenew at h
  by_cases hpct : s.frozen t.property ∧ 0 < w.rentIncreasePct
  · rw [if_pos hpct] at h
    cases h
  by_cases hrent : w.newRent ≤ 0
  · rw [if_neg hpct, if_pos hrent] at h
    cases h
  by_cases hmissing : w.newStartDate = none ∨ w.periodMonths = 0
  · rw [if_neg hpct, if_neg hrent, if_pos hmissing] at h
    cases h
  rw [if_neg hpct, if_neg hrent, if_neg hmissing] at h
  obtain ⟨id, hok⟩ := committed_ok h
  obtain ⟨vals, hbuild, hdates, hrenewed, hfreeze, hmade⟩ := doRenewal_ok hok
  rw [not_or] at hmissing
  exact ⟨⟨hrenewed, hpct, not_le.mp hrent, hmissing.1, hmissing.2, hfreeze⟩, vals, hbuild, hdates, hmade⟩

theorem confirm_cases (w : RenewalWizard) (today : Date) (ht : s.tenancies[i]? = some t) :
    s.confirm i w today = s ∨ s.Accepts t w ∧ ∃ vals,
      t.build (s.frozen t.property) today ⟨some w.newRent, w.periodMonths, w.newStartDate⟩ = some vals ∧
      ¬ vals.endDate < vals.startDate ∧
      s.confirm i w today = (s.insert (t.successor i vals)).link i t s.tenancies.length := by
  rw [confirm_eq ht]
  cases hresult : s.actionRenew i t w today with
  | error e => exact Or.inl rfl
  | ok s' =>
    obtain ⟨haccepts, vals, hbuild, hdates, rfl⟩ := actionRenew_ok hresult
    exact Or.inr ⟨haccepts, vals, hbuild, hdates, rfl⟩

theorem confirm_linked (hs : s.Linked) : (s.confirm i w today).Linked := by
  cases ht : s.tenancies[i]? with
  | none => rwa [confirm, ht]
  | some t =>
    rcases confirm_cases w today ht with hmade | ⟨haccepts, vals, -, -, hmade⟩
    · rwa [hmade]
    · rw [hmade]
      exact linked_renewal hs ht haccepts.renewedTo vals

theorem create_linked (hs : s.Linked) (t : TenancyRecord) :
    (s.insert { t with renewedTo := none, renewedFrom := none }).Linked := by
  intro a b
  have hrow (k : Nat) : (s.insert { t with renewedTo := none, renewedFrom := none }).tenancies[k]? =
      if k = s.tenancies.length then some { t with renewedTo := none, renewedFrom := none } else s.tenancies[k]? := by
    by_cases hlt : k < s.tenancies.length
    · rw [if_neg (by omega), insert, List.getElem?_append_left hlt]
    · by_cases hlast : k = s.tenancies.length
      · simp [insert, hlast]
      · rw [if_neg hlast, insert, List.getElem?_eq_none (by simp; omega), List.getElem?_eq_none (by omega)]
  rw [hrow, hrow]
  by_cases ha : a = s.tenancies.length
  · have hnone : ¬ ∃ t : TenancyRecord, s.tenancies[b]? = some t ∧ t.renewedFrom = some a := by
      rw [hs a b, ha]
      simp
    by_cases hb : b = s.tenancies.length
    · simp [ha, hb]
    · rw [if_neg hb, if_pos ha]
      simp only [hnone, false_iff]
      simp
  · by_cases hb : b = s.tenancies.length
    · have hnone : ¬ ∃ t : TenancyRecord, s.tenancies[a]? = some t ∧ t.renewedTo = some b := by
        rw [← hs a b, hb]
        simp
      rw [if_pos hb, if_neg ha]
      simp only [hnone, iff_false]
      simp
    · rw [if_neg ha, if_neg hb]
      exact hs a b

theorem linked_congr
    (hfrom : ∀ k : Nat,
      s'.tenancies[k]?.bind TenancyRecord.renewedFrom = s.tenancies[k]?.bind TenancyRecord.renewedFrom)
    (hto : ∀ k : Nat, s'.tenancies[k]?.bind TenancyRecord.renewedTo = s.tenancies[k]?.bind TenancyRecord.renewedTo)
    (hs : s.Linked) : s'.Linked := by
  intro a b
  have hab := hs a b
  rw [← Option.bind_eq_some_iff, ← Option.bind_eq_some_iff] at hab ⊢
  rw [hfrom, hto, hab]

theorem edit_linked (hs : s.Linked) (i : Nat) (t : TenancyRecord) : (s.act (.edit i t)).Linked := by
  apply linked_congr ?_ ?_ hs
  all_goals
    intro k
    simp only [act, List.getElem?_modify]
    cases s.tenancies[k]? with
    | none => rfl
    | some old =>
      by_cases hik : i = k
      · simp [hik]
      · simp [hik]

theorem linked_fresh (h : ∀ t ∈ s.tenancies, t.renewedTo = none ∧ t.renewedFrom = none) : s.Linked := by
  intro a b
  constructor
  · rintro ⟨t, ht, hfrom⟩
    rw [(h t (List.mem_of_getElem? ht)).2] at hfrom
    cases hfrom
  · rintro ⟨t, ht, hto⟩
    rw [(h t (List.mem_of_getElem? ht)).1] at hto
    cases hto

/-- What a cron of the day must do. -/
def Law (s : RenewalStore) : RenewalAction → Prop
  | .cron today failures => s.Atomic today failures
  | _ => True

def Allowed (s : RenewalStore) : RenewalAction → Prop
  | .cron today failures => s.Clean today failures
  | _ => True

end RenewalStore

/-- In a run each cron is atomic for each tenancy and no row is without its link
just when no renewal raises after the row is there. -/
theorem renewal_cron_atomic_iff {s : RenewalStore} (hs : s.Linked) (actions : List RenewalAction) :
    Tx.Always RenewalStore.act RenewalStore.Linked s actions ∧
        Tx.EachStep RenewalStore.act RenewalStore.Law s actions ↔
      Tx.EachStep RenewalStore.act RenewalStore.Allowed s actions := by
  apply Tx.law_iff (B := fun _ => True) (fun _ _ _ => trivial) ?_ trivial hs
  intro s a _ hs
  cases a with
  | cron today failures => exact RenewalStore.atomic_iff hs
  | wizard i w today => exact ⟨fun _ => ⟨trivial, RenewalStore.confirm_linked hs⟩, fun _ => trivial⟩
  | create t => exact ⟨fun _ => ⟨trivial, RenewalStore.create_linked hs t⟩, fun _ => trivial⟩
  | edit i t => exact ⟨fun _ => ⟨trivial, RenewalStore.edit_linked hs i t⟩, fun _ => trivial⟩
  | freeze frozen => exact ⟨fun _ => ⟨trivial, hs⟩, fun _ => trivial⟩

theorem riyadh_linked (pct : ℚ) : (riyadhStore pct).Linked := by
  apply RenewalStore.linked_fresh
  intro t ht
  obtain rfl : t = riyadh pct := List.mem_singleton.mp ht
  exact ⟨rfl, rfl⟩

/-- On the first day the sequence fails, and on the second nothing does. -/
theorem renewal_cron_atomic_riyadh :
    Tx.Always RenewalStore.act RenewalStore.Linked (riyadhStore 0)
        [.cron december fun _ => some .beforeInsert, .cron december fun _ => none] ∧
      Tx.EachStep RenewalStore.act RenewalStore.Law (riyadhStore 0)
        [.cron december fun _ => some .beforeInsert, .cron december fun _ => none] := by
  apply (renewal_cron_atomic_iff (riyadh_linked 0) _).mpr
  change Tx.EachStep _ _ _
    (([] ++ [RenewalAction.cron december fun _ => some .beforeInsert]) ++ [RenewalAction.cron december fun _ => none])
  rw [Tx.eachStep_concat, Tx.eachStep_concat]
  refine ⟨⟨Tx.eachStep_nil, ?_⟩, ?_⟩
  · exact RenewalStore.clean_iff.mpr (by decide +kernel)
  · exact RenewalStore.clean_iff.mpr (by decide +kernel)

/-- The freeze refuses the percentage that the successor takes over, once it has been inserted. -/
theorem failed_renewal_orphan : ¬ ∀ s : RenewalStore, s.Linked → ∀ actions,
    Tx.Always RenewalStore.act RenewalStore.Linked s actions ∧
      Tx.EachStep RenewalStore.act RenewalStore.Law s actions := by
  intro hall
  obtain ⟨hlinked, -⟩ := hall (riyadhStore 5) (riyadh_linked 5) [.cron december fun _ => none]
  have hafter := hlinked [.cron december fun _ => none] List.prefix_rfl
  have horphan : (Tx.after RenewalStore.act (riyadhStore 5) [.cron december fun _ => none]).tenancies[1]?.bind
      TenancyRecord.renewedFrom = some 0 := by decide +kernel
  have hfailed : (Tx.after RenewalStore.act (riyadhStore 5) [.cron december fun _ => none]).tenancies[0]?.bind
      TenancyRecord.renewedTo = none := by decide +kernel
  have hlink := Option.bind_eq_some_iff.mpr ((hafter 0 1).mp (Option.bind_eq_some_iff.mp horphan))
  rw [hfailed] at hlink
  cases hlink

/-- Each day leaves a further orphan. -/
example : (Tx.after RenewalStore.act (riyadhStore 5)
    (List.replicate 3 (.cron december fun _ => none))).tenancies.length = 4 := by decide +kernel

end Rental
