import PropzaAmlak.Rental.RenewalCron
import Mathlib.Logic.Relation

/-! Chains of renewals: the links and the periods that the cron and the wizard
make, one tenancy after the other. -/

namespace Rental

namespace TenancyRecord

variable {t t' : TenancyRecord} {d stop : Date}

/-- Without an end date a tenancy goes on. -/
def Covers (t : TenancyRecord) (d : Date) : Prop := t.startDate ≤ d ∧ ∀ e ∈ t.endDate, d ≤ e

def Dated (t : TenancyRecord) : Prop := ∀ e ∈ t.endDate, t.startDate ≤ e

/-- What the chains and their periods depend on. -/
def span (t : TenancyRecord) : Date × Option Date × Option Nat := (t.startDate, t.endDate, t.renewedFrom)

theorem span_eq (h : t'.span = t.span) :
    t'.startDate = t.startDate ∧ t'.endDate = t.endDate ∧ t'.renewedFrom = t.renewedFrom := by
  simpa [span] using h

theorem covers_congr (h : t'.span = t.span) : t'.Covers d ↔ t.Covers d := by
  obtain ⟨hstart, hend, -⟩ := span_eq h
  rw [Covers, Covers, hstart, hend]

theorem disjoint_iff (ht : t.Dated) (ht' : t'.Dated) (hstop : t'.endDate = some stop) :
    (∀ d, ¬ (t.Covers d ∧ t'.Covers d)) ↔ stop < t.startDate ∨ ∃ e ∈ t.endDate, e < t'.startDate := by
  have hle : t'.startDate.toordinal ≤ stop.toordinal := ht' stop hstop
  constructor
  · intro hdisjoint
    by_contra hnot
    rw [not_or] at hnot
    obtain ⟨hbefore, hafter⟩ := hnot
    have hstart : ¬ stop.toordinal < t.startDate.toordinal := hbefore
    have hend (e : Date) (he : e ∈ t.endDate) : t'.startDate.toordinal ≤ e.toordinal := by
      by_contra hlt
      have hless : e < t'.startDate := by
        change e.toordinal < t'.startDate.toordinal
        omega
      exact hafter ⟨e, he, hless⟩
    -- the later of the two first days is common
    by_cases hlater : t'.startDate.toordinal ≤ t.startDate.toordinal
    · apply hdisjoint t.startDate
      refine ⟨⟨Nat.le_refl _, ht⟩, hlater, ?_⟩
      intro e he
      obtain rfl := Option.some.inj (hstop.symm.trans he)
      change t.startDate.toordinal ≤ stop.toordinal
      omega
    · apply hdisjoint t'.startDate
      refine ⟨⟨?_, hend⟩, Nat.le_refl _, ht'⟩
      change t.startDate.toordinal ≤ t'.startDate.toordinal
      omega
  · rintro (hbefore | ⟨e, he, hafter⟩) d ⟨⟨hfrom, hto⟩, hfrom', hto'⟩
    · have hlt : stop.toordinal < t.startDate.toordinal := hbefore
      have hd : d.toordinal ≤ stop.toordinal := hto' stop hstop
      have hd' : t.startDate.toordinal ≤ d.toordinal := hfrom
      omega
    · have hlt : e.toordinal < t'.startDate.toordinal := hafter
      have hd : d.toordinal ≤ e.toordinal := hto e he
      have hd' : t'.startDate.toordinal ≤ d.toordinal := hfrom'
      omega

end TenancyRecord

namespace RenewalStore

variable {s s' : RenewalStore} {today : Date} {failures : Nat → Option FailurePoint} {i j k : Nat}
  {t t' : TenancyRecord} {ids : List Nat} {vals : RenewalVals} {stop : Date}

def Succeeds (s : RenewalStore) (i j : Nat) : Prop := s.tenancies[j]?.bind TenancyRecord.renewedFrom = some i

/-- The links agree, and along a chain no day is let twice. -/
structure Sound (s : RenewalStore) : Prop where
  linked : s.Linked
  dated : ∀ (k : Nat) (t : TenancyRecord), s.tenancies[k]? = some t → t.Dated
  disjoint : ∀ (i j : Nat) (t t' : TenancyRecord), Relation.TransGen s.Succeeds i j → s.tenancies[i]? = some t →
    s.tenancies[j]? = some t' → ∀ d, ¬ (t.Covers d ∧ t'.Covers d)

/-- The days from `start` to `stop` are free of the tenancy and of those before it in the chain. -/
def Clear (s : RenewalStore) (i : Nat) (start stop : Date) : Prop :=
  ∀ (k : Nat) (t : TenancyRecord), Relation.ReflTransGen s.Succeeds k i → s.tenancies[k]? = some t →
    stop < t.startDate ∨ ∃ e ∈ t.endDate, e < start

/-- The rows of `s` are still there, with their periods and predecessors. -/
def Extends (s' s : RenewalStore) : Prop :=
  ∀ (k : Nat) (t : TenancyRecord), s.tenancies[k]? = some t →
    ∃ t' : TenancyRecord, s'.tenancies[k]? = some t' ∧ t'.span = t.span

theorem extends_refl : s.Extends s := fun _ t ht => ⟨t, ht, rfl⟩

theorem Extends.trans {s₁ s₂ s₃ : RenewalStore} (h : s₂.Extends s₁) (h' : s₃.Extends s₂) : s₃.Extends s₁ := by
  intro k t ht
  obtain ⟨t₂, ht₂, hspan⟩ := h k t ht
  obtain ⟨t₃, ht₃, hspan'⟩ := h' k t₂ ht₂
  exact ⟨t₃, ht₃, hspan'.trans hspan⟩

theorem Extends.succeeds (h : s'.Extends s) (hij : s.Succeeds i j) : s'.Succeeds i j := by
  obtain ⟨t, ht, hfrom⟩ := Option.bind_eq_some_iff.mp hij
  obtain ⟨t', ht', hspan⟩ := h j t ht
  exact Option.bind_eq_some_iff.mpr ⟨t', ht', (TenancyRecord.span_eq hspan).2.2.trans hfrom⟩

theorem Extends.succeeds_back (h : s'.Extends s) (ht : s.tenancies[j]? = some t) (hij : s'.Succeeds i j) :
    s.Succeeds i j := by
  obtain ⟨t', ht', hspan⟩ := h j t ht
  obtain ⟨t₁, ht₁, hfrom⟩ := Option.bind_eq_some_iff.mp hij
  obtain rfl := Option.some.inj (ht'.symm.trans ht₁)
  exact Option.bind_eq_some_iff.mpr ⟨t, ht, (TenancyRecord.span_eq hspan).2.2.symm.trans hfrom⟩

theorem Extends.chain_back (h : s'.Extends s) (hs : s.Linked) (hij : Relation.ReflTransGen s'.Succeeds i j)
    (ht : s.tenancies[j]? = some t) : Relation.ReflTransGen s.Succeeds i j := by
  induction hij generalizing t with
  | refl => exact .refl
  | tail _ hlast ih =>
    have hlast' := h.succeeds_back ht hlast
    obtain ⟨t', ht', -⟩ := (hs _ _).mp (Option.bind_eq_some_iff.mp hlast')
    exact (ih ht').tail hlast'

theorem chain_row (hs : s.Linked) (hij : Relation.ReflTransGen s.Succeeds i j) (ht : s.tenancies[j]? = some t) :
    ∃ t' : TenancyRecord, s.tenancies[i]? = some t' := by
  rcases Relation.ReflTransGen.cases_head hij with rfl | ⟨c, hfirst, -⟩
  · exact ⟨t, ht⟩
  · obtain ⟨t', ht', -⟩ := (hs _ _).mp (Option.bind_eq_some_iff.mp hfirst)
    exact ⟨t', ht'⟩

/-- Every successor in a sound store lies clear of the chain it continues. -/
theorem clear_of_sound (hs' : s'.Sound) (h : s'.Extends s) (hj : s'.tenancies[j]? = some t')
    (hfrom : t'.renewedFrom = some i) (hstop : t'.endDate = some stop) : s.Clear i t'.startDate stop := by
  intro k t hk ht
  obtain ⟨t₁, ht₁, hspan⟩ := h k t ht
  have hlast : s'.Succeeds i j := Option.bind_eq_some_iff.mpr ⟨t', hj, hfrom⟩
  have hchain : Relation.ReflTransGen s'.Succeeds k i :=
    Relation.ReflTransGen.mono (fun _ _ hab => h.succeeds hab) _ _ hk
  have hdisjoint := hs'.disjoint k j t₁ t' (.tail' hchain hlast) ht₁ hj
  have hdates := (TenancyRecord.disjoint_iff (hs'.dated k t₁ ht₁) (hs'.dated j t' hj) hstop).mp hdisjoint
  obtain ⟨hstart, hend, -⟩ := TenancyRecord.span_eq hspan
  rwa [hstart, hend] at hdates

theorem extends_renewal (ht : s.tenancies[i]? = some t) (t' : TenancyRecord) :
    ((s.insert t').link i t s.tenancies.length).Extends s := by
  intro k t₁ ht₁
  rw [renewal_get ht]
  by_cases hk : k = i
  · obtain rfl : t = t₁ := Option.some.inj (ht.symm.trans (hk ▸ ht₁))
    exact ⟨_, if_pos hk, rfl⟩
  · obtain ⟨hlt, -⟩ := List.getElem?_eq_some_iff.mp ht₁
    refine ⟨t₁, ?_, rfl⟩
    rw [if_neg hk, if_neg hlt.ne, ht₁]

theorem sound_renewal (hs : s.Sound) (ht : s.tenancies[i]? = some t) (hrenewed : t.renewedTo = none)
    (hdates : ¬ vals.endDate < vals.startDate) (hclear : s.Clear i vals.startDate vals.endDate) :
    ((s.insert (t.successor i vals)).link i t s.tenancies.length).Sound := by
  have hextends := extends_renewal ht (t.successor i vals)
  have hold (k : Nat) (t₁ : TenancyRecord) (hk : k ≠ s.tenancies.length)
      (ht₁ : ((s.insert (t.successor i vals)).link i t s.tenancies.length).tenancies[k]? = some t₁) :
      ∃ t₀, s.tenancies[k]? = some t₀ ∧ t₁.span = t₀.span := by
    rw [renewal_get ht] at ht₁
    by_cases hki : k = i
    · rw [if_pos hki] at ht₁
      obtain rfl := Option.some.inj ht₁
      exact ⟨t, hki ▸ ht, rfl⟩
    · rw [if_neg hki, if_neg hk] at ht₁
      exact ⟨t₁, ht₁, rfl⟩
  have hnew (t₁ : TenancyRecord) (ht₁ : ((s.insert (t.successor i vals)).link i t
      s.tenancies.length).tenancies[s.tenancies.length]? = some t₁) : t₁ = t.successor i vals := by
    rw [insert_link_last ht] at ht₁
    exact (Option.some.inj ht₁).symm
  have hdated : ∀ (k : Nat) (t₁ : TenancyRecord), ((s.insert (t.successor i vals)).link i t
      s.tenancies.length).tenancies[k]? = some t₁ → t₁.Dated := by
    intro k t₁ ht₁
    by_cases hk : k = s.tenancies.length
    · obtain rfl := hnew t₁ (hk ▸ ht₁)
      intro e he
      obtain rfl : vals.endDate = e := Option.some.inj he
      exact Nat.not_lt.mp hdates
    · obtain ⟨t₀, ht₀, hspan⟩ := hold k t₁ hk ht₁
      obtain ⟨hstart, hend, -⟩ := TenancyRecord.span_eq hspan
      intro e he
      rw [hstart]
      exact hs.dated k t₀ ht₀ e (hend ▸ he)
  refine ⟨linked_renewal hs.linked ht hrenewed vals, hdated, ?_⟩
  intro a b ta tb hab hta htb
  by_cases hb : b = s.tenancies.length
  · -- the new row against a tenancy of its chain
    obtain rfl := hnew tb (hb ▸ htb)
    obtain ⟨c, hac, hcb⟩ := Relation.TransGen.tail'_iff.mp hab
    obtain rfl : i = c := by
      rw [Succeeds, hb, insert_link_last ht] at hcb
      exact Option.some.inj hcb
    have hchain := hextends.chain_back hs.linked hac ht
    obtain ⟨t₀, ht₀⟩ := chain_row hs.linked hchain ht
    obtain ⟨t₁, ht₁, hspan⟩ := hextends a t₀ ht₀
    obtain rfl := Option.some.inj (hta.symm.trans ht₁)
    obtain ⟨hstart, hend, -⟩ := TenancyRecord.span_eq hspan
    apply (TenancyRecord.disjoint_iff (hdated a ta hta) (hdated b _ htb) rfl).mpr
    rw [hstart, hend]
    exact hclear a t₀ hchain ht₀
  · obtain ⟨t₂, ht₂, hspan'⟩ := hold b tb hb htb
    obtain ⟨c, hac, hcb⟩ := Relation.TransGen.tail'_iff.mp hab
    have hcb' := hextends.succeeds_back ht₂ hcb
    obtain ⟨tc, htc, -⟩ := (hs.linked c b).mp (Option.bind_eq_some_iff.mp hcb')
    have hchain := hextends.chain_back hs.linked hac htc
    obtain ⟨t₀, ht₀⟩ := chain_row hs.linked hchain htc
    obtain ⟨t₁, ht₁, hspan⟩ := hextends a t₀ ht₀
    obtain rfl := Option.some.inj (hta.symm.trans ht₁)
    intro d
    rw [TenancyRecord.covers_congr hspan, TenancyRecord.covers_congr hspan']
    exact hs.disjoint a b t₀ t₂ (.tail' hchain hcb') ht₀ ht₂ d

theorem Extends.clear {start : Date} (h : s'.Extends s) (hs : s.Linked) (ht : s.tenancies[i]? = some t)
    (hclear : s.Clear i start stop) : s'.Clear i start stop := by
  intro k t' hk ht'
  have hchain := h.chain_back hs hk ht
  obtain ⟨t₀, ht₀⟩ := chain_row hs hchain ht
  obtain ⟨t₁, ht₁, hspan⟩ := h k t₀ ht₀
  obtain rfl := Option.some.inj (ht'.symm.trans ht₁)
  obtain ⟨hstart, hend, -⟩ := TenancyRecord.span_eq hspan
  rw [hstart, hend]
  exact hclear k t₀ hchain ht₀

theorem extends_insert (t' : TenancyRecord) : (s.insert t').Extends s := fun _ t ht => ⟨t, insert_before ht, rfl⟩

theorem autoRenew_extends (hopen : s.Open i) : (autoRenew today failures s i).Extends s := by
  obtain ⟨t, ht, hrenewed⟩ := hopen
  rcases autoRenew_cases today failures ht hrenewed with ⟨-, hmade⟩ | ⟨-, vals, -, ⟨-, hmade⟩ | ⟨-, hmade⟩⟩
  · rw [hmade]
    exact extends_refl
  · rw [hmade]
    exact extends_renewal ht _
  · rw [hmade]
    exact extends_insert _

theorem renewAll_extends (today : Date) (failures : Nat → Option FailurePoint) (hnodup : ids.Nodup)
    (hopen : ∀ i ∈ ids, s.Open i) :
    (s.renewAll today failures ids).Extends s := by
  induction ids generalizing s with
  | nil => exact extends_refl
  | cons i ids ih =>
    obtain ⟨hids, hrest, -⟩ := autoRenew_batch today failures hnodup hopen
    exact (autoRenew_extends (hopen i List.mem_cons_self)).trans (ih hids hrest)

/-- The terms and the period under which the cron renews a tenancy as it should. -/
def AutoAllowed (s : RenewalStore) (i : Nat) (t : TenancyRecord) : Prop :=
  ∀ e start stop, t.endDate = some e → tomorrow e = some start →
    renewalEndDate start (if t.renewalPeriodMonths ≠ 0 then t.renewalPeriodMonths else 12) = some stop →
      0 < t.renewalPeriodMonths ∧ ¬ (s.frozen t.property ∧ 0 < t.renewalRentIncreasePct) ∧ s.Clear i start stop

/-- The successor takes over the day after, for the renewal period. -/
def FollowsOn (t t' : TenancyRecord) : Prop :=
  t.endDate.bind tomorrow = some t'.startDate ∧
    t'.endDate = renewalEndDate t'.startDate t.renewalPeriodMonths

theorem build_auto {e : Date} {frozen : Bool} (he : t.endDate = some e)
    (h : t.build frozen today {} = some vals) : tomorrow e = some vals.startDate ∧
      renewalEndDate vals.startDate (if t.renewalPeriodMonths ≠ 0 then t.renewalPeriodMonths else 12) =
        some vals.endDate := by
  obtain ⟨startDate, hstart, h⟩ := Option.bind_eq_some_iff.mp h
  obtain ⟨endDate, hend, rfl⟩ := Option.map_eq_some_iff.mp h
  refine ⟨?_, hend⟩
  have hterms : (t.terms frozen).endDate = some e := he
  rw [renewalStartDate, hterms] at hstart
  exact hstart

theorem build_auto_some {e start : Date} (frozen : Bool) (today : Date) (he : t.endDate = some e)
    (hstart : tomorrow e = some start)
    (hstop : renewalEndDate start (if t.renewalPeriodMonths ≠ 0 then t.renewalPeriodMonths else 12) = some stop) :
    ∃ vals, t.build frozen today {} = some vals ∧ vals.startDate = start ∧ vals.endDate = stop := by
  have hterms : renewalStartDate (t.terms frozen) today none = some start := by
    rw [renewalStartDate]
    simp only [TenancyRecord.terms, he]
    exact hstart
  have hperiod : renewalEndDate start (renewalPeriod (t.terms frozen) 0) = some stop := hstop
  cases hbuild : t.build frozen today {} with
  | none => simp [TenancyRecord.build, buildRenewalVals, hterms, hperiod] at hbuild
  | some vals =>
    obtain ⟨hfirst, hlast⟩ := build_auto he hbuild
    obtain rfl : start = vals.startDate := Option.some.inj (hstart.symm.trans hfirst)
    exact ⟨vals, rfl, rfl, Option.some.inj (hlast.symm.trans hstop)⟩

/-- The cron of a day on which nothing fails by itself. -/
abbrev quiet : Nat → Option FailurePoint := fun _ => none

theorem autoRenew_quiet (today : Date) (ht : s.tenancies[i]? = some t) (hrenewed : t.renewedTo = none) :
    (t.build (s.frozen t.property) today {} = none ∧ autoRenew today quiet s i = s) ∨
    ∃ vals, t.build (s.frozen t.property) today {} = some vals ∧
      ((s.completes none t ∧
        autoRenew today quiet s i = (s.insert (t.successor i vals)).link i t s.tenancies.length) ∨
      (¬ s.completes none t ∧ autoRenew today quiet s i = s.insert (t.successor i vals))) := by
  rcases autoRenew_cases today quiet ht hrenewed with ⟨hstops, hmade⟩ | ⟨-, vals, hbuild, hmade⟩
  · left
    exact ⟨by simpa [stops, quiet] using hstops, hmade⟩
  · right
    refine ⟨vals, hbuild, ?_⟩
    rcases hmade with ⟨hdone | hlate, hmade⟩ | ⟨hbroken, hmade⟩
    · exact Or.inl ⟨hdone, hmade⟩
    · cases hlate
    · exact Or.inr ⟨hbroken, hmade⟩

theorem autoAllowed_turn (hs : s.Linked) (hopen : s.Open i) (hk : s.tenancies[k]? = some t)
    (h : s.AutoAllowed k t) : (autoRenew today quiet s i).AutoAllowed k t := by
  intro e start stop he hstart hstop
  obtain ⟨hperiod, hfreeze, hclear⟩ := h e start stop he hstart hstop
  rw [autoRenew_frozen today quiet hopen]
  exact ⟨hperiod, hfreeze, (autoRenew_extends hopen).clear hs hk hclear⟩

theorem autoRenew_sound (today : Date) (hs : s.Sound) (ht : s.tenancies[i]? = some t) (hrenewed : t.renewedTo = none)
    (hend : t.endDate ≠ none) (hallowed : s.AutoAllowed i t) :
    (autoRenew today quiet s i = s) ∨ ∃ vals, autoRenew today quiet s i =
        (s.insert (t.successor i vals)).link i t s.tenancies.length ∧
      ((s.insert (t.successor i vals)).link i t s.tenancies.length).Sound ∧ FollowsOn t (t.successor i vals) := by
  obtain ⟨e, he⟩ := Option.ne_none_iff_exists'.mp hend
  rcases autoRenew_quiet today ht hrenewed with ⟨-, hmade⟩ | ⟨vals, hbuild, hmade⟩
  · exact Or.inl hmade
  · right
    obtain ⟨hstart, hstop⟩ := build_auto he hbuild
    obtain ⟨hperiod, hfreeze, hclear⟩ := hallowed e vals.startDate vals.endDate he hstart hstop
    rcases hmade with ⟨-, hmade⟩ | ⟨hbroken, -⟩
    · have hdates : ¬ vals.endDate < vals.startDate := by
        rw [TenancyRecord.build_lt_iff hbuild]
        omega
      refine ⟨vals, hmade, sound_renewal hs ht hrenewed hdates hclear, ?_⟩
      rw [if_pos (by omega)] at hstop
      exact ⟨by rw [he]; exact hstart, hstop.symm⟩
    · exact absurd (completes_iff.mpr ⟨rfl, by omega, hfreeze⟩) hbroken

/-- A batch of allowed renewals keeps the chains sound, and every successor it makes follows on. -/
theorem renewAll_sound (today : Date) (hs : s.Sound) (hnodup : ids.Nodup) (hopen : ∀ i ∈ ids, s.Open i)
    (hallowed : ∀ i ∈ ids, ∀ t, s.tenancies[i]? = some t → t.endDate ≠ none ∧ s.AutoAllowed i t) :
    (s.renewAll today quiet ids).Sound ∧ ∀ i ∈ ids, ∀ t, s.tenancies[i]? = some t →
      ∀ (j : Nat) (t' : TenancyRecord), (s.renewAll today quiet ids).tenancies[j]? = some t' →
        t'.renewedFrom = some i → FollowsOn t t' := by
  induction ids generalizing s with
  | nil => exact ⟨hs, fun i hi => absurd hi List.not_mem_nil⟩
  | cons i ids ih =>
    have hi := hopen i List.mem_cons_self
    obtain ⟨t, ht, hrenewed⟩ := hopen i List.mem_cons_self
    obtain ⟨hids, hrest, hother⟩ := autoRenew_batch today quiet hnodup hopen
    obtain ⟨hend, hauto⟩ := hallowed i List.mem_cons_self t ht
    have hturn := autoRenew_sound today hs ht hrenewed hend hauto
    have hsound : (autoRenew today quiet s i).Sound := by
      rcases hturn with hmade | ⟨vals, hmade, hsound, -⟩
      · rwa [hmade]
      · rwa [hmade]
    have hallowed' : ∀ k ∈ ids, ∀ t, (autoRenew today quiet s i).tenancies[k]? = some t →
        t.endDate ≠ none ∧ (autoRenew today quiet s i).AutoAllowed k t := by
      intro k hk t' ht'
      obtain ⟨t₀, ht₀, -⟩ := (hother k hk).2
      obtain rfl := Option.some.inj (ht'.symm.trans (autoRenew_frame today quiet hi (hother k hk).1 ht₀))
      obtain ⟨hend', hauto'⟩ := hallowed k (List.mem_cons_of_mem i hk) t' ht₀
      exact ⟨hend', autoAllowed_turn hs.linked hi ht₀ hauto'⟩
    obtain ⟨hafter, hfollow⟩ := ih hsound hids hrest hallowed'
    rw [renewAll_cons]
    refine ⟨hafter, ?_⟩
    intro k hk t' ht' j tj htj hfrom
    rcases List.mem_cons.mp hk with rfl | hk
    · obtain rfl := Option.some.inj (ht.symm.trans ht')
      -- its only successor is the one this turn has made
      obtain ⟨tk, htk, hto⟩ := (hafter.linked k j).mp ⟨tj, htj, hfrom⟩
      have hkeep (t₁ : TenancyRecord) (ht₁ : (autoRenew today quiet s k).tenancies[k]? = some t₁) : t₁ = tk := by
        have hkept := renewAll_frame today quiet hids hrest (List.nodup_cons.mp hnodup).1 ht₁
        exact Option.some.inj (hkept.symm.trans htk)
      rcases hturn with hmade | ⟨vals, hmade, -, hfollows⟩
      · obtain rfl := hkeep t (by rw [hmade, ht])
        rw [hrenewed] at hto
        cases hto
      · obtain rfl := hkeep _ (by rw [hmade, renewal_get ht, if_pos rfl])
        obtain rfl : s.tenancies.length = j := Option.some.inj hto
        have hlast : (autoRenew today quiet s k).tenancies[s.tenancies.length]? = some (t.successor k vals) := by
          rw [hmade, insert_link_last ht]
        obtain ⟨t₁, ht₁, hspan⟩ := renewAll_extends today quiet hids hrest _ _ hlast
        obtain rfl := Option.some.inj (htj.symm.trans ht₁)
        obtain ⟨hstart, hstop, -⟩ := TenancyRecord.span_eq hspan
        rwa [FollowsOn, hstart, hstop]
    · obtain ⟨t₀, ht₀, -⟩ := (hother k hk).2
      obtain rfl := Option.some.inj (ht'.symm.trans ht₀)
      exact hfollow k hk t' (autoRenew_frame today quiet hi (hother k hk).1 ht₀) j tj htj hfrom

/-- Where the calendar has room for the new period, the batch leaves a successor,
and without a link to it where the new row fails its checks. -/
theorem renewAll_row (hnodup : ids.Nodup) (hopen : ∀ i ∈ ids, s.Open i) (hi : i ∈ ids)
    (ht : s.tenancies[i]? = some t) (hbuild : t.build (s.frozen t.property) today {} = some vals) :
    (∃ (j : Nat) (t' : TenancyRecord), (s.renewAll today quiet ids).tenancies[j]? = some t' ∧
      t'.span = (t.successor i vals).span) ∧
    (¬ s.completes none t → (s.renewAll today quiet ids).tenancies[i]? = some t) := by
  induction ids generalizing s with
  | nil => cases hi
  | cons k ids ih =>
    have hk := hopen k List.mem_cons_self
    obtain ⟨hids, hrest, hother⟩ := autoRenew_batch today quiet hnodup hopen
    rw [renewAll_cons]
    rcases List.mem_cons.mp hi with rfl | hi
    · obtain ⟨t', ht', hrenewed⟩ := hk
      obtain rfl := Option.some.inj (ht.symm.trans ht')
      have hextends := renewAll_extends today quiet hids hrest
      have hkept (t₁ : TenancyRecord) (ht₁ : (autoRenew today quiet s i).tenancies[i]? = some t₁) :=
        renewAll_frame today quiet hids hrest (List.nodup_cons.mp hnodup).1 ht₁
      rcases autoRenew_quiet today ht hrenewed with ⟨hnone, -⟩ | ⟨vals', hbuild', hmade⟩
      · rw [hbuild] at hnone
        cases hnone
      · obtain rfl := Option.some.inj (hbuild.symm.trans hbuild')
        rcases hmade with ⟨hdone, hmade⟩ | ⟨hbroken, hmade⟩
        · have hlast : (autoRenew today quiet s i).tenancies[s.tenancies.length]? = some (t.successor i vals) := by
            rw [hmade, insert_link_last ht]
          exact ⟨⟨_, hextends _ _ hlast⟩, fun hbroken => absurd hdone hbroken⟩
        · have hlast : (autoRenew today quiet s i).tenancies[s.tenancies.length]? = some (t.successor i vals) := by
            rw [hmade]
            simp [insert]
          refine ⟨⟨_, hextends _ _ hlast⟩, fun _ => hkept t ?_⟩
          rw [hmade]
          exact insert_before ht
    · have hfrozen := autoRenew_frozen today quiet hk
      have hrow := autoRenew_frame today quiet hk (hother i hi).1 ht
      have hrows := ih hids hrest hi hrow (by rw [hfrozen]; exact hbuild)
      rw [completes, hfrozen] at hrows
      exact hrows

/-- What the dates of a confirmed renewal must be. -/
def WizardAllowed (s : RenewalStore) (i : Nat) (w : RenewalWizard) (today : Date) : Prop :=
  ∀ t d start stop, s.tenancies[i]? = some t → s.Accepts t w → w.newStartDate = some d →
    start = (if t.endDate.isSome then d else today) → 0 < w.periodMonths →
      renewalEndDate start w.periodMonths = some stop → start = d ∧ s.Clear i start stop

theorem build_wizard {w : RenewalWizard} {d : Date} {frozen : Bool} (hd : w.newStartDate = some d)
    (hperiod : w.periodMonths ≠ 0)
    (h : t.build frozen today ⟨some w.newRent, w.periodMonths, w.newStartDate⟩ = some vals) :
    vals.startDate = (if t.endDate.isSome then d else today) ∧
      renewalEndDate vals.startDate w.periodMonths = some vals.endDate := by
  obtain ⟨startDate, hstart, h⟩ := Option.bind_eq_some_iff.mp h
  obtain ⟨endDate, hend, rfl⟩ := Option.map_eq_some_iff.mp h
  constructor
  · have hterms : (t.terms frozen).endDate = t.endDate := rfl
    rw [renewalStartDate, hterms, hd] at hstart
    cases he : t.endDate with
    | none =>
      rw [he] at hstart
      exact (Option.some.inj hstart).symm
    | some e =>
      rw [he] at hstart
      exact (Option.some.inj hstart).symm
  · rw [renewalPeriod, if_pos hperiod] at hend
    exact hend

theorem confirm_accepted {w : RenewalWizard} {d start : Date} (ht : s.tenancies[i]? = some t) (haccepts : s.Accepts t w)
    (hd : w.newStartDate = some d) (hstart : start = if t.endDate.isSome then d else today)
    (hperiod : 0 < w.periodMonths) (hstop : renewalEndDate start w.periodMonths = some stop) : ∃ vals,
      vals.startDate = start ∧ vals.endDate = stop ∧
      s.confirm i w today = (s.insert (t.successor i vals)).link i t s.tenancies.length := by
  have hfirst : renewalStartDate (t.terms (s.frozen t.property)) today w.newStartDate = some start := by
    have hterms : (t.terms (s.frozen t.property)).endDate = t.endDate := rfl
    rw [renewalStartDate, hterms, hd, hstart]
    cases t.endDate with
    | none => rfl
    | some e => rfl
  have hlast : renewalEndDate start (renewalPeriod (t.terms (s.frozen t.property)) w.periodMonths) = some stop := by
    rwa [renewalPeriod, if_pos haccepts.periodMonths]
  cases hbuild : t.build (s.frozen t.property) today ⟨some w.newRent, w.periodMonths, w.newStartDate⟩ with
  | none => simp [TenancyRecord.build, buildRenewalVals, hfirst, hlast] at hbuild
  | some vals =>
    obtain ⟨hvals, hend⟩ := build_wizard hd haccepts.periodMonths hbuild
    rw [← hstart] at hvals
    have hdates : ¬ vals.endDate < vals.startDate := by
      rw [renewalEndDate_lt_iff hend]
      omega
    have hreaches : s.Reaches t today ⟨some w.newRent, w.periodMonths, w.newStartDate⟩ :=
      ⟨haccepts.renewedTo, vals, hbuild, hdates⟩
    have houtcome := doRenewal_reaches (i := i) hreaches
    rw [if_neg haccepts.renewalRentIncreasePct] at houtcome
    have hpair : s.doRenewal i t today ⟨some w.newRent, w.periodMonths, w.newStartDate⟩ none =
        ((s.doRenewal i t today ⟨some w.newRent, w.periodMonths, w.newStartDate⟩ none).1,
          .ok s.tenancies.length) := by
      rw [← houtcome]
    obtain ⟨vals', hbuild', -, -, -, hmade⟩ := doRenewal_ok hpair
    obtain rfl := Option.some.inj (hbuild.symm.trans hbuild')
    refine ⟨vals, hvals, ?_, ?_⟩
    · rw [hvals, hstop] at hend
      exact (Option.some.inj hend).symm
    · have hmissing : ¬ (w.newStartDate = none ∨ w.periodMonths = 0) :=
        not_or.mpr ⟨haccepts.newStartDate, haccepts.periodMonths⟩
      rw [confirm_eq ht, actionRenew, if_neg haccepts.rentIncreasePct, if_neg (not_le.mpr haccepts.newRent),
        if_neg hmissing, hpair, hmade]
      rfl

end RenewalStore

inductive ChainAction where
  | cron (today : Date)
  | wizard (i : Nat) (w : RenewalWizard) (today : Date)
  | setState (i : Nat) (state : TenancyState)

namespace RenewalStore

variable {s : RenewalStore} {today : Date} {i : Nat} {t : TenancyRecord} {w : RenewalWizard}

def chainAct (s : RenewalStore) : ChainAction → RenewalStore
  | .cron today => s.cron today quiet
  | .wizard i w today => s.confirm i w today
  | .setState i state => { s with tenancies := s.tenancies.modify i fun t => { t with state } }

/-- What each renewal of the action must be. -/
def ChainLaw (s : RenewalStore) : ChainAction → Prop
  | .cron today => ∀ i ∈ s.due today, ∀ t, s.tenancies[i]? = some t →
      ∀ (j : Nat) (t' : TenancyRecord), (s.cron today quiet).tenancies[j]? = some t' →
        t'.renewedFrom = some i → FollowsOn t t'
  | .wizard i w today => ∀ t, s.tenancies[i]? = some t → t.renewedTo = none →
      ∀ (j : Nat) (t' : TenancyRecord), (s.confirm i w today).tenancies[j]? = some t' →
        t'.renewedFrom = some i → w.newStartDate = some t'.startDate
  | .setState _ _ => True

def ChainAllowed (s : RenewalStore) : ChainAction → Prop
  | .cron today => ∀ i ∈ s.due today, ∀ t, s.tenancies[i]? = some t → s.AutoAllowed i t
  | .wizard i w today => s.WizardAllowed i w today
  | .setState _ _ => True

theorem due_endDate (hi : i ∈ s.due today) (ht : s.tenancies[i]? = some t) : t.endDate ≠ none := by
  obtain ⟨-, hdue⟩ := List.mem_filter.mp hi
  rw [ht, Option.any_some, Bool.and_eq_true, TenancyRecord.candidate, Bool.and_eq_true] at hdue
  exact Option.isSome_iff_ne_none.mp hdue.1.2

theorem cron_sound_iff (hs : s.Sound) (today : Date) : s.ChainAllowed (.cron today) ↔
    s.ChainLaw (.cron today) ∧ (s.cron today quiet).Sound := by
  have hopen : ∀ i ∈ s.due today, s.Open i := fun i hi => due_open hi
  constructor
  · intro hallowed
    obtain ⟨hsound, hlaw⟩ := renewAll_sound today hs due_nodup hopen
      fun i hi t ht => ⟨due_endDate hi ht, hallowed i hi t ht⟩
    exact ⟨hlaw, hsound⟩
  · rintro ⟨hlaw, hsound⟩ i hi t ht e start stop he hstart hstop
    obtain ⟨vals, hbuild, rfl, rfl⟩ := build_auto_some (s.frozen t.property) today he hstart hstop
    obtain ⟨⟨j, t', hj, hspan⟩, hunlinked⟩ := renewAll_row due_nodup hopen hi ht hbuild
    obtain ⟨hstart', hend', hfrom⟩ := TenancyRecord.span_eq hspan
    obtain ⟨t'', ht'', hrenewed⟩ := due_open hi
    obtain rfl := Option.some.inj (ht.symm.trans ht'')
    -- the new row is linked, so its checks have passed
    have hdone : s.completes none t := by
      by_contra hbroken
      obtain ⟨ti, hti, hto⟩ := (hsound.linked i j).mp ⟨t', hj, hfrom⟩
      obtain rfl := Option.some.inj (hti.symm.trans (hunlinked hbroken))
      rw [hrenewed] at hto
      cases hto
    obtain ⟨-, hperiod, hfreeze⟩ := completes_iff.mp hdone
    have hfollow := (hlaw i hi t ht j t' hj hfrom).2
    have hpos : 0 < t.renewalPeriodMonths := by
      have hshort : renewalEndDate vals.startDate t.renewalPeriodMonths = some vals.endDate := by
        rw [hstart', hend'] at hfollow
        exact hfollow.symm
      have hiff := renewalEndDate_lt_iff hshort
      rw [TenancyRecord.build_lt_iff hbuild] at hiff
      omega
    refine ⟨hpos, hfreeze, ?_⟩
    have hclear := clear_of_sound hsound (renewAll_extends today quiet due_nodup hopen) hj hfrom hend'
    rwa [hstart'] at hclear

theorem confirm_sound_iff (hs : s.Sound) (i : Nat) (w : RenewalWizard) (today : Date) :
    s.WizardAllowed i w today ↔ s.ChainLaw (.wizard i w today) ∧ (s.confirm i w today).Sound := by
  constructor
  · intro hallowed
    cases ht : s.tenancies[i]? with
    | none =>
      have hsame : s.confirm i w today = s := by rw [confirm, ht]
      rw [hsame]
      exact ⟨fun t ht' => (by rw [ht] at ht'; cases ht'), hs⟩
    | some t =>
      rcases confirm_cases w today ht with hmade | ⟨haccepts, vals, hbuild, hdates, hmade⟩
      · rw [hmade]
        refine ⟨?_, hs⟩
        intro t' ht' hrenewed j tj hj hfrom
        rw [hmade] at hj
        obtain ⟨t₀, ht₀, hto⟩ := (hs.linked i j).mp ⟨tj, hj, hfrom⟩
        obtain rfl := Option.some.inj (ht'.symm.trans ht₀)
        rw [hrenewed] at hto
        cases hto
      · obtain ⟨d, hd⟩ := Option.ne_none_iff_exists'.mp haccepts.newStartDate
        obtain ⟨hstart, hstop⟩ := build_wizard hd haccepts.periodMonths hbuild
        have hperiod : 0 < w.periodMonths := by
          rw [renewalEndDate_lt_iff hstop] at hdates
          omega
        obtain ⟨hsame, hclear⟩ := hallowed t d vals.startDate vals.endDate ht haccepts hd hstart hperiod hstop
        have hsound := sound_renewal hs ht haccepts.renewedTo hdates hclear
        rw [hmade]
        refine ⟨?_, hsound⟩
        intro t' ht' _ j tj hj hfrom
        rw [hmade] at hj
        obtain ⟨t₀, ht₀, hto⟩ := (hsound.linked i j).mp ⟨tj, hj, hfrom⟩
        rw [renewal_get ht, if_pos rfl] at ht₀
        obtain rfl := Option.some.inj ht₀
        obtain rfl : s.tenancies.length = j := Option.some.inj hto
        rw [insert_link_last ht] at hj
        obtain rfl := Option.some.inj hj
        rw [hd, ← hsame]
        rfl
  · rintro ⟨hlaw, hsound⟩ t d start stop ht haccepts hd hstart hperiod hstop
    obtain ⟨vals, rfl, rfl, hmade⟩ := confirm_accepted ht haccepts hd hstart hperiod hstop
    have hlast : (s.confirm i w today).tenancies[s.tenancies.length]? = some (t.successor i vals) := by
      rw [hmade, insert_link_last ht]
    have hfirst := hlaw t ht haccepts.renewedTo _ _ hlast rfl
    rw [hd] at hfirst
    constructor
    · exact (Option.some.inj hfirst).symm
    · have hextends : (s.confirm i w today).Extends s := by
        rw [hmade]
        exact extends_renewal ht _
      have hfrom : (t.successor i vals).renewedFrom = some i := rfl
      have hend : (t.successor i vals).endDate = some vals.endDate := rfl
      have hclear := clear_of_sound hsound hextends hlast hfrom hend
      exact hclear

/-- Without new rows, periods or predecessors there are no new chains. -/
theorem sound_congr {s' : RenewalStore} (hback : s.Extends s') (hlinked : s'.Linked) (hs : s.Sound) :
    s'.Sound := by
  refine ⟨hlinked, ?_, ?_⟩
  · intro k t ht e he
    obtain ⟨t₀, ht₀, hspan⟩ := hback k t ht
    obtain ⟨hstart, hend, -⟩ := TenancyRecord.span_eq hspan
    rw [← hstart]
    exact hs.dated k t₀ ht₀ e (hend ▸ he)
  · intro a b ta tb hab hta htb d
    obtain ⟨t₁, ht₁, hspan⟩ := hback a ta hta
    obtain ⟨t₂, ht₂, hspan'⟩ := hback b tb htb
    have hchain : Relation.TransGen s.Succeeds a b :=
      Relation.TransGen.mono (fun _ _ hlink => hback.succeeds hlink) _ _ hab
    rw [← TenancyRecord.covers_congr hspan, ← TenancyRecord.covers_congr hspan']
    exact hs.disjoint a b t₁ t₂ hchain ht₁ ht₂ d

theorem setState_sound (hs : s.Sound) (i : Nat) (state : TenancyState) : (s.chainAct (.setState i state)).Sound := by
  have hrow (k : Nat) : (s.chainAct (.setState i state)).tenancies[k]? =
      (s.tenancies[k]?).map fun t => if i = k then { t with state } else t := by
    simp only [chainAct, List.getElem?_modify]
    by_cases hk : i = k
    · simp [hk]
    · simp [hk]
  have hlinked : (s.chainAct (.setState i state)).Linked := by
    apply linked_congr ?_ ?_ hs.linked
    all_goals
      intro k
      rw [hrow]
      cases s.tenancies[k]? with
      | none => rfl
      | some t =>
        by_cases hk : i = k
        · simp [hk]
        · simp [hk]
  have hspan (k : Nat) (t : TenancyRecord) : (if i = k then { t with state } else t).span = t.span := by
    by_cases hk : i = k
    · rw [if_pos hk]
      rfl
    · rw [if_neg hk]
  apply sound_congr ?_ hlinked hs
  intro k t ht
  rw [hrow] at ht
  obtain ⟨t₀, ht₀, rfl⟩ := Option.map_eq_some_iff.mp ht
  exact ⟨t₀, ht₀, (hspan k t₀).symm⟩

end RenewalStore

/-- In a run of daily renewals and confirmed ones, the links and periods along
the chains are right, and each successor's too, just when each renewal has the
terms and the dates for it. -/
theorem renewal_chain_iff {s : RenewalStore} (hs : s.Sound) (actions : List ChainAction) :
    Tx.Always RenewalStore.chainAct RenewalStore.Sound s actions ∧
        Tx.EachStep RenewalStore.chainAct RenewalStore.ChainLaw s actions ↔
      Tx.EachStep RenewalStore.chainAct RenewalStore.ChainAllowed s actions := by
  apply Tx.law_iff (B := fun _ => True) (fun _ _ _ => trivial) ?_ trivial hs
  intro s a _ hs
  cases a with
  | cron today => exact RenewalStore.cron_sound_iff hs today
  | wizard i w today => exact RenewalStore.confirm_sound_iff hs i w today
  | setState i state => exact ⟨fun _ => ⟨trivial, RenewalStore.setState_sound hs i state⟩, fun _ => trivial⟩

theorem RenewalStore.sound_fresh {s : RenewalStore} (h : ∀ t ∈ s.tenancies, t.renewedTo = none ∧ t.renewedFrom = none)
    (hdated : ∀ t ∈ s.tenancies, t.Dated) : s.Sound := by
  refine ⟨linked_fresh h, fun k t ht => hdated t (List.mem_of_getElem? ht), ?_⟩
  intro a b ta tb hab _ htb
  obtain ⟨c, -, hcb⟩ := Relation.TransGen.tail'_iff.mp hab
  rw [Succeeds, htb, Option.bind_some, (h tb (List.mem_of_getElem? htb)).2] at hcb
  cases hcb

theorem riyadh_sound : (riyadhStore 0).Sound := by
  apply RenewalStore.sound_fresh
  all_goals
    intro t ht
    obtain rfl : t = riyadh 0 := List.mem_singleton.mp ht
  · exact ⟨rfl, rfl⟩
  · intro e he
    obtain rfl := Option.some.inj he
    decide

theorem renewal_chain_riyadh :
    Tx.Always RenewalStore.chainAct RenewalStore.Sound (riyadhStore 0) [.cron december] ∧
      Tx.EachStep RenewalStore.chainAct RenewalStore.ChainLaw (riyadhStore 0) [.cron december] := by
  apply (renewal_chain_iff riyadh_sound _).mpr
  change Tx.EachStep _ _ _ ([] ++ [ChainAction.cron december])
  rw [Tx.eachStep_concat]
  refine ⟨Tx.eachStep_nil, ?_⟩
  intro i hi t ht e start stop he hstart _
  obtain rfl : t = riyadh 0 := List.mem_singleton.mp (List.mem_of_getElem? ht)
  obtain rfl := Option.some.inj he
  have hnext : tomorrow ⟨2025, 12, 31, by omega, by omega, by decide⟩ =
      some (newYear 2026 (by omega)) := by decide
  obtain rfl := Option.some.inj (hstart.symm.trans hnext)
  refine ⟨by decide, by decide +kernel, ?_⟩
  intro k t _ hk
  obtain rfl : t = riyadh 0 := List.mem_singleton.mp (List.mem_of_getElem? hk)
  exact Or.inr ⟨_, rfl, by decide⟩

/-- A tenancy without an end date. -/
def openStore : RenewalStore where
  tenancies := [{ riyadh 0 with endDate := none }]
  frozen := fun _ => false

/-- Where the tenancy has no end date, the date of the wizard is dropped. -/
theorem chosen_start_ignored : ¬ ∀ s : RenewalStore, s.Sound → ∀ actions,
    Tx.Always RenewalStore.chainAct RenewalStore.Sound s actions ∧
      Tx.EachStep RenewalStore.chainAct RenewalStore.ChainLaw s actions := by
  intro hall
  have hsound : openStore.Sound := by
    apply RenewalStore.sound_fresh
    all_goals
      intro t ht
      obtain rfl : t = { riyadh 0 with endDate := none } := List.mem_singleton.mp ht
    · exact ⟨rfl, rfl⟩
    · intro e he
      cases he
  have hlaw := (hall openStore hsound [.wizard 0 doubled december]).2 [] _ List.prefix_rfl
  have hstart : (openStore.confirm 0 doubled december).tenancies[1]?.map
      (fun t => (t.startDate, t.renewedFrom)) = some (december, some 0) := by decide +kernel
  obtain ⟨t', ht', hrow⟩ := Option.map_eq_some_iff.mp hstart
  obtain ⟨hfirst, hfrom⟩ := Prod.mk.inj hrow
  have hchosen : doubled.newStartDate = some t'.startDate := hlaw _ rfl rfl 1 t' ht' hfrom
  rw [hfirst] at hchosen
  revert hchosen
  decide

end Rental
