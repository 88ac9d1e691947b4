import PropzaAmlak.Rental.Renewal
import Mathlib.Data.List.Infix

/-! What a renewal makes of the terms of the lease: the rent under a freeze, and
the fields that decide the tax and the billing. -/

namespace Rental

structure Tax where
  name : String
  amount : ℚ
  sale : Bool
  active : Bool

/-- `('name', 'ilike', pattern)` -/
def Tax.named (tax : Tax) (pattern : String) : Bool :=
  decide (pattern.toList.map Char.toLower <:+: tax.name.toList.map Char.toLower)

/-- `_get_tax_for_tenancy` over the taxes in their order -/
def getTax (taxes : List Tax) (contractType : ContractType) : Option Tax :=
  let found (amount : ℚ) (pattern : String) : Option Tax :=
    taxes.find? fun tax => tax.amount = amount && tax.sale && tax.active && tax.named pattern
  match contractType with
  | .commercial => found 15 ""
  | .residential => (found 0 "EX S").or (found 0 "EX")

/-- How a tenancy is renewed. -/
inductive RenewalPath where
  | auto
  | wizard (w : RenewalWizard)

/-- The rent the renewal asks for under a freeze. -/
def RenewalPath.rent (t : TenancyRecord) : RenewalPath → ℚ
  | .auto => t.rentAmount
  | .wizard w => w.newRent

namespace RenewalStore

variable {s s' : RenewalStore} {i id : Nat} {t t' : TenancyRecord} {today : Date} {request : RenewalRequest}
  {failure : Option FailurePoint} {w : RenewalWizard}

def renewed (s : RenewalStore) (i : Nat) (t : TenancyRecord) (today : Date) :
    RenewalPath → Except RenewalError RenewalStore
  | .auto => committed (s.doRenewal i t today {} none)
  | .wizard w => s.actionRenew i t w today

/-- The renewal gets as far as the check of the freeze. -/
def Reaches (s : RenewalStore) (t : TenancyRecord) (today : Date) (request : RenewalRequest) : Prop :=
  t.renewedTo = none ∧ ∃ vals, t.build (s.frozen t.property) today request = some vals ∧
    ¬ vals.endDate < vals.startDate

theorem check_successor (vals : RenewalVals) (frozen : Bool) : (t.successor i vals).check frozen =
    if vals.endDate < vals.startDate then some .dates
    else if frozen ∧ 0 < t.renewalRentIncreasePct then some .rentFreeze else none := by
  show (if decide (vals.endDate < vals.startDate) = true then some RenewalError.dates else _) = _
  by_cases h : vals.endDate < vals.startDate
  · rw [if_pos (decide_eq_true h), if_pos h]
  · have hnot : ¬ decide (vals.endDate < vals.startDate) = true := by simpa using h
    rw [if_neg hnot, if_neg h]
    rfl

theorem committed_ok {result : RenewalStore × Except RenewalError Nat} (h : committed result = .ok s') :
    ∃ id, result = (s', .ok id) := by
  obtain ⟨made, outcome⟩ := result
  cases outcome with
  | error e => cases h
  | ok id =>
    obtain rfl : made = s' := Except.ok.inj h
    exact ⟨id, rfl⟩

theorem doRenewal_ok (h : s.doRenewal i t today request none = (s', .ok id)) : ∃ vals,
    t.build (s.frozen t.property) today request = some vals ∧ ¬ vals.endDate < vals.startDate ∧
      t.renewedTo = none ∧ ¬ (s.frozen t.property ∧ 0 < t.renewalRentIncreasePct) ∧
      s' = (s.insert (t.successor i vals)).link i t s.tenancies.length := by
  unfold doRenewal at h
  by_cases hrenewed : t.renewedTo.isSome
  · simp [hrenewed] at h
  rw [if_neg hrenewed] at h
  cases hbuild : t.build (s.frozen t.property) today request with
  | none => simp [hbuild] at h
  | some vals =>
    simp only [hbuild, reduceCtorEq, if_false, check_successor] at h
    by_cases hdates : vals.endDate < vals.startDate
    · simp [hdates] at h
    by_cases hfreeze : s.frozen t.property ∧ 0 < t.renewalRentIncreasePct
    · simp [hdates, hfreeze] at h
    · simp only [hdates, hfreeze, if_false, Prod.mk.injEq] at h
      exact ⟨vals, rfl, hdates, by simpa using hrenewed, hfreeze, h.1.symm⟩

theorem doRenewal_reaches (h : s.Reaches t today request) :
    (s.doRenewal i t today request none).2 = if s.frozen t.property ∧ 0 < t.renewalRentIncreasePct then
      .error .rentFreeze else .ok s.tenancies.length := by
  obtain ⟨hrenewed, vals, hbuild, hdates⟩ := h
  unfold doRenewal
  simp only [hrenewed, Option.isSome_none, Bool.false_eq_true, if_false, hbuild, reduceCtorEq, check_successor, hdates]
  by_cases hfreeze : s.frozen t.property ∧ 0 < t.renewalRentIncreasePct
  · simp [hfreeze]
  · simp [hfreeze]

theorem doRenewal_not_reaches (h : ¬ s.Reaches t today request) :
    ∃ e, (s.doRenewal i t today request none).2 = .error e ∧ e.freezes = false := by
  unfold doRenewal
  by_cases hrenewed : t.renewedTo.isSome
  · exact ⟨.alreadyRenewed, by simp [hrenewed], rfl⟩
  rw [if_neg hrenewed]
  cases hbuild : t.build (s.frozen t.property) today request with
  | none => exact ⟨.outOfRange, by simp, rfl⟩
  | some vals =>
    have hdates : vals.endDate < vals.startDate := by
      by_contra hnot
      exact h ⟨by simpa using hrenewed, vals, hbuild, hnot⟩
    exact ⟨.dates, by simp [check_successor, hdates], rfl⟩

theorem insert_link_last (ht : s.tenancies[i]? = some t) (t' : TenancyRecord) :
    ((s.insert t').link i t s.tenancies.length).tenancies[s.tenancies.length]? = some t' := by
  obtain ⟨hi, -⟩ := List.getElem?_eq_some_iff.mp ht
  simp [insert, link, hi.ne]

/-- Under a freeze no renewal raises the rent, and one that keeps it is not refused for the freeze. -/
structure KeepsFreeze (s : RenewalStore) (i : Nat) (t : TenancyRecord) (today : Date) (path : RenewalPath) : Prop where
  capped : ∀ s', s.renewed i t today path = .ok s' →
    ∀ t', s'.tenancies[s.tenancies.length]? = some t' → t'.rentAmount ≤ t.rentAmount
  unblocked : path.rent t = t.rentAmount → ∀ e, s.renewed i t today path = .error e → e.freezes = false

/-- The percentages and the rent asked for under which the freeze is kept. -/
def Moderate (s : RenewalStore) (t : TenancyRecord) (today : Date) : RenewalPath → Prop
  | .auto => s.Reaches t today {} → t.renewalRentIncreasePct ≤ 0
  | .wizard w =>
    if 0 < w.rentIncreasePct then w.newRent ≠ t.rentAmount
    else
      0 < w.newRent → w.newStartDate ≠ none → w.periodMonths ≠ 0 →
      s.Reaches t today ⟨some w.newRent, w.periodMonths, w.newStartDate⟩ →
        if 0 < t.renewalRentIncreasePct then w.newRent ≠ t.rentAmount else w.newRent ≤ t.rentAmount

theorem build_rent {frozen : Bool} {vals : RenewalVals} (h : t.build frozen today request = some vals) :
    vals.rentAmount = request.newRent.getD
      (t.rentAmount * (1 + (if frozen then 0 else t.renewalRentIncreasePct) / 100)) := by
  obtain ⟨startDate, -, h⟩ := Option.bind_eq_some_iff.mp h
  obtain ⟨endDate, -, rfl⟩ := Option.map_eq_some_iff.mp h
  rfl

theorem successor_rent (ht : s.tenancies[i]? = some t) (hfrozen : s.frozen t.property)
    (h : s.doRenewal i t today request none = (s', .ok id))
    (ht' : s'.tenancies[s.tenancies.length]? = some t') : t'.rentAmount = request.newRent.getD t.rentAmount := by
  obtain ⟨vals, hbuild, -, -, -, rfl⟩ := doRenewal_ok h
  rw [insert_link_last ht] at ht'
  obtain rfl := Option.some.inj ht'
  have hrent := build_rent hbuild
  rw [hfrozen] at hrent
  simpa [TenancyRecord.successor] using hrent

theorem committed_keepsFreeze (ht : s.tenancies[i]? = some t) (hfrozen : s.frozen t.property) (today : Date)
    (request : RenewalRequest) :
    ((∀ s', committed (s.doRenewal i t today request none) = .ok s' →
        ∀ t', s'.tenancies[s.tenancies.length]? = some t' → t'.rentAmount ≤ t.rentAmount) ∧
      (request.newRent.getD t.rentAmount = t.rentAmount →
        ∀ e, committed (s.doRenewal i t today request none) = .error e → e.freezes = false)) ↔
    (s.Reaches t today request →
      if 0 < t.renewalRentIncreasePct then request.newRent.getD t.rentAmount ≠ t.rentAmount
      else request.newRent.getD t.rentAmount ≤ t.rentAmount) := by
  by_cases hreaches : s.Reaches t today request
  · have hresult := doRenewal_reaches (i := i) hreaches
    simp only [hfrozen, true_and] at hresult
    by_cases hpct : 0 < t.renewalRentIncreasePct
    · have herror : committed (s.doRenewal i t today request none) = .error .rentFreeze := by
        rw [if_pos hpct] at hresult
        rw [committed, hresult]
      simp only [hreaches, hpct, if_true, true_imp_iff, herror]
      constructor
      · rintro ⟨-, hfree⟩ hsame
        exact absurd (hfree hsame _ rfl) (by decide)
      · intro hraised
        exact ⟨fun s' hs' => (by cases hs'), fun hsame => absurd hsame hraised⟩
    · rw [if_neg hpct] at hresult
      have hpair : s.doRenewal i t today request none =
          ((s.doRenewal i t today request none).1, .ok s.tenancies.length) := by
        rw [← hresult]
      have hok : committed (s.doRenewal i t today request none) = .ok (s.doRenewal i t today request none).1 := by
        rw [committed, hresult]
      simp only [hreaches, hpct, if_false, true_imp_iff]
      constructor
      · rintro ⟨hcapped, -⟩
        obtain ⟨vals, hbuild, -, -, -, hmade⟩ := doRenewal_ok hpair
        have hlast : (s.doRenewal i t today request none).1.tenancies[s.tenancies.length]? =
            some (t.successor i vals) := by
          rw [hmade]
          exact insert_link_last ht _
        have hle := hcapped _ hok _ hlast
        rwa [successor_rent ht hfrozen hpair hlast] at hle
      · intro hle
        constructor
        · intro s' hs' t' ht'
          obtain ⟨id, hmade⟩ := committed_ok hs'
          rwa [successor_rent ht hfrozen hmade ht']
        · intro _ e he
          rw [hok] at he
          cases he
  · obtain ⟨e, he, hfree⟩ := doRenewal_not_reaches (i := i) hreaches
    have herror : committed (s.doRenewal i t today request none) = .error e := by rw [committed, he]
    simp only [hreaches, false_imp_iff, iff_true, herror]
    exact ⟨fun s' hs' => (by cases hs'), fun _ e' he' => Except.error.inj he' ▸ hfree⟩

end RenewalStore

theorem RenewalStore.keepsFreeze_of_error {s : RenewalStore} {i : Nat} {t : TenancyRecord} {today : Date}
    {path : RenewalPath} {e : RenewalError} (he : s.renewed i t today path = .error e)
    (hfree : path.rent t = t.rentAmount → e.freezes = false) : s.KeepsFreeze i t today path := by
  constructor
  · intro s' hs'
    rw [he] at hs'
    cases hs'
  · intro hsame e' he'
    rw [he] at he'
    exact Except.error.inj he' ▸ hfree hsame

/-- One of the wizard's own checks refuses. -/
theorem RenewalStore.renewed_invalid {s : RenewalStore} (i : Nat) {t : TenancyRecord} (today : Date)
    {w : RenewalWizard} (hcalm : ¬ (s.frozen t.property ∧ 0 < w.rentIncreasePct))
    (hvalid : ¬ (0 < w.newRent ∧ w.newStartDate ≠ none ∧ w.periodMonths ≠ 0)) :
    ∃ e, s.renewed i t today (.wizard w) = .error e ∧ e.freezes = false := by
  simp only [RenewalStore.renewed, RenewalStore.actionRenew, hcalm, if_false]
  by_cases hrent : w.newRent ≤ 0
  · exact ⟨.invalidRent, if_pos hrent, rfl⟩
  · have hmissing : w.newStartDate = none ∨ w.periodMonths = 0 := by
      by_contra hnot
      rw [not_or] at hnot
      exact hvalid ⟨not_le.mp hrent, hnot⟩
    exact ⟨.missingDates, by rw [if_neg hrent, if_pos hmissing], rfl⟩

/-- Under a freeze the successor's rent is capped, and an unchanged rent is never
refused for the freeze, just when the percentages and the new rent are moderate. -/
theorem rent_freeze_iff {s : RenewalStore} {i : Nat} {t : TenancyRecord} (ht : s.tenancies[i]? = some t)
    (hfrozen : s.frozen t.property) (today : Date) (path : RenewalPath) :
    s.KeepsFreeze i t today path ↔ s.Moderate t today path := by
  cases path with
  | auto =>
    have hiff := RenewalStore.committed_keepsFreeze ht hfrozen today {}
    constructor
    · rintro ⟨hcapped, hfree⟩ hreaches
      have hpct := hiff.mp ⟨hcapped, fun _ => hfree rfl⟩ hreaches
      by_contra hnot
      rw [if_pos (not_le.mp hnot)] at hpct
      exact hpct rfl
    · intro hpct
      have hkeeps := hiff.mpr fun hreaches => by
        rw [if_neg (not_lt.mpr (hpct hreaches))]
        exact le_rfl
      exact ⟨hkeeps.1, fun _ => hkeeps.2 rfl⟩
  | wizard w =>
    by_cases hpct : 0 < w.rentIncreasePct
    · have herror : s.renewed i t today (.wizard w) = .error .freezeWarning := if_pos ⟨hfrozen, hpct⟩
      simp only [RenewalStore.Moderate, hpct, if_true]
      constructor
      · rintro ⟨-, hfree⟩ hsame
        exact absurd (hfree hsame _ herror) (by decide)
      · intro hraised
        exact RenewalStore.keepsFreeze_of_error herror fun hsame => absurd hsame hraised
    · simp only [RenewalStore.Moderate, hpct, if_false]
      have hcalm : ¬ (s.frozen t.property ∧ 0 < w.rentIncreasePct) := fun h => hpct h.2
      by_cases hvalid : 0 < w.newRent ∧ w.newStartDate ≠ none ∧ w.periodMonths ≠ 0
      · obtain ⟨hrent, hstart, hperiod⟩ := hvalid
        have hresult : s.renewed i t today (.wizard w) = RenewalStore.committed
            (s.doRenewal i t today ⟨some w.newRent, w.periodMonths, w.newStartDate⟩ none) := by
          simp [RenewalStore.renewed, RenewalStore.actionRenew, hcalm, not_le.mpr hrent, hstart, hperiod]
        have hiff := RenewalStore.committed_keepsFreeze ht hfrozen today
          ⟨some w.newRent, w.periodMonths, w.newStartDate⟩
        simp only [hrent, hstart, hperiod, ne_eq, not_false_eq_true, true_imp_iff]
        rw [Option.getD_some] at hiff
        rw [← hiff]
        constructor
        · rintro ⟨hcapped, hfree⟩
          rw [hresult] at hcapped hfree
          exact ⟨hcapped, hfree⟩
        · rintro ⟨hcapped, hfree⟩
          rw [← hresult] at hcapped hfree
          exact ⟨hcapped, hfree⟩
      · obtain ⟨e, he, hfree⟩ := RenewalStore.renewed_invalid i today hcalm hvalid
        constructor
        · intro _ hrent hstart hperiod
          exact absurd ⟨hrent, hstart, hperiod⟩ hvalid
        · intro _
          exact RenewalStore.keepsFreeze_of_error he fun _ => hfree

def riyadh (pct : ℚ) : TenancyRecord where
  property := 1
  partner := 1
  startDate := .january1
  endDate := some .december31
  rentAmount := 1000
  state := .running
  autoRenew := true
  renewalRentIncreasePct := pct

def riyadhStore (pct : ℚ) : RenewalStore where
  tenancies := [riyadh pct]
  frozen := fun _ => true

def december : Date := .december15

/-- The percentage is left at nothing, and the new rent doubled. -/
def doubled : RenewalWizard where
  newStartDate := some .nextJanuary1
  periodMonths := 12
  rentIncreasePct := 0
  newRent := 2000

theorem reaches_of_build {s : RenewalStore} {t : TenancyRecord} {today : Date} {request : RenewalRequest}
    (hrenewed : t.renewedTo = none)
    (h : (t.build (s.frozen t.property) today request).any fun vals => ¬ vals.endDate < vals.startDate) :
    s.Reaches t today request := by
  cases hbuild : t.build (s.frozen t.property) today request with
  | none => simp [hbuild] at h
  | some vals => exact ⟨hrenewed, vals, hbuild, by simpa [hbuild] using h⟩

theorem rent_freeze_riyadh : ¬ (riyadhStore 5).KeepsFreeze 0 (riyadh 5) december .auto := by
  rw [rent_freeze_iff rfl rfl]
  intro hmoderate
  have hpct := hmoderate (reaches_of_build rfl (by decide +kernel))
  revert hpct
  decide +kernel

/-- The wizard looks at the percentage, not at the rent. -/
theorem frozen_rent_raised : ¬ ∀ (s : RenewalStore) (i : Nat) (t : TenancyRecord), s.tenancies[i]? = some t →
    s.frozen t.property → ∀ today path, s.KeepsFreeze i t today path := by
  intro hall
  have hkeeps := hall (riyadhStore 0) 0 (riyadh 0) rfl rfl december (.wizard doubled)
  have hmade : ((riyadhStore 0).renewed 0 (riyadh 0) december (.wizard doubled)).toOption.bind
      (fun s' => s'.tenancies[1]?.map TenancyRecord.rentAmount) = some 2000 := by decide +kernel
  cases hresult : (riyadhStore 0).renewed 0 (riyadh 0) december (.wizard doubled) with
  | error e => simp [hresult, Except.toOption] at hmade
  | ok s' =>
    obtain ⟨t', ht', hrent⟩ : ∃ t', s'.tenancies[1]? = some t' ∧ t'.rentAmount = 2000 := by
      simpa [hresult, Except.toOption] using hmade
    have hle := hkeeps.capped s' hresult t' ht'
    rw [hrent] at hle
    revert hle
    decide +kernel

/-- What of the lease the invoices and the contract depend on is as it was. -/
structure PreservesTerms (t t' : TenancyRecord) : Prop where
  property : t'.property = t.property
  partner : t'.partner = t.partner
  depositAmount : t'.depositAmount = t.depositAmount
  broker : t'.broker = t.broker
  contractType : t'.contractType = t.contractType
  paymentSchedule : t'.paymentSchedule = t.paymentSchedule
  identity : t'.identity = t.identity
  tax : ∀ taxes, getTax taxes t'.contractType = getTax taxes t.contractType
  period : t'.paymentSchedule.interval = t.paymentSchedule.interval

/-- The terms that a renewal leaves out have their default values. -/
structure DefaultTerms (t : TenancyRecord) : Prop where
  broker : t.broker = none
  contractType : t.contractType = .residential
  paymentSchedule : t.paymentSchedule = .annual
  identity : t.identity = {}

theorem successor_preserves_iff {t : TenancyRecord} {i : Nat} {frozen : Bool} {today : Date}
    {request : RenewalRequest} {vals : RenewalVals} (h : t.build frozen today request = some vals) :
    PreservesTerms t (t.successor i vals) ↔ DefaultTerms t := by
  have hdeposit : vals.depositAmount = t.depositAmount := by
    obtain ⟨startDate, -, h⟩ := Option.bind_eq_some_iff.mp h
    obtain ⟨endDate, -, rfl⟩ := Option.map_eq_some_iff.mp h
    rfl
  constructor
  · intro hkept
    exact ⟨hkept.broker.symm, hkept.contractType.symm, hkept.paymentSchedule.symm, hkept.identity.symm⟩
  · rintro ⟨hbroker, hcontract, hschedule, hidentity⟩
    exact
      { property := rfl
        partner := rfl
        depositAmount := hdeposit
        broker := hbroker.symm
        contractType := hcontract.symm
        paymentSchedule := hschedule.symm
        identity := hidentity.symm
        tax := fun taxes => by rw [hcontract]; rfl
        period := by rw [hschedule]; rfl }

/-- On either path a renewal preserves the terms of the lease just when those it
leaves out have their default values. -/
theorem lease_terms_preserved_iff {s : RenewalStore} {i : Nat} {t : TenancyRecord} (ht : s.tenancies[i]? = some t)
    (today : Date) (path : RenewalPath) :
    (∀ s', s.renewed i t today path = .ok s' →
      ∀ t', s'.tenancies[s.tenancies.length]? = some t' → PreservesTerms t t') ↔
    ((∃ s', s.renewed i t today path = .ok s') → DefaultTerms t) := by
  have hmade (s' : RenewalStore) (h : s.renewed i t today path = .ok s') : ∃ request vals,
      t.build (s.frozen t.property) today request = some vals ∧
        s'.tenancies[s.tenancies.length]? = some (t.successor i vals) := by
    obtain ⟨request, hcommitted⟩ : ∃ request, RenewalStore.committed (s.doRenewal i t today request none) = .ok s' := by
      cases path with
      | auto => exact ⟨{}, h⟩
      | wizard w =>
        refine ⟨⟨some w.newRent, w.periodMonths, w.newStartDate⟩, ?_⟩
        simp only [RenewalStore.renewed, RenewalStore.actionRenew] at h
        split at h
        · cases h
        split at h
        · cases h
        split at h
        · cases h
        exact h
    obtain ⟨id, hok⟩ := RenewalStore.committed_ok hcommitted
    obtain ⟨vals, hbuild, -, -, -, rfl⟩ := RenewalStore.doRenewal_ok hok
    exact ⟨request, vals, hbuild, RenewalStore.insert_link_last ht _⟩
  constructor
  · rintro hall ⟨s', h⟩
    obtain ⟨request, vals, hbuild, hlast⟩ := hmade s' h
    exact (successor_preserves_iff hbuild).mp (hall s' h _ hlast)
  · intro hdefault s' h t' ht'
    obtain ⟨request, vals, hbuild, hlast⟩ := hmade s' h
    obtain rfl := Option.some.inj (hlast.symm.trans ht')
    exact (successor_preserves_iff hbuild).mpr (hdefault ⟨s', h⟩)

/-- A shop, let by the month. -/
def shop : TenancyRecord := { riyadh 0 with contractType := .commercial, paymentSchedule := .monthly }

def shopStore : RenewalStore where
  tenancies := [shop]
  frozen := fun _ => false

theorem shop_renewed : ∃ s', shopStore.renewed 0 shop december .auto = .ok s' ∧
    ∃ t', s'.tenancies[1]? = some t' ∧ t'.contractType = .residential := by
  have hmade : (shopStore.renewed 0 shop december .auto).toOption.bind
      (fun s' => s'.tenancies[1]?.map TenancyRecord.contractType) = some .residential := by decide +kernel
  cases hresult : shopStore.renewed 0 shop december .auto with
  | error e => simp [hresult, Except.toOption] at hmade
  | ok s' => exact ⟨s', rfl, by simpa [hresult, Except.toOption] using hmade⟩

theorem lease_terms_preserved_shop : ¬ ∀ s', shopStore.renewed 0 shop december .auto = .ok s' →
    ∀ t', s'.tenancies[1]? = some t' → PreservesTerms shop t' := by
  obtain ⟨s', hs', -⟩ := shop_renewed
  have hiff := lease_terms_preserved_iff (s := shopStore) (i := 0) rfl december .auto
  intro hall
  have hdefault := hiff.mp hall ⟨s', hs'⟩
  exact absurd hdefault.contractType (by decide)

theorem lease_terms_lost : ¬ ∀ (s : RenewalStore) (i : Nat) (t : TenancyRecord), s.tenancies[i]? = some t →
    ∀ today path s', s.renewed i t today path = .ok s' →
      ∀ t', s'.tenancies[s.tenancies.length]? = some t' → PreservesTerms t t' := by
  intro hall
  obtain ⟨s', hs', t', ht', htype⟩ := shop_renewed
  have hkept := (hall shopStore 0 shop rfl december .auto s' hs' t' ht').contractType
  rw [htype] at hkept
  cases hkept

end Rental
