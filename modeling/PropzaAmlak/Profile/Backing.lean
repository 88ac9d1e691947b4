import PropzaAmlak.Profile.Verification
import PropzaAmlak.Tx.Histories

/-! What stands behind the verified flag of a partner. -/

namespace Profile

namespace Registry

def Verified (s : Registry) (p k : Nat) : Prop :=
  k ∈ s.verifications.ids ∧ (s.verification k).partner = p ∧ (s.verification k).state = .verified

end Registry

/-- The identity of a partner is what was checked of the data. -/
def Identity.Shows (identity : Identity) (v : IdData) : Prop :=
  (∃ idType, v.idType.forPartner = some idType ∧ identity.idType = some idType) ∧
    identity.nationalId = some (String.ofList (normalizedNumber v.idNumber))

/-- Record `k` is what the identity of partner `p` rests on. -/
structure Registry.Backs (s : Registry) (p k : Nat) : Prop where
  verified : s.Verified p k
  shows : (s.partners p).Shows (s.verification k).toIdData

structure Registry.Backed (s : Registry) (p : Nat) : Prop where
  flag : (s.partners p).idVerified = true ↔ ∃ k, s.Verified p k
  stored : (s.partners p).idVerified = true → ∃ k, s.Backs p k

/-- A number in which there is nothing to leave out. -/
def Normal (number : String) : Prop := ∀ c ∈ number.toList, ¬isSeparator c

/-- The last of the records that the partner's identity is taken from. -/
def Registry.lastAccepted (s : Registry) (m : Moment) (ks : List Nat) (p : Nat) : Option Nat :=
  ks.reverse.find? fun k => (s.verification k).partner = p && (errors m.today (s.verification k).toIdData).isEmpty

/-- What keeps the flags backed: no record is reset, and no verified one is edited, that
the identity of its partner rests on alone, and no number with separators is verified. -/
def Allowed (s : Registry) : Action → Prop
  | .create _ _ => True
  | .edit k data => ∀ p, s.Verified p k → (s.partners p).Shows data ∨ ∃ j ≠ k, s.Backs p j
  | .submit m ks => (s.actionSubmit m ks).toOption.isSome →
      ∀ p, ∀ k ∈ s.lastAccepted m ks p, Normal (s.verification k).idNumber
  | .portal m p data => (s.submitVerification m p data).toOption.isSome →
      errors m.today { data with idNumber := String.ofList (Text.strip data.idNumber.toList) } = [] →
        Normal (String.ofList (Text.strip data.idNumber.toList))
  | .reset ks => (∀ k ∈ ks, k ∈ s.verifications.ids) → ∀ p, ∀ k ∈ ks, s.Verified p k → ∃ j ∉ ks, s.Backs p j

variable {s s' : Registry} {m : Moment} {ks : List Nat} {p k : Nat} {data : IdData}

theorem normal_iff {number : String} : Normal number ↔ normalizedNumber number = number.toList := by
  rw [normalizedNumber, List.filter_eq_self]
  simp [Normal]

theorem normal_normalized (number : String) : Normal (String.ofList (normalizedNumber number)) := by
  intro c hc
  rw [String.toList_ofList] at hc
  simpa using (List.mem_filter.mp hc).2

/-- What a partner gets from the data of a record. -/
structure Identity.TakenFrom (identity : Identity) (v : IdData) : Prop where
  idType : ∃ idType, v.idType.forPartner = some idType ∧ identity.idType = some idType
  nationalId : identity.nationalId = some v.idNumber
  idVerified : identity.idVerified = true

theorem takenFrom_of_ok {v : IdData} {identity : Identity} (h : identityOf v =
    .ok identity) : identity.TakenFrom v := by
  unfold identityOf at h
  cases htype : v.idType.forPartner with
  | none => simp [htype] at h
  | some idType =>
    cases hcheck : checkNationalId idType v.idNumber with
    | error fault => simp [htype, hcheck, bind, Except.bind] at h
    | ok u =>
      simp only [htype, hcheck, bind, Except.bind] at h
      obtain rfl := Except.ok.inj h
      exact ⟨⟨idType, htype, rfl⟩, rfl, rfl⟩

theorem Identity.TakenFrom.shows_iff {identity : Identity} {v : IdData} (h : identity.TakenFrom v) :
    identity.Shows v ↔ Normal v.idNumber := by
  rw [normal_iff, Identity.Shows, and_iff_right h.idType, h.nationalId, Option.some.injEq, ← String.toList_inj,
    String.toList_ofList]
  exact eq_comm

/-- What was verified with separators is shown by no data. -/
theorem Identity.TakenFrom.normal {identity : Identity} {v v' : IdData} (h : identity.TakenFrom v)
    (hshows : identity.Shows v') : Normal v.idNumber := by
  have hnumber := h.nationalId.symm.trans hshows.2
  rw [Option.some.inj hnumber]
  exact normal_normalized _

/-- What is left of the accepted and the rejected ones of `ks`. -/
structure Submitted (m : Moment) (s : Registry) (ks : List Nat) (s' : Registry) : Prop where
  ids : s'.verifications.ids = s.verifications.ids
  data : ∀ j, (s'.verification j).toIdData = (s.verification j).toIdData
  partner : ∀ j, (s'.verification j).partner = (s.verification j).partner
  kept : ∀ j ∉ ks, (s'.verification j).state = (s.verification j).state
  state : ∀ j ∈ ks, (s'.verification j).state =
    if errors m.today (s.verification j).toIdData = [] then .verified else .rejected
  here : ∀ j ∈ ks, j ∈ s.verifications.ids ∧ (s.verification j).state ≠ .verified
  same : ∀ p, s.lastAccepted m ks p = none → s'.partners p = s.partners p
  taken : ∀ p, ∀ k ∈ s.lastAccepted m ks p, (s'.partners p).TakenFrom (s.verification k).toIdData

theorem lastAccepted_concat (s : Registry) (m : Moment) (ks : List Nat) (k p : Nat) : s.lastAccepted m (ks ++ [k]) p =
    if (s.verification k).partner = p ∧ errors m.today (s.verification k).toIdData = [] then some k
    else s.lastAccepted m ks p := by
  unfold Registry.lastAccepted
  rw [List.reverse_append, List.reverse_singleton, List.singleton_append, List.find?_cons]
  by_cases hk : (s.verification k).partner = p ∧ errors m.today (s.verification k).toIdData = []
  · simp [hk.1, hk.2]
  · have hnot : (decide ((s.verification k).partner = p) && (errors m.today (s.verification k).toIdData).isEmpty) =
        false := by
      simpa using hk
    rw [hnot, if_neg hk]

/-- What a submission does to its record, and to the partner of an accepted one. -/
structure Decided (m : Moment) (s : Registry) (k : Nat) (s' : Registry) : Prop where
  mem : k ∈ s.verifications.ids
  notVerified : (s.verification k).state ≠ .verified
  row : ∃ f, s'.verifications = s.verifications.modify k f ∧ (f (s.verification k)).toIdData =
    (s.verification k).toIdData ∧
    (f (s.verification k)).partner = (s.verification k).partner ∧ (f (s.verification k)).state =
      if errors m.today (s.verification k).toIdData = [] then .verified else .rejected
  rejected : errors m.today (s.verification k).toIdData ≠ [] → s'.partners = s.partners
  accepted : errors m.today (s.verification k).toIdData = [] → ∃ identity : Identity,
    identity.TakenFrom (s.verification k).toIdData ∧
      s'.partners = Function.update s.partners (s.verification k).partner identity

theorem decided_of_submitOne (h : s.submitOne m k = .ok s') : Decided m s k s' := by
  unfold Registry.submitOne at h
  by_cases hmem : k ∈ s.verifications.ids
  · rw [if_neg (not_not.mpr hmem)] at h
    by_cases hstate : (s.verification k).state ≠ .draft ∧ (s.verification k).state ≠ .rejected
    · rw [if_pos hstate] at h
      simp at h
    · have hopen : (s.verification k).state ≠ .verified := by
        intro hverified
        simp [hverified] at hstate
      rw [if_neg hstate] at h
      simp only [Registry.autoVerify, Registry.verification, Table.modify_row_self, Table.modify_modify] at h
      by_cases herrors : errors m.today (s.verification k).toIdData = []
      · have hnone : errors m.today (s.verifications.row k).toIdData = [] := herrors
        rw [if_neg (not_not.mpr hnone)] at h
        cases hidentity : identityOf (s.verification k).toIdData with
        | error fault =>
          rw [Registry.verification] at hidentity
          simp [hidentity, bind, Except.bind] at h
        | ok identity =>
          have htaken := takenFrom_of_ok hidentity
          rw [Registry.verification] at hidentity
          simp only [hidentity, bind, Except.bind] at h
          obtain rfl := Except.ok.inj h
          refine ⟨hmem, hopen, ⟨_, rfl, rfl, rfl, ?_⟩, fun hnot => absurd herrors hnot,
            fun _ => ⟨identity, htaken, rfl⟩⟩
          rw [if_pos herrors]
          rfl
      · have hsome : errors m.today (s.verifications.row k).toIdData ≠ [] := herrors
        rw [if_pos hsome] at h
        obtain rfl := Except.ok.inj h
        refine ⟨hmem, hopen, ⟨_, rfl, rfl, rfl, ?_⟩, fun _ => rfl, fun hnone => absurd hnone herrors⟩
        rw [if_neg herrors]
        rfl
  · rw [if_pos hmem] at h
    simp at h

theorem Submitted.nil (m : Moment) (s : Registry) : Submitted m s [] s := by
  constructor <;> simp [Registry.lastAccepted]

theorem Decided.row_of_ne (hk : Decided m s k s') {j : Nat} (hj : j ≠ k) : s'.verification j = s.verification j := by
  obtain ⟨f, hrows, -⟩ := hk.row
  rw [Registry.verification, hrows, Table.modify_row, if_neg hj]
  rfl

theorem Decided.row_self (hk : Decided m s k s') : (s'.verification k).toIdData = (s.verification k).toIdData ∧
    (s'.verification k).partner = (s.verification k).partner ∧ (s'.verification k).state =
      if errors m.today (s.verification k).toIdData = [] then .verified else .rejected := by
  obtain ⟨f, hrows, hrow⟩ := hk.row
  rw [Registry.verification, hrows, Table.modify_row_self]
  exact hrow

/-- The partners for whom nothing was accepted are as they were. -/
theorem Decided.partners_of_not (hk : Decided m s k s') {p : Nat}
    (hother : ¬((s.verification k).partner = p ∧ errors m.today (s.verification k).toIdData = [])) :
    s'.partners p = s.partners p := by
  by_cases herrors : errors m.today (s.verification k).toIdData = []
  · obtain ⟨identity, -, hpartners⟩ := hk.accepted herrors
    have hne : p ≠ (s.verification k).partner := fun hp => hother ⟨hp.symm, herrors⟩
    rw [hpartners, Function.update_of_ne hne]
  · rw [hk.rejected herrors]

theorem Submitted.concat {s₁ : Registry} (h : Submitted m s ks s₁) (hk : Decided m s₁ k s') :
    Submitted m s (ks ++ [k]) s' where
  ids := by
    obtain ⟨f, hrows, -⟩ := hk.row
    rw [hrows, Table.modify_ids, h.ids]
  data j := by
    by_cases hj : j = k
    · rw [hj, hk.row_self.1, h.data]
    · rw [hk.row_of_ne hj, h.data]
  partner j := by
    by_cases hj : j = k
    · rw [hj, hk.row_self.2.1, h.partner]
    · rw [hk.row_of_ne hj, h.partner]
  kept j hj := by
    simp only [List.mem_append, List.mem_singleton, not_or] at hj
    rw [hk.row_of_ne hj.2, h.kept j hj.1]
  state j hj := by
    by_cases hjk : j = k
    · rw [hjk, hk.row_self.2.2, h.data]
    · have hold : j ∈ ks := by simpa [hjk] using hj
      rw [hk.row_of_ne hjk, h.state j hold]
  here j hj := by
    by_cases hold : j ∈ ks
    · exact h.here j hold
    · obtain rfl : j = k := by simpa [hold] using hj
      rw [← h.ids, ← h.kept j hold]
      exact ⟨hk.mem, hk.notVerified⟩
  same p hnone := by
    rw [lastAccepted_concat] at hnone
    split at hnone
    · cases hnone
    · rename_i hother
      rw [← h.data, ← h.partner] at hother
      exact (hk.partners_of_not hother).trans (h.same p hnone)
  taken p j hlast := by
    rw [lastAccepted_concat] at hlast
    split at hlast
    · rename_i hthis
      rw [← h.data, ← h.partner] at hthis
      obtain rfl := Option.some.inj hlast
      obtain ⟨identity, htaken, hpartners⟩ := hk.accepted hthis.2
      rw [hpartners, ← hthis.1, Function.update_self, ← h.data]
      exact htaken
    · rename_i hother
      rw [← h.data, ← h.partner] at hother
      rw [hk.partners_of_not hother]
      exact h.taken p j hlast

theorem submitted_of_ok (h : s.actionSubmit m ks = .ok s') : Submitted m s ks s' := by
  induction ks using List.reverseRecOn generalizing s' with
  | nil =>
    obtain rfl := Except.ok.inj h
    exact .nil m s
  | append_singleton ks k ih =>
    rw [Registry.actionSubmit, List.foldlM_append] at h
    cases hbefore : ks.foldlM (Registry.submitOne m) s with
    | error fault => simp [hbefore, bind, Except.bind] at h
    | ok s₁ =>
      have hlast : (s₁.submitOne m k >>= pure) = .ok s' := by
        rw [hbefore] at h
        exact h
      rw [bind_pure] at hlast
      exact (ih hbefore).concat (decided_of_submitOne hlast)

/-- A partner is backed as before where its fields and its verified records are the same. -/
theorem Registry.Backed.congr (h : s.Backed p) (hpartner : s'.partners p = s.partners p)
    (hverified : ∀ j, s'.Verified p j ↔ s.Verified p j)
    (hdata : ∀ j, s.Verified p j → (s'.verification j).toIdData = (s.verification j).toIdData) : s'.Backed p := by
  constructor
  · rw [hpartner, h.flag]
    simp only [hverified]
  · intro hflag
    rw [hpartner] at hflag
    obtain ⟨j, hj⟩ := h.stored hflag
    refine ⟨j, (hverified j).mpr hj.verified, ?_⟩
    rw [hpartner, hdata j hj.verified]
    exact hj.shows

theorem backed_create (h : ∀ p, s.Backed p) (q : Nat) (data : IdData) : ∀ p, (s.create q data).Backed p := by
  intro p
  have hold : ∀ j ∈ s.verifications.ids, (s.create q data).verification j = s.verification j :=
    fun j hj => Table.insert_row_of_mem hj
  have hnew : ((s.create q data).verification s.verifications.next).state = .draft := by
    rw [Registry.create, Registry.verification, Table.insert_row_next]
  refine (h p).congr rfl (fun j => ?_) (fun j hj => by rw [hold j hj.1])
  have hmem : j ∈ (s.create q data).verifications.ids ↔ j = s.verifications.next ∨ j ∈ s.verifications.ids :=
    Table.mem_insert
  unfold Registry.Verified
  rw [hmem]
  constructor
  · rintro ⟨rfl | hj, hpartner, hstate⟩
    · rw [hnew] at hstate
      cases hstate
    · rw [hold j hj] at hpartner hstate
      exact ⟨hj, hpartner, hstate⟩
  · rintro ⟨hj, hpartner, hstate⟩
    rw [hold j hj]
    exact ⟨.inr hj, hpartner, hstate⟩

theorem backed_edit_iff (h : ∀ p, s.Backed p) (k : Nat) (data : IdData) : (∀ p, (s.edit k data).Backed p) ↔
    ∀ p, s.Verified p k → (s.partners p).Shows data ∨ ∃ j ≠ k, s.Backs p j := by
  have hrow : ∀ j, (s.edit k data).verification j =
      if j = k then { s.verification k with toIdData := data } else s.verification j :=
    Table.modify_row s.verifications k fun v => { v with toIdData := data }
  have hverified : ∀ p j, (s.edit k data).Verified p j ↔ s.Verified p j := by
    intro p j
    unfold Registry.Verified
    rw [hrow]
    split
    · rename_i hj
      rw [hj]
      rfl
    · rfl
  have hself : ((s.edit k data).verification k).toIdData = data := by rw [hrow, if_pos rfl]
  have hother : ∀ j ≠ k, (s.edit k data).verification j = s.verification j := fun j hj => by rw [hrow, if_neg hj]
  constructor
  · intro hedit p hk
    have hflag := (h p).flag.mpr ⟨k, hk⟩
    obtain ⟨j, hj⟩ := (hedit p).stored hflag
    by_cases hjk : j = k
    · have hshows := hj.shows
      rw [hjk, hself] at hshows
      exact .inl hshows
    · have hshows := hj.shows
      rw [hother j hjk] at hshows
      exact .inr ⟨j, hjk, (hverified p j).mp hj.verified, hshows⟩
  · intro hallowed p
    by_cases hk : s.Verified p k
    · refine ⟨?_, fun hflag => ?_⟩
      · simp only [hverified]
        exact (h p).flag
      · rcases hallowed p hk with hshows | ⟨j, hjk, hj⟩
        · refine ⟨k, (hverified p k).mpr hk, ?_⟩
          rw [hself]
          exact hshows
        · refine ⟨j, (hverified p j).mpr hj.verified, ?_⟩
          rw [hother j hjk]
          exact hj.shows
    · refine (h p).congr rfl (hverified p) (fun j hj => ?_)
      have hjk : j ≠ k := by
        rintro rfl
        exact hk hj
      rw [hother j hjk]

theorem modifyAll_row {t : Table Verification} (ks : List Nat) (j : Nat) :
    (ks.foldl (fun t k => t.modify k Registry.resetRow) t).row j =
      if j ∈ ks then Registry.resetRow (t.row j) else t.row j := by
  induction ks using List.reverseRecOn with
  | nil => simp
  | append_singleton ks k ih =>
    rw [List.foldl_append]
    simp only [List.foldl_cons, List.foldl_nil, Table.modify_row]
    split
    · rename_i hjk
      subst hjk
      rw [ih]
      split <;> simp_all [Registry.resetRow]
    · rename_i hjk
      simp [ih, hjk]

theorem modifyAll_ids {t : Table Verification} (ks : List Nat) :
    (ks.foldl (fun t k => t.modify k Registry.resetRow) t).ids = t.ids := by
  induction ks using List.reverseRecOn with
  | nil => rfl
  | append_singleton ks k ih =>
    rw [List.foldl_append]
    exact ih

theorem actionReset_ok (h : s.actionReset ks = .ok s') : s'.partners = s.partners ∧
    ∀ p j, (s'.Verified p j ↔ s.Verified p j ∧ j ∉ ks) ∧ (j ∉ ks → s'.verification j = s.verification j) := by
  unfold Registry.actionReset at h
  split at h
  · obtain rfl := Except.ok.inj h
    refine ⟨rfl, fun p j => ?_⟩
    have hrow := modifyAll_row (t := s.verifications) ks j
    by_cases hj : j ∈ ks
    · rw [if_pos hj] at hrow
      refine ⟨?_, fun hnot => absurd hj hnot⟩
      unfold Registry.Verified Registry.verification
      rw [hrow]
      simp [Registry.resetRow, hj]
    · rw [if_neg hj] at hrow
      refine ⟨?_, fun _ => hrow⟩
      unfold Registry.Verified Registry.verification
      rw [hrow, modifyAll_ids]
      simp [hj]
  · cases h

theorem backed_reset_iff (h : ∀ p, s.Backed p) (hreset : s.actionReset ks = .ok s') : (∀ p, s'.Backed p) ↔
    ∀ p, ∀ k ∈ ks, s.Verified p k → ∃ j ∉ ks, s.Backs p j := by
  obtain ⟨hpartners, hrows⟩ := actionReset_ok hreset
  have hbacks : ∀ p j, s'.Backs p j ↔ j ∉ ks ∧ s.Backs p j := by
    intro p j
    obtain ⟨hverified, hrow⟩ := hrows p j
    constructor
    · intro hj
      obtain ⟨hold, hnot⟩ := hverified.mp hj.verified
      have hshows := hj.shows
      rw [hpartners, hrow hnot] at hshows
      exact ⟨hnot, hold, hshows⟩
    · rintro ⟨hnot, hj⟩
      refine ⟨hverified.mpr ⟨hj.verified, hnot⟩, ?_⟩
      rw [hpartners, hrow hnot]
      exact hj.shows
  constructor
  · intro hafter p k _ hk
    have hflag := (h p).flag.mpr ⟨k, hk⟩
    obtain ⟨j, hj⟩ := (hafter p).stored (by rwa [hpartners])
    exact ⟨j, (hbacks p j).mp hj⟩
  · intro hallowed p
    have hstored : (s.partners p).idVerified = true → ∃ j, s'.Backs p j := by
      intro hflag
      obtain ⟨k, hk⟩ := (h p).stored hflag
      by_cases hmem : k ∈ ks
      · obtain ⟨j, hj⟩ := hallowed p k hmem hk.verified
        exact ⟨j, (hbacks p j).mpr hj⟩
      · exact ⟨k, (hbacks p k).mpr ⟨hmem, hk⟩⟩
    refine ⟨?_, by rwa [hpartners]⟩
    rw [hpartners]
    constructor
    · intro hflag
      obtain ⟨j, hj⟩ := hstored hflag
      exact ⟨j, hj.verified⟩
    · rintro ⟨j, hj⟩
      exact (h p).flag.mpr ⟨j, ((hrows p j).1.mp hj).1⟩

theorem backed_submit_iff (h : ∀ p, s.Backed p) (hsubmit : Submitted m s ks s') : (∀ p, s'.Backed p) ↔
    ∀ p, ∀ k ∈ s.lastAccepted m ks p, Normal (s.verification k).idNumber := by
  have hverified : ∀ p j, s'.Verified p j ↔
      s.Verified p j ∨ j ∈ ks ∧ (s.verification j).partner = p ∧ errors m.today (s.verification j).toIdData = [] := by
    intro p j
    unfold Registry.Verified
    rw [hsubmit.ids, hsubmit.partner]
    by_cases hj : j ∈ ks
    · obtain ⟨hmem, hopen⟩ := hsubmit.here j hj
      rw [hsubmit.state j hj]
      simp [hmem, hopen, hj]
    · rw [hsubmit.kept j hj]
      simp [hj]
  have hlast : ∀ p, ∀ k ∈ s.lastAccepted m ks p, s'.Verified p k := by
    intro p k hk
    have hmem := List.mem_reverse.mp (List.mem_of_find?_eq_some hk)
    have hthis := List.find?_some hk
    simp only [Bool.and_eq_true, decide_eq_true_eq, List.isEmpty_iff] at hthis
    exact (hverified p k).mpr (.inr ⟨hmem, hthis⟩)
  constructor
  · intro hafter p k hk
    have htaken := hsubmit.taken p k hk
    obtain ⟨j, hj⟩ := (hafter p).stored htaken.idVerified
    exact htaken.normal hj.shows
  · intro hnormal p
    cases hk : s.lastAccepted m ks p with
    | none =>
      refine (h p).congr (hsubmit.same p hk) (fun j => ?_) (fun j _ => hsubmit.data j)
      rw [hverified]
      refine or_iff_left ?_
      rintro ⟨hj, hpartner, herrors⟩
      have hnot := List.find?_eq_none.mp hk j (List.mem_reverse.mpr hj)
      simp [hpartner, herrors] at hnot
    | some k =>
      have htaken := hsubmit.taken p k hk
      have hbacks : s'.Backs p k := by
        refine ⟨hlast p k hk, ?_⟩
        rw [hsubmit.data]
        exact htaken.shows_iff.mpr (hnormal p k hk)
      refine ⟨?_, fun _ => ⟨k, hbacks⟩⟩
      rw [htaken.idVerified]
      exact ⟨fun _ => ⟨k, hbacks.verified⟩, fun _ => rfl⟩


theorem allowed_submit_iff (h : ∀ p, s.Backed p) : Allowed s (.submit m ks) ↔ ∀ p, (act s (.submit m ks)).Backed p := by
  cases hsubmit : s.actionSubmit m ks with
  | error fault => simp [Allowed, act, hsubmit, Except.toOption, h]
  | ok s' =>
    have hnext : act s (.submit m ks) = s' := by simp [act, hsubmit, Except.toOption]
    rw [hnext, backed_submit_iff h (submitted_of_ok hsubmit)]
    simp [Allowed, hsubmit, Except.toOption]

theorem allowed_portal_iff (h : ∀ p, s.Backed p) (q : Nat) (data : IdData) :
    Allowed s (.portal m q data) ↔ ∀ p, (act s (.portal m q data)).Backed p := by
  rw [Allowed, act]
  unfold Registry.submitVerification
  by_cases hempty : String.ofList (Text.strip data.idNumber.toList) = ""
  · simp [hempty, Normal, Except.toOption, h]
  · simp only [hempty, if_false]
    generalize hnew : ({ data with idNumber := String.ofList (Text.strip data.idNumber.toList) } : IdData) = given
    have hnumber : String.ofList (Text.strip data.idNumber.toList) = given.idNumber := by rw [← hnew]
    rw [hnumber]
    cases hsubmit : (s.create q given).actionSubmit m [s.verifications.next] with
    | error fault => simp [Except.toOption, h]
    | ok s' =>
      have hrow : (s.create q given).verification s.verifications.next = { given with partner := q } :=
        Table.insert_row_next
      have hlast : ∀ p, (s.create q given).lastAccepted m [s.verifications.next] p =
          if q = p ∧ errors m.today given = [] then some s.verifications.next else none := by
        intro p
        have hconcat := lastAccepted_concat (s.create q given) m [] s.verifications.next p
        rw [hrow] at hconcat
        exact hconcat
      simp only [Except.toOption, Option.getD_some, Option.isSome_some, true_imp_iff]
      rw [backed_submit_iff (backed_create h q given) (submitted_of_ok hsubmit)]
      simp only [hlast]
      constructor
      · intro hnormal p k hk
        split at hk
        · rename_i hthis
          obtain rfl := Option.some.inj hk
          rw [hrow]
          exact hnormal hthis.2
        · cases hk
      · intro hnormal herrors
        have hthis := hnormal q s.verifications.next (by simp [herrors])
        rwa [hrow] at hthis

theorem allowed_iff (a : Action) (h : ∀ p, s.Backed p) : Allowed s a ↔ ∀ p, (act s a).Backed p := by
  cases a with
  | create q data => exact ⟨fun _ => backed_create h q data, fun _ => trivial⟩
  | edit k data =>
    by_cases hk : k ∈ s.verifications.ids
    · rw [act, if_pos hk, backed_edit_iff h, Allowed]
    · rw [act, if_neg hk]
      exact ⟨fun _ => h, fun _ p hverified => absurd hverified.1 hk⟩
  | submit m ks => exact allowed_submit_iff h
  | portal m q data => exact allowed_portal_iff h q data
  | reset ks =>
    cases hreset : s.actionReset ks with
    | error fault =>
      have hmissing : ¬∀ k ∈ ks, k ∈ s.verifications.ids := by
        intro hall
        rw [Registry.actionReset, if_pos hall] at hreset
        cases hreset
      rw [Allowed, act, hreset]
      exact ⟨fun _ => h, fun _ hall => absurd hall hmissing⟩
    | ok s' =>
      have hall : ∀ k ∈ ks, k ∈ s.verifications.ids := by
        by_contra hnot
        rw [Registry.actionReset, if_neg hnot] at hreset
        cases hreset
      have hnext : act s (.reset ks) = s' := by rw [act, hreset]; rfl
      rw [hnext, backed_reset_iff h hreset, Allowed]
      exact ⟨fun hallowed => hallowed hall, fun hallowed _ => hallowed⟩

/-- In every state on the way all flags are backed exactly if every action is allowed. -/
theorem backed_iff (s : Registry) (actions : List Action) (h : ∀ p, s.Backed p) :
    Tx.Always act (fun s => ∀ p, s.Backed p) s actions ↔ Tx.EachStep act Allowed s actions :=
  Tx.always_iff (fun _ a hbacked => allowed_iff a hbacked) h

def noVerifications : Registry :=
  ⟨.empty fun _ => { idType := .iqama, idNumber := "", partner := 0 }, fun _ => {}⟩

theorem noVerifications_backed (p : Nat) : noVerifications.Backed p := by
  have hnone : ∀ k, ¬noVerifications.Verified p k := by
    intro k hk
    simp [Registry.Verified, noVerifications, Table.empty] at hk
  constructor
  · constructor
    · intro hflag
      cases hflag
    · rintro ⟨k, hk⟩
      exact absurd hk (hnone k)
  · intro hflag
    cases hflag

def sampleDay : Moment := ⟨0, .january1⟩

def iqamaData (number : String) : IdData := { idType := .iqama, idNumber := number, idScan := true }

theorem backed_twoRecords :
    Tx.Always act (fun s => ∀ p, s.Backed p) noVerifications
        [.portal sampleDay 7 (iqamaData "2123456789"), .create 7 (iqamaData "2123456789"), .submit sampleDay [1],
          .reset [0]] ↔
      Tx.EachStep act Allowed noVerifications
        [.portal sampleDay 7 (iqamaData "2123456789"), .create 7 (iqamaData "2123456789"), .submit sampleDay [1],
          .reset [0]] :=
  backed_iff noVerifications _ noVerifications_backed

/-- The flag stays when the only verified record is reset. -/
theorem flag_survives_reset : ¬∀ (s : Registry) (actions : List Action), (∀ p, s.Backed p) →
    Tx.Always act (fun s => ∀ p, s.Backed p) s actions := by
  intro h
  have hafter := h noVerifications [.portal sampleDay 7 (iqamaData "2123456789"), .reset [0]] noVerifications_backed _
    List.prefix_rfl 7
  have hflag : ((Tx.after act noVerifications
      [.portal sampleDay 7 (iqamaData "2123456789"), .reset [0]]).partners 7).idVerified = true := by decide
  have hids : (Tx.after act noVerifications
      [.portal sampleDay 7 (iqamaData "2123456789"), .reset [0]]).verifications.ids = {0} := by decide
  obtain ⟨k, hmem, -, hstate⟩ := hafter.flag.mp hflag
  rw [hids, Finset.mem_singleton] at hmem
  subst hmem
  exact absurd hstate (by decide)

end Profile
