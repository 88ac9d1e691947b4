import PropzaAmlak.Submission.LiveJobs

/-! The rows of the jobs that run: each caller that carries out a job has one of its own,
and nobody else takes it from it. -/

namespace Ejar

open Tx

/-- The row of a job that runs. -/
def runs (uuid : String) (kind : JobKind) (v : World) : Prop :=
  ∃ row ∈ v.jobs, row.uuid = uuid ∧ row.kind = kind ∧ row.state = .started

section

variable {t : Task} {v w : World} {uuid : String} {kind : JobKind}

theorem live_of_started {row : Job} (hkind : row.kind = .submission) (hstate : row.state = .started) : row.live := by
  simp [Job.live, hkind, hstate]

/-- A job that runs goes on running where only those that wait are changed. -/
theorem runs_write (hrows : Rows v.jobs) {u : WorldWrite} (hwaits : ∀ uuid state, u = .setJobState uuid state →
    ∃ row ∈ v.jobs, row.uuid = uuid ∧ row.waits) (hruns : runs uuid kind v) : runs uuid kind (u.apply v) := by
  obtain ⟨row, hrow, huuid, hkind, hstate⟩ := hruns
  cases u with
  | record u => exact ⟨row, hrow, huuid, hkind, hstate⟩
  | enqueue job => exact ⟨row, List.mem_append_left _ hrow, huuid, hkind, hstate⟩
  | setJobState uuid' state =>
    obtain ⟨waiting, hwaiting, hsame, hwaits⟩ := hwaits uuid' state rfl
    refine ⟨row, mem_updateJob_other hrow fun h => ?_, huuid, hkind, hstate⟩
    obtain rfl := hrows.unique hrow hwaiting (h.trans hsame.symm)
    simp [Job.waits, hstate] at hwaits

theorem after_same (o : Outcome TaskExc Unit) (job : Job) :
    (job.after o).uuid = job.uuid ∧ (job.after o).kind = job.kind := by
  unfold Job.after
  split <;> exact ⟨rfl, rfl⟩

theorem finish_eq (ht : t.job = some (uuid, kind)) (o : Outcome TaskExc Unit) :
    t.finish o v = { v with jobs := updateJob uuid (fun job => job.after o) v.jobs } := by
  simp [Task.finish, ht, updateJob]

theorem finish_none (ht : t.job = none) (o : Outcome TaskExc Unit) : t.finish o v = v := by
  simp [Task.finish, ht]

theorem finish_rows (hrows : Rows v.jobs) (o : Outcome TaskExc Unit) : Rows (t.finish o v).jobs := by
  cases ht : t.job with
  | none => rwa [finish_none ht]
  | some job =>
    rw [finish_eq ht]
    exact hrows.update fun job => (after_same o job).1

theorem runs_finish {o : Outcome TaskExc Unit} (hruns : runs uuid kind v)
    (hother : ∀ kind', t.job ≠ some (uuid, kind')) :
    runs uuid kind (t.finish o v) := by
  cases ht : t.job with
  | none => rwa [finish_none ht]
  | some job =>
    obtain ⟨uuid', kind'⟩ := job
    obtain ⟨row, hrow, huuid, hkind, hstate⟩ := hruns
    rw [finish_eq ht]
    refine ⟨row, mem_updateJob_other hrow fun h => ?_, huuid, hkind, hstate⟩
    exact hother kind' (by rw [ht, ← h, huuid])

theorem start_cases (hs : t.start v = some w) : t.job = none ∧ w = v ∨
    ∃ uuid kind row, t.job = some (uuid, kind) ∧ row ∈ v.jobs ∧ row.uuid = uuid ∧ row.kind = kind ∧ row.waits ∧
      w = { v with jobs := updateJob uuid (fun job => { job with state := .started }) v.jobs } := by
  unfold Task.start at hs
  split at hs
  · rename_i hjob
    exact .inl ⟨hjob, (Option.some.inj hs).symm⟩
  · rename_i uuid kind hjob
    split at hs
    · cases hs
    · rename_i row hrow
      have hfound := List.find?_some hrow
      simp only [Bool.and_eq_true, decide_eq_true_iff] at hfound
      exact .inr ⟨uuid, kind, row, hjob, List.mem_of_find?_eq_some hrow, hfound.1.1, hfound.1.2, hfound.2,
        (Option.some.inj hs).symm⟩

theorem start_rows (hrows : Rows v.jobs) (hs : t.start v = some w) : Rows w.jobs := by
  obtain ⟨-, rfl⟩ | ⟨uuid, kind, row, -, -, -, -, -, rfl⟩ := start_cases hs
  · exact hrows
  · exact hrows.update fun _ => rfl

theorem start_own (hs : t.start v = some w) (hjob : t.job = some (uuid, kind)) : runs uuid kind w := by
  obtain ⟨hnone, -⟩ | ⟨uuid', kind', row, hjob', hrow, huuid, hkind, -, rfl⟩ := start_cases hs
  · rw [hjob] at hnone
    cases hnone
  · rw [hjob] at hjob'
    cases hjob'
    exact ⟨_, mem_updateJob_self hrow huuid, huuid, hkind, rfl⟩

theorem start_others (hrows : Rows v.jobs) (hs : t.start v = some w) (hruns : runs uuid kind v) :
    runs uuid kind w ∧ ∀ kind', t.job ≠ some (uuid, kind') := by
  obtain ⟨hnone, rfl⟩ | ⟨uuid', kind', row, hjob, hrow, huuid, -, hwaits, rfl⟩ := start_cases hs
  · exact ⟨hruns, fun kind' h => by simp [hnone] at h⟩
  obtain ⟨row', hrow', huuid', hkind', hstate'⟩ := hruns
  have hne : row'.uuid ≠ uuid' := by
    intro h
    obtain rfl := hrows.unique hrow' hrow (h.trans huuid.symm)
    simp [Job.waits, hstate'] at hwaits
  refine ⟨⟨row', mem_updateJob_other hrow' hne, huuid', hkind', hstate'⟩, fun kind'' h => hne ?_⟩
  rw [hjob] at h
  cases h
  exact huuid'

theorem submits_of_job (ht : t.job = some (uuid, .submission)) : t.submits = true := by
  cases t with
  | submissionJob job env => rfl
  | _ => simp [Task.job] at ht

theorem job_of_submits (ht : t.submits) : ∃ uuid, t.job = some (uuid, .submission) := by
  cases t with
  | submissionJob job env => exact ⟨job, rfl⟩
  | _ => cases ht

end

variable {W T : Type} {job : T → Option (String × JobKind)} {m : Machine World W Request Reply TaskExc Unit T}
  {i : Nat} {t : T} {p k : Prog World W Request Reply TaskExc Unit} {v w : World}

theorem sees_cases (hv : m.sees i = some v) : m.holder = none ∧ v = m.store ∨ m.holder = some (i, v) := by
  cases hh : m.holder with
  | none =>
    simp only [Machine.sees, hh, Option.some.injEq] at hv
    exact .inl ⟨rfl, hv.symm⟩
  | some a =>
    obtain ⟨j, u⟩ := a
    by_cases hj : j = i
    · simp only [Machine.sees, hh, hj, if_true, Option.some.injEq] at hv
      exact .inr (by rw [hj, hv])
    · simp [Machine.sees, hh, hj] at hv

theorem set_live {pr : Proc World W Request Reply TaskExc Unit T} {holder : Option (Nat × World)}
    (hpr : ∀ t q, pr = .live t q → ∃ q', m.proc i = .live t q') {j : Nat}
    (hj : (m.set i pr w holder).proc j = .live t p) : ∃ q, m.proc j = .live t q := by
  by_cases hwho : j = i
  · subst hwho
    rw [Machine.set_proc_self] at hj
    exact hpr t p hj
  · rw [Machine.set_proc_of_ne hwho] at hj
    exact ⟨p, hj⟩

theorem set_goes {holder : Option (Nat × World)} (hlive : m.proc i = .live t p) {j : Nat} {t' : T}
    {q : Prog World W Request Reply TaskExc Unit} (hj : (m.set i (.live t k) w holder).proc j = .live t' q) :
    ∃ q', m.proc j = .live t' q' := by
  refine set_live (fun t'' q'' h => ?_) hj
  cases h
  exact ⟨p, hlive⟩

theorem set_ended {o : Outcome TaskExc Unit} {holder : Option (Nat × World)} {j : Nat} {t' : T}
    {q : Prog World W Request Reply TaskExc Unit} (hj : (m.set i (.ended t o) w holder).proc j = .live t' q) :
    j ≠ i ∧ m.proc j = .live t' q := by
  have hne : j ≠ i := by
    rintro rfl
    rw [Machine.set_proc_self] at hj
    cases hj
  rw [Machine.set_proc_of_ne hne] at hj
  exact ⟨hne, hj⟩

/-- The callers that carry out jobs, in a machine over a contract and its queue. -/
structure Occupied (job : T → Option (String × JobKind)) (m : Machine World W Request Reply TaskExc Unit T) : Prop where
  running : ∀ i t p uuid kind, m.proc i = .live t p → job t = some (uuid, kind) →
    runs uuid kind m.store ∧ ∀ j v, m.holder = some (j, v) → runs uuid kind v
  distinct : ∀ i j t t' p p' uuid kind kind', i ≠ j → m.proc i = .live t p → m.proc j = .live t' p' →
    job t = some (uuid, kind) → job t' ≠ some (uuid, kind')

namespace Occupied

variable (hm : Occupied job m)

include hm

theorem sees_runs (hv : m.sees i = some v) {j : Nat} (hlive : m.proc j = .live t p) {uuid : String} {kind : JobKind}
    (hjob : job t = some (uuid, kind)) : runs uuid kind v := by
  obtain ⟨hstore, hholder⟩ := hm.running j t p uuid kind hlive hjob
  obtain ⟨-, rfl⟩ | hopen := sees_cases hv
  · exact hstore
  · exact hholder i v hopen

theorem distinct_set {pr : Proc World W Request Reply TaskExc Unit T} {holder : Option (Nat × World)}
    (hpr : ∀ t q, pr = .live t q → ∃ q', m.proc i = .live t q') : ∀ j j' t t' p p' uuid kind kind', j ≠ j' →
      (m.set i pr w holder).proc j = .live t p → (m.set i pr w holder).proc j' = .live t' p' →
      job t = some (uuid, kind) → job t' ≠ some (uuid, kind') := by
  intro j j' t t' p p' uuid kind kind' hne hj hj' hjob
  obtain ⟨q, hj⟩ := set_live hpr hj
  obtain ⟨q', hj'⟩ := set_live hpr hj'
  exact hm.distinct j j' t t' q q' uuid kind kind' hne hj hj' hjob

theorem goes (hlive : m.proc i = .live t p) (hv : m.sees i = some v)
    (hruns : ∀ uuid kind, runs uuid kind v → runs uuid kind w) :
    Occupied job (m.set i (.live t k) m.store (some (i, w))) where
  running j t' q uuid kind hj hjob := by
    obtain ⟨q', hj'⟩ := set_goes hlive hj
    refine ⟨(hm.running j t' q' uuid kind hj' hjob).1, fun j' u hu => ?_⟩
    cases hu
    exact hruns uuid kind (hm.sees_runs hv hj' hjob)
  distinct := hm.distinct_set fun t' q h => by
    cases h
    exact ⟨p, hlive⟩

theorem commits (hlive : m.proc i = .live t p) (hv : m.sees i = some v) :
    Occupied job (m.set i (.live t k) v none) where
  running j t' q uuid kind hj hjob := by
    obtain ⟨q', hj'⟩ := set_goes hlive hj
    refine ⟨hm.sees_runs hv hj' hjob, fun j' u hu => ?_⟩
    cases hu
  distinct := hm.distinct_set fun t' q h => by
    cases h
    exact ⟨p, hlive⟩

theorem calls (hlive : m.proc i = .live t p) : Occupied job (m.set i (.live t k) m.store m.holder) where
  running j t' q uuid kind hj hjob := by
    obtain ⟨q', hj'⟩ := set_goes hlive hj
    exact hm.running j t' q' uuid kind hj' hjob
  distinct := hm.distinct_set fun t' q h => by
    cases h
    exact ⟨p, hlive⟩

theorem ends {o : Outcome TaskExc Unit} (hlive : m.proc i = .live t p)
    (hv : ∀ j t' q uuid kind, m.proc j = .live t' q → job t' = some (uuid, kind) → runs uuid kind v)
    (hother : ∀ uuid kind, runs uuid kind v → (∀ kind', job t ≠ some (uuid, kind')) → runs uuid kind w) :
    Occupied job (m.set i (.ended t o) w none) where
  running j t' q uuid kind hj hjob := by
    obtain ⟨hne, hj'⟩ := set_ended hj
    refine ⟨hother uuid kind (hv j t' q uuid kind hj' hjob) fun kind' => ?_, fun j' u hu => ?_⟩
    · exact hm.distinct j i t' t q p uuid kind kind' hne hj' hlive hjob
    · cases hu
  distinct := hm.distinct_set fun t' q h => by cases h

theorem starts (hown : ∀ uuid kind, job t = some (uuid, kind) → runs uuid kind w)
    (hothers : ∀ uuid kind, runs uuid kind m.store → runs uuid kind w ∧ ∀ kind', job t ≠ some (uuid, kind')) :
    Occupied job (m.set i (.live t p) w none) := by
  have hself : ∀ {t' q}, (m.set i (.live t p) w none).proc i = .live t' q → t' = t := by
    intro t' q hj
    rw [Machine.set_proc_self] at hj
    cases hj
    rfl
  constructor
  · intro j t' q uuid kind hj hjob
    refine ⟨?_, fun j' u hu => ?_⟩
    · by_cases hji : j = i
      · subst hji
        obtain rfl := hself hj
        exact hown uuid kind hjob
      · rw [Machine.set_proc_of_ne hji] at hj
        exact (hothers uuid kind (hm.running j t' q uuid kind hj hjob).1).1
    · cases hu
  · intro j j' t' t'' q q' uuid kind kind' hne hj hj' hjob hjob'
    by_cases hji : j = i
    · subst hji
      obtain rfl := hself hj
      rw [Machine.set_proc_of_ne (Ne.symm hne)] at hj'
      exact (hothers uuid kind' (hm.running j' t'' q' uuid kind' hj' hjob').1).2 kind hjob
    · rw [Machine.set_proc_of_ne hji] at hj
      have hruns := (hm.running j t' q uuid kind hj hjob).1
      by_cases hji' : j' = i
      · subst hji'
        obtain rfl := hself hj'
        exact (hothers uuid kind hruns).2 kind' hjob'
      · rw [Machine.set_proc_of_ne hji'] at hj'
        exact hm.distinct j j' t' t'' q q' uuid kind kind' hne hj hj' hjob hjob'

end Occupied

theorem occupied_initial {w : World} : Occupied job (.initial w : Machine World W Request Reply TaskExc Unit T) where
  running i t p uuid kind hi := by cases hi
  distinct i j t t' p p' uuid kind kind' _ hi := by cases hi

end Ejar
