import Mathlib.Data.List.Nodup
import PropzaAmlak.Submission.DeadLetter

/-! The submission jobs of a contract and the one job that it names: what writes and
changes of a job's state keep of them. -/

namespace Ejar

open Tx

namespace Job

/-- Not taken up yet. -/
def waits (job : Job) : Bool := job.state = .pending || job.state = .enqueued

/-- A submission that waits or runs. -/
def live (job : Job) : Bool := job.kind = .submission && (job.waits || job.state = .started)

def ended (job : Job) : Bool := job.state = .failed || job.state = .cancelled

end Job

/-- The job that the contract names has failed or was cancelled. -/
def NamesEnded (w : World) : Prop :=
  ∃ job ∈ w.jobs, w.contract.activeJobUuid = some job.uuid ∧ job.ended

structure Tended (w : World) : Prop where
  submitting : w.contract.ejarStatus = .submitting → (∃ job ∈ w.jobs, job.live) ∨ NamesEnded w
  named : ∀ job ∈ w.jobs, job.live → w.contract.activeJobUuid = some job.uuid

/-- Uuids are not empty, and no two rows share one. -/
structure Rows (jobs : List Job) : Prop where
  nodup : (jobs.map (·.uuid)).Nodup
  nonempty : ∀ job ∈ jobs, job.uuid ≠ ""

namespace Rows

variable {jobs : List Job} {a b : Job}

theorem unique (hrows : Rows jobs) (ha : a ∈ jobs) (hb : b ∈ jobs) (hab : a.uuid = b.uuid) : a = b :=
  List.inj_on_of_nodup_map hrows.nodup ha hb hab

theorem nil : Rows [] := ⟨List.nodup_nil, by simp⟩

theorem append (hrows : Rows jobs) (ha : a.uuid ≠ "") (hfresh : ∀ row ∈ jobs, row.uuid ≠ a.uuid) :
    Rows (jobs ++ [a]) where
  nodup := by
    rw [List.map_append, List.nodup_append]
    refine ⟨hrows.nodup, by simp, fun x hx y hy => ?_⟩
    obtain ⟨row, hrow, rfl⟩ := List.mem_map.mp hx
    simp only [List.map_cons, List.map_nil, List.mem_singleton] at hy
    rw [hy]
    exact hfresh row hrow
  nonempty := by
    intro job hjob
    rcases List.mem_append.mp hjob with hold | hnew
    · exact hrows.nonempty job hold
    · rw [List.mem_singleton.mp hnew]
      exact ha

end Rows

/-- The row of the job `uuid` changed by `f`. -/
def updateJob (uuid : String) (f : Job → Job) (jobs : List Job) : List Job :=
  jobs.map fun job => if job.uuid = uuid then f job else job

section

variable {uuid : String} {f : Job → Job} {jobs : List Job} {w : World} {row a : Job}

theorem mem_updateJob : a ∈ updateJob uuid f jobs ↔
    ∃ b ∈ jobs, (if b.uuid = uuid then f b else b) = a := List.mem_map

theorem Rows.update (hrows : Rows jobs) (hf : ∀ job, (f job).uuid = job.uuid) : Rows (updateJob uuid f jobs) := by
  have huuid : ∀ job : Job, (if job.uuid = uuid then f job else job).uuid = job.uuid := by
    intro job
    split
    · exact hf job
    · rfl
  constructor
  · have hsame : (updateJob uuid f jobs).map (·.uuid) = jobs.map (·.uuid) := by
      simp [updateJob, Function.comp_def, huuid]
    rw [hsame]
    exact hrows.nodup
  · intro job hjob
    obtain ⟨b, hb, rfl⟩ := mem_updateJob.mp hjob
    rw [huuid]
    exact hrows.nonempty b hb

theorem mem_updateJob_other (ha : a ∈ jobs) (huuid : a.uuid ≠ uuid) : a ∈ updateJob uuid f jobs :=
  mem_updateJob.mpr ⟨a, ha, if_neg huuid⟩

theorem mem_updateJob_self (hrow : row ∈ jobs) (huuid : row.uuid = uuid) : f row ∈ updateJob uuid f jobs :=
  mem_updateJob.mpr ⟨row, hrow, if_pos huuid⟩

theorem live_before (hrows : Rows jobs) (hrow : row ∈ jobs) (huuid : row.uuid = uuid)
    (hlive : (f row).live → row.live) (hafter : ∃ a ∈ updateJob uuid f jobs, a.live) : ∃ a ∈ jobs, a.live := by
  obtain ⟨a, ha, halive⟩ := hafter
  obtain ⟨b, hb, rfl⟩ := mem_updateJob.mp ha
  refine ⟨b, hb, ?_⟩
  by_cases hsame : b.uuid = uuid
  · obtain rfl := hrows.unique hb hrow (hsame.trans huuid.symm)
    rw [if_pos hsame] at halive
    exact hlive halive
  · rwa [if_neg hsame] at halive

/-- A row that no longer is live ends as the job that the contract names. -/
theorem Tended.update (hw : Tended w) (hrows : Rows w.jobs) (hf : ∀ job, (f job).uuid = job.uuid)
    (hrow : row ∈ w.jobs) (huuid : row.uuid = uuid) (hlive : (f row).live → row.live)
    (hends : w.contract.ejarStatus = .submitting → row.live → (f row).live ∨ (f row).ended)
    (hended : row.ended → (f row).ended) : Tended { w with jobs := updateJob uuid f w.jobs } where
  submitting hstatus := by
    have hself : f row ∈ updateJob uuid f w.jobs := mem_updateJob_self hrow huuid
    obtain ⟨job, hjob, hjoblive⟩ | ⟨job, hjob, hnamed, hjobended⟩ := hw.submitting hstatus
    · by_cases hsame : job.uuid = uuid
      · obtain rfl := hrows.unique hjob hrow (hsame.trans huuid.symm)
        obtain hstill | hend := hends hstatus hjoblive
        · exact .inl ⟨f job, hself, hstill⟩
        · exact .inr ⟨f job, hself, by rw [hf]; exact hw.named job hjob hjoblive, hend⟩
      · exact .inl ⟨job, mem_updateJob_other hjob hsame, hjoblive⟩
    · by_cases hsame : job.uuid = uuid
      · obtain rfl := hrows.unique hjob hrow (hsame.trans huuid.symm)
        exact .inr ⟨f job, hself, by rw [hf]; exact hnamed, hended hjobended⟩
      · exact .inr ⟨job, mem_updateJob_other hjob hsame, hnamed, hjobended⟩
  named job hjob hjoblive := by
    obtain ⟨b, hb, rfl⟩ := mem_updateJob.mp hjob
    by_cases hsame : b.uuid = uuid
    · obtain rfl := hrows.unique hb hrow (hsame.trans huuid.symm)
      rw [if_pos hsame] at hjoblive ⊢
      rw [hf]
      exact hw.named b hb (hlive hjoblive)
    · rw [if_neg hsame] at hjoblive ⊢
      exact hw.named b hb hjoblive

end

namespace RecordWrite

/-- The write sets neither 'submitting' nor the job of the contract. -/
def calm : RecordWrite → Prop
  | .contract vals => vals.activeJobUuid = none ∧ vals.ejarStatus ≠ some .submitting
  | _ => True

def keepsJob : RecordWrite → Prop
  | .contract vals => vals.activeJobUuid = none
  | _ => True

/-- The write names the job and nothing that the cleanup looks at. -/
def names (uuid : String) : RecordWrite → Prop
  | .contract vals => vals.activeJobUuid = some (some uuid) ∧ vals.ejarStatus = none
  | _ => False

/-- The write puts the contract back to 'ready', without a job. -/
def releases : RecordWrite → Prop
  | .contract vals => vals.activeJobUuid = some none ∧ vals.ejarStatus = some .ready
  | _ => False

end RecordWrite

section

variable {w : World} {u : RecordWrite} {uuid : String} {job row : Job}

theorem keepsJob_of_calm (hu : u.calm) : u.keepsJob := by
  cases u with
  | contract vals => exact hu.1
  | _ => trivial

theorem activeJobUuid_apply (hu : u.keepsJob) (c : Contract) : (u.apply c).activeJobUuid = c.activeJobUuid := by
  cases u with
  | contract vals =>
    have hnone : vals.activeJobUuid = none := hu
    simp [RecordWrite.apply, Contract.set, hnone]
  | _ => rfl

theorem submitting_apply (hu : u.calm) {c : Contract} (h : (u.apply c).ejarStatus = .submitting) :
    c.ejarStatus = .submitting := by
  cases u with
  | contract vals =>
    cases hvals : vals.ejarStatus with
    | none => simpa [RecordWrite.apply, Contract.set, hvals] using h
    | some new =>
      have hnew : new = .submitting := by simpa [RecordWrite.apply, Contract.set, hvals] using h
      exact absurd (hnew ▸ hvals) hu.2
  | _ => exact h

theorem Tended.keepsJob (hw : Tended w) (hu : u.keepsJob)
    (hsubmitting : (u.apply w.contract).ejarStatus = .submitting → (∃ job ∈ w.jobs, job.live) ∨ NamesEnded w) :
    Tended ((WorldWrite.record u).apply w) where
  submitting hstatus := by
    obtain hlive | ⟨job, hjob, hnamed, hended⟩ := hsubmitting hstatus
    · exact .inl hlive
    · exact .inr ⟨job, hjob, (activeJobUuid_apply hu _).trans hnamed, hended⟩
  named job hjob hlive := (activeJobUuid_apply hu _).trans (hw.named job hjob hlive)

theorem Tended.calm (hw : Tended w) (hu : u.calm) : Tended ((WorldWrite.record u).apply w) :=
  hw.keepsJob (keepsJob_of_calm hu) fun hstatus => hw.submitting (submitting_apply hu hstatus)

/-- No two submissions are live. -/
def Single (w : World) : Prop := ∀ a ∈ w.jobs, ∀ b ∈ w.jobs, a.live → b.live → a.uuid = b.uuid

theorem Tended.single (hw : Tended w) : Single w := fun a ha b hb hlive hlive' =>
  Option.some.inj ((hw.named a ha hlive).symm.trans (hw.named b hb hlive'))

theorem names_apply (hu : u.names uuid) (c : Contract) :
    (u.apply c).activeJobUuid = some uuid ∧ (u.apply c).ejarStatus = c.ejarStatus := by
  cases u with
  | contract vals => simp [RecordWrite.apply, Contract.set, hu.1, hu.2]
  | _ => exact hu.elim

theorem Single.names (hw : Single w) (hrow : row ∈ w.jobs) (hlive : row.live) (hu : u.names row.uuid) :
    Tended ((WorldWrite.record u).apply w) where
  submitting _ := .inl ⟨row, hrow, hlive⟩
  named job hjob hjoblive := by
    rw [hw job hjob row hrow hjoblive hlive]
    exact (names_apply hu _).1

theorem tended_of_names (hnone : ∀ job ∈ w.jobs, ¬ job.live) (hstatus : w.contract.ejarStatus ≠ .submitting)
    (hu : u.names uuid) : Tended ((WorldWrite.record u).apply w) where
  submitting h := absurd ((names_apply hu _).2.symm.trans h) hstatus
  named job hjob hlive := absurd hlive (hnone job hjob)

theorem releases_apply (hu : u.releases) (c : Contract) : (u.apply c).ejarStatus = .ready := by
  cases u with
  | contract vals => simp [RecordWrite.apply, Contract.set, hu.2]
  | _ => exact hu.elim

theorem not_live_of_ended (hended : job.ended) : ¬ job.live := by
  simp only [Job.ended, Job.live, Job.waits, Bool.or_eq_true, decide_eq_true_iff] at *
  obtain h | h := hended <;> simp [h]

theorem Tended.none_live (hw : Tended w) (hrows : Rows w.jobs) (hended : NamesEnded w) :
    ∀ job ∈ w.jobs, ¬ job.live := by
  intro job hjob hlive
  obtain ⟨row, hrow, hnamed, hrowended⟩ := hended
  have hsame : job.uuid = row.uuid := Option.some.inj ((hw.named job hjob hlive).symm.trans hnamed)
  obtain rfl := hrows.unique hjob hrow hsame
  exact not_live_of_ended hrowended hlive

theorem Tended.releases (hw : Tended w) (hrows : Rows w.jobs) (hended : NamesEnded w) (hu : u.releases) :
    Tended ((WorldWrite.record u).apply w) where
  submitting h := by
    have hready : ((WorldWrite.record u).apply w).contract.ejarStatus = .ready := releases_apply hu _
    rw [hready] at h
    cases h
  named job hjob hlive := absurd hlive (hw.none_live hrows hended job hjob)

theorem Tended.enqueue (hw : Tended w) (hkind : job.kind ≠ .submission) :
    Tended ((WorldWrite.enqueue job).apply w) where
  submitting hstatus := by
    obtain ⟨row, hrow, hlive⟩ | ⟨row, hrow, hended⟩ := hw.submitting hstatus
    · exact .inl ⟨row, List.mem_append_left _ hrow, hlive⟩
    · exact .inr ⟨row, List.mem_append_left _ hrow, hended⟩
  named row hrow hlive := by
    rcases List.mem_append.mp hrow with hold | hnew
    · exact hw.named row hold hlive
    · rw [List.mem_singleton.mp hnew] at hlive
      simp [Job.live, hkind] at hlive

theorem single_enqueue (hnone : ∀ row ∈ w.jobs, ¬ row.live) : Single ((WorldWrite.enqueue job).apply w) := by
  have hnew : ∀ row ∈ ((WorldWrite.enqueue job).apply w).jobs, row.live → row = job := by
    intro row hrow hlive
    rcases List.mem_append.mp hrow with hold | hlast
    · exact absurd hlive (hnone row hold)
    · exact List.mem_singleton.mp hlast
  intro a ha b hb hlive hlive'
  rw [hnew a ha hlive, hnew b hb hlive']

theorem Tended.cancel (hw : Tended w) (hrows : Rows w.jobs) (hrow : row ∈ w.jobs) :
    Tended ((WorldWrite.setJobState row.uuid .cancelled).apply w) := by
  refine hw.update hrows (fun _ => rfl) hrow rfl (fun h => ?_) (fun _ _ => .inr rfl) (fun _ => rfl)
  simp [Job.live, Job.waits] at h

end

/-- The task alone returns, and leaves `w'`. -/
def leaves (p : TaskProg Unit) (w w' : World) : Prop :=
  ∃ v, p.run WorldWrite.apply (fun (_ : Unit) _ => none) ⟨w, w, ()⟩ = (.ret (), ⟨v, w', ()⟩)

/-- The task alone raises before it commits anything. -/
def refuses (p : TaskProg Unit) (w : World) : Prop :=
  ∃ e w', p.run WorldWrite.apply (fun (_ : Unit) _ => none) ⟨w, w, ()⟩ = (.raise e, ⟨w, w', ()⟩)

/-- A contract in 'submitting' has a live submission or is put back by the cleanup, and
a live submission is the one that it names. -/
structure NotStranded (inst : Installation) (w : World) : Prop where
  submitting : w.contract.ejarStatus = .submitting → (∃ job ∈ w.jobs, job.live) ∨
    ∀ excInfo, ∃ w', leaves (cronCleanupDeadLetterJob inst excInfo) w w' ∧ w'.contract.ejarStatus = .ready
  named : ∀ job ∈ w.jobs, job.live → w.contract.activeJobUuid = some job.uuid
  blocks : ∀ job ∈ w.jobs, job.live → ∀ now uuid, refuses (actionSubmitAsync inst now uuid) w
  cancels : ∀ job ∈ w.jobs, job.live → job.waits → ∃ w', leaves (actionCancelPendingJob inst) w w' ∧
    w'.contract.ejarStatus = .ready ∧ ∀ row ∈ w'.jobs, ¬ row.live

section

variable {inst : Installation} {w : World} {job : Job} {vals : ContractVals}

theorem run_writeRecord {τ : Type} (serve : τ → Request → Option (Reply × τ)) (x : Session World τ) :
    (writeRecord vals).run WorldWrite.apply serve x =
      (.ret (), ⟨x.committed, (WorldWrite.record (.contract vals)).apply x.working, x.seen⟩) := by
  simp only [writeRecord, onContract, writeContract, Prog.put, Prog.get, Prog.write_bind, Prog.ret_bind,
    Prog.read_bind, checkStateTransition_ok, ite_self, Prog.ofExcept, Prog.zoom, Prog.attempt, Prog.run, orRaise]

theorem run_get {τ α : Type} (serve : τ → Request → Option (Reply × τ)) (f : World → TaskProg α)
    (x : Session World τ) : (Prog.get >>= f).run WorldWrite.apply serve x =
      (f x.working).run WorldWrite.apply serve x :=
  rfl

theorem run_markDeadLetter (reason : String) {v : World} : ∃ w',
    (markDeadLetter reason).run WorldWrite.apply (fun (_ : Unit) _ => none) ⟨v, w, ()⟩ = (.ret (), ⟨v, w', ()⟩) ∧
      w'.contract.ejarStatus = .ready := by
  rw [markDeadLetter, Prog.run_bind, run_writeRecord]
  exact ⟨_, rfl, rfl⟩

theorem cleanup_of_stuck (hw : Stuck inst w) (excInfo : String) :
    ∃ w', leaves (cronCleanupDeadLetterJob inst excInfo) w w' ∧ w'.contract.ejarStatus = .ready := by
  obtain ⟨job, hjob, hnamed, hended⟩ := hw.ended
  obtain ⟨w', hrun, hready⟩ := run_markDeadLetter
    (if String.ofList (excInfo.toList.take 500) ≠ "" then String.ofList (excInfo.toList.take 500)
    else "استنفدت جميع محاولات إعادة الإرسال") (w := w) (v := w)
  refine ⟨w', ⟨w, ?_⟩, hready⟩
  rw [cronCleanupDeadLetterJob, run_get]
  have hfound : ¬ (!inst.queueJobFound) = true := by simp [hw.found]
  have hstatus : ¬ (w.contract.ejarStatus ≠ .submitting ∨ (!w.contract.activeJobUuid.truthy) = true) := by
    simp [hw.submitting, hw.named]
  rw [if_neg hfound, if_neg hstatus]
  split
  · rename_i hnone
    have hrow := List.find?_eq_none.mp hnone job hjob
    simp [hnamed, hended] at hrow
  · exact hrun

theorem stuck_of_cleanup (hsubmitting : w.contract.ejarStatus = .submitting) {excInfo : String} {w' : World}
    (hleaves : leaves (cronCleanupDeadLetterJob inst excInfo) w w') (hready : w'.contract.ejarStatus = .ready) :
    Stuck inst w := by
  obtain ⟨v, hrun⟩ := hleaves
  by_contra hstuck
  have hsame : (cronCleanupDeadLetterJob inst excInfo).run WorldWrite.apply (fun (_ : Unit) _ => none) ⟨w, w, ()⟩ =
      (.ret (), ⟨w, w, ()⟩) := by
    rw [cronCleanupDeadLetterJob, run_get]
    split
    · rfl
    rename_i hfound
    split
    · rfl
    rename_i hstatus
    split
    · rfl
    · rename_i job hjob
      refine absurd ⟨by simpa using hfound, hsubmitting, ?_, job, List.mem_of_find?_eq_some hjob, ?_⟩ hstuck
      · by_contra hnamed
        exact hstatus (.inr (by simpa using hnamed))
      · simpa using List.find?_some hjob
  rw [hsame] at hrun
  obtain rfl : w = w' := congrArg Session.working (congrArg Prod.snd hrun)
  rw [hsubmitting] at hready
  cases hready

theorem truthy_of_ne {uuid : String} (h : uuid ≠ "") : CharField.truthy (some uuid) = true := by simpa using h

theorem find_named (hrows : Rows w.jobs) (hjob : job ∈ w.jobs) (hnamed : w.contract.activeJobUuid = some job.uuid)
    {p : Job → Bool} (hp : p job) :
    (w.jobs.find? fun row => some row.uuid = w.contract.activeJobUuid && p row) = some job := by
  have hsome : (w.jobs.find? fun row => some row.uuid = w.contract.activeJobUuid && p row).isSome := by
    rw [List.find?_isSome]
    exact ⟨job, hjob, by simp [hnamed, hp]⟩
  obtain ⟨row, hrow⟩ := Option.isSome_iff_exists.mp hsome
  have hfound := List.find?_some hrow
  simp only [hnamed, Option.some.injEq, Bool.and_eq_true, decide_eq_true_iff] at hfound
  rw [hrow, hrows.unique (List.mem_of_find?_eq_some hrow) hjob hfound.1]

theorem hasActiveJob_of_live (hfound : inst.queueJobFound = true) (hrows : Rows w.jobs) (hjob : job ∈ w.jobs)
    (hlive : job.live) (hnamed : w.contract.activeJobUuid = some job.uuid) : hasActiveJob inst w = true := by
  have hrow := find_named hrows hjob hnamed (p := fun _ => true) rfl
  simp only [Bool.and_true] at hrow
  simp only [Job.live, Job.waits, Bool.and_eq_true] at hlive
  rw [hasActiveJob, hrow, hnamed, truthy_of_ne (hrows.nonempty job hjob), hfound]
  exact hlive.2

theorem refuses_of_active (hactive : hasActiveJob inst w = true) (now : Datetime) (uuid : String) :
    refuses (actionSubmitAsync inst now uuid) w := by
  rw [refuses, actionSubmitAsync, run_get]
  dsimp only
  rw [if_pos hactive]
  unfold validateReadyState
  split
  · cases inst.queueJobAvailable <;> exact ⟨_, _, rfl⟩
  · exact ⟨_, _, rfl⟩

theorem cancels_of_waits (hfound : inst.queueJobFound = true) (hrows : Rows w.jobs) (hw : Tended w)
    (hjob : job ∈ w.jobs) (hlive : job.live) (hwaits : job.waits) : ∃ w', leaves (actionCancelPendingJob inst) w w' ∧
      w'.contract.ejarStatus = .ready ∧ ∀ row ∈ w'.jobs, ¬ row.live := by
  have hnamed := hw.named job hjob hlive
  have hrow := find_named hrows hjob hnamed hwaits
  have hcancelled : ∀ row ∈ setState job.uuid .cancelled w.jobs, ¬ row.live := by
    have htended := hw.cancel hrows hjob
    refine htended.none_live (hrows.update fun _ => rfl) ⟨_, mem_updateJob_self hjob rfl, hnamed, rfl⟩
  refine ⟨(WorldWrite.record (.contract { ejarStatus := some .ready, activeJobUuid := some none
                                          jobChannel := some none })).apply
    { w with jobs := setState job.uuid .cancelled w.jobs }, ⟨w, ?_⟩, rfl, hcancelled⟩
  · rw [actionCancelPendingJob, run_get]
    have hnone : ¬ (!w.contract.activeJobUuid.truthy) = true := by
      simp [hnamed, hrows.nonempty job hjob]
    have hinst : ¬ (!inst.queueJobFound) = true := by simp [hfound]
    rw [if_neg hnone, if_neg hinst]
    simp only [Job.waits] at hrow
    simp only [hrow]
    rw [Prog.run_bind]
    exact run_writeRecord _ _

theorem Tended.notStranded (hw : Tended w) (hfound : inst.queueJobFound = true) (hrows : Rows w.jobs) :
    NotStranded inst w where
  submitting hstatus := by
    obtain hlive | ⟨job, hjob, hnamed, hended⟩ := hw.submitting hstatus
    · exact .inl hlive
    · refine .inr (cleanup_of_stuck ⟨hfound, hstatus, ?_, job, hjob, hnamed.symm, by simpa [Job.ended] using hended⟩)
      rw [hnamed]
      exact truthy_of_ne (hrows.nonempty job hjob)
  named := hw.named
  blocks job hjob hlive := refuses_of_active (hasActiveJob_of_live hfound hrows hjob hlive (hw.named job hjob hlive))
  cancels _ hjob hlive hwaits := cancels_of_waits hfound hrows hw hjob hlive hwaits

theorem NotStranded.tended (hw : NotStranded inst w) : Tended w where
  submitting hstatus := by
    obtain hlive | hcleanup := hw.submitting hstatus
    · exact .inl hlive
    · obtain ⟨w', hleaves, hready⟩ := hcleanup ""
      obtain ⟨job, hjob, hnamed, hended⟩ := (stuck_of_cleanup hstatus hleaves hready).ended
      exact .inr ⟨job, hjob, hnamed.symm, by simpa [Job.ended] using hended⟩
  named := hw.named

end

end Ejar
