import PropzaAmlak.Submission.Stranded

/-! Careful runs leave no contract stranded, and one that is cut after its first commit
does. -/

namespace Ejar

open Tx

namespace Stranded

variable {inst : Installation} {h : List TaskMove} {mv : TaskMove} {m m' : DeadLetter.TaskMachine}

theorem careful_init {w : World} (hcareful : Careful inst w (h ++ [mv])) : Careful inst w h where
  rests := hcareful.rests
  tasks mv' hmv' := hcareful.tasks mv' (List.mem_append_left _ hmv')
  fresh mv' hmv' := hcareful.fresh mv' (List.mem_append_left _ hmv')
  resubmits mv' hmv' := hcareful.resubmits mv' (List.mem_append_left _ hmv')
  enqueues mv' hmv' := hcareful.enqueues mv' (List.mem_append_left _ hmv')
  polls mv' hmv' := hcareful.polls mv' (List.mem_append_left _ hmv')

/-- What is known of a caller that has still to end. -/
abbrev Watching (inst : Installation) (h : List TaskMove) (m : DeadLetter.TaskMachine) : Prop :=
  Obeying (system inst) (watchRule inst) (fun t _ x => Returned t x) (fun _ _ _ => True) h m

theorem Guarded.starts (hm : Guarded inst h m) {i : Nat} {t : Task} {w : World}
    (hnone : m.holder = none) (hs : t.start m.store = some w) (hidle : effectsOf i h = []) :
    Guarded inst (h ++ [⟨i, t, .start⟩]) (m.set i (.live t (t.body inst)) w none) := by
  have hoccupied := hm.occupied.starts (i := i) (p := t.body inst) (fun uuid kind => start_own hs)
    fun uuid kind => start_others hm.store.rows hs
  refine guarded_of_closed (hm.store.start hs) hoccupied fun j t' q hj hsubmits hsettled => ?_
  rw [DeadLetter.start_contract hs]
  by_cases hji : j = i
  · subst hji
    rw [Protocol.phaseOf_start, Protocol.phaseOf, hidle] at hsettled
    cases hsettled
  · rw [Machine.set_proc_of_ne hji] at hj
    rw [Protocol.phaseOf_other (Ne.symm hji)] at hsettled
    exact ((hm.settled j t' q hj hsubmits hsettled).2 (by simp [Machine.view, hnone])).1

theorem Guarded.rolledBack (hm : Guarded inst h m) {p : TaskProg Unit} {v : World} {o : Outcome TaskExc Unit}
    (hlive : m.proc mv.who = .live mv.task p) (hv : m.sees mv.who = some v) (ho : ∀ a, o ≠ .ret a) :
    Guarded inst (h ++ [mv]) (m.set mv.who (.ended mv.task o) (mv.task.finish o m.store) none) := by
  refine hm.ends hlive hm.store (fun j t q uuid kind hj hjob => (hm.occupied.running j t q uuid kind hj hjob).1)
    (fun a ha => absurd ha (ho a)) fun j t q hne hj hsubmits hsettled => ?_
  exact ((hm.settled j t q hj hsubmits hsettled).2 (Machine.view_of_sees_ne hv hne)).1

section

variable {i : Nat} {t : Task} {v : World}

theorem Guarded.reads (hm : Guarded inst h m) {k : World → TaskProg Unit} (hi : m.proc i = .live t (.read k))
    (hv : m.sees i = some v) :
    Guarded inst (h ++ [⟨i, t, .effect (.read v)⟩]) (m.set i (.live t (k v)) m.store (some (i, v))) := by
  refine hm.goes hi hv ?_ (fun uuid kind hruns => hruns) fun j t' q hj hsubmits hsettled => ?_
  · rw [Protocol.phaseOf_effect]
    exact hm.sees_viewed hv hi
  · by_cases hji : j = i
    · subst hji
      rw [hi] at hj
      cases hj
      rw [Protocol.phaseOf_effect] at hsettled
      have hor : ((watchRule inst t).phaseOf j h).settled = true ∨ v.contract.ejarStatus ≠ .submitting := by
        simpa [watchRule, Watch.read] using hsettled
      obtain hbefore | hnow := hor
      · exact hm.sees_settled hv hi hsubmits hbefore
      · exact hnow
    · rw [Protocol.phaseOf_other (Ne.symm hji)] at hsettled
      exact hm.sees_settled hv hj hsubmits hsettled

theorem Guarded.writes (hm : Guarded inst h m) {u : WorldWrite} {k : TaskProg Unit} {w : World}
    (hfound : inst.queueJobFound = true) (hcareful : Careful inst w (h ++ [⟨i, t, .effect (.write v u)⟩]))
    (hi : m.proc i = .live t (.write u k)) (hv : m.sees i = some v)
    (hmay : mayWrite inst t ((watchRule inst t).phaseOf i h) v u) :
    Guarded inst (h ++ [⟨i, t, .effect (.write v u)⟩]) (m.set i (.live t k) m.store (some (i, u.apply v))) := by
  have hviewed := hm.sees_viewed hv hi
  have hwaits : ∀ uuid state, u = .setJobState uuid state → ∃ row ∈ v.jobs, row.uuid = uuid ∧ row.waits := by
    rintro uuid state rfl
    exact hmay.2.2
  refine hm.goes hi hv ?_ (fun uuid kind => runs_write hviewed.rows hwaits) fun j t' q hj hsubmits hsettled => ?_
  · rw [Protocol.phaseOf_effect]
    refine hviewed.write hcareful (List.mem_append_right _ (List.mem_singleton_self _)) rfl hmay fun hsubmits => ?_
    obtain ⟨uuid, hjob⟩ := job_of_submits hsubmits
    exact ⟨uuid, hm.occupied.sees_runs hv hi hjob⟩
  · by_cases hji : j = i
    · subst hji
      rw [hi] at hj
      cases hj
      rw [Protocol.phaseOf_effect] at hsettled
      have hbefore : ((watchRule inst t).phaseOf j h).settled = true → v.contract.ejarStatus ≠ .submitting :=
        hm.sees_settled hv hi hsubmits
      cases u with
      | record u => exact write_settled hbefore hsettled
      | enqueue job => exact hbefore hsettled
      | setJobState uuid state => exact hbefore hsettled
    · rw [Protocol.phaseOf_other (Ne.symm hji)] at hsettled
      have hstatus := hm.sees_settled hv hj hsubmits hsettled
      cases u with
      | record u => exact hm.other_status hfound hi hv hji hj hsubmits hstatus hmay
      | enqueue job => exact hstatus
      | setJobState uuid state => exact hstatus

theorem Guarded.commits (hm : Guarded inst h m) {k : TaskProg Unit} (hi : m.proc i = .live t (.commit k))
    (hv : m.sees i = some v) (hasking : ((watchRule inst t).phaseOf i h).asking = false) :
    Guarded inst (h ++ [⟨i, t, .effect (.commit v)⟩]) (m.set i (.live t k) v none) := by
  have hviewed := hm.sees_viewed hv hi
  rw [hasking] at hviewed
  refine guarded_of_closed hviewed (hm.occupied.commits hi hv) fun j t' q hj hsubmits hsettled => ?_
  obtain ⟨q', hj'⟩ := set_goes hi hj
  by_cases hji : j = i
  · subst hji
    rw [hi] at hj'
    cases hj'
    rw [Protocol.phaseOf_effect] at hsettled
    exact hm.sees_settled hv hi hsubmits hsettled
  · rw [Protocol.phaseOf_other (Ne.symm hji)] at hsettled
    exact hm.sees_settled hv hj' hsubmits hsettled

theorem Guarded.calls (hm : Guarded inst h m) {q : Request} {k : Reply → TaskProg Unit} (r : Reply)
    (hi : m.proc i = .live t (.call q k)) :
    Guarded inst (h ++ [⟨i, t, .effect (.call q (some r))⟩]) (m.set i (.live t (k r)) m.store m.holder) := by
  have hphase : ∀ j t', (watchRule inst t').phaseOf j (h ++ [⟨i, t, .effect (.call q (some r))⟩]) =
      (watchRule inst t').phaseOf j h := by
    intro j t'
    by_cases hji : j = i
    · subst hji
      rw [Protocol.phaseOf_effect]
      rfl
    · exact Protocol.phaseOf_other (Ne.symm hji)
  constructor
  · exact hm.store
  · intro j v hj
    obtain ⟨t', q', hlive, hviewed⟩ := hm.holder j v hj
    rw [← hphase] at hviewed
    by_cases hji : j = i
    · subst hji
      rw [hi] at hlive
      cases hlive
      exact ⟨t, k r, Machine.set_proc_self, hviewed⟩
    · exact ⟨t', q', (Machine.set_proc_of_ne hji).trans hlive, hviewed⟩
  · exact hm.occupied.calls hi
  · intro j t' q' hj hsubmits hsettled
    obtain ⟨q'', hj'⟩ := set_goes hi hj
    rw [hphase] at hsettled
    exact hm.settled j t' q'' hj' hsubmits hsettled

theorem Guarded.returns (hm : Guarded inst h m) (hdeals : t.dealsWithJobs) (hi : m.proc i = .live t (.ret ()))
    (hv : m.sees i = some v) (hreturned : Returned t ⟨m.view i, (watchRule inst t).phaseOf i h⟩) :
    Guarded inst (h ++ [⟨i, t, .finish (.ret ()) v⟩])
      (m.set i (.ended t (.ret ())) (t.finish (.ret ()) v) none) := by
  obtain ⟨hasking, hsettled⟩ := hreturned hdeals
  have hviewed := hm.sees_viewed hv hi
  rw [hasking] at hviewed
  refine hm.ends hi hviewed (fun j t' q uuid kind hj hjob => hm.occupied.sees_runs hv hj hjob)
    (fun _ _ hsubmits => ?_)
    fun j t' q _ hj hsubmits hsettled => hm.sees_settled hv hj hsubmits hsettled
  exact hm.sees_settled hv hi hsubmits (hsettled hsubmits)

end

theorem Guarded.step {w : World} (hm : Guarded inst h m) (hfound : inst.queueJobFound = true)
    (hcareful : Careful inst w (h ++ [mv])) (hwatching : Watching inst h m)
    (hstep : Step (system inst) m mv m') : Guarded inst (h ++ [mv]) m' := by
  have hallowed := (hwatching.step (obeys_body inst) hstep).2
  have hdeals := hcareful.tasks mv (List.mem_append_right _ (List.mem_singleton_self mv))
  cases hstep with
  | start hi hnone hs => exact hm.starts hnone hs (hwatching.idle _ hi).1
  | read hi hv => exact hm.reads hi hv
  | write hi hv => exact hm.writes hfound hcareful hi hv (hallowed _ rfl hdeals)
  | commit hi hv => exact hm.commits hi hv (hallowed _ rfl hdeals)
  | call r hi => exact hm.calls r hi
  | lost hi hv => exact hm.rolledBack hi hv fun a ha => by cases ha
  | ret hi hv => exact hm.returns hdeals hi hv (hwatching.live _ _ _ hi)
  | raise hi hv => exact hm.rolledBack hi hv fun a ha => by cases ha
  | cut hi hv => exact hm.rolledBack hi hv fun a ha => by cases ha

theorem guarded_initial {w : World} (hw : Tended w) (hrows : Rows w.jobs) :
    Guarded inst [] (.initial w) where
  store := viewed_of_tended hrows hw
  holder j v hj := by cases hj
  occupied := occupied_initial
  settled j t p hj := by cases hj

theorem run_guarded {w : World} (hw : Tended w) (hrows : Rows w.jobs) (hrun : Run (system inst) w h m)
    (hfound : inst.queueJobFound = true) (hcareful : Careful inst w h) : Guarded inst h m := by
  induction hrun with
  | nil => exact guarded_initial hw hrows
  | step hrun hstep ih =>
    exact (ih (careful_init hcareful)).step hfound hcareful (hrun.obeying (obeys_body inst)).1 hstep

/-- Nothing is submitted or to be submitted. -/
structure Quiet (w : World) : Prop where
  status : w.contract.ejarStatus ≠ .submitting
  jobs : ∀ job ∈ w.jobs, ¬ job.live

section

variable {w v : World} {t : Task}

theorem Quiet.notStranded (hw : Quiet w) : NotStranded inst w where
  submitting hstatus := absurd hstatus hw.status
  named job hjob hlive := absurd hlive (hw.jobs job hjob)
  blocks job hjob hlive := absurd hlive (hw.jobs job hjob)
  cancels job hjob hlive := absurd hlive (hw.jobs job hjob)

/-- Without rows of `queue.job` no waiting submission can be cancelled, and nothing is put
back. -/
theorem quiet_of_notStranded (hw : NotStranded inst w) (hfound : inst.queueJobFound = false)
    (hrests : ∀ row ∈ w.jobs, row.state ≠ .started) : Quiet w := by
  have hjobs : ∀ job ∈ w.jobs, ¬ job.live := by
    intro job hjob hlive
    have hwaits : job.waits := by
      simp only [Job.live, Bool.and_eq_true, Bool.or_eq_true, decide_eq_true_iff] at hlive
      exact hlive.2.resolve_right (hrests job hjob)
    obtain ⟨w', ⟨v, hrun⟩, -⟩ := hw.cancels job hjob hlive hwaits
    rw [actionCancelPendingJob, run_get] at hrun
    split at hrun
    · simp [userError, Prog.run] at hrun
    · simp [hfound, userError, Prog.run] at hrun
  refine ⟨fun hstatus => ?_, hjobs⟩
  obtain ⟨job, hjob, hlive⟩ | hcleanup := hw.submitting hstatus
  · exact hjobs job hjob hlive
  · obtain ⟨w', hleaves, hready⟩ := hcleanup ""
    have hstuck := (stuck_of_cleanup hstatus hleaves hready).found
    rw [hfound] at hstuck
    cases hstuck

/-- The contract is not in 'submitting', and its submissions are those of `w`. -/
structure SameSubmissions (w v : World) : Prop where
  status : v.contract.ejarStatus ≠ .submitting
  rows : Rows v.jobs
  jobs : ∀ job : Job, job.kind = .submission → (job ∈ v.jobs ↔ job ∈ w.jobs)

/-- The task carries out no submission, and no row of one in `w` is its own. -/
structure Aside (w : World) (t : Task) : Prop where
  submits : t.submits = false
  others : ∀ uuid kind, t.job = some (uuid, kind) → ∀ row ∈ w.jobs, row.kind = .submission → row.uuid ≠ uuid

theorem aside_of_job (hjob : ∀ uuid, t.job ≠ some (uuid, .submission)) (hothers : ∀ uuid kind,
    t.job = some (uuid, kind) → ∀ row ∈ w.jobs, row.kind = .submission → row.uuid ≠ uuid) : Aside w t where
  submits := by
    by_contra hsubmits
    obtain ⟨uuid, hown⟩ := job_of_submits (by simpa using hsubmits)
    exact hjob uuid hown
  others := hothers

theorem SameSubmissions.quiet (hv : SameSubmissions w v) (hw : Quiet w) : Quiet v where
  status := hv.status
  jobs job hjob hlive := by
    have hkind : job.kind = .submission := by
      simp only [Job.live, Bool.and_eq_true, decide_eq_true_iff] at hlive
      exact hlive.1
    exact hw.jobs job ((hv.jobs job hkind).mp hjob) hlive

theorem SameSubmissions.update (hv : SameSubmissions w v) {uuid : String} {f : Job → Job}
    (hf : ∀ job, (f job).uuid = job.uuid ∧ (f job).kind = job.kind)
    (hother : ∀ job ∈ v.jobs, job.uuid = uuid → job.kind ≠ .submission) :
    SameSubmissions w { v with jobs := updateJob uuid f v.jobs } where
  status := hv.status
  rows := hv.rows.update fun job => (hf job).1
  jobs job hkind := by
    rw [← hv.jobs job hkind]
    constructor
    · intro hjob
      obtain ⟨b, hb, rfl⟩ := mem_updateJob.mp hjob
      split at hkind
      · rename_i huuid
        exact absurd ((hf b).2.symm.trans hkind) (hother b hb huuid)
      · rename_i huuid
        rwa [if_neg huuid]
    · intro hjob
      exact mem_updateJob_other hjob fun huuid => hother job hjob huuid hkind

/-- Only jobs of other kinds can start there. -/
theorem SameSubmissions.start (hv : SameSubmissions w v) (hw : Quiet w) {v' : World} (hs : t.start v = some v') :
    SameSubmissions w v' ∧ Aside w t := by
  obtain ⟨hnone, rfl⟩ | ⟨uuid, kind, row, hjob, hrow, huuid, hkind, hwaits, rfl⟩ := start_cases hs
  · exact ⟨hv, aside_of_job (by simp [hnone]) (by simp [hnone])⟩
  have hother : row.kind ≠ .submission := by
    intro hsubmission
    exact (hv.quiet hw).jobs row hrow (by simp [Job.live, hsubmission, hwaits])
  have hsame : ∀ job ∈ v.jobs, job.uuid = uuid → job.kind ≠ .submission := by
    intro job hmem hjobuuid
    obtain rfl := hv.rows.unique hmem hrow (hjobuuid.trans huuid.symm)
    exact hother
  refine ⟨hv.update (fun _ => ⟨rfl, rfl⟩) hsame, aside_of_job (fun uuid' hown => ?_) fun uuid' kind' hown job hmem
    hsubmission hjobuuid => ?_⟩
  · rw [hjob] at hown
    cases hown
    exact hother hkind
  · rw [hjob] at hown
    cases hown
    exact hsame job ((hv.jobs job hsubmission).mpr hmem) hjobuuid hsubmission

theorem SameSubmissions.finish (hv : SameSubmissions w v) (ht : Aside w t) {o : Outcome TaskExc Unit} :
    SameSubmissions w (t.finish o v) := by
  cases hjob : t.job with
  | none => rwa [finish_none hjob]
  | some job =>
    rw [finish_eq hjob]
    refine hv.update (after_same o) fun row hrow huuid hkind => ?_
    exact ht.others job.1 job.2 hjob row ((hv.jobs row hkind).mp hrow) hkind huuid

theorem SameSubmissions.write (hv : SameSubmissions w v) (hw : Quiet w) (hcareful : Careful inst w h)
    (hfound : inst.queueJobFound = false) (hmv : mv ∈ h) {u : WorldWrite} (hlabel : mv.label = .effect (.write v u))
    (hsubmits : mv.task.submits = false) {phase : Watch} (hallowed : mayWrite inst mv.task phase v u) :
    SameSubmissions w (u.apply v) := by
  have hmissing : inst.queueJobFound ≠ true := by simp [hfound]
  cases u with
  | record u =>
    refine ⟨fun hstatus => ?_, hv.rows, hv.jobs⟩
    obtain hcalm | ⟨-, hkeeps, -⟩ | ⟨row, -, -, -, hnames⟩ | ⟨-, -, uuid, hnames⟩ | ⟨-, -, hreleases⟩ |
      ⟨-, hreleases⟩ := hallowed
    · exact hv.status (submitting_apply hcalm hstatus)
    · by_cases hsets : u.sets .submitting = true
      · exact hmissing (hcareful.resubmits mv hmv v u hlabel hsubmits hsets).1
      · exact hv.status (submitting_apply (calm_of_not_sets hkeeps hsets) hstatus)
    · exact hv.status ((names_apply hnames _).2.symm.trans hstatus)
    · exact hv.status ((names_apply hnames _).2.symm.trans hstatus)
    · cases (releases_apply hreleases v.contract).symm.trans hstatus
    · cases (releases_apply hreleases v.contract).symm.trans hstatus
  | enqueue job =>
    obtain ⟨hne, hfresh⟩ := hcareful.fresh mv hmv v job hlabel
    have hkind : job.kind ≠ .submission := fun hkind =>
      hmissing (hcareful.enqueues mv hmv v job hlabel hkind).1
    refine ⟨hv.status, hv.rows.append hne hfresh, fun row hrow => ?_⟩
    rw [← hv.jobs row hrow]
    refine ⟨fun hmem => ?_, fun hmem => List.mem_append_left _ hmem⟩
    rcases List.mem_append.mp hmem with hold | hnew
    · exact hold
    · rw [List.mem_singleton.mp hnew] at hrow
      exact absurd hrow hkind
  | setJobState uuid state =>
    obtain ⟨-, -, row, hrow, rfl, hwaits⟩ := hallowed
    refine hv.update (fun _ => ⟨rfl, rfl⟩) fun job hjob huuid hkind => ?_
    obtain rfl := hv.rows.unique hjob hrow huuid
    exact (hv.quiet hw).jobs job hrow (by simp [Job.live, hkind, hwaits])

theorem run_quiet (hw : Quiet w) (hrows : Rows w.jobs) (hfound : inst.queueJobFound = false)
    (hrun : Run (system inst) w h m) (hcareful : Careful inst w h) : Quiet m.store := by
  have hfirst : SameSubmissions w w := ⟨hw.status, hrows, fun _ _ => Iff.rfl⟩
  have hwrites : ∀ mv ∈ h, ∀ v u, mv.label = .effect (.write v u) → Aside w mv.task → SameSubmissions w v →
      SameSubmissions w (u.apply v) := by
    intro mv hmv v u hlabel haside hv
    obtain ⟨before, after, hsplit⟩ := List.append_of_mem hmv
    have hallowed := (hrun.obeying (obeys_body inst)).2 before mv after _ hsplit hlabel (hcareful.tasks mv hmv)
    exact hv.write hw hcareful hfound hmv hlabel haside.submits hallowed
  have hkept := hrun.storedBy (I := SameSubmissions w) (J := Aside w) hfirst
    (fun t v v' hstart hv => hv.start hw hstart) (fun t o v ht hv => hv.finish ht) hwrites
  exact hkept.1.1.quiet hw

end

end Stranded

/-- In a careful run no contract is stranded, whoever is cut and wherever. -/
theorem never_stranded {inst : Installation} {w : World} {h : List TaskMove} {m : DeadLetter.TaskMachine}
    (hw : NotStranded inst w) (hrows : Rows w.jobs) (hrun : Run (system inst) w h m) (hcareful : Careful inst w h) :
    NotStranded inst m.store := by
  cases hfound : inst.queueJobFound with
  | true =>
    have hguarded := Stranded.run_guarded hw.tended hrows hrun hfound hcareful
    exact (hguarded.store.tended rfl).notStranded hfound hguarded.store.rows
  | false =>
    have hquiet := Stranded.quiet_of_notStranded hw hfound (hcareful.rests hfound)
    exact (Stranded.run_quiet hquiet hrows hfound hrun hcareful).notStranded

/-- A move gives no job a uuid that is taken. -/
def checksFresh (mv : TaskMove) : Bool :=
  match mv.label with
  | .effect (.write v (.enqueue job)) => job.uuid ≠ "" && v.jobs.all fun row => row.uuid ≠ job.uuid
  | _ => true

theorem dealsWithJobs_of_checks {h : List TaskMove} (htasks : ∀ mv ∈ h, mv.task.dealsWithJobs)
    (hchecks : ∀ mv ∈ h, checksFresh mv) : DealsWithJobs h where
  tasks := htasks
  fresh mv hmv v job hlabel := by
    have hcheck := hchecks mv hmv
    simpa only [checksFresh, hlabel, Bool.and_eq_true, decide_eq_true_iff, List.all_eq_true] using hcheck

/-- What else makes it careful. -/
def checksCareful (inst : Installation) (mv : TaskMove) : Bool :=
  match mv.label with
  | .effect (.write v (.enqueue job)) =>
    job.kind ≠ .submission || inst.queueJobFound && v.jobs.all fun row => row.state ≠ .started
  | .effect (.write v (.record u)) =>
    (!u.sets .submitting || inst.queueJobFound &&
      v.jobs.any fun row => v.contract.activeJobUuid = some row.uuid && row.ended) &&
      (!mv.task.polls || v.contract.ejarStatus ≠ .submitting && v.jobs.all fun row => !row.live)
  | _ => true

theorem careful_of_checks {inst : Installation} {w : World} {h : List TaskMove}
    (hdeals : DealsWithJobs h) (hrests : ∀ row ∈ w.jobs, row.state ≠ .started)
    (hchecks : ∀ mv ∈ h, checksCareful inst mv) : Careful inst w h where
  toDealsWithJobs := hdeals
  rests _ := hrests
  resubmits mv hmv v u hlabel _ hsets := by
    have hcheck := hchecks mv hmv
    simp only [checksCareful, hlabel, hsets, Bool.and_eq_true, Bool.not_true, Bool.false_or, List.any_eq_true,
      decide_eq_true_iff] at hcheck
    exact hcheck.1
  enqueues mv hmv v job hlabel hkind := by
    have hcheck := hchecks mv hmv
    simp only [checksCareful, hlabel, hkind, Bool.and_eq_true, decide_eq_true_iff, List.all_eq_true, ne_eq,
      not_true, decide_false, Bool.false_or] at hcheck
    exact ⟨hcheck.1, fun row hrow _ => hcheck.2 row hrow⟩
  polls mv hmv v u hlabel hpolls _ := by
    have hcheck := hchecks mv hmv
    simp only [checksCareful, hlabel, hpolls, Bool.and_eq_true, Bool.not_true, Bool.false_or, List.all_eq_true,
      decide_eq_true_iff, Bool.not_eq_true'] at hcheck
    exact ⟨hcheck.2.1, fun row hrow => by simp [hcheck.2.2 row hrow]⟩

/-- The contract names a submission that has failed. -/
def failedBefore : World :=
  ⟨{ sampleContract "EJ/1" with activeJobUuid := some "job-1" },
    [{ uuid := "job-1", kind := .submission, state := .failed, maxRetries := maxSubmissionRetries }]⟩

/-- It is submitted again. -/
def resubmission : List TaskMove × DeadLetter.TaskMachine :=
  Machine.exec (system ⟨true, true, true⟩) (.start 0 (.submitAsync 0 "job-2") :: List.replicate 9 (.go 0 .timeout))
    ([], .initial failedBefore)

/-- The contract was submitted, with a job that is done. -/
def submittedBefore : World :=
  ⟨{ sampleContract "EJ/1" with
      ejarStatus := .submitted, ejarContractId := some "C-1", activeJobUuid := some "job-1" },
    [{ uuid := "job-1", kind := .submission, state := .done, maxRetries := maxSubmissionRetries }]⟩

/-- Its status is asked for, where no row of `queue.job` is found. -/
def statusCheck : List TaskMove × DeadLetter.TaskMachine :=
  Machine.exec (system ⟨true, true, false⟩)
    (.start 0 (.checkEjarStatus sampleEnv "job-2") :: List.replicate 9 (.go 0 .timeout)) ([], .initial submittedBefore)

theorem failedBefore_rows : Rows failedBefore.jobs where
  nodup := by decide
  nonempty := by decide

theorem failedBefore_tended : Tended failedBefore where
  submitting h := by cases h
  named := by decide

theorem submittedBefore_rows : Rows submittedBefore.jobs where
  nodup := by decide
  nonempty := by decide

theorem submittedBefore_quiet : Stranded.Quiet submittedBefore where
  status := by decide
  jobs := by decide

theorem never_stranded_resubmission : NotStranded ⟨true, true, true⟩ resubmission.2.store ∧
    NotStranded ⟨true, true, false⟩ statusCheck.2.store :=
  ⟨never_stranded (failedBefore_tended.notStranded rfl failedBefore_rows) failedBefore_rows (Machine.exec_run .nil)
      (careful_of_checks (dealsWithJobs_of_checks (by decide +kernel) (by decide +kernel)) (by decide)
        (by decide +kernel)),
    never_stranded submittedBefore_quiet.notStranded submittedBefore_rows (Machine.exec_run .nil)
      (careful_of_checks (dealsWithJobs_of_checks (by decide +kernel) (by decide +kernel)) (by decide)
        (by decide +kernel))⟩

/-- A first submission, up to its first commit. -/
def interrupted : List TaskMove × DeadLetter.TaskMachine :=
  Machine.exec (system ⟨true, true, true⟩) (.start 0 (.submitAsync 0 "job-1") :: List.replicate 4 (.go 0 .timeout))
    ([], .initial ⟨sampleContract "EJ/1", []⟩)

theorem interrupted_cut : ∃ m : DeadLetter.TaskMachine, m.store = interrupted.2.store ∧
    Run (system ⟨true, true, true⟩) ⟨sampleContract "EJ/1", []⟩
      (interrupted.1 ++ [⟨0, .submitAsync 0 "job-1", .finish .cut interrupted.2.store⟩]) m := by
  have hrun : Run (system ⟨true, true, true⟩) ⟨sampleContract "EJ/1", []⟩ interrupted.1 interrupted.2 :=
    Machine.exec_run .nil
  refine ⟨interrupted.2.set 0 (.ended (.submitAsync 0 "job-1") .cut) interrupted.2.store none, rfl, .step hrun ?_⟩
  exact .cut (v := interrupted.2.store) rfl rfl

/-- A first submission that nothing interrupts, where no row of `queue.job` is found. -/
def unseen : List TaskMove × DeadLetter.TaskMachine :=
  Machine.exec (system ⟨true, true, false⟩) (.start 0 (.submitAsync 0 "job-1") :: List.replicate 9 (.go 0 .timeout))
    ([], .initial ⟨sampleContract "EJ/1", []⟩)

/-- In every run of these tasks no contract is stranded. -/
def NeverStranded (inst : Installation) : Prop :=
  ∀ w h m, NotStranded inst w → Rows w.jobs → Run (system inst) w h m → DealsWithJobs h → NotStranded inst m.store

theorem unsubmitted_quiet : Stranded.Quiet ⟨sampleContract "EJ/1", []⟩ := ⟨by decide, by simp⟩

/-- The status is 'submitting' for good: there is no job, and none that the cleanup could
look at. And where no row of `queue.job` is found, a job that waits cannot be cancelled. -/
theorem submission_stranded : ¬ NeverStranded ⟨true, true, true⟩ ∧ ¬ NeverStranded ⟨true, true, false⟩ := by
  constructor
  · intro hnever
    obtain ⟨m, hstore, hrun⟩ := interrupted_cut
    have hdeals : DealsWithJobs
        (interrupted.1 ++ [⟨0, .submitAsync 0 "job-1", .finish .cut interrupted.2.store⟩]) :=
      dealsWithJobs_of_checks (by decide +kernel) (by decide +kernel)
    have hnot := hnever _ _ _ unsubmitted_quiet.notStranded Rows.nil hrun hdeals
    have hjobs : m.store.jobs = [] := hstore ▸ rfl
    have hstatus : m.store.contract.ejarStatus = .submitting := hstore ▸ rfl
    obtain ⟨job, hjob, -⟩ | ⟨job, hjob, -⟩ := hnot.tended.submitting hstatus
    · simp [hjobs] at hjob
    · simp [hjobs] at hjob
  · intro hnever
    have hdeals : DealsWithJobs unseen.1 := dealsWithJobs_of_checks (by decide +kernel) (by decide +kernel)
    have hnot := hnever _ _ unseen.2 unsubmitted_quiet.notStranded Rows.nil (Machine.exec_run .nil) hdeals
    have hjobs : unseen.2.store.jobs =
        [{ uuid := "job-1", kind := .submission, maxRetries := maxSubmissionRetries }] := rfl
    have hquiet := Stranded.quiet_of_notStranded hnot rfl (by simp [hjobs])
    exact hquiet.jobs _ (hjobs ▸ List.mem_singleton_self _) rfl

end Ejar
