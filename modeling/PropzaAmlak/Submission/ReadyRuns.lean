import PropzaAmlak.Submission.Readiness

/-! Attempts that call `submit_contract`, in runs in which the form is saved, too. -/

namespace Ejar

open Tx

namespace SiteTask

def takesData : SiteTask → Bool
  | task t => t.takesData
  | save _ => true

def submits : SiteTask → Bool
  | task t => t.submits
  | save _ => false

def job : SiteTask → Option (String × JobKind)
  | task t => t.job
  | save _ => none

end SiteTask

/-- The contract as caller `i` first read it. -/
def openingOf (i : Nat) (h : List SiteMove) : Opening :=
  (effectsOf i h).findSome? fun
    | .read v => some v.contract
    | _ => none

/-- A submission is live only for a contract that is complete: it is enqueued for one,
and what comes from outside while it waits or runs leaves it so. -/
structure KeptReady (h : List SiteMove) : Prop where
  fresh : ∀ mv ∈ h, ∀ v job, mv.label = .effect (.write v (.task (.enqueue job))) →
    job.uuid ≠ "" ∧ ∀ row ∈ v.jobs, row.uuid ≠ job.uuid
  enqueued : ∀ mv ∈ h, ∀ v job, mv.label = .effect (.write v (.task (.enqueue job))) → job.kind = .submission →
    v.contract.isReadyToSubmit
  taken : ∀ mv ∈ h, ∀ v u, mv.label = .effect (.write v u) → mv.task.takesData → (∃ row ∈ v.jobs, row.live) →
    (u.apply v).contract.isReadyToSubmit

namespace Readiness

/-- What the callers of a run keep to. -/
def siteRule (t : SiteTask) : Protocol World SiteWrite Request Reply Opening where
  init := none
  allows opening
    | .write v (.task u) => ∃ t', t = .task t' ∧ (startingRule t').allows opening (.write v u)
    | .write _ (.form _) => ∃ v, t = .save v
    | .call q r => ∃ t', t = .task t' ∧ (startingRule t').allows opening (.call q r)
    | _ => True
  next opening
    | .read v => opening.or (some v.contract)
    | _ => opening

theorem site_obeys (inst : Installation) (t : SiteTask) : ((site inst).body t).obeys (site inst).app (siteRule t)
    (fun _ _ => True) (fun _ _ => True) ⟨none, (siteRule t).init⟩ := by
  cases t with
  | task t =>
    have happ : ∀ (u : WorldWrite) (w : World), id ((SiteWrite.task u).apply w) = u.apply (id w) := fun _ _ => rfl
    have hbody : (t.body inst).obeys WorldWrite.apply (startingRule t) (fun _ _ => True) (fun _ _ => True)
        (Local.part id ⟨none, none⟩) := body_starts inst t
    refine Prog.obeys_zoom happ ?_ ?_ hbody
    · intro opening e e' he hallows
      cases he with
      | write v u => exact ⟨t, rfl, hallows⟩
      | call q r => exact ⟨t, rfl, hallows⟩
      | _ => trivial
    · intro opening e e' he
      cases he with
      | read v => rfl
      | write v u => cases u <;> rfl
      | commit v => rfl
      | call q r => rfl
  | save v =>
    intro w _
    refine ⟨⟨v, rfl⟩, fun w' _ => ⟨trivial, ?_⟩⟩
    dsimp only [Prog.bind]
    split
    · trivial
    · trivial

theorem phaseOf_eq (t : SiteTask) (i : Nat) (h : List SiteMove) : (siteRule t).phaseOf i h = openingOf i h := by
  have hfold : ∀ (es : List (Effect World SiteWrite Request Reply)) (opening : Opening),
      es.foldl (siteRule t).next opening = opening.or (es.findSome? fun
        | .read v => some v.contract
        | _ => none) := by
    intro es
    induction es with
    | nil => simp
    | cons e es ih =>
      intro opening
      rw [List.foldl_cons, ih]
      cases e with
      | read v => cases opening <;> simp [siteRule]
      | _ => simp [siteRule]
  exact (hfold _ none).trans (Option.none_or ..)

/-- The queue and the contract as a caller sees them. -/
structure Complete (v : World) : Prop where
  rows : Rows v.jobs
  ready : (∃ row ∈ v.jobs, row.live) → v.contract.isReadyToSubmit

variable {inst : Installation} {h : List SiteMove} {mv : SiteMove} {m m' : SiteMachine} {v w : World} {i : Nat}
  {t : SiteTask}

theorem parties_set (c : Contract) (id : Nat) (vals : PartyVals) (role : Role) :
    ((RecordWrite.party id vals).apply c).parties.any (·.role = role) = c.parties.any (·.role = role) := by
  have hrole : ∀ j, (((c.partyIds.modify id (·.set vals)).row j).role) = (c.partyIds.row j).role := by
    intro j
    by_cases hj : j = id
    · subst hj
      simp [Party.set]
    · simp [hj]
  simp only [RecordWrite.apply, Contract.parties, Records.toList, List.any_map, Records.modify_ids]
  congr 1
  funext j
  simp [hrole]

/-- What the code itself writes leaves a complete contract complete. -/
theorem ready_apply {u : RecordWrite} (hu : u.fills) {c : Contract} (hc : c.isReadyToSubmit) :
    (u.apply c).isReadyToSubmit := by
  cases u with
  | contract vals =>
    obtain ⟨hdoc, hprofile⟩ := hu
    simp only [Contract.isReadyToSubmit, Bool.and_eq_true] at hc ⊢
    obtain ⟨⟨⟨⟨⟨hparts, hsigned⟩, hoffice⟩, hstart⟩, hend⟩, hrent⟩ := hc
    refine ⟨⟨⟨⟨⟨hparts, ?_⟩, ?_⟩, hstart⟩, hend⟩, hrent⟩
    · cases hvals : vals.signedDoc with
      | none => simpa [RecordWrite.apply, Contract.set, hvals] using hsigned
      | some doc => simpa [RecordWrite.apply, Contract.set, hvals] using hdoc doc hvals
    · cases hvals : vals.brokerageProfileId with
      | none => simpa [RecordWrite.apply, Contract.set, hvals] using hoffice
      | some profile =>
        cases profile with
        | none => exact absurd hvals hprofile
        | some profile => simp [RecordWrite.apply, Contract.set, hvals]
  | party id vals =>
    have hlessor := parties_set c id vals .lessor
    have htenant := parties_set c id vals .tenant
    have hsame : ((RecordWrite.party id vals).apply c).isReadyToSubmit = c.isReadyToSubmit := by
      simp only [Contract.isReadyToSubmit, Contract.hasLessor, Contract.hasTenant, hlessor, htenant]
      rfl
    rwa [hsame]
  | unit id vals => exact hc
  | activity note => exact hc

theorem Complete.write (hv : Complete v) (hkept : KeptReady h) (hmv : mv ∈ h) {u : SiteWrite}
    (hlabel : mv.label = .effect (.write v u)) {opening : Opening}
    (hallowed : (siteRule mv.task).allows opening (.write v u)) : Complete (u.apply v) := by
  cases u with
  | task u =>
    obtain ⟨t, ht, hallowed⟩ := hallowed
    cases u with
    | record u =>
      refine ⟨hv.rows, fun hlive => ?_⟩
      obtain hdata | hfills := hallowed
      · exact hkept.taken mv hmv v _ hlabel (by rwa [ht]) hlive
      · exact ready_apply hfills (hv.ready hlive)
    | enqueue job =>
      obtain ⟨hne, hfresh⟩ := hkept.fresh mv hmv v job hlabel
      refine ⟨hv.rows.append hne hfresh, fun ⟨row, hrow, hlive⟩ => ?_⟩
      rcases List.mem_append.mp hrow with hold | hnew
      · exact hv.ready ⟨row, hold, hlive⟩
      · rw [List.mem_singleton.mp hnew] at hlive
        simp only [Job.live, Bool.and_eq_true, decide_eq_true_iff] at hlive
        exact hkept.enqueued mv hmv v job hlabel hlive.1
    | setJobState uuid state =>
      obtain ⟨rfl, row, hrow, huuid, -⟩ := hallowed
      refine ⟨hv.rows.update fun _ => rfl, fun hlive => hv.ready (live_before hv.rows hrow huuid (fun h => ?_) hlive)⟩
      simp [Job.live, Job.waits] at h
  | form vals =>
    obtain ⟨vals', hsave⟩ := hallowed
    exact ⟨hv.rows, fun hlive => hkept.taken mv hmv v _ hlabel (by rw [hsave]; rfl) hlive⟩

theorem Complete.start (hv : Complete v) (hs : t.start v = some w) : Complete w := by
  cases t with
  | save vals =>
    obtain rfl := Option.some.inj hs
    exact hv
  | task t =>
    refine ⟨start_rows hv.rows hs, fun hlive => ?_⟩
    rw [DeadLetter.start_contract hs]
    obtain ⟨-, rfl⟩ | ⟨uuid, kind, row, -, hrow, huuid, -, hwaits, rfl⟩ := start_cases hs
    · exact hv.ready hlive
    · refine hv.ready (live_before hv.rows hrow huuid (fun h => ?_) hlive)
      simp only [Job.live, Bool.and_eq_true, decide_eq_true_iff] at h ⊢
      exact ⟨h.1, by simp [hwaits]⟩

theorem Complete.finish (hv : Complete v) {o : Outcome TaskExc Unit}
    (hruns : ∀ uuid kind, t.job = some (uuid, kind) → runs uuid kind v) : Complete (t.finish o v) := by
  cases t with
  | save vals => exact hv
  | task t =>
    change Complete (t.finish o v)
    refine ⟨finish_rows hv.rows o, fun hlive => ?_⟩
    rw [DeadLetter.finish_contract]
    cases ht : t.job with
    | none =>
      rw [finish_none ht] at hlive
      exact hv.ready hlive
    | some job =>
      obtain ⟨uuid, kind⟩ := job
      obtain ⟨row, hrow, huuid, -, hstate⟩ := hruns uuid kind ht
      rw [finish_eq ht] at hlive
      refine hv.ready (live_before hv.rows hrow huuid (fun h => ?_) hlive)
      simp only [Job.live, Bool.and_eq_true, decide_eq_true_iff] at h
      exact live_of_started ((after_same o row).2.symm.trans h.1) hstate

theorem opening_effect {e : Effect World SiteWrite Request Reply} : openingOf i (h ++ [⟨i, t, .effect e⟩]) =
    (openingOf i h).or (match e with
      | .read v => some v.contract
      | _ => none) := by
  rw [← phaseOf_eq t, ← phaseOf_eq t, Protocol.phaseOf_effect]
  cases e <;> simp [siteRule]

theorem opening_other (hi : mv.who ≠ i) : openingOf i (h ++ [mv]) = openingOf i h := by
  rw [openingOf, effectsOf_other hi, openingOf]

/-- What is known after each step. -/
structure Sound (h : List SiteMove) (m : SiteMachine) : Prop where
  store : Complete m.store
  holder : ∀ j v, m.holder = some (j, v) → Complete v
  occupied : Occupied SiteTask.job m
  opened : ∀ j t p c, m.proc j = .live t p → t.submits → openingOf j h = some c → c.isReadyToSubmit

theorem Sound.sees (hm : Sound h m) (hv : m.sees i = some v) : Complete v := by
  obtain ⟨-, rfl⟩ | hholder := sees_cases hv
  · exact hm.store
  · exact hm.holder i v hholder

theorem live_of_runs {uuid : String} (hruns : runs uuid .submission v) : ∃ row ∈ v.jobs, row.live := by
  obtain ⟨row, hrow, -, hkind, hstate⟩ := hruns
  exact ⟨row, hrow, live_of_started hkind hstate⟩

theorem site_job_of_submits (ht : t.submits) : ∃ uuid, t.job = some (uuid, .submission) := by
  cases t with
  | task t => exact job_of_submits ht
  | save vals => cases ht

/-- What is known of a caller that has still to end. -/
abbrev Starting (inst : Installation) (h : List SiteMove) (m : SiteMachine) : Prop :=
  Obeying (site inst) siteRule (fun _ _ _ => True) (fun _ _ _ => True) h m

theorem opening_same {label : Label World SiteWrite Request Reply TaskExc Unit}
    (hread : ∀ v, label ≠ .effect (.read v)) : openingOf i (h ++ [⟨i, t, label⟩]) = openingOf i h := by
  cases label with
  | effect e =>
    rw [opening_effect]
    cases e with
    | read v => exact absurd rfl (hread v)
    | _ => exact Option.or_none
  | _ => simp [openingOf, effectsOf, List.filterMap_append]

theorem Sound.opened_before (hm : Sound h m) {pr : Proc World SiteWrite Request Reply TaskExc Unit SiteTask}
    {holder : Option (Nat × World)} {label : Label World SiteWrite Request Reply TaskExc Unit}
    (hpr : ∀ t q, pr = .live t q → ∃ q', m.proc i = .live t q') (hread : ∀ v, label ≠ .effect (.read v)) :
    ∀ j t' p c, (m.set i pr w holder).proc j = .live t' p → t'.submits → openingOf j (h ++ [⟨i, t, label⟩]) = some c →
      c.isReadyToSubmit := by
  intro j t' p c hj hsubmits hc
  obtain ⟨q, hj'⟩ := set_live hpr hj
  have hsame : openingOf j (h ++ [⟨i, t, label⟩]) = openingOf j h := by
    by_cases hji : j = i
    · rw [hji]
      exact opening_same hread
    · exact opening_other (Ne.symm hji)
  rw [hsame] at hc
  exact hm.opened j t' q c hj' hsubmits hc

theorem Sound.ends (hm : Sound h m) {o : Outcome TaskExc Unit} {p : SiteProg Unit}
    {label : Label World SiteWrite Request Reply TaskExc Unit} (hi : m.proc i = .live t p)
    (hruns : ∀ j t' q uuid kind, m.proc j = .live t' q → t'.job = some (uuid, kind) → runs uuid kind v)
    (hv : Complete v) (hread : ∀ v, label ≠ .effect (.read v)) :
    Sound (h ++ [⟨i, t, label⟩]) (m.set i (.ended t o) ((site inst).finish t o v) none) where
  store := hv.finish fun uuid kind => hruns i t p uuid kind hi
  holder j u hj := by cases hj
  occupied := by
    refine hm.occupied.ends hi hruns fun uuid kind hother hdistinct => ?_
    cases t with
    | save vals => exact hother
    | task t => exact runs_finish hother hdistinct
  opened := hm.opened_before (fun t q h => by cases h) hread

theorem Sound.starts (hm : Sound h m) (hs : (site inst).start t m.store = some w) (hidle : effectsOf i h = []) :
    Sound (h ++ [⟨i, t, .start⟩]) (m.set i (.live t ((site inst).body t)) w none) where
  store := hm.store.start hs
  holder j u hj := by cases hj
  occupied := by
    cases t with
    | save vals =>
      obtain rfl := Option.some.inj hs
      exact hm.occupied.starts (fun uuid kind h => by cases h) fun uuid kind hruns => ⟨hruns, fun kind' h => by cases h⟩
    | task t =>
      exact hm.occupied.starts (fun uuid kind => start_own hs) fun uuid kind => start_others hm.store.rows hs
  opened j t' p c hj hsubmits hc := by
    by_cases hji : j = i
    · subst hji
      have hnone : openingOf j h = none := by simp [openingOf, hidle]
      rw [opening_same (by simp), hnone] at hc
      cases hc
    · rw [Machine.set_proc_of_ne hji] at hj
      rw [opening_other (Ne.symm hji)] at hc
      exact hm.opened j t' p c hj hsubmits hc

theorem Sound.reads (hm : Sound h m) {k : World → SiteProg Unit} (hi : m.proc i = .live t (.read k))
    (hv : m.sees i = some v) :
    Sound (h ++ [⟨i, t, .effect (.read v)⟩]) (m.set i (.live t (k v)) m.store (some (i, v))) where
  store := hm.store
  holder j u hj := by
    cases hj
    exact hm.sees hv
  occupied := hm.occupied.goes hi hv fun uuid kind hruns => hruns
  opened j t' p c hj hsubmits hc := by
    by_cases hji : j = i
    · subst hji
      rw [Machine.set_proc_self] at hj
      cases hj
      rw [opening_effect] at hc
      cases hopening : openingOf j h with
      | some c' =>
        rw [hopening] at hc
        cases hc
        exact hm.opened j t _ c hi hsubmits hopening
      | none =>
        rw [hopening] at hc
        cases hc
        obtain ⟨uuid, hjob⟩ := site_job_of_submits hsubmits
        exact (hm.sees hv).ready (live_of_runs (hm.occupied.sees_runs hv hi hjob))
    · rw [Machine.set_proc_of_ne hji] at hj
      rw [opening_other (Ne.symm hji)] at hc
      exact hm.opened j t' p c hj hsubmits hc

theorem Sound.step (hm : Sound h m) (hkept : KeptReady (h ++ [mv])) (hstarting : Starting inst h m)
    (hstep : Step (site inst) m mv m') : Sound (h ++ [mv]) m' := by
  have hallowed := (hstarting.step (site_obeys inst) hstep).2
  have hmem : mv ∈ h ++ [mv] := List.mem_append_right _ (List.mem_singleton_self mv)
  have hstored : ∀ j t q uuid kind, m.proc j = .live t q → t.job = some (uuid, kind) → runs uuid kind m.store :=
    fun j t q uuid kind hj hjob => (hm.occupied.running j t q uuid kind hj hjob).1
  have hgoes : ∀ {i t p k} (t' : SiteTask) (q : SiteProg Unit), m.proc i = .live t p →
      (Proc.live t k : Proc World SiteWrite Request Reply TaskExc Unit SiteTask) = .live t' q →
      ∃ q', m.proc i = .live t' q' := by
    intro i t p k t' q hi hpr
    cases hpr
    exact ⟨p, hi⟩
  cases hstep with
  | start hi hnone hs => exact hm.starts hs (hstarting.idle _ hi).1
  | read hi hv => exact hm.reads hi hv
  | @write i t u k v hi hv =>
    have hmay := hallowed _ rfl
    have hwaits : ∀ u', u = .task u' → ∀ uuid state, u' = .setJobState uuid state →
        ∃ row ∈ v.jobs, row.uuid = uuid ∧ row.waits := by
      rintro u' rfl uuid state rfl
      obtain ⟨t', -, -, hrow⟩ := hmay
      exact hrow
    refine ⟨hm.store, fun j w hj => ?_, hm.occupied.goes hi hv fun uuid kind hruns => ?_,
      hm.opened_before (fun t' q => hgoes t' q hi) (by simp)⟩
    · cases hj
      exact (hm.sees hv).write hkept hmem rfl hmay
    · cases u with
      | task u => exact runs_write (hm.sees hv).rows (hwaits u rfl) hruns
      | form vals => exact hruns
  | @commit i t k v hi hv =>
    refine ⟨hm.sees hv, fun j w hj => ?_, hm.occupied.commits hi hv,
      hm.opened_before (fun t' q => hgoes t' q hi) (by simp)⟩
    cases hj
  | @call i t q k r hi =>
    exact ⟨hm.store, hm.holder, hm.occupied.calls hi, hm.opened_before (fun t' q' => hgoes t' q' hi) (by simp)⟩
  | lost hi hv => exact hm.ends hi hstored hm.store (by simp)
  | ret hi hv =>
    exact hm.ends hi (fun j t q uuid kind hj hjob => hm.occupied.sees_runs hv hj hjob) (hm.sees hv) (by simp)
  | raise hi hv => exact hm.ends hi hstored hm.store (by simp)
  | cut hi hv => exact hm.ends hi hstored hm.store (by simp)

theorem keptReady_init {h' : List SiteMove} (hkept : KeptReady (h ++ h')) : KeptReady h where
  fresh mv' hmv' := hkept.fresh mv' (List.mem_append_left _ hmv')
  enqueued mv' hmv' := hkept.enqueued mv' (List.mem_append_left _ hmv')
  taken mv' hmv' := hkept.taken mv' (List.mem_append_left _ hmv')

theorem run_sound (hw : Complete w) (hrun : Run (site inst) w h m) (hkept : KeptReady h) : Sound h m := by
  induction hrun with
  | nil =>
    refine ⟨hw, fun j v hj => ?_, occupied_initial, fun j t p c hj => ?_⟩
    · cases hj
    · cases hj
  | step hrun hstep ih => exact (ih (keptReady_init hkept)).step hkept (hrun.obeying (site_obeys inst)).1 hstep

end Readiness

/-- Every call of `submit_contract` is from an attempt that found the contract complete
at its start. -/
theorem submits_complete {inst : Installation} {w : World} {h : List SiteMove} {m : SiteMachine} (hrows : Rows w.jobs)
    (hready : (∃ row ∈ w.jobs, row.live) → w.contract.isReadyToSubmit) (hrun : Run (site inst) w h m)
    (hkept : KeptReady h) : ∀ before mv after q r, h = before ++ mv :: after → mv.label = .effect (.call q r) →
      q.call.submits → ∃ c, openingOf mv.who before = some c ∧ c.isReadyToSubmit := by
  rintro before mv after q r rfl hlabel hsubmits
  obtain ⟨t, htask, hallowed⟩ := (hrun.obeying (Readiness.site_obeys inst)).2 before mv after _ rfl hlabel
  obtain ⟨m₁, m₂, hbefore, hstep⟩ := hrun.split
  obtain ⟨p, hlive⟩ := hstep.effect_live hlabel
  obtain ⟨c, hopening, hstart⟩ := hallowed hsubmits
  rw [Readiness.phaseOf_eq] at hopening
  refine ⟨c, hopening, ?_⟩
  obtain hjob | hcomplete := hstart
  · have hsound := Readiness.run_sound ⟨hrows, hready⟩ hbefore (Readiness.keptReady_init hkept)
    exact hsound.opened mv.who mv.task p c hlive (by rw [htask]; exact hjob) hopening
  · exact hcomplete

def answered : Reply := .response 201 (some (.obj [("data", .obj [("id", .str "1")])])) ""

/-- A submission is enqueued, and its job runs up to its last call. -/
def jobRun (w : World) : List SiteMove × SiteMachine :=
  Machine.exec (site ⟨true, true, true⟩)
    (.start 0 (.task (.submitAsync 0 "job-1")) :: List.replicate 9 (.go 0 answered) ++
      .start 1 (.task (.submissionJob "job-1" sampleEnv)) :: List.replicate 48 (.go 1 answered)) ([], .initial w)

def lastCall : SiteMove :=
  ⟨1, .task (.submissionJob "job-1" sampleEnv), .effect (.call ⟨1, .submitContract "1"⟩ (some answered))⟩

theorem jobRun_run {w : World} (hcall : (Machine.exec (site ⟨true, true, true⟩) [.go 1 answered] ([], (jobRun w).2)).1 =
    [lastCall]) : ∃ m, Run (site ⟨true, true, true⟩) w ((jobRun w).1 ++ [lastCall]) m := by
  have hrun : Run (site ⟨true, true, true⟩) w (jobRun w).1 (jobRun w).2 := Machine.exec_run .nil
  have hlast := hrun.exec [.go 1 answered]
  rw [hcall] at hlast
  exact ⟨_, hlast⟩

def completeWorld : World := ⟨sampleContract "EJ/1", []⟩

def SiteMove.enqueuesFresh (mv : SiteMove) : Bool :=
  match mv.label with
  | .effect (.write v (.task (.enqueue job))) => job.uuid ≠ "" && v.jobs.all fun row => row.uuid ≠ job.uuid
  | _ => true

def SiteMove.enqueuesReady (mv : SiteMove) : Bool :=
  match mv.label with
  | .effect (.write v (.task (.enqueue _))) => v.contract.isReadyToSubmit
  | _ => true

theorem jobRun_kept : KeptReady ((jobRun completeWorld).1 ++ [lastCall]) where
  fresh := by
    have hall : ∀ mv ∈ (jobRun completeWorld).1 ++ [lastCall], mv.enqueuesFresh := by decide +kernel
    intro mv hmv v job hlabel
    have hmove := hall mv hmv
    rw [SiteMove.enqueuesFresh, hlabel] at hmove
    simpa using hmove
  enqueued := by
    have hall : ∀ mv ∈ (jobRun completeWorld).1 ++ [lastCall], mv.enqueuesReady := by decide +kernel
    intro mv hmv v job hlabel _
    have hmove := hall mv hmv
    rw [SiteMove.enqueuesReady, hlabel] at hmove
    exact hmove
  taken := by
    have hall : ∀ mv ∈ (jobRun completeWorld).1 ++ [lastCall], mv.task.takesData = false := by decide +kernel
    intro mv hmv v u _ hdata
    rw [hall mv hmv] at hdata
    cases hdata

theorem submits_complete_jobRun : ∃ c, openingOf 1 (jobRun completeWorld).1 = some c ∧ c.isReadyToSubmit := by
  obtain ⟨m, hrun⟩ := jobRun_run (w := completeWorld) rfl
  exact submits_complete Rows.nil (by simp [completeWorld]) hrun jobRun_kept
    (jobRun completeWorld).1 lastCall [] _ _ rfl rfl rfl

/-- The rent is not filled in. -/
def unpricedWorld : World := ⟨{ sampleContract "EJ/1" with rentAmount := 0 }, []⟩

theorem incomplete_submitted : ¬ ∀ inst w h m, Rows w.jobs → ((∃ row ∈ w.jobs, row.live) → w.contract.isReadyToSubmit) →
    Run (site inst) w h m → (∀ mv ∈ h, ∀ v job, mv.label = .effect (.write v (.task (.enqueue job))) →
      job.uuid ≠ "" ∧ ∀ row ∈ v.jobs, row.uuid ≠ job.uuid) →
    ∀ before mv after q r, h = before ++ mv :: after → mv.label = .effect (.call q r) → q.call.submits →
      ∃ c, openingOf mv.who before = some c ∧ c.isReadyToSubmit := by
  intro hcomplete
  obtain ⟨m, hrun⟩ := jobRun_run (w := unpricedWorld) rfl
  have hall : ∀ mv ∈ (jobRun unpricedWorld).1 ++ [lastCall], mv.enqueuesFresh := by decide +kernel
  obtain ⟨c, hopening, hready⟩ := hcomplete ⟨true, true, true⟩ unpricedWorld _ m Rows.nil
    (by simp [unpricedWorld]) hrun
    (fun mv hmv v job hlabel => by
      have hmove := hall mv hmv
      rw [SiteMove.enqueuesFresh, hlabel] at hmove
      simpa using hmove)
    (jobRun unpricedWorld).1 lastCall [] _ _ rfl rfl rfl
  have hopened : (openingOf 1 (jobRun unpricedWorld).1).all fun c => !c.isReadyToSubmit := by decide +kernel
  have hwho : lastCall.who = 1 := rfl
  rw [hwho] at hopening
  simp [hopening, hready] at hopened

end Ejar
