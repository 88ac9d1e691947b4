import PropzaAmlak.Status.Transitions

/-! Callers of `execute_full_submission` for one contract, and when they exclude each
other. -/

namespace Ejar

open Tx

/-- How far a caller is. It is inside from the commit of 'submitting' to the commit of
the status that its attempt ends in. -/
inductive Stage where
  | fresh
  | opened (c : Contract)
  | entering
  | inside
  | finishing
  | failing
  | succeeded
  | past

namespace Stage

def running : Stage → Bool
  | inside | finishing | failing => true
  | _ => false

end Stage

/-- The write sets the status `new`. -/
def RecordWrite.sets (new : EjarStatus) : RecordWrite → Bool
  | .contract vals => vals.ejarStatus = some new
  | _ => false

def Stage.next : Stage → Effect Contract RecordWrite Request Reply → Stage
  | fresh, .read c => opened c
  | fresh, _ => past
  | opened c, .write _ u => if u.sets .submitting then entering else opened c
  | opened _, .commit _ => past
  | entering, .commit _ => inside
  | inside, .write _ u =>
    if u.sets .submitted then finishing else if u.sets .ready then failing else inside
  | finishing, .write _ u => if u.sets .ready then failing else finishing
  | finishing, .commit _ => succeeded
  | failing, .commit _ => past
  | stage, _ => stage

/-- The tasks that run `execute_full_submission`. -/
def Task.runsPipeline (inst : Installation) : Task → Bool
  | submissionJob .. => true
  | submitWizard .. => !inst.queueJobInstalled
  | _ => false

/-- The checks before `execute_full_submission` let the task pass. -/
def Task.admitted : Task → Contract → Prop
  | submissionJob .., c => c.ejarStatus ≠ .submitted ∧ c.ejarStatus ≠ .approved
  | submitWizard _ confirmed _, c => (missingItems c).isEmpty ∧ confirmed
  | _, _ => False

/-- 'submitting' is written once, in the transaction that the caller opened by reading
a contract with which it was admitted. -/
def entryRule (inst : Installation) (t : Task) : ContractProtocol Stage where
  init := .fresh
  allows stage
    | .write _ u => t.runsPipeline inst → u.sets .submitting → ∃ c, stage = .opened c ∧ t.admitted c
    | _ => True
  next := Stage.next

/-- The stages alone. -/
def stages : Protocol World WorldWrite Request Reply Stage :=
  onWorld ⟨.fresh, fun _ _ => True, Stage.next⟩

/-- The stage of caller `i`; one that does not run the pipeline stays fresh. -/
def stageOf (inst : Installation) (i : Nat) (h : List TaskMove) : Stage :=
  stages.phaseOf i (h.filter fun mv => mv.task.runsPipeline inst)

/-- Between the commit of 'submitting' and the end of the attempt. -/
def inPipeline (inst : Installation) (i : Nat) (h : List TaskMove) : Prop :=
  (stageOf inst i h).running ∧ ¬ ended i h

/-- At most one caller is inside at any time, and none that fails commits 'ready'
while another one is inside or has succeeded. -/
structure OnePipeline (inst : Installation) (h : List TaskMove) : Prop where
  exclusive : ∀ before after, h = before ++ after → ∀ i j,
    inPipeline inst i before → inPipeline inst j before → i = j
  kept : ∀ before mv after v, h = before ++ mv :: after → mv.label = .effect (.commit v) →
    stageOf inst mv.who before = .failing → mv.task.runsPipeline inst →
    ∀ j, j ≠ mv.who → ¬ inPipeline inst j before ∧ stageOf inst j before ≠ .succeeded

/-- No caller is admitted while another one is inside or has succeeded. -/
def EntriesAlone (inst : Installation) (h : List TaskMove) : Prop :=
  ∀ before mv after v, h = before ++ mv :: after → mv.label = .effect (.read v) →
    stageOf inst mv.who before = .fresh → mv.task.runsPipeline inst → mv.task.admitted v.contract →
    ∀ j, ¬ inPipeline inst j before ∧ stageOf inst j before ≠ .succeeded

namespace Exclusion

variable {inst : Installation} {t : Task} {env : Env}

theorem entryRule_neutral : Neutral (entryRule inst t) (fun _ => True) fun _ => True where
  read _ := ⟨trivial, trivial⟩
  commit _ := ⟨trivial, trivial⟩
  call _ _ := ⟨trivial, trivial⟩
  write {stage c u} _ hu := by
    refine ⟨fun _ hsets => ?_, trivial⟩
    cases u with
    | contract vals =>
      simp [RecordWrite.sets, hu.1] at hsets
    | _ => cases hsets

theorem other_status {vals : ContractVals} (hvals : vals.ejarStatus ≠ some .submitting) (c : Contract)
    (stage : Stage) : (entryRule inst t).allows stage (.write c (.contract vals)) := by
  intro _ hsets
  simp only [RecordWrite.sets, decide_eq_true_iff] at hsets
  exact absurd hsets hvals

theorem writeContract_other {vals : ContractVals} (hvals : vals.ejarStatus ≠ some .submitting) :
    Neutral.keeps (entryRule inst t) (fun _ => True) (writeContract vals) :=
  fun _ _ => obeys_writeContract fun c _ => ⟨other_status hvals c _, trivial, trivial⟩

/-- `execute_full_submission` in the transaction in which the task was admitted. -/
theorem executeFullSubmission_enters {c : Contract} (hadmitted : t.admitted c)
    {N : SubmissionResult → Local Contract Stage → Prop} {E : Exc → Local Contract Stage → Prop}
    (hN : ∀ a y, N a y) (hE : ∀ e y, E e y) :
    (executeFullSubmission env).obeys RecordWrite.apply (entryRule inst t) N E ⟨some c, .opened c⟩ := by
  rw [executeFullSubmission, Prog.obeys_bind, Prog.obeys_get]
  intro c' hc'
  obtain rfl : c = c' := hc' c rfl
  refine ⟨trivial, ?_⟩
  rw [Prog.obeys_bind]
  refine obeys_writeContract fun d hd => ⟨fun _ _ => ⟨c, rfl, hadmitted⟩, trivial, ?_⟩
  rw [Prog.obeys_bind, Prog.obeys_commitNow]
  intro d' hd'
  refine ⟨trivial, ?_⟩
  refine Prog.obeys_mono (fun a y _ => hN a y) (fun e y _ => hE e y) (entryRule_neutral.rest
    (fun _ _ => (entryRule_neutral.weaken fun _ _ => trivial).stepCreateContract fun hvals _ => writeContract_other
      (by simp [hvals]))
    (fun hvals _ _ => writeContract_other (by simp [hvals]))
    (fun hvals _ _ => writeContract_other (by simp [hvals]))
    _ trivial)

theorem entryRule_lenient : Lenient (entryRule inst t) fun vals => vals.ejarStatus ≠ some .submitting where
  read := trivial
  commit := trivial
  write hvals := other_status hvals _ _
  activity := fun _ hsets => Bool.noConfusion hsets

theorem other_aside {vals : ContractVals} (haside : vals.aside) : vals.ejarStatus ≠ some .submitting := by
  obtain ⟨-, hvals | hvals⟩ := haside
  · simp [hvals]
  · simp [hvals]

theorem attempt_enters {c : Contract} (hadmitted : t.admitted c) :
    keepsTo (entryRule inst t) (onContract (executeFullSubmission env)) ⟨some c, .opened c⟩ :=
  follows_onContract (executeFullSubmission_enters hadmitted (fun _ _ => trivial) fun _ _ => trivial)

theorem submissionJob_enters {job : String} :
    keepsTo (entryRule inst (.submissionJob job env)) (jobExecuteFullSubmission env) ⟨none, .fresh⟩ :=
  entryRule_lenient.submissionJob other_aside fun _ hguard => attempt_enters (not_or.mp hguard)

theorem submitWizard_enters {confirmed : Bool} {uuid : String} (hinst : inst.queueJobInstalled = false) :
    keepsTo (entryRule inst (.submitWizard env confirmed uuid)) (actionConfirmSubmit inst env confirmed uuid)
      ⟨none, .fresh⟩ :=
  entryRule_lenient.submitWizard (fun _ hcomplete hconfirmed _ => attempt_enters ⟨hcomplete, hconfirmed⟩)
    fun _ hinstalled => by simp [hinst] at hinstalled

theorem obeys_body (t : Task) : ((system inst).body t).obeys (system inst).app (onWorld (entryRule inst t))
    (fun _ _ => True) (fun _ _ => True) ⟨none, .fresh⟩ := by
  have hfree : t.runsPipeline inst = false → ((system inst).body t).obeys (system inst).app
      (onWorld (entryRule inst t)) (fun _ _ => True) (fun _ _ => True) ⟨none, .fresh⟩ := by
    intro hother
    refine Prog.obeys_free (I := fun _ => True) (fun stage e _ => ⟨?_, trivial⟩) trivial
    cases e with
    | write v u =>
      cases u with
      | record u =>
        intro hruns
        rw [hother] at hruns
        cases hruns
      | _ => trivial
    | _ => trivial
  cases t with
  | submissionJob job env => exact submissionJob_enters ⟨none, .fresh⟩ rfl
  | submitWizard env confirmed uuid =>
    cases hinst : inst.queueJobInstalled with
    | false => exact submitWizard_enters hinst ⟨none, .fresh⟩ rfl
    | true => exact hfree (by simp [Task.runsPipeline, hinst])
  | _ => exact hfree rfl

theorem running_next {stage : Stage} {e : Effect Contract RecordWrite Request Reply}
    (h : (stage.next e).running) : stage.running ∨ stage = .entering ∧ ∃ c, e = .commit c := by
  unfold Stage.next at h
  split at h
  all_goals first
    | exact .inl h
    | exact .inr ⟨rfl, _, rfl⟩
    | exact .inl rfl
    | cases h
    | (split at h <;> cases h)

theorem succeeded_next {stage : Stage} {e : Effect Contract RecordWrite Request Reply}
    (h : stage.next e = .succeeded) : stage = .succeeded ∨ stage = .finishing ∧ ∃ c, e = .commit c := by
  unfold Stage.next at h
  split at h
  all_goals first
    | exact .inl h
    | exact .inr ⟨rfl, _, rfl⟩
    | cases h
    | (split at h <;> first | cases h | (split at h <;> cases h))

theorem entering_next {stage : Stage} {e : Effect Contract RecordWrite Request Reply}
    (h : stage.next e = .entering) : (stage = .entering ∧ ∀ c, e ≠ .commit c) ∨
      ∃ c d u, stage = .opened c ∧ e = .write d u ∧ u.sets .submitting := by
  unfold Stage.next at h
  split at h
  case h_3 c d u =>
    split at h
    · rename_i hsets
      exact .inr ⟨c, d, u, rfl, rfl, hsets⟩
    · cases h
  case h_10 hne => exact .inl ⟨h, fun c hc => by simp_all⟩
  all_goals first
    | cases h
    | (split at h <;> first | cases h | (split at h <;> cases h))

theorem opened_next {stage : Stage} {e : Effect Contract RecordWrite Request Reply} {c : Contract}
    (h : stage.next e = .opened c) : (stage = .opened c ∧ ∀ d, e ≠ .commit d) ∨
      stage = .fresh ∧ e = .read c := by
  unfold Stage.next at h
  split at h
  case h_1 d =>
    obtain rfl := Stage.opened.inj h
    exact .inr ⟨rfl, rfl⟩
  case h_3 c' d u =>
    split at h
    · cases h
    · exact .inl ⟨h, fun _ => by simp⟩
  case h_10 hne => exact .inl ⟨h, fun c hc => by simp_all⟩
  all_goals first
    | cases h
    | (split at h <;> first | cases h | (split at h <;> cases h))

/-- What an effect of a task is for the contract: nothing, or an effect there. -/
theorem stages_next (e : Effect World WorldWrite Request Reply) : (∀ stage, stages.next stage e = stage) ∨
    ∃ d, Effect.Zooms World.contract WorldWrite.record d e ∧ ∀ stage, stages.next stage e = stage.next d := by
  cases e with
  | read v => exact .inr ⟨_, .read v, fun _ => rfl⟩
  | commit v => exact .inr ⟨_, .commit v, fun _ => rfl⟩
  | call q r => exact .inr ⟨_, .call q r, fun _ => rfl⟩
  | write v u =>
    cases u with
    | record u => exact .inr ⟨_, .write v u, fun _ => rfl⟩
    | _ => exact .inl fun _ => rfl

section

variable {w : World} {h : List TaskMove} {m m' : Machine World WorldWrite Request Reply TaskExc Unit Task}
  {mv : TaskMove}

theorem stageOf_other {i : Nat} (hi : mv.who ≠ i) : stageOf inst i (h ++ [mv]) = stageOf inst i h := by
  rw [stageOf, List.filter_append]
  cases hruns : mv.task.runsPipeline inst with
  | false => simp [hruns, stageOf]
  | true =>
    have hone : [mv].filter (fun mv => mv.task.runsPipeline inst) = [mv] := by simp [hruns]
    rw [hone, Protocol.phaseOf_other hi]
    rfl

theorem inPipeline_other {i : Nat} (hi : mv.who ≠ i) :
    inPipeline inst i (h ++ [mv]) ↔ inPipeline inst i h := by
  rw [inPipeline, inPipeline, stageOf_other hi, ended_other hi]

theorem stageOf_self (inst : Installation) (h : List TaskMove) (mv : TaskMove) :
    (stageOf inst mv.who (h ++ [mv]) = stageOf inst mv.who h ∧
      (mv.task.runsPipeline inst → ∀ v, mv.label ≠ .effect (.commit v))) ∨
    ∃ d e, mv.task.runsPipeline inst ∧ mv.label = .effect e ∧
      Effect.Zooms World.contract WorldWrite.record d e ∧
      stageOf inst mv.who (h ++ [mv]) = (stageOf inst mv.who h).next d := by
  obtain ⟨who, t, label⟩ := mv
  cases hruns : t.runsPipeline inst with
  | false => exact .inl ⟨by simp [stageOf, hruns], by simp⟩
  | true =>
    have hfilter : (h ++ [(⟨who, t, label⟩ : TaskMove)]).filter (fun mv => mv.task.runsPipeline inst) =
        h.filter (fun mv => mv.task.runsPipeline inst) ++ [⟨who, t, label⟩] := by
      simp [hruns]
    cases label with
    | effect e =>
      have hphase : stageOf inst who (h ++ [⟨who, t, .effect e⟩]) = stages.next (stageOf inst who h) e := by
        rw [stageOf, hfilter, Protocol.phaseOf_effect]
        rfl
      obtain hsame | ⟨d, hzooms, hnext⟩ := stages_next e
      · refine .inl ⟨hphase.trans (hsame _), fun _ v hv => ?_⟩
        obtain rfl := Label.effect.inj hv
        exact absurd (hsame .entering) (by simp [stages, onWorld, Stage.next])
      · exact .inr ⟨d, e, rfl, rfl, hzooms, hphase.trans (hnext _)⟩
    | start =>
      refine .inl ⟨?_, by simp⟩
      rw [stageOf, hfilter, stageOf]
      simp [Protocol.phaseOf, effectsOf]
    | finish o v =>
      refine .inl ⟨?_, by simp⟩
      rw [stageOf, hfilter, stageOf]
      simp [Protocol.phaseOf, effectsOf]

theorem commits_of_zooms {d : Effect Contract RecordWrite Request Reply}
    {e : Effect World WorldWrite Request Reply} (hzooms : Effect.Zooms World.contract WorldWrite.record d e)
    (hd : ∃ c, d = .commit c) : ∃ v, e = .commit v := by
  obtain ⟨c, rfl⟩ := hd
  cases hzooms
  exact ⟨_, rfl⟩

theorem not_ended_before (hrun : Run (system inst) w h m) (hstep : Step (system inst) m mv m')
    {e : Effect World WorldWrite Request Reply} (hlabel : mv.label = .effect e) : ¬ ended mv.who h := by
  intro hended
  obtain ⟨p, hp⟩ := hstep.effect_live hlabel
  obtain ⟨t, o, ho⟩ := hrun.not_ended hended
  rw [hp] at ho
  cases ho

theorem inPipeline_self (hin : inPipeline inst mv.who (h ++ [mv])) : inPipeline inst mv.who h ∨
      stageOf inst mv.who h = .entering ∧ mv.task.runsPipeline inst ∧
        ∃ v, mv.label = .effect (.commit v) := by
  have hended : ¬ ended mv.who h := fun ⟨mv', hmv', hends⟩ =>
    hin.2 ⟨mv', List.mem_append_left _ hmv', hends⟩
  obtain ⟨hsame, -⟩ | ⟨d, e, hruns, hlabel, hzooms, hnext⟩ := stageOf_self inst h mv
  · exact .inl ⟨hsame ▸ hin.1, hended⟩
  · obtain hrunning | ⟨hentering, hcommit⟩ := running_next (hnext ▸ hin.1)
    · exact .inl ⟨hrunning, hended⟩
    · obtain ⟨v, rfl⟩ := commits_of_zooms hzooms hcommit
      exact .inr ⟨hentering, hruns, v, hlabel⟩

theorem succeeded_self (hrun : Run (system inst) w h m) (hstep : Step (system inst) m mv m')
    (hsucceeded : stageOf inst mv.who (h ++ [mv]) = .succeeded) : stageOf inst mv.who h = .succeeded ∨
      inPipeline inst mv.who h ∧ ∃ v, mv.label = .effect (.commit v) := by
  obtain ⟨hsame, hcommit⟩ | ⟨d, e, -, hlabel, hzooms, hnext⟩ := stageOf_self inst h mv
  · exact .inl (hsame.symm.trans hsucceeded)
  · obtain hold | ⟨hfinishing, hcommit⟩ := succeeded_next (hnext.symm.trans hsucceeded)
    · exact .inl hold
    · obtain ⟨v, rfl⟩ := commits_of_zooms hzooms hcommit
      have hrunning : (stageOf inst mv.who h).running := by rw [hfinishing]; rfl
      exact .inr ⟨⟨hrunning, not_ended_before hrun hstep hlabel⟩, v, hlabel⟩

theorem stageOf_eq_phase (hrun : Run (system inst) w h m) (hstep : Step (system inst) m mv m')
    (hlabel : mv.label ≠ .start) (hruns : mv.task.runsPipeline inst) :
    (onWorld (entryRule inst mv.task)).phaseOf mv.who h = stageOf inst mv.who h := by
  have htask : ∀ mv' ∈ h, mv'.who = mv.who → mv'.task = mv.task := by
    intro mv' hmv' hwho
    have hbefore := hstep.task_before hlabel
    rw [← hwho, hrun.task mv' hmv'] at hbefore
    exact Option.some.inj hbefore
  have heffects : effectsOf mv.who (h.filter fun mv => mv.task.runsPipeline inst) = effectsOf mv.who h := by
    rw [effectsOf, effectsOf, List.filterMap_filter]
    refine List.filterMap_congr fun mv' hmv' => ?_
    by_cases hwho : mv'.who = mv.who
    · rw [htask mv' hmv' hwho, if_pos hruns]
    · cases hlabel' : mv'.label <;> simp [hwho]
  rw [stageOf, Protocol.phaseOf, Protocol.phaseOf, heffects]
  rfl

theorem admitted_of_sets (hrun : Run (system inst) w h m) (hstep : Step (system inst) m mv m')
    {v : World} {u : RecordWrite} (hlabel : mv.label = .effect (.write v (.record u)))
    (hruns : mv.task.runsPipeline inst) (hsets : u.sets .submitting) :
    ∃ c, stageOf inst mv.who h = .opened c ∧ mv.task.admitted c := by
  have hallows := ((hrun.obeying (P := fun t => onWorld (entryRule inst t)) obeys_body).1.step
    obeys_body hstep).2 _ hlabel
  rw [stageOf_eq_phase hrun hstep (by simp [hlabel]) hruns] at hallows
  exact hallows hruns hsets

/-- What is known of the callers after each step. Those that have opened the
transaction in which they enter are alone. -/
structure Excluding (inst : Installation) (h : List TaskMove)
    (m : Machine World WorldWrite Request Reply TaskExc Unit Task) : Prop where
  opened : ∀ i t p, m.proc i = .live t p → t.runsPipeline inst →
    (stageOf inst i h = .entering ∨ ∃ c, stageOf inst i h = .opened c) → m.view i ≠ none
  entry : ∀ i t p, m.proc i = .live t p → t.runsPipeline inst →
    (stageOf inst i h = .entering ∨ ∃ c, stageOf inst i h = .opened c ∧ t.admitted c) →
    ∀ j, ¬ inPipeline inst j h ∧ stageOf inst j h ≠ .succeeded
  exclusive : ∀ i j, inPipeline inst i h → inPipeline inst j h → i = j
  alone : ∀ i j, inPipeline inst i h → stageOf inst j h ≠ .succeeded

theorem stageOf_start (hrun : Run (system inst) w h m) (hstep : Step (system inst) m mv m')
    (hstart : mv.label = .start) : stageOf inst mv.who (h ++ [mv]) = .fresh := by
  have hnone := (Run.step hrun hstep).effectsOf_start hstart
  have hfiltered : effectsOf mv.who (h.filter fun mv => mv.task.runsPipeline inst) = [] := by
    rw [effectsOf, List.filterMap_eq_nil_iff] at hnone ⊢
    exact fun mv' hmv' => hnone mv' (List.mem_of_mem_filter hmv')
  obtain ⟨hsame, hcommit⟩ | ⟨d, e, -, hlabel, -⟩ := stageOf_self inst h mv
  · rw [hsame, stageOf, Protocol.phaseOf, hfiltered]
    rfl
  · rw [hstart] at hlabel
    cases hlabel

theorem task_of_live (hstep : Step (system inst) m mv m') {p : TaskProg Unit}
    (hlive : m'.proc mv.who = .live t p) : mv.task = t := by
  have hafter := hstep.task_after.1
  rw [hlive] at hafter
  exact (Option.some.inj hafter).symm

theorem Excluding.opened_step (hm : Excluding inst h m) (hrun : Run (system inst) w h m)
    (hstep : Step (system inst) m mv m') {i : Nat} {p : TaskProg Unit} (hlive : m'.proc i = .live t p)
    (hruns : t.runsPipeline inst)
    (hstage : stageOf inst i (h ++ [mv]) = .entering ∨ ∃ c, stageOf inst i (h ++ [mv]) = .opened c) :
    m'.view i ≠ none := by
  by_cases hi : i = mv.who
  · subst hi
    obtain hstart | ⟨p', hp'⟩ := hstep.live_before hlive
    · rw [stageOf_start hrun hstep hstart] at hstage
      simp at hstage
    have hold : (∀ v, mv.label ≠ .effect (.commit v)) →
        (stageOf inst mv.who h = .entering ∨ ∃ c, stageOf inst mv.who h = .opened c) →
        m'.view mv.who ≠ none := fun hcommit hbefore =>
      hstep.stays_open (hm.opened _ _ _ hp' hruns hbefore) hcommit hlive
    obtain ⟨hsame, hcommit⟩ | ⟨d, e, -, hlabel, hzooms, hnext⟩ := stageOf_self inst h mv
    · rw [hsame] at hstage
      exact hold (hcommit (task_of_live hstep hlive ▸ hruns)) hstage
    · have hnot : (∀ c, d ≠ .commit c) → ∀ v, mv.label ≠ .effect (.commit v) := by
        intro hd v hv
        rw [hlabel] at hv
        obtain rfl := Label.effect.inj hv
        cases hzooms
        exact hd _ rfl
      rw [hnext] at hstage
      obtain hentering | ⟨c, hopened⟩ := hstage
      · obtain ⟨hbefore, hd⟩ | ⟨c, b, u, hbefore, rfl, -⟩ := entering_next hentering
        · exact hold (hnot hd) (.inl hbefore)
        · exact hold (hnot (by simp)) (.inr ⟨c, hbefore⟩)
      · obtain ⟨hbefore, hd⟩ | ⟨-, rfl⟩ := opened_next hopened
        · exact hold (hnot hd) (.inr ⟨c, hbefore⟩)
        · cases hzooms with
          | read v => exact hstep.opens (.inl ⟨v, hlabel⟩)
  · rw [hstep.view_of_ne hi]
    rw [hstep.task_after.2 i hi] at hlive
    rw [stageOf_other (Ne.symm hi)] at hstage
    exact hm.opened i t p hlive hruns hstage

/-- Who is in the transaction of its entry was alone before, or has just been
admitted. -/
theorem entry_before (hrun : Run (system inst) w h m) (hstep : Step (system inst) m mv m')
    {p : TaskProg Unit} (hlive : m'.proc mv.who = .live t p) (hstage : stageOf inst mv.who (h ++ [mv]) =
      .entering ∨ ∃ c, stageOf inst mv.who (h ++ [mv]) = .opened c ∧ t.admitted c) :
    ((∃ p', m.proc mv.who = .live t p') ∧ (stageOf inst mv.who h = .entering ∨
      ∃ c, stageOf inst mv.who h = .opened c ∧ t.admitted c)) ∨
    stageOf inst mv.who h = .fresh ∧ ∃ v, mv.label = .effect (.read v) ∧ t.admitted v.contract := by
  obtain hstart | hp' := hstep.live_before hlive
  · rw [stageOf_start hrun hstep hstart] at hstage
    simp at hstage
  obtain rfl := task_of_live hstep hlive
  obtain ⟨hsame, -⟩ | ⟨d, e, hruns, hlabel, hzooms, hnext⟩ := stageOf_self inst h mv
  · rw [hsame] at hstage
    exact .inl ⟨hp', hstage⟩
  rw [hnext] at hstage
  obtain hentering | ⟨c, hopened, hadmitted⟩ := hstage
  · obtain ⟨hbefore, -⟩ | ⟨c, b, u, hbefore, rfl, hsets⟩ := entering_next hentering
    · exact .inl ⟨hp', .inl hbefore⟩
    · cases hzooms with
      | write v u => exact .inl ⟨hp', .inr (admitted_of_sets hrun hstep hlabel hruns hsets)⟩
  · obtain ⟨hbefore, -⟩ | ⟨hfresh, rfl⟩ := opened_next hopened
    · exact .inl ⟨hp', .inr ⟨c, hbefore, hadmitted⟩⟩
    · cases hzooms with
      | read v => exact .inr ⟨hfresh, v, hlabel, hadmitted⟩

theorem Excluding.entry_step (hm : Excluding inst h m) (hrun : Run (system inst) w h m)
    (hstep : Step (system inst) m mv m')
    (halone : ∀ v, mv.label = .effect (.read v) → stageOf inst mv.who h = .fresh →
      mv.task.runsPipeline inst → mv.task.admitted v.contract →
      ∀ j, ¬ inPipeline inst j h ∧ stageOf inst j h ≠ .succeeded)
    {i : Nat} {p : TaskProg Unit} (hlive : m'.proc i = .live t p) (hruns : t.runsPipeline inst)
    (hstage : stageOf inst i (h ++ [mv]) = .entering ∨
      ∃ c, stageOf inst i (h ++ [mv]) = .opened c ∧ t.admitted c) (j : Nat) :
    ¬ inPipeline inst j (h ++ [mv]) ∧ stageOf inst j (h ++ [mv]) ≠ .succeeded := by
  by_cases hi : i = mv.who
  · subst hi
    have hbefore : ∀ j, ¬ inPipeline inst j h ∧ stageOf inst j h ≠ .succeeded := by
      obtain ⟨⟨p', hp'⟩, hold⟩ | ⟨hfresh, v, hlabel, hadmitted⟩ := entry_before hrun hstep hlive hstage
      · exact hm.entry _ _ _ hp' hruns hold
      · obtain rfl := task_of_live hstep hlive
        exact halone v hlabel hfresh hruns hadmitted
    by_cases hj : j = mv.who
    · subst hj
      constructor
      · rintro ⟨hrunning, -⟩
        obtain hentering | ⟨c, hopened, -⟩ := hstage
        · rw [hentering] at hrunning
          cases hrunning
        · rw [hopened] at hrunning
          cases hrunning
      · intro hsucceeded
        rw [hsucceeded] at hstage
        simp at hstage
    · rw [inPipeline_other (Ne.symm hj), stageOf_other (Ne.symm hj)]
      exact hbefore j
  · rw [hstep.task_after.2 i hi] at hlive
    rw [stageOf_other (Ne.symm hi)] at hstage
    have hbefore := hm.entry i t p hlive hruns hstage
    -- The transaction of `i` is open, so this step is no commit.
    have hopen : m.view i ≠ none := by
      refine hm.opened i t p hlive hruns ?_
      obtain hentering | ⟨c, hopened, -⟩ := hstage
      · exact .inl hentering
      · exact .inr ⟨c, hopened⟩
    have hcommit : ¬ ∃ v, mv.label = .effect (.commit v) := fun ⟨v, hv⟩ =>
      hopen (hstep.commit_alone hv hi)
    by_cases hj : j = mv.who
    · subst hj
      constructor
      · intro hin
        obtain hold | ⟨-, -, hv⟩ := inPipeline_self hin
        · exact (hbefore mv.who).1 hold
        · exact hcommit hv
      · intro hsucceeded
        obtain hold | ⟨-, hv⟩ := succeeded_self hrun hstep hsucceeded
        · exact (hbefore mv.who).2 hold
        · exact hcommit hv
    · rw [inPipeline_other (Ne.symm hj), stageOf_other (Ne.symm hj)]
      exact hbefore j

theorem Excluding.inside_step (hm : Excluding inst h m) (hstep : Step (system inst) m mv m')
    (hin : inPipeline inst mv.who (h ++ [mv])) {j : Nat} (hj : j ≠ mv.who) :
    ¬ inPipeline inst j h ∧ stageOf inst j h ≠ .succeeded := by
  obtain hold | ⟨hentering, hruns, v, hlabel⟩ := inPipeline_self hin
  · exact ⟨fun hother => hj (hm.exclusive j mv.who hother hold), hm.alone mv.who j hold⟩
  · obtain ⟨p, hp⟩ := hstep.effect_live hlabel
    exact hm.entry mv.who mv.task p hp hruns (.inl hentering) j

theorem Excluding.step (hm : Excluding inst h m) (hrun : Run (system inst) w h m)
    (hstep : Step (system inst) m mv m')
    (halone : ∀ v, mv.label = .effect (.read v) → stageOf inst mv.who h = .fresh →
      mv.task.runsPipeline inst → mv.task.admitted v.contract →
      ∀ j, ¬ inPipeline inst j h ∧ stageOf inst j h ≠ .succeeded) :
    Excluding inst (h ++ [mv]) m' where
  opened i t p hlive hruns hstage := hm.opened_step hrun hstep hlive hruns hstage
  entry i t p hlive hruns hstage := hm.entry_step hrun hstep halone hlive hruns hstage
  exclusive i j hini hinj := by
    by_cases hi : i = mv.who
    · by_cases hj : j = mv.who
      · rw [hi, hj]
      · subst hi
        rw [inPipeline_other (Ne.symm hj)] at hinj
        exact absurd hinj (hm.inside_step hstep hini hj).1
    · rw [inPipeline_other (Ne.symm hi)] at hini
      by_cases hj : j = mv.who
      · subst hj
        exact absurd hini (hm.inside_step hstep hinj hi).1
      · rw [inPipeline_other (Ne.symm hj)] at hinj
        exact hm.exclusive i j hini hinj
  alone i j hini hsucceeded := by
    by_cases hj : j = mv.who
    · subst hj
      by_cases hi : i = mv.who
      · subst hi
        have hrunning := hini.1
        rw [hsucceeded] at hrunning
        cases hrunning
      · rw [inPipeline_other (Ne.symm hi)] at hini
        obtain hold | ⟨hin, -⟩ := succeeded_self hrun hstep hsucceeded
        · exact hm.alone i mv.who hini hold
        · exact hi (hm.exclusive i mv.who hini hin)
    · rw [stageOf_other (Ne.symm hj)] at hsucceeded
      by_cases hi : i = mv.who
      · subst hi
        exact (hm.inside_step hstep hini hj).2 hsucceeded
      · rw [inPipeline_other (Ne.symm hi)] at hini
        exact hm.alone i j hini hsucceeded

theorem entriesAlone_upTo {h' : List TaskMove} (hentries : EntriesAlone inst (h ++ h')) :
    EntriesAlone inst h := by
  intro before mv' after v hsplit
  refine hentries before mv' (after ++ h') v ?_
  rw [hsplit, List.append_assoc, List.cons_append]

theorem run_excluding (hrun : Run (system inst) w h m) (hentries : EntriesAlone inst h) :
    Excluding inst h m := by
  induction hrun with
  | nil =>
    have hfresh : ∀ i, stageOf inst i [] = .fresh := fun i => rfl
    have hout : ∀ i, ¬ inPipeline inst i [] := fun i hin => Bool.false_ne_true hin.1
    have hidle : ∀ {i t p}, (Machine.initial w : Machine World WorldWrite Request Reply TaskExc Unit
        Task).proc i ≠ .live t p := by
      intro i t p hlive
      cases hlive
    exact ⟨fun _ _ _ hlive => absurd hlive hidle, fun _ _ _ hlive => absurd hlive hidle,
      fun i _ hin => absurd hin (hout i), fun i _ hin => absurd hin (hout i)⟩
  | @step h m mv m' hrun hstep ih =>
    exact (ih (entriesAlone_upTo hentries)).step hrun hstep fun v hlabel hfresh hruns hadmitted =>
      hentries h mv [] v rfl hlabel hfresh hruns hadmitted

end

end Exclusion

/-- Callers of the pipeline exclude each other in every run in which each is admitted
only while no other one is inside or has succeeded. -/
theorem one_pipeline {inst : Installation} {w : World} {h : List TaskMove} {m}
    (hrun : Run (system inst) w h m) (hentries : EntriesAlone inst h) : OnePipeline inst h where
  exclusive := by
    rintro before after rfl i j hini hinj
    obtain ⟨m₁, hbefore⟩ := hrun.upTo
    exact (Exclusion.run_excluding hbefore (Exclusion.entriesAlone_upTo hentries)).exclusive i j hini hinj
  kept := by
    rintro before mv after v rfl hlabel hfailing hruns j hj
    obtain ⟨m₁, m₂, hbefore, hstep⟩ := hrun.split
    have hm := Exclusion.run_excluding hbefore (Exclusion.entriesAlone_upTo hentries)
    have hin : inPipeline inst mv.who before :=
      ⟨by rw [hfailing]; rfl, Exclusion.not_ended_before hbefore hstep hlabel⟩
    exact ⟨fun hother => hj (hm.exclusive j mv.who hother hin), hm.alone mv.who j hin⟩

theorem entriesAlone_of_one {inst : Installation} {h : List TaskMove} {i : Nat}
    (hone : ∀ mv ∈ h, mv.who = i) : EntriesAlone inst h := by
  rintro before mv after v rfl - hfresh - - j
  have hstage : stageOf inst j before = .fresh := by
    by_cases hj : j = i
    · rw [hj, ← hone mv (by simp), hfresh]
    · have hnone : effectsOf j (before.filter fun mv => mv.task.runsPipeline inst) = [] := by
        rw [effectsOf, List.filterMap_eq_nil_iff]
        intro mv' hmv'
        have hother : mv'.who ≠ j := by
          rw [hone mv' (List.mem_append_left _ (List.mem_of_mem_filter hmv'))]
          exact Ne.symm hj
        cases hlabel : mv'.label <;> simp [hother]
      rw [stageOf, Protocol.phaseOf, hnone]
      rfl
  rw [inPipeline, hstage]
  exact ⟨fun hin => Bool.false_ne_true hin.1, by simp⟩

/-- The wizard alone, up to its commit of 'ready' after a timeout. -/
def aloneRun : List TaskMove × Machine World WorldWrite Request Reply TaskExc Unit Task :=
  Machine.exec (system ⟨false, false, false⟩)
    (.start 0 (.submitWizard sampleEnv true "job-1") :: List.replicate 15 (.go 0 .timeout))
    ([], .initial ⟨sampleContract "EJ/1", []⟩)

theorem one_pipeline_aloneRun : OnePipeline ⟨false, false, false⟩ aloneRun.1 :=
  one_pipeline (Machine.exec_run .nil) (entriesAlone_of_one (i := 0) (by decide +kernel))

/-- Two users confirm the wizard. The first is inside when the second enters, and
still is when the second fails. -/
def clashRun : List TaskMove × Machine World WorldWrite Request Reply TaskExc Unit Task :=
  Machine.exec (system ⟨false, false, false⟩)
    (.start 0 (.submitWizard sampleEnv true "job-1") :: List.replicate 5 (.go 0 .timeout) ++
      .start 1 (.submitWizard sampleEnv true "job-2") :: List.replicate 14 (.go 1 .timeout))
    ([], .initial ⟨sampleContract "EJ/1", []⟩)

theorem not_one_pipeline : ¬ ∀ inst w h m, Run (system inst) w h m → OnePipeline inst h := by
  intro hone
  have hrun : Run (system ⟨false, false, false⟩) ⟨sampleContract "EJ/1", []⟩
      (clashRun.1 ++ (Machine.exec (system ⟨false, false, false⟩) [.go 1 .timeout] ([], clashRun.2)).1) _ :=
    Run.exec (Machine.exec_run .nil) _
  have hcommit : ∃ v, (Machine.exec (system ⟨false, false, false⟩) [.go 1 .timeout] ([], clashRun.2)).1 =
      [⟨1, .submitWizard sampleEnv true "job-2", .effect (.commit v)⟩] := ⟨_, rfl⟩
  obtain ⟨v, hcommit⟩ := hcommit
  rw [hcommit] at hrun
  have hfailing : (match stageOf ⟨false, false, false⟩ 1 clashRun.1 with
      | .failing => true
      | _ => false) = true := by decide +kernel
  have hstage : stageOf ⟨false, false, false⟩ 1 clashRun.1 = .failing := by
    split at hfailing
    · assumption
    · cases hfailing
  have hinside : inPipeline ⟨false, false, false⟩ 0 clashRun.1 := by
    constructor
    · decide +kernel
    · rintro ⟨mv, hmv, hends⟩
      have hnone : ∀ mv ∈ clashRun.1, ¬ (mv.who = 0 ∧ mv.label.ends) := by decide +kernel
      exact hnone mv hmv hends
  exact ((hone _ _ _ _ hrun).kept clashRun.1 _ [] v rfl rfl hstage rfl 0 Nat.zero_ne_one).1 hinside

end Ejar
