import PropzaAmlak.Ejar.Keeps

/-! The proof rule for the whole pipeline: what holds after each of its commits,
step by step. -/

namespace Ejar

open Tx

variable {τ : Type} {obs : Observer RecordWrite Request Reply τ} {x : Session Contract τ}

/-- `P` once the open transaction is committed. -/
def atCommit (obs : Observer RecordWrite Request Reply τ) (C P : Session Contract τ → Prop)
    (x : Session Contract τ) : Prop :=
  C x ∧ ∀ s, obs x.seen .commit s → P ⟨x.working, x.working, s⟩

/-- What holds before the first call, after each commit, and after the call to
`submit_contract`. -/
structure Outline (τ : Type) where
  start : BrokerageProfile → Nat → Session Contract τ → Prop
  entities : BrokerageProfile → Nat → Session Contract τ → Prop
  created : BrokerageProfile → Nat → String → Session Contract τ → Prop
  units : BrokerageProfile → Nat → String → Session Contract τ → Prop
  parties : BrokerageProfile → Nat → String → Session Contract τ → Prop
  proxyDocs : BrokerageProfile → Nat → String → Session Contract τ → Prop
  signedDoc : BrokerageProfile → Nat → String → Session Contract τ → Prop
  financialInfo : BrokerageProfile → Nat → String → Session Contract τ → Prop
  rentalFee : BrokerageProfile → Nat → String → Session Contract τ → Prop
  submit : String → Session Contract τ → Prop

theorem wp_runPipeline (A : Outline τ) {env : Env}
    {N : SubmissionResult → Session Contract τ → Prop} {E : Exc → Session Contract τ → Prop}
    {C : Session Contract τ → Prop}
    (hstart : wp RecordWrite.apply obs (resolveProfile env)
      (fun profile => wp RecordWrite.apply obs (buildClient env) (A.start profile) E C) E C x)
    (hentities : ∀ {profile client y}, A.start profile client y →
      wp RecordWrite.apply obs (resolvePartyEntities client)
        (fun _ => atCommit obs C (A.entities profile client)) E C y)
    (hcreate : ∀ {profile client y}, A.entities profile client y →
      wp RecordWrite.apply obs (stepCreateContract client profile)
        (fun id => atCommit obs C (A.created profile client id)) E C y)
    (hunits : ∀ {profile client id y}, A.created profile client id y →
      wp RecordWrite.apply obs (attachUnits client id)
        (fun _ => atCommit obs C (A.units profile client id)) E C y)
    (hparties : ∀ {profile client id y}, A.units profile client id y →
      wp RecordWrite.apply obs (addParties client id)
        (fun _ => atCommit obs C (A.parties profile client id)) E C y)
    (hproxyDocs : ∀ {profile client id y}, A.parties profile client id y →
      wp RecordWrite.apply obs (uploadProxyDocs client id)
        (fun _ => atCommit obs C (A.proxyDocs profile client id)) E C y)
    (hsignedDoc : ∀ {profile client id y}, A.proxyDocs profile client id y →
      wp RecordWrite.apply obs (stepUploadSignedDoc client id)
        (fun _ => atCommit obs C (A.signedDoc profile client id)) E C y)
    (hfinancialInfo : ∀ {profile client id y}, A.signedDoc profile client id y →
      wp RecordWrite.apply obs (stepAddFinancialInfo client id)
        (fun _ => atCommit obs C (A.financialInfo profile client id)) E C y)
    (hrentalFee : ∀ {profile client id y}, A.financialInfo profile client id y →
      wp RecordWrite.apply obs (stepAddRentalFee client profile id)
        (fun _ => atCommit obs C (A.rentalFee profile client id)) E C y)
    (hsubmit : ∀ {profile client id y}, A.rentalFee profile client id y →
      wp RecordWrite.apply obs (stepSubmit client id) (fun _ => A.submit id) E C y)
    (hfinalize : ∀ {id y}, A.submit id y → wp RecordWrite.apply obs (finalize env id) N E C y) :
    wp RecordWrite.apply obs (runPipeline env) N E C x := by
  have hstep : ∀ {α β : Type} {p : Pipeline α} {f : α → Pipeline β} {y : Session Contract τ}
      {M : α → Session Contract τ → Prop} {N : β → Session Contract τ → Prop},
      wp RecordWrite.apply obs p M E C y →
      (∀ a z, M a z → wp RecordWrite.apply obs (f a) N E C z) →
      wp RecordWrite.apply obs (p >>= f) N E C y := fun hp hf => by
    rw [wp_bind]
    exact wp_mono hf (fun _ _ h => h) (fun _ h => h) hp
  have hcommit : ∀ {β : Type} {q : Pipeline β} {y : Session Contract τ}
      {P : Session Contract τ → Prop} {N : β → Session Contract τ → Prop},
      atCommit obs C P y → (∀ z, P z → wp RecordWrite.apply obs q N E C z) →
      wp RecordWrite.apply obs (Prog.commitNow >>= fun _ => q) N E C y := fun hy hq =>
    ⟨hy.1, fun s hs => hq _ (hy.2 s hs)⟩
  refine hstep hstart fun profile y hy => hstep hy fun client y hy => ?_
  refine hstep (hentities hy) fun _ y hy => hcommit hy fun y hy => ?_
  refine hstep (hcreate hy) fun id y hy => hcommit hy fun y hy => ?_
  refine hstep (hunits hy) fun _ y hy => hcommit hy fun y hy => ?_
  refine hstep (hparties hy) fun _ y hy => hcommit hy fun y hy => ?_
  refine hstep (hproxyDocs hy) fun _ y hy => hcommit hy fun y hy => ?_
  refine hstep (hsignedDoc hy) fun _ y hy => hcommit hy fun y hy => ?_
  refine hstep (hfinancialInfo hy) fun _ y hy => hcommit hy fun y hy => ?_
  refine hstep (hrentalFee hy) fun _ y hy => hcommit hy fun y hy => ?_
  exact hstep (hsubmit hy) fun _ y hy => hfinalize hy

/-- The same for the whole attempt: the entry, the pipeline, and the handler that
puts the contract back to 'ready'. -/
theorem wp_executeFullSubmission {env : Env} {M : Session Contract τ → Prop}
    {N : SubmissionResult → Session Contract τ → Prop} {E F : Exc → Session Contract τ → Prop}
    {C : Session Contract τ → Prop}
    (hentry : writeThen obs (.contract
      { ejarStatus := some .submitting, submitAttempt := some (x.working.submitAttempt + 1)
        submitError := some none }) (atCommit obs C M) x)
    (hpipeline : ∀ {y}, M y → wp RecordWrite.apply obs (runPipeline env) N F C y)
    (hhandler : ∀ {exc y}, F exc y → writeThen obs (.contract
      { ejarStatus := some .ready, submitError := some (some (exc.cut 2048)) })
      (atCommit obs C (E exc)) y) :
    wp RecordWrite.apply obs (executeFullSubmission env) N E C x := by
  rw [executeFullSubmission, wp_bind, wp_get, wp_bind, wp_writeContract]
  intro s hs
  rw [wp_bind, wp_commitNow]
  refine ⟨(hentry s hs).1, fun s' hs' => ?_⟩
  rw [wp_tryCatch]
  refine wp_mono (fun _ _ h => h) (fun exc y hy => ?_) (fun _ h => h) (hpipeline ((hentry s hs).2 s' hs'))
  rw [wp_bind, wp_writeContract]
  intro s hs
  exact ⟨(hhandler hy s hs).1, (hhandler hy s hs).2⟩

abbrev Trace := List (Event RecordWrite Request Reply)

/-- What every step of the pipeline does to the record and to the trace. -/
structure Grows (y z : Session Contract Trace) : Prop where
  keeps : Keeps y.working z.working
  events : ∃ t, z.seen = y.seen ++ t ∧ z.working = workingAfter RecordWrite.apply y.working t ∧
    z.committed = committedAfter RecordWrite.apply y.committed y.working t ∧
    (snapshots RecordWrite.apply y.working t).Pairwise Keeps ∧
    ∀ d ∈ snapshots RecordWrite.apply y.working t, Keeps y.working d ∧ Keeps d z.working

namespace Grows

variable {y z w : Session Contract Trace}

theorem refl (y : Session Contract Trace) : Grows y y :=
  ⟨.refl _, [], by simp, rfl, rfl, .nil, by simp [snapshots]⟩

theorem seen_prefix (h : Grows y z) : y.seen <+: z.seen := by
  obtain ⟨t, ht, -⟩ := h.events
  exact ⟨t, ht.symm⟩

theorem trans (h : Grows y z) (h' : Grows z w) : Grows y w := by
  obtain ⟨t, hseen, hworking, hcommitted, hpairs, hall⟩ := h.events
  obtain ⟨t', hseen', hworking', hcommitted', hpairs', hall'⟩ := h'.events
  refine ⟨h.keeps.trans h'.keeps, t ++ t', ?_, ?_, ?_, ?_, ?_⟩
  · rw [hseen', hseen, List.append_assoc]
  · rw [workingAfter_append, ← hworking, hworking']
  · rw [committedAfter_append, ← hworking, ← hcommitted, hcommitted']
  · rw [snapshots_append, ← hworking, List.pairwise_append]
    exact ⟨hpairs, hpairs', fun d hd d' hd' => (hall d hd).2.trans (hall' d' hd').1⟩
  · intro d hd
    rw [snapshots_append, ← hworking] at hd
    rcases List.mem_append.mp hd with hd | hd
    · exact ⟨(hall d hd).1, (hall d hd).2.trans h'.keeps⟩
    · exact ⟨h.keeps.trans (hall' d hd).1, (hall' d hd).2⟩

/-- What is committed is what was, or comes from the open transaction. -/
theorem committed_keeps (h : Grows y z) : z.committed = y.committed ∨ Keeps y.working z.committed := by
  obtain ⟨t, -, -, hcommitted, -, hall⟩ := h.events
  rw [hcommitted]
  rcases committedAfter_mem RecordWrite.apply y.committed y.working t with hsame | hmem
  · exact .inl hsame
  · exact .inr (hall _ hmem).1

/-- Every state committed on the way to the last one is kept by it. -/
theorem snapshot_keeps {c w : Contract} {t : Trace}
    (hpairs : (snapshots RecordWrite.apply w t).Pairwise Keeps) {d : Contract}
    (hd : d ∈ snapshots RecordWrite.apply w t) :
    Keeps d (committedAfter RecordWrite.apply c w t) := by
  cases hlast : (snapshots RecordWrite.apply w t).getLast? with
  | none =>
    rw [List.getLast?_eq_none_iff.mp hlast] at hd
    cases hd
  | some a =>
    obtain ⟨l, hl⟩ := List.getLast?_eq_some_iff.mp hlast
    rw [hl] at hpairs hd
    simp only [committedAfter, hlast, Option.getD_some]
    rcases List.mem_append.mp hd with hd | hd
    · exact (List.pairwise_append.mp hpairs).2.2 d hd a (List.mem_singleton_self a)
    · rw [List.mem_singleton.mp hd]
      exact .refl a

theorem commit (y : Session Contract Trace) :
    Grows y ⟨y.working, y.working, y.seen ++ [.commit]⟩ := by
  refine ⟨.refl _, [.commit], rfl, rfl, rfl, List.pairwise_singleton _ _, fun d hd => ?_⟩
  rw [List.mem_singleton.mp hd]
  exact ⟨.refl _, .refl _⟩

theorem kept {ok : Trace → Event RecordWrite Request Reply → Prop} (y : Session Contract Trace) :
    Kept (record ok) (Grows y) where
  write := by
    rintro x u s hx ⟨-, rfl⟩ hkeeps
    exact hx.trans ⟨hkeeps, [.write u], rfl, rfl, rfl, .nil, by simp [snapshots]⟩
  commit := by
    rintro x s hx ⟨-, rfl⟩
    exact hx.trans (.commit x)
  call := by
    rintro x q r s hx ⟨-, rfl⟩
    exact hx.trans ⟨.refl _, [.call q r], rfl, rfl, rfl, .nil, by simp [snapshots]⟩
  lost := by
    rintro x q s hx ⟨-, rfl⟩
    exact hx.trans ⟨.refl _, [.lost q], rfl, rfl, rfl, .nil, by simp [snapshots]⟩

end Grows

/-- A fact that no step of the pipeline undoes. -/
def Lasting (F : Session Contract Trace → Prop) : Prop := ∀ y z, Grows y z → F y → F z

theorem Lasting.and {F G : Session Contract Trace → Prop} (hF : Lasting F) (hG : Lasting G) :
    Lasting fun y => F y ∧ G y :=
  fun y z h hy => ⟨hF y z h hy.1, hG y z h hy.2⟩

theorem wp_carry {α : Type} {ok : Trace → Event RecordWrite Request Reply → Prop} {p : Pipeline α}
    {x : Session Contract Trace} {N : α → Session Contract Trace → Prop}
    {E : Exc → Session Contract Trace → Prop} {C F : Session Contract Trace → Prop}
    (hF : Lasting F) (hx : F x) (hkept : always (record ok) p (Grows x) x)
    (hp : wp RecordWrite.apply (record ok) p N E C x) :
    wp RecordWrite.apply (record ok) p (fun a y => N a y ∧ F y) E C x :=
  wp_mono (fun _ y hy => ⟨hy.1, hF x y hy.2 hx⟩) (fun _ _ hy => hy.1) (fun _ hy => hy.1)
    (wp_and hp hkept)

/-- What holds of every row, for rows listed by `ids`. -/
def eachRow (ids : Contract → List Nat) (D : Nat → Session Contract Trace → Prop)
    (y : Session Contract Trace) : Prop :=
  ∀ i ∈ ids y.working, D i y

theorem eachRow_lasting {ids : Contract → List Nat} {D : Nat → Session Contract Trace → Prop}
    (hids : ∀ {c c'}, Keeps c c' → ids c' = ids c) (hD : ∀ i, Lasting (D i)) :
    Lasting (eachRow ids D) := by
  intro y z h hy i hi
  rw [hids h.keeps] at hi
  exact hD i y z h (hy i hi)

theorem wp_rows {ok : Trace → Event RecordWrite Request Reply → Prop} {ids : Contract → List Nat}
    {D : Nat → Session Contract Trace → Prop} {body : Nat → Pipeline Unit}
    {x : Session Contract Trace} {I : Session Contract Trace → Prop}
    {E : Exc → Session Contract Trace → Prop} {C : Session Contract Trace → Prop}
    (hids : ∀ {c c'}, Keeps c c' → ids c' = ids c) (hD : ∀ i, Lasting (D i)) (hx : I x)
    (hbody : ∀ i y, i ∈ ids y.working → I y →
      wp RecordWrite.apply (record ok) (body i) (fun _ z => I z ∧ D i z) E C y)
    (hkept : ∀ i y, always (record ok) (body i) (Grows y) y) :
    wp RecordWrite.apply (record ok) (Prog.forEach (ids x.working) body)
      (fun _ y => I y ∧ eachRow ids D y) E C x := by
  have hround : ∀ i ∈ ids x.working, ∀ y, I y ∧ Grows x y → wp RecordWrite.apply (record ok) (body i)
      (fun _ z => (I z ∧ Grows x z) ∧ D i z) E C y := by
    intro i hi y hy
    rw [← hids hy.2.keeps] at hi
    exact wp_mono (fun _ z hz => ⟨⟨hz.1.1, hy.2.trans hz.2⟩, hz.1.2⟩) (fun _ _ hz => hz.1)
      (fun _ hz => hz.1) (wp_and (hbody i y hi hy.1) (hkept i y))
  have hloop := wp_forEach_each (r := Grows) hround (fun i _ y => hkept i y)
    (fun i y z h hi => hD i y z h hi) ⟨hx, Grows.refl x⟩
  refine wp_mono (fun _ y hy => ⟨hy.1.1, fun i hi => hy.2 i ?_⟩) (fun _ _ hy => hy) (fun _ hy => hy) hloop
  rwa [hids hy.1.2.keeps] at hi

end Ejar
