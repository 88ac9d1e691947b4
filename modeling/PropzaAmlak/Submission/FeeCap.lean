import Mathlib.Tactic.Linarith
import PropzaAmlak.Data.Rounding
import PropzaAmlak.Tx.Between
import PropzaAmlak.Ejar.SubmitRules
import PropzaAmlak.Status.Transitions
import PropzaAmlak.Submission.ReadyRuns

/-! The brokerage fee an attempt sends against the rent it has sent, in runs in which the
form is saved, too. The constraint looks at the record when it is saved; the rent and the
fee are read in two transactions. -/

namespace Ejar

open Tx

/-- What a field with `digits=(16, 2)` holds. -/
def toCents (q : Rat) : Rat :=
  (if q < 0 then -(-q * 100 + 1 / 2).floor else (q * 100 + 1 / 2).floor : Int) / 100

/-- The values of a save as they are stored. -/
def FormVals.stored (v : FormVals) : FormVals :=
  { v with rentAmount := v.rentAmount.map toCents, brokerageFee := v.brokerageFee.map toCents }

def SiteTask.stored : SiteTask → SiteTask
  | task t => task t
  | save v => save v.stored

/-- The tasks and saves of a contract, with amounts stored as the fields are declared. -/
def storing (inst : Installation) : System World SiteWrite Request Reply TaskExc Unit SiteTask :=
  { site inst with body := fun t => t.stored.body inst }

def IsCents (q : Rat) : Prop := ∃ n : Int, q = n / 100

/-- A record that the constraints have let through. -/
structure Saved (c : Contract) : Prop where
  rent : IsCents c.rentAmount
  fee : IsCents c.brokerageFee
  capped : checkBrokerageFeeCap c = .ok ()

/-- What a caller has read and sent: the record as it was last read, the record the
financial information was built from, and the rent in it. -/
structure Billing where
  record : Option Contract := none
  billed : Option Contract := none
  rent : Option Rat := none

def Billing.sends (b : Billing) : ApiCall → Billing
  | .addFinancialInformation _ attrs => { b with billed := b.record, rent := some attrs.annualRent }
  | _ => b

/-- The two payloads are built from the record as it was last read, the fee after the
rent. -/
def Billing.maySend (b : Billing) : ApiCall → Prop
  | .addFinancialInformation _ attrs => ∃ c, b.record = some c ∧ buildFinancialAttributes c = .ok attrs
  | .addRentalFee _ attrs => (∃ c, b.billed = some c ∧ b.rent = some (pyRound c.rentAmount 2)) ∧
      ∃ c profile, b.record = some c ∧ buildRentalFeeAttributes c profile = some attrs
  | _ => True

def billing {σ W : Type} (view : σ → Contract) : Protocol σ W Request Reply Billing where
  init := {}
  allows b
    | .call q _ => b.maySend q.call
    | _ => True
  next b
    | .read v => { b with record := some (view v) }
    | .call q _ => b.sends q.call
    | _ => b

/-- What caller `i` has read and sent in a run. -/
def billingOf (i : Nat) (h : List SiteMove) : Billing := (effectsOf i h).foldl (billing World.contract).next {}

/-- The rental fee that a call sends. -/
def SiteMove.sentFee (mv : SiteMove) : Option RentalFeeAttributes :=
  match mv.label with
  | .effect (.call q _) =>
    match q.call with
    | .addRentalFee _ attrs => some attrs
    | _ => none
  | _ => none

/-- Every fee that is sent is at most 2.5% of the rent that the same caller has sent. -/
def FeesCapped (h : List SiteMove) : Prop :=
  ∀ n (mv : SiteMove) attrs, h[n]? = some mv → mv.sentFee = some attrs →
    ∃ rent, (billingOf mv.who (h.take n)).rent = some rent ∧ attrs.brokerageFee ≤ rent * (25 / 1000)

/-- The rent that was sent was not filled in and there is a fee, or the rent has been
changed since and the constraint would refuse the fee with the one that was sent. -/
def Escapes (billed c : Contract) : Prop :=
  if billed.rentAmount = 0 then 0 < c.brokerageFee
  else c.rentAmount ≠ billed.rentAmount ∧ checkBrokerageFeeCap { c with rentAmount := billed.rentAmount } ≠ .ok ()

namespace FeeCap

theorem toCents_isCents (q : Rat) : IsCents (toCents q) := ⟨_, rfl⟩

theorem pyRound_isCents {q : Rat} (hq : IsCents q) : pyRound q 2 = q := by
  obtain ⟨n, rfl⟩ := hq
  have hscaled : (n : Rat) / 100 * 10 ^ 2 = n := by norm_num
  rw [pyRound_eq, hscaled, roundInt_intCast]
  norm_num

theorem capped_iff {c : Contract} : checkBrokerageFeeCap c = .ok () ↔
    (c.brokerageFee ≠ 0 → c.rentAmount ≠ 0 → c.brokerageFee ≤ c.rentAmount * (25 / 1000)) := by
  unfold checkBrokerageFeeCap
  constructor
  · intro hok hfee hrent
    by_contra hover
    rw [if_pos ⟨hfee, hrent, not_le.mp hover⟩] at hok
    cases hok
  · intro hcapped
    rw [if_neg]
    rintro ⟨hfee, hrent, hover⟩
    exact absurd (hcapped hfee hrent) (not_le.mpr hover)

theorem capped_congr {c d : Contract} (hrent : d.rentAmount = c.rentAmount) (hfee : d.brokerageFee = c.brokerageFee)
    (hc : checkBrokerageFeeCap c = .ok ()) : checkBrokerageFeeCap d = .ok () := by
  rw [capped_iff] at hc ⊢
  rwa [hrent, hfee]

/-- The calls with the rent and the fee. -/
def bills : ApiCall → Prop
  | .addFinancialInformation _ _ => True
  | .addRentalFee _ _ => True
  | _ => False

theorem not_bills_of_registers {call : ApiCall} (h : call.registers) : ¬ bills call := by
  cases call <;> simp_all [ApiCall.registers, bills]

theorem maySend_other {b : Billing} {call : ApiCall} (h : ¬ bills call) : b.maySend call := by
  cases call with
  | addFinancialInformation id attrs => exact absurd trivial h
  | addRentalFee id attrs => exact absurd trivial h
  | _ => trivial

theorem sends_other {b : Billing} {call : ApiCall} (h : ¬ bills call) : b.sends call = b := by
  cases call with
  | addFinancialInformation id attrs => exact absurd trivial h
  | addRentalFee id attrs => exact absurd trivial h
  | _ => rfl

/-- A rent has been sent, and it is the one that was read. -/
def Billed (b : Billing) : Prop := ∃ c, b.billed = some c ∧ b.rent = some (pyRound c.rentAmount 2)

/-- The protocol on the contract. -/
abbrev rule : ContractProtocol Billing := billing id

theorem billing_neutral {I : Billing → Prop} (hread : ∀ {b c}, I b → I { b with record := some c }) :
    Neutral rule I fun call => ¬ bills call where
  read hb := ⟨trivial, hread hb⟩
  write hb _ := ⟨trivial, hb⟩
  commit hb := ⟨trivial, hb⟩
  call := by
    intro b q reply hb hcall
    refine ⟨maySend_other hcall, ?_⟩
    change I (b.sends q.call)
    rwa [sends_other hcall]

theorem always_neutral : Neutral rule (fun _ => True) fun call => ¬ bills call := billing_neutral id

theorem billed_neutral : Neutral rule Billed fun call => ¬ bills call := billing_neutral id

/-- `p` may run where `I` holds; if it returns, `J` holds. -/
abbrev leads {α : Type} (I J : Billing → Prop) (p : Pipeline α) : Prop :=
  ∀ x : Local Contract Billing, I x.phase → p.obeys RecordWrite.apply rule (fun _ y => J y.phase) (fun _ _ => True) x

theorem leads_of_keeps {α : Type} {I : Billing → Prop} {p : Pipeline α} (hp : Neutral.keeps rule I p) : leads I I p :=
  fun x hx => Prog.obeys_mono (fun _ _ h => h) (fun _ _ _ => trivial) (hp x hx)

theorem leads_bind {α β : Type} {I J K : Billing → Prop} {p : Pipeline α} {f : α → Pipeline β} (hp : leads I J p)
    (hf : ∀ a, leads J K (f a)) : leads I K (p >>= f) := by
  intro x hx
  rw [Prog.obeys_bind]
  exact Prog.obeys_mono (fun a y hy => hf a y hy) (fun _ _ h => h) (hp x hx)

variable {env : Env} {client : Nat} {id : String} {profile : BrokerageProfile}

theorem leads_ignoredConflict {J : Billing → Prop} {call : ApiCall} {x : Local Contract Billing}
    (hcall : ∀ reply, rule.allows x.phase (.call ⟨client, call⟩ reply))
    (hnext : ∀ reply, J (rule.next x.phase (.call ⟨client, call⟩ reply))) :
    (exceptConflict (do
        let _ ← makeRequest client call
        pure ())
      fun _ => pure ()).obeys RecordWrite.apply rule (fun _ y => J y.phase) (fun _ _ => True) x := by
  rw [exceptConflict, Prog.obeys_tryCatch, Prog.obeys_bind, makeRequest, Prog.obeys_bind, Prog.obeys_request]
  refine ⟨hcall none, fun reply => ⟨hcall (some reply), ?_⟩⟩
  cases readReply ⟨client, call⟩ reply with
  | ok resp => exact hnext (some reply)
  | error e =>
    simp only [Prog.ofExcept, Prog.obeys_raise]
    split
    · exact hnext (some reply)
    · trivial

theorem stepAddFinancialInfo_leads : leads (fun _ => True) Billed (stepAddFinancialInfo client id) := by
  intro x _
  rw [stepAddFinancialInfo, Prog.obeys_bind, Prog.obeys_get]
  refine fun c hc => ⟨trivial, ?_⟩
  cases hattrs : buildFinancialAttributes c with
  | error e => trivial
  | ok attrs =>
    have hrent : attrs.annualRent = pyRound c.rentAmount 2 := by
      simp only [buildFinancialAttributes, bind, Except.bind] at hattrs
      split at hattrs
      · cases hattrs
      · split at hattrs
        · cases hattrs
        · cases hattrs
          rfl
    exact leads_ignoredConflict (fun reply => ⟨c, rfl, hattrs⟩) fun reply => ⟨c, rfl, congrArg some hrent⟩

theorem stepAddRentalFee_leads : leads Billed Billed (stepAddRentalFee client profile id) := by
  intro x hx
  rw [stepAddRentalFee, Prog.obeys_bind, Prog.obeys_get]
  refine fun c hc => ⟨trivial, ?_⟩
  cases hattrs : buildRentalFeeAttributes c (some profile) with
  | none => exact hx
  | some attrs => exact leads_ignoredConflict (fun reply => ⟨hx, c, some profile, rfl, hattrs⟩) fun reply => hx

theorem writeContract_leads {I : Billing → Prop} (hread : ∀ {b c}, I b → I { b with record := some c })
    {vals : ContractVals} : leads I I (writeContract vals) :=
  leads_of_keeps fun _ hx => obeys_writeContract fun _ _ => ⟨trivial, trivial, hread hx⟩

theorem runPipeline_leads : leads (fun _ => True) (fun _ => True) (runPipeline env) := by
  have hearly := always_neutral
  have hregisters : Neutral rule (fun _ => True) ApiCall.registers := hearly.weaken fun _ => not_bills_of_registers
  have hlate := billed_neutral
  refine leads_bind (leads_of_keeps hearly.resolveProfile) fun profile => ?_
  refine leads_bind (leads_of_keeps hearly.buildClient) fun client => ?_
  refine leads_bind (leads_of_keeps hregisters.resolvePartyEntities) fun _ => ?_
  refine leads_bind (leads_of_keeps hearly.commitNow) fun _ => ?_
  refine leads_bind (leads_of_keeps (hregisters.stepCreateContract fun _ _ _ _ =>
    obeys_writeContract fun _ _ => ⟨trivial, trivial, trivial⟩)) fun id => ?_
  refine leads_bind (leads_of_keeps hearly.commitNow) fun _ => ?_
  refine leads_bind (leads_of_keeps hregisters.attachUnits) fun _ => ?_
  refine leads_bind (leads_of_keeps hearly.commitNow) fun _ => ?_
  refine leads_bind (leads_of_keeps hregisters.addParties) fun _ => ?_
  refine leads_bind (leads_of_keeps hearly.commitNow) fun _ => ?_
  refine leads_bind (leads_of_keeps hregisters.uploadProxyDocs) fun _ => ?_
  refine leads_bind (leads_of_keeps hearly.commitNow) fun _ => ?_
  refine leads_bind (leads_of_keeps hregisters.stepUploadSignedDoc) fun _ => ?_
  refine leads_bind (leads_of_keeps hearly.commitNow) fun _ => ?_
  -- from here on the rent has been sent
  refine leads_bind stepAddFinancialInfo_leads fun _ => ?_
  refine leads_bind (leads_of_keeps hlate.commitNow) fun _ => ?_
  refine leads_bind stepAddRentalFee_leads fun _ => ?_
  refine leads_bind (leads_of_keeps hlate.commitNow) fun _ => ?_
  have hsubmit : Neutral.keeps rule Billed (stepSubmit client id) :=
    Prog.within_bind (hlate.makeRequest not_false) fun _ =>
      Prog.within_bind (Prog.within_ofExcept _) fun _ => Neutral.pure _
  refine leads_bind (leads_of_keeps hsubmit) fun _ => ?_
  refine leads_bind (writeContract_leads fun h => h) fun _ => ?_
  refine leads_bind (leads_of_keeps hlate.commitNow) fun _ => ?_
  exact leads_bind (leads_of_keeps hlate.get) fun _ _ _ => trivial

theorem executeFullSubmission_leads : leads (fun _ => True) (fun _ => True) (executeFullSubmission env) := by
  refine leads_bind (leads_of_keeps always_neutral.get) fun contract => ?_
  refine leads_bind (writeContract_leads id) fun _ => ?_
  refine leads_bind (leads_of_keeps always_neutral.commitNow) fun _ x hx => ?_
  rw [Prog.obeys_tryCatch]
  refine Prog.obeys_mono (fun _ _ h => h) (fun exc y _ => ?_) (runPipeline_leads x hx)
  have hhandler : leads (fun _ => True) (fun _ => True) (do
      writeContract { ejarStatus := some .ready, submitError := some (some (exc.cut 2048)) }
      Prog.commitNow
      throw exc : Pipeline SubmissionResult) :=
    leads_bind (writeContract_leads id) fun _ => leads_bind (leads_of_keeps always_neutral.commitNow) fun _ _ _ =>
      trivial
  exact hhandler y trivial

theorem rule_lenient : Lenient rule fun _ => True where
  read := trivial
  commit := trivial
  write _ := trivial
  activity := trivial

theorem attempt_bills {y : Local Contract Billing} : keepsTo rule (onContract (executeFullSubmission env)) y :=
  keepsTo_onContract (I := fun _ => True) executeFullSubmission_leads trivial

theorem submissionJob_bills {y : Local Contract Billing} : keepsTo rule (jobExecuteFullSubmission env) y :=
  rule_lenient.submissionJob (fun _ => trivial) fun _ _ => attempt_bills

theorem submitWizard_bills {inst : Installation} {confirmed : Bool} {uuid : String} {y : Local Contract Billing} :
    keepsTo rule (actionConfirmSubmit inst env confirmed uuid) y :=
  rule_lenient.submitWizard (fun _ _ _ _ => attempt_bills)
    fun _ _ => rule_lenient.submitAsync fun _ _ => trivial

/-- What makes neither of the two calls keeps to the protocol. -/
theorem bills_of_silent {α : Type} {ok : Limits} {p : TaskProg α} {y : Local Contract Billing}
    (hcall : ∀ call, ok.call call → ¬ bills call) (hp : Transition.safe ok p ⟨y.view, ()⟩) : keepsTo rule p y := by
  rintro ⟨view, b⟩ rfl
  have hobeys := hp ⟨view, ()⟩ rfl
  have hrelated : ∀ {t : Unit} {b : Billing} {e}, True → (onWorld (Transition.limitProtocol ok)).allows t e →
      (onWorld rule).allows b e ∧ True := by
    intro t b e _ hallows
    refine ⟨?_, trivial⟩
    cases e with
    | call q reply => exact maySend_other (hcall q.call hallows)
    | write w u => cases u <;> trivial
    | _ => trivial
  exact Prog.obeys_simulated hrelated hobeys trivial

/-- The fee is sent by attempts only. -/
theorem attempt_of_bills {t : Task} {call : ApiCall} (hmay : t.mayCall call) (hbills : bills call) :
    (∃ env confirmed uuid, t = .submitWizard env confirmed uuid) ∨ ∃ job env, t = .submissionJob job env := by
  cases t with
  | submitWizard env confirmed uuid => exact .inl ⟨env, confirmed, uuid, rfl⟩
  | submissionJob job env => exact .inr ⟨job, env, rfl⟩
  | _ =>
    cases call with
    | addFinancialInformation id attrs => exact hmay.elim
    | addRentalFee id attrs => exact hmay.elim
    | _ => exact hbills.elim

theorem body_bills (inst : Installation) (t : Task) : keepsTo rule (t.body inst) ⟨none, {}⟩ := by
  by_cases hattempt : (∃ env confirmed uuid, t = .submitWizard env confirmed uuid) ∨ ∃ job env, t =
    .submissionJob job env
  · obtain ⟨env, confirmed, uuid, rfl⟩ | ⟨job, env, rfl⟩ := hattempt
    · exact submitWizard_bills
    · exact submissionJob_bills
  · have hsilent : ∀ call, t.mayCall call → ¬ bills call := fun call hmay hbills =>
      hattempt (attempt_of_bills hmay hbills)
    exact bills_of_silent hsilent (Transition.body_safe inst t)

def isTask : SiteTask → Prop
  | .task _ => True
  | .save _ => False

/-- What the callers of a run keep to. A save calls nobody. -/
def siteBilling (t : SiteTask) : Protocol World SiteWrite Request Reply Billing :=
  { billing World.contract with
    allows := fun b e => (billing World.contract).allows b e ∧ ∀ q reply, e = .call q reply → isTask t }

theorem site_billed (inst : Installation) (t : SiteTask) : ((storing inst).body t).obeys (storing inst).app
    (siteBilling t) (fun _ _ => True) (fun _ _ => True) ⟨none, {}⟩ := by
  cases t with
  | task t =>
    have happ : ∀ (u : WorldWrite) (w : World), id ((SiteWrite.task u).apply w) = u.apply (id w) := fun _ _ => rfl
    refine Prog.obeys_zoom happ ?_ ?_ (body_bills inst t (Local.part id ⟨none, {}⟩) rfl)
    · intro b e e' he hallows
      refine ⟨?_, fun _ _ _ => trivial⟩
      cases he with
      | call q r => exact hallows
      | _ => trivial
    · intro b e e' he
      cases he with
      | write v u => cases u <;> rfl
      | _ => rfl
  | save v =>
    refine fun w _ => ⟨⟨trivial, fun _ _ h => by cases h⟩, fun w' _ => ⟨⟨trivial, fun _ _ h => by cases h⟩, ?_⟩⟩
    dsimp only [Prog.bind]
    split
    · trivial
    · trivial

def Kept (w : World) : Prop := Saved w.contract

theorem kept_write {u : WorldWrite} {w : World} (hw : Kept w) : Kept (u.apply w) := by
  have hsame : (u.apply w).contract.rentAmount = w.contract.rentAmount ∧
      (u.apply w).contract.brokerageFee = w.contract.brokerageFee := by
    cases u with
    | record u => cases u <;> exact ⟨rfl, rfl⟩
    | _ => exact ⟨rfl, rfl⟩
  obtain ⟨hrent, hfee⟩ := hsame
  exact ⟨by rw [hrent]; exact hw.rent, by rw [hfee]; exact hw.fee, capped_congr hrent hfee hw.capped⟩

theorem getD_isCents {v : Option Rat} {q : Rat} (hq : IsCents q) : IsCents ((v.map toCents).getD q) := by
  cases v with
  | none => exact hq
  | some r => exact toCents_isCents r

theorem capped_of_checkForm {v : FormVals} {c : Contract} (hcheck : checkForm v c = .ok ())
    (htouched : v.brokerageFee.isSome || v.rentAmount.isSome) : checkBrokerageFeeCap c = .ok () := by
  simp only [checkForm, htouched, if_true, bind, Except.bind] at hcheck
  by_cases hdated : v.startDate.isSome || v.endDate.isSome
  · cases hdates : checkDates c with
    | ok _ => simpa [hdated, hdates] using hcheck
    | error e => simp [hdated, hdates] at hcheck
  · simpa [hdated, pure, Except.pure] using hcheck

theorem saved_edit {v : FormVals} {c : Contract} (hc : Saved c) (hcheck : checkForm v.stored (c.edit v.stored) =
    .ok ()) :
    Saved (c.edit v.stored) where
  rent := getD_isCents hc.rent
  fee := getD_isCents hc.fee
  capped := by
    by_cases htouched : v.stored.brokerageFee.isSome || v.stored.rentAmount.isSome
    · exact capped_of_checkForm hcheck htouched
    · simp only [Bool.or_eq_true, not_or, Bool.not_eq_true, Option.isSome_eq_false_iff,
        Option.isNone_iff_eq_none] at htouched
      obtain ⟨hfee, hrent⟩ := htouched
      exact capped_congr (by simp [Contract.edit, hrent]) (by simp [Contract.edit, hfee]) hc.capped

theorem site_keeps (inst : Installation) (t : SiteTask) : ((storing inst).body t).obeys (storing inst).app
    (keeper SiteWrite Request Reply Kept (isTask t)) (fun _ => Tracks Kept) (fun _ _ => True) ⟨none, none⟩ := by
  cases t with
  | task t =>
    have happ : ∀ (u : WorldWrite) (w : World), id ((SiteWrite.task u).apply w) = u.apply (id w) := fun _ _ => rfl
    have hbody : (t.body inst).obeys WorldWrite.apply (keeper WorldWrite Request Reply Kept True)
        (fun _ => Tracks Kept) (fun _ _ => True) ⟨none, none⟩ :=
      Prog.obeys_keeper (fun u w hw => kept_write (u := u) hw) _ tracks_closed
    have hallows : ∀ {o e e'}, Effect.Zooms id SiteWrite.task e e' →
        (keeper WorldWrite Request Reply Kept True).allows o e → (keeper SiteWrite Request Reply Kept True).allows o
          e' := by
      intro o e e' he hallows
      cases he <;> exact hallows
    have hnext : ∀ {o e e'}, Effect.Zooms id SiteWrite.task e e' →
        (keeper SiteWrite Request Reply Kept True).next o e' = (keeper WorldWrite Request Reply Kept True).next o
          e := by
      intro o e e' he
      cases he <;> rfl
    have hends : ∀ x : Local World (Option World), x.part id = x := fun x => by simp [Local.part]
    have hzoomed := Prog.obeys_zoom happ hallows hnext (x := ⟨none, none⟩) hbody
    exact Prog.obeys_mono (fun _ x hx => hends x ▸ hx) (fun _ _ h => h) hzoomed
  | save v =>
    refine fun w _ => ⟨trivial, fun w' hw' => ?_⟩
    obtain rfl := hw' _ rfl
    refine ⟨fun h => h.elim, ?_⟩
    dsimp only [Prog.bind]
    split
    · rename_i hcheck
      have hedited : Kept w → Kept { w with contract := w.contract.edit v.stored } := fun hw => saved_edit hw hcheck
      exact tracks_closed.goes (by simp [Local.reads]) hedited
    · trivial

theorem read_of_billing (es : List (Effect World SiteWrite Request Reply)) :
    (∀ c, (es.foldl (billing World.contract).next {}).record = some c → ∃ v, .read v ∈ es ∧ v.contract = c) ∧
      ∀ c, (es.foldl (billing World.contract).next {}).billed = some c → ∃ v, .read v ∈ es ∧ v.contract = c := by
  induction es using List.reverseRecOn with
  | nil => constructor <;> intro c hc <;> cases hc
  | append_singleton es e ih =>
    obtain ⟨hrecord, hbilled⟩ := ih
    have hearlier : ∀ {c}, (∃ v, Effect.read v ∈ es ∧ v.contract = c) → ∃ v, Effect.read v ∈ es ++ [e] ∧ v.contract =
      c :=
      fun ⟨v, hv, hc⟩ => ⟨v, List.mem_append_left _ hv, hc⟩
    rw [List.foldl_concat]
    cases e with
    | read v =>
      refine ⟨fun c hc => ⟨v, ?_, Option.some.inj hc⟩, fun c hc => hearlier (hbilled c hc)⟩
      exact List.mem_append_right _ (List.mem_singleton_self _)
    | call q r =>
      obtain ⟨client, call⟩ := q
      cases call with
      | addFinancialInformation id attrs => exact ⟨fun c hc => hearlier (hrecord c hc),
          fun c hc => hearlier (hrecord c hc)⟩
      | _ => exact ⟨fun c hc => hearlier (hrecord c hc), fun c hc => hearlier (hbilled c hc)⟩
    | _ => exact ⟨fun c hc => hearlier (hrecord c hc), fun c hc => hearlier (hbilled c hc)⟩

variable {inst : Installation} {w : World} {h before after : List SiteMove} {m : SiteMachine} {mv : SiteMove}
  {attrs : RentalFeeAttributes}

/-- A task reads records that were saved. -/
theorem saved_of_read (hw : Saved w.contract) (hrun : Run (storing inst) w h m) {t : Task} (hmv : mv ∈ h)
    (ht : mv.task = .task t) {v : World} (hread : .read v ∈ effectsOf mv.who h) : Saved v.contract := by
  obtain ⟨mv', hmv', hwho, hlabel⟩ := mem_effectsOf hread
  have htask := hrun.task_eq hmv' hmv hwho
  have hsteady : isTask mv'.task := by
    rw [htask, ht]
    trivial
  have hstart : ∀ (t : SiteTask) v v', (storing inst).start t v = some v' → Kept v → Kept v' := by
    intro t v v' hs hv
    cases t with
    | task t =>
      rw [Kept, DeadLetter.start_contract hs]
      exact hv
    | save vals =>
      obtain rfl := Option.some.inj hs
      exact hv
  have hfinish : ∀ (t : SiteTask) o v, Kept v → Kept ((storing inst).finish t o v) := by
    intro t o v hv
    cases t with
    | task t =>
      change Kept (t.finish o v)
      rw [Kept, DeadLetter.finish_contract]
      exact hv
    | save vals => exact hv
  have hkept : Kept v := hrun.reads_between (site_keeps inst) hstart hfinish hw hmv' hsteady hlabel
  exact hkept

/-- What is known of a call that sends a fee, the rent being that of `d`. -/
structure Sent (b : Billing) (attrs : RentalFeeAttributes) (d c : Contract) : Prop where
  billed : b.billed = some d
  record : b.record = some c
  rent : b.rent = some d.rentAmount
  fee : attrs.brokerageFee = c.brokerageFee
  nonzero : c.brokerageFee ≠ 0
  capped : checkBrokerageFeeCap c = .ok ()

theorem sentFee_label (hfee : mv.sentFee = some attrs) :
    ∃ q reply id, mv.label = .effect (.call q reply) ∧ q.call = .addRentalFee id attrs := by
  unfold SiteMove.sentFee at hfee
  split at hfee
  · rename_i q reply hlabel
    split at hfee
    · rename_i id attrs hcall
      obtain rfl := Option.some.inj hfee
      exact ⟨q, reply, id, hlabel, hcall⟩
    · cases hfee
  · cases hfee

theorem sent (hw : Saved w.contract) (hrun : Run (storing inst) w (before ++ mv :: after) m)
    (hfee : mv.sentFee = some attrs) : ∃ d c, Sent (billingOf mv.who before) attrs d c := by
  obtain ⟨q, reply, id, hlabel, hcall⟩ := sentFee_label hfee
  obtain ⟨hmay, htask⟩ := (hrun.obeying (site_billed inst)).2 before mv after _ rfl hlabel
  have hmay : (billingOf mv.who before).maySend q.call := hmay
  rw [hcall] at hmay
  obtain ⟨⟨d, hbilled, hrent⟩, c, profile, hrecord, hattrs⟩ := hmay
  have htask := htask _ _ rfl
  obtain ⟨hreads, hbills⟩ := read_of_billing (effectsOf mv.who before)
  cases ht : mv.task with
  | save v =>
    rw [ht] at htask
    exact htask.elim
  | task t =>
    have hsaved : ∀ {c : Contract}, (∃ v, .read v ∈ effectsOf mv.who before ∧ v.contract = c) → Saved c := by
      rintro c ⟨v, hv, rfl⟩
      have hread : .read v ∈ effectsOf mv.who (before ++ mv :: after) := by
        rw [effectsOf_append]
        exact List.mem_append_left _ hv
      exact saved_of_read hw hrun (List.mem_append_right _ (List.mem_cons_self ..)) ht hread
    have hd := hsaved (hbills d hbilled)
    have hc := hsaved (hreads c hrecord)
    unfold buildRentalFeeAttributes at hattrs
    split at hattrs
    · cases hattrs
    rename_i hnonzero
    obtain rfl := Option.some.inj hattrs
    rw [pyRound_isCents hd.rent] at hrent
    exact ⟨d, c, hbilled, hrecord, hrent, pyRound_isCents hc.fee, hnonzero, hc.capped⟩

/-- The fee that is sent is within the cap exactly if the two records do not let it escape. -/
theorem Sent.within_iff {b : Billing} {d c : Contract} (h : Sent b attrs d c) :
    attrs.brokerageFee ≤ d.rentAmount * (25 / 1000) ↔ ¬ Escapes d c := by
  rw [h.fee]
  unfold Escapes
  split
  · rename_i hzero
    rw [hzero, zero_mul, not_lt]
  · rename_i hrent
    have hcapped := capped_iff.mp h.capped h.nonzero
    have hchecked : checkBrokerageFeeCap { c with rentAmount := d.rentAmount } = .ok () ↔
        c.brokerageFee ≤ d.rentAmount * (25 / 1000) :=
      capped_iff.trans ⟨fun hle => hle h.nonzero hrent, fun hle _ _ => hle⟩
    rw [not_and, not_not, hchecked]
    constructor
    · exact fun hle _ => hle
    · intro hle
      by_cases hsame : c.rentAmount = d.rentAmount
      · rw [← hsame]
        exact hcapped (hsame ▸ hrent)
      · exact hle hsame

theorem sent_at (hw : Saved w.contract) (hrun : Run (storing inst) w h m) {n : Nat} (hn : h[n]? = some mv)
    (hfee : mv.sentFee = some attrs) : ∃ d c, Sent (billingOf mv.who (h.take n)) attrs d c := by
  obtain ⟨hlt, rfl⟩ := List.getElem?_eq_some_iff.mp hn
  have hsplit : h.take n ++ h[n] :: h.drop (n + 1) = h := by
    rw [← List.drop_eq_getElem_cons hlt, List.take_append_drop]
  rw [← hsplit] at hrun
  exact sent hw hrun hfee

end FeeCap

/-- In any run every fee is within the cap of the rent that the same attempt has sent,
exactly if none escapes the constraint. -/
theorem fees_capped_iff {inst : Installation} {w : World} {h : List SiteMove} {m : SiteMachine}
    (hw : Saved w.contract) (hrun : Run (storing inst) w h m) :
    FeesCapped h ↔ ∀ n (mv : SiteMove), h[n]? = some mv → mv.sentFee.isSome → ∀ d c,
      (billingOf mv.who (h.take n)).billed = some d →
      (billingOf mv.who (h.take n)).record = some c → ¬ Escapes d c := by
  constructor
  · intro hcapped n mv hn hfee d c hd hc
    obtain ⟨attrs, hattrs⟩ := Option.isSome_iff_exists.mp hfee
    obtain ⟨d', c', hsent⟩ := FeeCap.sent_at hw hrun hn hattrs
    obtain rfl : d' = d := Option.some.inj (hsent.billed.symm.trans hd)
    obtain rfl : c' = c := Option.some.inj (hsent.record.symm.trans hc)
    obtain ⟨rent, hrent, hle⟩ := hcapped n mv attrs hn hattrs
    obtain rfl : d'.rentAmount = rent := Option.some.inj (hsent.rent.symm.trans hrent)
    exact hsent.within_iff.mp hle
  · intro hescapes n mv attrs hn hattrs
    obtain ⟨d, c, hsent⟩ := FeeCap.sent_at hw hrun hn hattrs
    refine ⟨d.rentAmount, hsent.rent, ?_⟩
    exact hsent.within_iff.mpr (hescapes n mv hn (by simp [hattrs]) d c hsent.billed hsent.record)

/-- A submission of the sample contract is in the queue, with this rent and this fee. -/
def feeWorld (rent fee : Rat) : World :=
  ⟨{ sampleContract "EJ/1" with rentAmount := rent, brokerageFee := fee },
    [{ uuid := "job-1", kind := .submission, maxRetries := maxSubmissionRetries }]⟩

/-- The job runs up to the rental fee. -/
def feeRun (rent fee : Rat) : List SiteMove × SiteMachine :=
  Machine.exec (storing ⟨true, true, true⟩)
    (.start 0 (.task (.submissionJob "job-1" sampleEnv)) :: List.replicate 48 (.go 0 answered)) ([],
      .initial (feeWorld rent fee))

theorem feeRun_run (rent fee : Rat) : Run (storing ⟨true, true, true⟩) (feeWorld rent fee) (feeRun rent fee).1
    (feeRun rent fee).2 :=
  Machine.exec_run .nil

def feesSent (h : List SiteMove) : List (Nat × Option Rat) :=
  h.map fun mv => (mv.who, (SiteMove.sentFee mv).map RentalFeeAttributes.brokerageFee)

/-- The last move of the run sends a fee of 1000 for a rent of 50000, and no other sends
one. -/
theorem feesSent_feeRun : feesSent (feeRun 50000 1000).1 = List.replicate 48 (0, none) ++ [(0, some 1000)] ∧
    (billingOf 0 ((feeRun 50000 1000).1.take 48)).billed.all (·.rentAmount = 50000) ∧
    (billingOf 0 ((feeRun 50000 1000).1.take 48)).record.all (·.rentAmount = 50000) := by
  decide +kernel

theorem feesSent_at {h : List SiteMove} {n : Nat} {mv : SiteMove} (hn : h[n]? = some mv) :
    (feesSent h)[n]? = some (mv.who, mv.sentFee.map RentalFeeAttributes.brokerageFee) := by
  rw [feesSent, List.getElem?_map, hn]
  rfl

theorem fees_capped_feeRun : FeesCapped (feeRun 50000 1000).1 := by
  obtain ⟨hfees, hbilled, hrecord⟩ := feesSent_feeRun
  have hsaved : Saved (feeWorld 50000 1000).contract :=
    ⟨⟨5000000, by decide +kernel⟩, ⟨100000, by decide +kernel⟩, FeeCap.capped_iff.mpr (by decide +kernel)⟩
  apply (fees_capped_iff hsaved (feeRun_run 50000 1000)).mpr
  intro n mv hn hfee d c hd hc
  obtain ⟨attrs, hattrs⟩ := Option.isSome_iff_exists.mp hfee
  have hsent := feesSent_at hn
  rw [hfees, hattrs] at hsent
  have hlast : n = 48 ∧ mv.who = 0 := by
    rcases Nat.lt_trichotomy n 48 with hlt | rfl | hgt
    · rw [List.getElem?_append_left (by simpa using hlt), List.getElem?_replicate, if_pos hlt] at hsent
      simp at hsent
    · simp at hsent
      exact ⟨rfl, hsent.1.symm⟩
    · rw [List.getElem?_eq_none (by simp; omega)] at hsent
      cases hsent
  obtain ⟨rfl, hwho⟩ := hlast
  rw [hwho] at hd hc
  have hrent : d.rentAmount = 50000 := by simpa [hd] using hbilled
  have hsame : c.rentAmount = 50000 := by simpa [hc] using hrecord
  simp [Escapes, hrent, hsame]

/-- The constraint has nothing to say without a rent. -/
theorem fee_without_rent : ¬ ∀ inst w h m, Saved w.contract → Run (storing inst) w h m → FeesCapped h := by
  intro hcapped
  have hsaved : Saved (feeWorld 0 100).contract :=
    ⟨⟨0, by decide +kernel⟩, ⟨10000, by decide +kernel⟩, FeeCap.capped_iff.mpr fun _ h => absurd rfl h⟩
  have hlast : (feesSent (feeRun 0 100).1)[48]? = some (0, some 100) ∧
      (billingOf 0 ((feeRun 0 100).1.take 48)).rent = some 0 := by decide +kernel
  obtain ⟨hsent, hzero⟩ := hlast
  rw [feesSent, List.getElem?_map] at hsent
  obtain ⟨mv, hmv, hpair⟩ := Option.map_eq_some_iff.mp hsent
  obtain ⟨hwho, hfee⟩ := Prod.mk.inj hpair
  obtain ⟨attrs, hattrs, hamount⟩ := Option.map_eq_some_iff.mp hfee
  obtain ⟨rent, hrent, hle⟩ := hcapped _ _ _ _ hsaved (feeRun_run 0 100) 48 mv attrs hmv hattrs
  rw [hwho, hzero] at hrent
  obtain rfl := Option.some.inj hrent
  rw [hamount] at hle
  exact absurd hle (by decide +kernel)

end Ejar
