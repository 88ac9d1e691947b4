import Mathlib.Data.List.Induction
import PropzaAmlak.Data.Text
import PropzaAmlak.Ejar.Replies
import PropzaAmlak.Status.Transitions

/-! The idempotency key of `create_contract`, and the remote ids that contracts get
from an Ejar that answers a repeated key with the first resource. -/

namespace Ejar

open Tx

/-- `ikey` of a call. -/
def idempotencyKey (sha256 : String → String) (hash : List UInt8 → String) (request : Request) : String :=
  buildIdempotencyKey sha256 (request.call.idempotencyParts hash request.companyId)

/-- What the key of a contract is made of. -/
def Contract.terms (c : Contract) : Option Date × Option Date × ContractType :=
  (c.startDate, c.endDate, c.contractType.getD .residential)

/-- Two creations for the same company, with the same start, end and type. -/
def SameTerms (q q' : Request) : Prop :=
  q.companyId = q'.companyId ∧ ∃ attrs attrs', q.call = .createContract attrs ∧
    q'.call = .createContract attrs' ∧ attrs.contractStartDate = attrs'.contractStartDate ∧
    attrs.contractEndDate = attrs'.contractEndDate ∧ attrs.contractType = attrs'.contractType

/-- The call is a creation with the attributes of a contract, and the reply has `v`
stored. -/
def Creates (request : Request) (reply : Reply) (v : CharField) : Prop :=
  ∃ contract profile attrs id number, buildContractAttributes contract profile = .ok attrs ∧
    request.call = .createContract attrs ∧ contractReply request reply = .ok (id, number) ∧
    v = .ofJson id ∧ v.truthy

/-- `v` comes from a creation that was answered in the run. -/
def StoredBy (h : List TaskMove) (v : CharField) (request : Request) : Prop :=
  ∃ mv ∈ h, ∃ reply, mv.label = .effect (.call request (some reply)) ∧ Creates request reply v

/-- Ejar answers every creation with the resource of its key. -/
def Replays (key : Request → String) (resource : String → String) (h : List TaskMove) : Prop :=
  ∀ mv ∈ h, ∀ request reply v, mv.label = .effect (.call request (some reply)) →
    Creates request reply v → v = some (resource (key request))

/-- Contracts of one database, each with all that is done to it, interleaved in any
way; none is linked at first, and remote ids are not set from outside. -/
structure Submissions (inst : Installation) where
  world : Nat → World
  history : Nat → List TaskMove
  machine : Nat → Machine World WorldWrite Request Reply TaskExc Unit Task
  run : ∀ i, Run (system inst) (world i) (history i) (machine i)
  unlinked : ∀ i, ¬ (world i).contract.ejarContractId.truthy
  unedited : ∀ i, ∀ mv ∈ history i, ∀ vals, mv.task = .write vals → vals.ejarContractId = none

namespace Submissions

variable {inst : Installation}

def storedId (r : Submissions inst) (i : Nat) : CharField := (r.machine i).store.contract.ejarContractId

/-- No two contracts store the same id. -/
def IdsApart (r : Submissions inst) : Prop :=
  ∀ i j, i ≠ j → (r.storedId i).truthy → (r.storedId j).truthy → r.storedId i ≠ r.storedId j

/-- No two contracts store ids of creations with the same terms. -/
def TermsApart (r : Submissions inst) : Prop :=
  ∀ i j, i ≠ j → ∀ q q', StoredBy (r.history i) (r.storedId i) q →
    StoredBy (r.history j) (r.storedId j) q' → ¬ SameTerms q q'

end Submissions

namespace Key

theorem dateStr_injective {d e : Option Date} (h : dateStr d = dateStr e) : d = e := by
  have hfalse : ∀ d : Date, d.isoformat ≠ "False" := by
    intro d hd
    have hdash : '-' ∈ d.isoformat.toList := by simp [Date.isoformat]
    rw [hd] at hdash
    exact absurd hdash (by decide)
  cases d with
  | none =>
    cases e with
    | none => rfl
    | some e => exact absurd h.symm (hfalse e)
  | some d =>
    cases e with
    | none => exact absurd h (hfalse d)
    | some e => exact congrArg some (Date.isoformat_injective h)

theorem contractType_injective {a b : ContractType} (h : a.str = b.str) : a = b := by
  cases a <;> cases b <;> first | rfl | (exact absurd h (by decide))

theorem colon_notMem_dateStr (d : Option Date) : ':' ∉ (dateStr d).toList := by
  cases d with
  | none => decide
  | some d => exact Date.colon_notMem_isoformat d

theorem colon_notMem_contractType (t : ContractType) : ':' ∉ t.str.toList := by
  cases t <;> decide

theorem colon_notMem_parts {hash : List UInt8 → String} {company : Nat} {c : Contract}
    {profile : Option BrokerageProfile} {attrs : ContractAttributes}
    (h : buildContractAttributes c profile = .ok attrs) :
    ∀ s ∈ (ApiCall.createContract attrs).idempotencyParts hash company, ':' ∉ s.toList := by
  obtain ⟨hstart, hend, htype⟩ := buildContractAttributes_terms h
  intro s hs
  simp only [ApiCall.idempotencyParts, List.mem_cons, List.not_mem_nil, or_false] at hs
  rcases hs with rfl | rfl | rfl | rfl | rfl
  · decide
  · exact fun hmem => absurd (Text.digit_of_mem_toString hmem) (by decide)
  · rw [hstart]
    exact colon_notMem_dateStr _
  · rw [hend]
    exact colon_notMem_dateStr _
  · rw [htype]
    exact colon_notMem_contractType _

theorem key_eq_iff {sha256 : String → String} (hsha : Function.Injective sha256)
    {hash : List UInt8 → String} {c c' : Contract} {p p' : Option BrokerageProfile}
    {q q' : Request} {attrs attrs' : ContractAttributes} (h : buildContractAttributes c p = .ok attrs)
    (h' : buildContractAttributes c' p' = .ok attrs') (hq : q.call = .createContract attrs)
    (hq' : q'.call = .createContract attrs') :
    idempotencyKey sha256 hash q = idempotencyKey sha256 hash q' ↔ SameTerms q q' := by
  constructor
  · intro hkey
    have hjoined := hsha hkey
    rw [hq, hq'] at hjoined
    have hparts := Text.join_injective (colon_notMem_parts h) (colon_notMem_parts h')
      (List.cons_ne_nil _ _) (List.cons_ne_nil _ _) hjoined
    simp only [ApiCall.idempotencyParts, List.cons.injEq, and_true, true_and] at hparts
    obtain ⟨hcompany, hstart, hend, htype⟩ := hparts
    exact ⟨Text.toString_injective hcompany, attrs, attrs', hq, hq', hstart, hend, htype⟩
  · rintro ⟨hcompany, a, a', ha, ha', hstart, hend, htype⟩
    rw [idempotencyKey, idempotencyKey, ha, ha']
    simp only [ApiCall.idempotencyParts, hcompany, hstart, hend, htype]

theorem sameTerms_iff {c c' : Contract} {p p' : Option BrokerageProfile} {company : Nat}
    {attrs attrs' : ContractAttributes} (h : buildContractAttributes c p = .ok attrs)
    (h' : buildContractAttributes c' p' = .ok attrs') :
    SameTerms ⟨company, .createContract attrs⟩ ⟨company, .createContract attrs'⟩ ↔ c.terms = c'.terms := by
  obtain ⟨hstart, hend, htype⟩ := buildContractAttributes_terms h
  obtain ⟨hstart', hend', htype'⟩ := buildContractAttributes_terms h'
  simp only [SameTerms, Contract.terms, Prod.mk.injEq, ApiCall.createContract.injEq]
  constructor
  · rintro ⟨-, a, a', rfl, rfl, hs, he, ht⟩
    rw [hstart, hstart'] at hs
    rw [hend, hend'] at he
    rw [htype, htype'] at ht
    exact ⟨dateStr_injective hs, dateStr_injective he, contractType_injective ht⟩
  · rintro ⟨hs, he, ht⟩
    exact ⟨trivial, attrs, attrs', rfl, rfl, by rw [hstart, hstart', hs], by rw [hend, hend', he],
      by rw [htype, htype', ht]⟩

/-- A remote id is stored right from the reply to a creation, the last call. -/
def creationRule : ContractProtocol (Option (Request × Reply)) where
  init := none
  allows phase
    | .write _ (.contract vals) => ∀ v, vals.ejarContractId = some v → v.truthy →
      ∃ request reply, phase = some (request, reply) ∧ Creates request reply v
    | _ => True
  next phase
    | .call q (some r) => some (q, r)
    | _ => phase

theorem creationRule_neutral : Neutral creationRule (fun _ => True) fun _ => True where
  read _ := ⟨trivial, trivial⟩
  commit _ := ⟨trivial, trivial⟩
  call _ _ := ⟨trivial, trivial⟩
  write {phase c u} _ hu := by
    refine ⟨?_, trivial⟩
    cases u with
    | contract vals =>
      intro v hv
      rw [hu.2.1] at hv
      cases hv
    | _ => trivial

theorem writeContract_unlinked {vals : ContractVals} (hid : vals.ejarContractId = none) :
    Neutral.keeps creationRule (fun _ => True) (writeContract vals) := by
  intro x _
  refine obeys_writeContract fun c _ => ⟨fun v hv => ?_, trivial, trivial⟩
  rw [hid] at hv
  cases hv

/-- What becomes of a conflict of `create_contract`. -/
def createdBefore (exc : Exc) : Except Exc Json := do
  let ejarId ← existingId exc
  if ejarId.truthy then
    .ok (.obj [("data", .obj [("id", ejarId), ("attributes", exc.existingResource.orElse (.obj []))])])
  else .error exc

/-- The call of `create_contract` with its handler is one call and a reading of the
reply. -/
theorem createContract_eq {client : Nat} {attrs : ContractAttributes} :
    (exceptConflict (makeRequest client (.createContract attrs)) fun exc => do
      let ejarId ← Prog.ofExcept (existingId exc)
      if ejarId.truthy then
        pure (.obj [("data", .obj [("id", ejarId),
          ("attributes", exc.existingResource.orElse (.obj []))])])
      else throw exc) =
    (Prog.request ⟨client, .createContract attrs⟩ >>= fun reply => Prog.ofExcept
      (orConflict (readReply ⟨client, .createContract attrs⟩ reply) createdBefore) : Pipeline Json) := by
  refine congrArg (Prog.call _) (funext fun reply => ?_)
  change (Prog.ofExcept (readReply _ reply) : Pipeline Json).tryCatch _ =
    Prog.ofExcept (orConflict (readReply ⟨client, .createContract attrs⟩ reply) createdBefore)
  cases readReply ⟨client, .createContract attrs⟩ reply with
  | ok body => rfl
  | error e =>
    by_cases hcls : e.cls = .ejarConflictError
    · cases hid : existingId e with
      | error e' => simp [Prog.ofExcept, Prog.tryCatch, orConflict, createdBefore, hcls, hid, bind, Except.bind,
          Prog.bind]
      | ok ejarId =>
        cases htruthy : ejarId.truthy <;>
          simp [Prog.ofExcept, Prog.tryCatch, orConflict, createdBefore, hcls, hid, htruthy, bind, Except.bind,
            Prog.bind]
    · simp [Prog.ofExcept, Prog.tryCatch, orConflict, hcls]

theorem stepCreateContract_rule {client : Nat} {profile : BrokerageProfile} :
    Neutral.keeps creationRule (fun _ => True) (stepCreateContract client profile) := by
  refine Prog.within_bind creationRule_neutral.get fun contract => ?_
  split
  · exact Neutral.pure _
  cases hattrs : buildContractAttributes contract (some profile) with
  | error e => exact Neutral.raise e
  | ok attrs =>
    intro x _
    have hrun : ∀ request reply, request.call = .createContract attrs → ∀ resp,
        orConflict (readReply request reply) createdBefore = .ok resp →
        ∀ y : Local Contract (Option (Request × Reply)), y.phase = some (request, reply) →
        Prog.obeys RecordWrite.apply creationRule (do
          let ejarId ← Prog.ofExcept (respId resp)
          let data ← Prog.ofExcept (respData resp)
          let attrsResp ← Prog.ofExcept (pyGet data "attributes" (.obj []))
          let ejarNumber ← Prog.ofExcept (pyGet attrsResp "contract_number" (.str ""))
          writeContract { ejarContractId := some (.ofJson ejarId)
                          ejarContractNumber := some (.ofJson ejarNumber) }
          pure ejarId.text) (fun _ _ => True) (fun _ _ => True) y := by
      intro request reply hcall resp hresp y hy
      cases hid : respId resp with
      | error e => trivial
      | ok ejarId =>
        cases hdata : respData resp with
        | error e => trivial
        | ok data =>
          cases hattrsResp : pyGet data "attributes" (.obj []) with
          | error e =>
            simp only [Prog.ofExcept, Prog.ret_bind, hattrsResp]
            trivial
          | ok attrsResp =>
            cases hnumber : pyGet attrsResp "contract_number" (.str "") with
            | error e =>
              simp only [Prog.ofExcept, Prog.ret_bind, hattrsResp, hnumber]
              trivial
            | ok ejarNumber =>
              have hreply : contractReply request reply = .ok (ejarId, ejarNumber) := by
                refine bind_eq_ok.mpr ⟨resp, hresp, bind_eq_ok.mpr ⟨ejarId, hid, ?_⟩⟩
                refine bind_eq_ok.mpr ⟨data, hdata, bind_eq_ok.mpr ⟨attrsResp, hattrsResp, ?_⟩⟩
                exact bind_eq_ok.mpr ⟨ejarNumber, hnumber, rfl⟩
              simp only [Prog.ofExcept, Prog.ret_bind, hattrsResp, hnumber]
              rw [Prog.obeys_bind]
              refine obeys_writeContract fun c _ => ⟨fun v hv htruthy => ?_, trivial, trivial⟩
              obtain rfl := Option.some.inj hv
              exact ⟨request, reply, hy, contract, some profile, attrs, ejarId, ejarNumber, hattrs, hcall,
                hreply, rfl, htruthy⟩
    rw [Prog.ofExcept, Prog.ret_bind, createContract_eq]
    refine ⟨trivial, fun reply => ⟨trivial, ?_⟩⟩
    change Prog.obeys _ _ (Prog.ofExcept
      (orConflict (readReply ⟨client, .createContract attrs⟩ reply) createdBefore) >>= _) _ _ _
    cases hresp : orConflict (readReply ⟨client, .createContract attrs⟩ reply) createdBefore with
    | error e => trivial
    | ok resp => exact hrun _ reply rfl resp hresp _ rfl

theorem executeFullSubmission_rule {env : Env} :
    Neutral.keeps creationRule (fun _ => True) (executeFullSubmission env) := by
  refine Prog.within_bind creationRule_neutral.get fun contract => ?_
  refine Prog.within_bind (writeContract_unlinked rfl) fun _ => ?_
  refine Prog.within_bind creationRule_neutral.commitNow fun _ => ?_
  exact creationRule_neutral.rest (fun _ _ => stepCreateContract_rule)
    (fun _ hid _ => writeContract_unlinked hid) fun _ hid _ => writeContract_unlinked hid

theorem creationRule_lenient : Lenient creationRule fun vals => vals.ejarContractId = none where
  read := trivial
  commit := trivial
  write hid := fun v hv => by simp [hid] at hv
  activity := trivial

section

variable {y : Local Contract (Option (Request × Reply))} {env : Env}

theorem attempt_creates : keepsTo creationRule (onContract (executeFullSubmission env)) y :=
  keepsTo_onContract executeFullSubmission_rule trivial

theorem submitWizard_creates {inst : Installation} {confirmed : Bool} {uuid : String} :
    keepsTo creationRule (actionConfirmSubmit inst env confirmed uuid) y :=
  creationRule_lenient.submitWizard (fun _ _ _ _ => attempt_creates)
    fun _ _ => creationRule_lenient.submitAsync fun hid _ => hid

theorem submissionJob_creates : keepsTo creationRule (jobExecuteFullSubmission env) y :=
  creationRule_lenient.submissionJob And.left fun _ _ => attempt_creates

end

/-- The rule binds the tasks that may store a remote id. -/
def taskRule (t : Task) : ContractProtocol (Option (Request × Reply)) :=
  match t with
  | .submitWizard .. | .submissionJob .. => creationRule
  | _ => { creationRule with allows := fun _ _ => True }

theorem obeys_body (inst : Installation) (t : Task) :
    ((system inst).body t).obeys (system inst).app (onWorld (taskRule t))
      (fun _ _ => True) (fun _ _ => True) ⟨none, (onWorld (taskRule t)).init⟩ := by
  have hfree : ∀ (p : TaskProg Unit), p.obeys WorldWrite.apply
      (onWorld { creationRule with allows := fun _ _ => True })
      (fun _ _ => True) (fun _ _ => True) ⟨none, none⟩ := by
    intro p
    refine Prog.obeys_free (I := fun _ => True) (fun phase e _ => ⟨?_, trivial⟩) trivial
    cases e with
    | write v u => cases u <;> trivial
    | _ => trivial
  cases t with
  | submitWizard env confirmed uuid => exact submitWizard_creates ⟨none, none⟩ rfl
  | submissionJob job env => exact submissionJob_creates ⟨none, none⟩ rfl
  | _ => exact hfree _

variable {inst : Installation} {w : World} {h : List TaskMove}
  {m : Machine World WorldWrite Request Reply TaskExc Unit Task}

theorem answered_of_phase {es : List (Effect World WorldWrite Request Reply)}
    {request : Request} {reply : Reply}
    (hphase : es.foldl (onWorld creationRule).next none = some (request, reply)) :
    .call request (some reply) ∈ es := by
  induction es using List.reverseRecOn with
  | nil => cases hphase
  | append_singleton es e ih =>
    rw [List.foldl_append] at hphase
    cases e with
    | call q r =>
      cases r with
      | none => exact List.mem_append_left _ (ih hphase)
      | some r =>
        cases hphase
        exact List.mem_append_right _ (List.mem_singleton_self _)
    | read v => exact List.mem_append_left _ (ih hphase)
    | commit v => exact List.mem_append_left _ (ih hphase)
    | write v u =>
      cases u with
      | _ => exact List.mem_append_left _ (ih hphase)

/-- A remote id that is written comes from a creation answered before. -/
theorem written_storedBy (hrun : Run (system inst) w h m)
    (hunedited : ∀ mv ∈ h, ∀ vals, mv.task = .write vals → vals.ejarContractId = none) {mv : TaskMove}
    (hmv : mv ∈ h) {v : World} {vals : ContractVals} {id : CharField}
    (hlabel : mv.label = .effect (.write v (.record (.contract vals)))) (hid : vals.ejarContractId = some id)
    (htruthy : id.truthy) : ∃ request, StoredBy h id request := by
  obtain ⟨before, after, rfl⟩ := List.append_of_mem hmv
  have hlink := Transition.run_mayLink hrun hmv ⟨v, rfl, hlabel⟩ (by rw [hid]; rfl)
  have hallows := (hrun.obeying (P := fun t => onWorld (taskRule t)) (obeys_body inst)).2 before mv after _
    rfl hlabel
  have hrule : (onWorld creationRule).allows ((onWorld creationRule).phaseOf mv.who before)
      (.write v (.record (.contract vals))) := by
    cases htask : mv.task with
    | submitWizard env confirmed uuid =>
      rw [htask] at hallows
      exact hallows
    | submissionJob job env =>
      rw [htask] at hallows
      exact hallows
    | write vals' =>
      rw [htask] at hlink
      have hnone := hunedited mv hmv vals' htask
      simp [Task.mayLink, hnone] at hlink
    | _ =>
      rw [htask] at hlink
      exact hlink.elim
  obtain ⟨request, reply, hphase, hcreates⟩ := hrule id hid htruthy
  obtain ⟨mv', hmv', -, hcall⟩ := mem_effectsOf (answered_of_phase hphase)
  exact ⟨request, mv', List.mem_append_left _ hmv', reply, hcall, hcreates⟩

theorem stored_storedBy (hrun : Run (system inst) w h m) (hunlinked : ¬ w.contract.ejarContractId.truthy)
    (hunedited : ∀ mv ∈ h, ∀ vals, mv.task = .write vals → vals.ejarContractId = none)
    (htruthy : m.store.contract.ejarContractId.truthy) :
    ∃ request, StoredBy h m.store.contract.ejarContractId request := by
  have hstored := hrun.stored (I := fun v => v.contract.ejarContractId.truthy →
    ∃ request, StoredBy h v.contract.ejarContractId request) (fun hid => absurd hid hunlinked)
  refine (hstored (fun t v v' hstart hv => ?_) (fun t o v hv => ?_) fun mv hmv v u hlabel hv => ?_).1 htruthy
  · have hsame : v'.contract = v.contract := by
      simp only [system, Task.start] at hstart
      split at hstart
      · cases hstart
        rfl
      · split at hstart
        · cases hstart
        · cases hstart
          rfl
    rwa [hsame]
  · have hsame : (Task.finish t o v).contract = v.contract := by
      unfold Task.finish
      split <;> rfl
    simpa only [system, hsame] using hv
  · cases u with
    | record u =>
      cases u with
      | contract vals =>
        cases hid : vals.ejarContractId with
        | none => simpa [system, WorldWrite.apply, RecordWrite.apply, Contract.set, hid] using hv
        | some id =>
          simp only [system, WorldWrite.apply, RecordWrite.apply, Contract.set, hid, Option.getD_some]
          exact written_storedBy hrun hunedited hmv hlabel hid
      | party i vals => exact hv
      | unit i vals => exact hv
      | activity note => exact hv
    | enqueue job => exact hv
    | setJobState uuid state => exact hv

end Key

namespace Submissions

variable {inst : Installation}

/-- Ejar gives contracts different ids exactly if they were created with different
terms. -/
theorem idsApart_iff {sha256 : String → String} (hsha : Function.Injective sha256)
    {hash : List UInt8 → String} {resource : String → String} (hresource : Function.Injective resource)
    (r : Submissions inst)
    (hreplays : ∀ i, Replays (idempotencyKey sha256 hash) resource (r.history i)) :
    r.IdsApart ↔ r.TermsApart := by
  have hstored : ∀ i, (r.storedId i).truthy → ∃ q, StoredBy (r.history i) (r.storedId i) q := fun i =>
    Key.stored_storedBy (r.run i) (r.unlinked i) (r.unedited i)
  have hkey : ∀ i q, StoredBy (r.history i) (r.storedId i) q →
      r.storedId i = some (resource (idempotencyKey sha256 hash q)) := by
    rintro i q ⟨mv, hmv, reply, hlabel, hcreates⟩
    exact hreplays i mv hmv q reply _ hlabel hcreates
  have hsame : ∀ {i j q q'}, StoredBy (r.history i) (r.storedId i) q →
      StoredBy (r.history j) (r.storedId j) q' →
      (idempotencyKey sha256 hash q = idempotencyKey sha256 hash q' ↔ SameTerms q q') := by
    rintro i j q q' ⟨_, _, _, _, c, p, attrs, _, _, hattrs, hq, _⟩ ⟨_, _, _, _, c', p', attrs', _, _, hattrs', hq', _⟩
    exact Key.key_eq_iff hsha hattrs hattrs' hq hq'
  constructor
  · intro hapart i j hij q q' hq hq' hterms
    have hid : r.storedId i = r.storedId j := by
      rw [hkey i q hq, hkey j q' hq', (hsame hq hq').mpr hterms]
    have htruthy : ∀ {i q}, StoredBy (r.history i) (r.storedId i) q → (r.storedId i).truthy := by
      rintro i q ⟨_, _, _, _, _, _, _, _, _, _, _, _, _, htruthy⟩
      exact htruthy
    exact hapart i j hij (htruthy hq) (htruthy hq') hid
  · intro hapart i j hij hi hj hid
    obtain ⟨q, hq⟩ := hstored i hi
    obtain ⟨q', hq'⟩ := hstored j hj
    rw [hkey i q hq, hkey j q' hq', Option.some.injEq] at hid
    exact hapart i j hij q q' hq hq' ((hsame hq hq').mp (hresource hid))

end Submissions

/-- Two contracts of a company get different keys exactly if their dates or types
differ, and in every run contracts store different ids exactly if they were created
with different terms. -/
theorem keys_separate_iff (sha256 : String → String) (hsha : Function.Injective sha256)
    (hash : List UInt8 → String) :
    (∀ company c c' p p' attrs attrs', buildContractAttributes c p = .ok attrs →
      buildContractAttributes c' p' = .ok attrs' →
      (idempotencyKey sha256 hash ⟨company, .createContract attrs⟩ ≠
        idempotencyKey sha256 hash ⟨company, .createContract attrs'⟩ ↔ c.terms ≠ c'.terms)) ∧
    ∀ inst (r : Submissions inst) resource, Function.Injective resource →
      (∀ i, Replays (idempotencyKey sha256 hash) resource (r.history i)) → (r.IdsApart ↔ r.TermsApart) := by
  constructor
  · intro company c c' p p' attrs attrs' h h'
    rw [Ne, Key.key_eq_iff hsha h h' rfl rfl, Key.sameTerms_iff h h']
  · intro inst r resource hresource hreplays
    exact Submissions.idsApart_iff hsha hresource r hreplays

def twin (first : Bool) : World := ⟨sampleContract (if first then "EJ/1" else "EJ/2"), []⟩

/-- A submission in which every call is answered with the resource of the key that
the sample contract has. -/
def twinRun (first : Bool) : List TaskMove × Machine World WorldWrite Request Reply TaskExc Unit Task :=
  Machine.exec (system ⟨false, false, false⟩)
    (.start 0 (.submitWizard sampleEnv true "job-1") :: List.replicate 55 (.go 0 (.response 201
      (some (.obj [("data", .obj [("id", .str "create_contract:1:2025-01-01:2026-01-01:residential")])])) "")))
    ([], .initial (twin first))

theorem twinRun_run (first : Bool) :
    Run (system ⟨false, false, false⟩) (twin first) (twinRun first).1 (twinRun first).2 :=
  Machine.exec_run .nil

/-- The move is no creation, or its reply has the key stored. -/
def repliesKey (mv : TaskMove) : Bool :=
  match mv.label with
  | .effect (.call q (some r)) =>
    match q.call, contractReply q r with
    | .createContract _, .ok (v, _) => CharField.ofJson v == some (idempotencyKey id (fun _ => "") q)
    | _, _ => true
  | _ => true

theorem replays_of_repliesKey {h : List TaskMove} (hall : h.all repliesKey) :
    Replays (idempotencyKey id fun _ => "") id h := by
  rintro mv hmv request reply v hlabel ⟨c, p, attrs, ejarId, number, -, hcall, hreply, rfl, -⟩
  have hmoves := List.all_eq_true.mp hall mv hmv
  simp only [repliesKey, hlabel, hcall, hreply] at hmoves
  exact eq_of_beq hmoves

theorem twinRun_checks : ∀ first, (twinRun first).1.all repliesKey ∧
    ((twinRun first).1.all fun mv =>
      match mv.task with
      | .write _ => false
      | _ => true) ∧
    (twinRun first).2.store.contract.ejarContractId =
      some "create_contract:1:2025-01-01:2026-01-01:residential" := by
  decide +kernel

attribute [irreducible] twinRun

/-- Two contracts with the same terms, each submitted. -/
def twins : Submissions ⟨false, false, false⟩ where
  world i := twin (i == 0)
  history i := (twinRun (i == 0)).1
  machine i := (twinRun (i == 0)).2
  run i := twinRun_run (i == 0)
  unlinked _ := Bool.false_ne_true
  unedited i mv hmv vals hvals := by
    have hnone := List.all_eq_true.mp (twinRun_checks (i == 0)).2.1 mv hmv
    simp only [hvals] at hnone
    cases hnone

theorem twins_replays (i : Nat) : Replays (idempotencyKey id fun _ => "") id (twins.history i) :=
  replays_of_repliesKey (twinRun_checks (i == 0)).1

theorem twins_storedId (i : Nat) :
    twins.storedId i = some "create_contract:1:2025-01-01:2026-01-01:residential" :=
  (twinRun_checks (i == 0)).2.2

theorem sample_attributes (name : String) : ∃ attrs, buildContractAttributes (sampleContract name)
    (sampleContract name).brokerageProfileId = .ok attrs := ⟨_, rfl⟩

theorem keys_separate_iff_twins : (∃ attrs attrs',
      (idempotencyKey id (fun _ => "") ⟨1, .createContract attrs⟩ ≠
          idempotencyKey id (fun _ => "") ⟨1, .createContract attrs'⟩ ↔
        (sampleContract "EJ/1").terms ≠ (sampleContract "EJ/2").terms)) ∧
    (twins.IdsApart ↔ twins.TermsApart) := by
  have hkeys := keys_separate_iff id Function.injective_id fun _ => ""
  obtain ⟨attrs, hattrs⟩ := sample_attributes "EJ/1"
  obtain ⟨attrs', hattrs'⟩ := sample_attributes "EJ/2"
  exact ⟨⟨attrs, attrs', hkeys.1 1 _ _ _ _ attrs attrs' hattrs hattrs'⟩,
    hkeys.2 _ twins id Function.injective_id twins_replays⟩

theorem keys_not_separate :
    (¬ ∀ sha256 hash, Function.Injective sha256 → ∀ company c c' p p' attrs attrs', c ≠ c' →
      c.companyId = company → c'.companyId = company → buildContractAttributes c p = .ok attrs →
      buildContractAttributes c' p' = .ok attrs' →
      idempotencyKey sha256 hash ⟨company, .createContract attrs⟩ ≠
        idempotencyKey sha256 hash ⟨company, .createContract attrs'⟩) ∧
    ¬ ∀ sha256 hash, Function.Injective sha256 → ∀ inst (r : Submissions inst) resource,
      Function.Injective resource →
      (∀ i, Replays (idempotencyKey sha256 hash) resource (r.history i)) → r.IdsApart := by
  constructor
  · intro hapart
    obtain ⟨attrs, hattrs⟩ := sample_attributes "EJ/1"
    obtain ⟨attrs', hattrs'⟩ := sample_attributes "EJ/2"
    have hne : sampleContract "EJ/1" ≠ sampleContract "EJ/2" := fun h =>
      absurd (congrArg Contract.name h) (by decide)
    refine hapart id (fun _ => "") Function.injective_id 1 _ _ _ _ attrs attrs' hne rfl rfl hattrs hattrs' ?_
    have hterms : (sampleContract "EJ/1").terms = (sampleContract "EJ/2").terms := rfl
    exact (Key.key_eq_iff Function.injective_id hattrs hattrs' rfl rfl).mpr
      ((Key.sameTerms_iff hattrs hattrs').mpr hterms)
  · intro hapart
    have hids := hapart id (fun _ => "") Function.injective_id _ twins id Function.injective_id twins_replays
    have htruthy : ∀ i, (twins.storedId i).truthy := by
      intro i
      rw [twins_storedId]
      rfl
    exact hids 0 1 Nat.zero_ne_one (htruthy 0) (htruthy 1) ((twins_storedId 0).trans (twins_storedId 1).symm)

end Ejar
