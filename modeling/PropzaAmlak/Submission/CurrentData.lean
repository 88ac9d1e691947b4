import PropzaAmlak.Ejar.Edits
import PropzaAmlak.Submission.Filing
import PropzaAmlak.Submission.Linked

/-! What is on file with Ejar after a submission, against the record as it is by
then, over any history of submissions, rejections and edits. -/

namespace Ejar

open Tx

namespace Remote

/-- The record an attempt finds agrees with what Ejar has been sent. -/
structure Current (m : Remote) (profile : Option BrokerageProfile) (c : Contract) (log : List Request) : Prop where
  named : m.Named c
  nothingElse : ∀ q ∈ log, m.About c q → m.Asks profile c q
  nothingLeft : ∀ q, m.Asks profile c q → q ∈ log ∨ m.Sends profile c q
  nothingHidden : ∀ q, m.Asks profile c q → ∀ r, r ∈ log ∨ m.Asks profile c r → m.resource r = m.resource q → r = q

variable {m : Remote} {profile : BrokerageProfile} {c d : Contract} {log log' : List Request} {env : Env}

theorem Stage.submitted (h : m.Stage profile c log 6 profile c.companyId d log') : Submitted profile d where
  profile := h.filing.used
  contract := by
    have hdone := h.reached .contract (by decide) trivial
    rwa [Done, if_pos (by decide)] at hdone
  entity := by
    intro i hi
    have hdone := h.reached (.entity i) (by simp [Item.stage]) ((has_congr h.filing.same (.entity i)).mp hi)
    rwa [Done, if_pos (by simp [Item.stage])] at hdone
  call := by
    intro i hi
    obtain ⟨call, hcall⟩ := h.calls i ((has_congr h.filing.same (.entity i)).mp hi)
    refine ⟨call, ?_⟩
    rw [← entityCall_base, party_congr h.filing.same.base, entityCall_base, hcall]

theorem Stage.sent {q : Request} (h : m.Stage profile c log 6 profile c.companyId d log')
    (hq : m.Sends (some profile) c q) : m.resource q ∈ log'.map m.resource := by
  obtain ⟨client, call⟩ := q
  obtain ⟨hclient, item, hhas, hskips, hcall⟩ := hq
  obtain rfl : client = c.companyId := hclient
  have hstage : item.stage < 6 := by cases item <;> simp [Item.stage]
  have hdone := h.reached item hstage hhas
  by_cases hstored : item.stage < 4
  · rw [Done, if_pos hstored] at hdone
    rcases h.filing.backed item call hdone hcall with hc | hmem
    · exact absurd hc hskips
    · exact hmem
  · rw [Done, if_neg hstored] at hdone
    exact hdone call hcall

/-- After a submission that went through, both sides agree exactly if the record
it found was as Ejar had been sent it. -/
theorem filed_iff (hname : Function.Injective m.name) (hlog : (log.map m.resource).Nodup) {result : SubmissionResult}
    {v : Contract} (hrun : Exec RecordWrite.apply m.replaying (executeFullSubmission env) ⟨c, c, log⟩
      (.ret result) ⟨d, v, log'⟩) : m.filed log' d.companyId d.ejarContractId.str = d.filed ↔
      m.Current (c.brokerageProfileId.or env.companyProfile) c log := by
  cases hprofile : c.brokerageProfileId.or env.companyProfile with
  | none => exact (wp_sound (no_profile hprofile) hrun).elim
  | some profile =>
    have hstage : m.Stage profile c log 6 profile c.companyId d log' :=
      wp_sound (Stage.executeFullSubmission hprofile) hrun
    have hnodup : (log'.map m.resource).Nodup :=
      hrun.seen_keeps (I := fun log => (log.map m.resource).Nodup) (fun _ _ _ hs => replaying_nodup hs) hlog
    have hsame := hstage.filing.same
    have hsettled := Ledger.settled_iff (m.About c) hstage.filing.kept hstage.filing.made
      (fun q hq => hstage.sent hq) hnodup (fun q hq => hq.asks) fun q hq => hq.apart
    rw [hstage.submitted.filed_eq_iff hname hnodup]
    simp only [about_congr hsame, asks_congr hsame, named_congr hsame, hsettled]
    constructor
    · rintro ⟨⟨helse, hleft, hhidden⟩, hnamed⟩
      exact ⟨hnamed, helse, hleft, hhidden⟩
    · rintro ⟨hnamed, helse, hleft, hhidden⟩
      exact ⟨⟨helse, hleft, hhidden⟩, hnamed⟩

end Remote

/-- The tasks of a contract one after the other, with the saves of its form
between them and the requests of other contracts to the same service. -/
inductive Remote.History (m : Remote) (inst : Installation) : World → List Request → Prop
  | start {w : World} (h : Unlinked w.contract) : History m inst w []
  | task {w w' d v : World} {log log' : List Request} {o : Outcome TaskExc Unit} (t : SiteTask)
      (h : History m inst w log) (hstart : t.start w = some w')
      (hrun : Exec SiteWrite.apply m.replaying (t.body inst) ⟨w', w', log⟩ o ⟨d, v, log'⟩) :
      History m inst (t.finish o (o.settled d v)) log'
  | others {w : World} {log : List Request} (request : Request) (h : History m inst w log) :
      History m inst w (m.perform log request)

theorem Remote.History.nodup {m : Remote} {inst : Installation} {w : World} {log : List Request}
    (h : m.History inst w log) : (log.map m.resource).Nodup := by
  induction h with
  | start _ => simp
  | task t _ _ hrun ih =>
    exact hrun.seen_keeps (I := fun log => (log.map m.resource).Nodup) (fun _ _ _ hs => replaying_nodup hs) ih
  | others request _ ih => exact perform_nodup ih request

/-- Whenever a submission succeeds, what is on file with Ejar is what the record
says, exactly if Ejar had been sent nothing else for it, and no id or key of
other data stands in the way of what is still to be sent. -/
theorem submitted_data_current_iff {m : Remote} (hname : Function.Injective m.name) {inst : Installation} {w : World}
    {log : List Request} (h : m.History inst w log) {env : Env} {result : SubmissionResult} {d v : Contract}
    {log' : List Request} (hrun : Exec RecordWrite.apply m.replaying (executeFullSubmission env)
      ⟨w.contract, w.contract, log⟩ (.ret result) ⟨d, v, log'⟩) :
    m.filed log' d.companyId d.ejarContractId.str = d.filed ↔
      m.Current (w.contract.brokerageProfileId.or env.companyProfile) w.contract log :=
  Remote.filed_iff hname h.nodup hrun

/-- The service as it answers when nothing fails: a repeated request as the first
time, and the poll with a rejection. -/
def Remote.serve (m : Remote) (log : List Request) (request : Request) : Option (Reply × List Request) :=
  match request.call with
  | .getContract _ => some (.response 200
      (some (.obj [("data", .obj [("attributes", .obj [("state", .str "rejected")])])])) "", log)
  | _ => some ((m.answer [] request).1, m.perform log request)

theorem Remote.serve_replaying {m : Remote} {W : Type} {log log' : List Request} {e : Event W Request Reply}
    (h : served m.serve log e log') : m.replaying log e log' := by
  cases e with
  | write u => exact h
  | commit => exact h
  | call request reply =>
    by_cases hget : request.call.method = "GET"
    · rw [replaying, if_pos hget]
      obtain ⟨client, call⟩ := request
      cases call with
      | getContract id =>
        obtain ⟨-, rfl⟩ := Prod.mk.inj (Option.some.inj h)
        rfl
      | _ => simp [ApiCall.method] at hget
    · rw [replaying, if_neg hget]
      obtain ⟨rfl, rfl⟩ : (m.answer [] request).1 = reply ∧ m.perform log request = log' := by
        obtain ⟨client, call⟩ := request
        cases call with
        | getContract id => exact absurd rfl hget
        | _ => exact Prod.mk.inj (Option.some.inj h)
      refine Or.inl ⟨?_, rfl⟩
      by_cases htaken : m.resource request ∈ log.map m.resource
      · exact Or.inr ⟨htaken, rfl⟩
      · left
        rw [answer_new htaken, answer_new List.not_mem_nil]
  | lost request => exact h.elim

/-- A task that runs to its end, or is not taken up. -/
def Remote.after (m : Remote) (inst : Installation) (x : World × List Request) (t : SiteTask) :
    World × List Request :=
  match t.start x.1 with
  | none => x
  | some w =>
    let r := (t.body inst).run SiteWrite.apply m.serve ⟨w, w, x.2⟩
    (t.finish r.1 (r.1.settled r.2.committed r.2.working), r.2.seen)

theorem Remote.History.after {m : Remote} {inst : Installation} {x : World × List Request} (h : m.History inst x.1 x.2)
    (t : SiteTask) : m.History inst (m.after inst x t).1 (m.after inst x t).2 := by
  rw [Remote.after]
  cases hstart : t.start x.1 with
  | none => exact h
  | some w => exact h.task t hstart (Prog.run_observed (fun _ _ _ hs => Remote.serve_replaying hs) _ _)

theorem Remote.History.afterAll {m : Remote} {inst : Installation} {x : World × List Request}
    (h : m.History inst x.1 x.2) (ts : List SiteTask) :
    m.History inst (ts.foldl (m.after inst) x).1 (ts.foldl (m.after inst) x).2 := by
  induction ts generalizing x with
  | nil => exact h
  | cons t ts ih => exact ih (h.after t)

/-- The sample contract is submitted, rejected, reset to draft, edited by `v`, and
made ready again. -/
def editedCourse (v : FormVals) : World × List Request :=
  [.task (.submitWizard sampleEnv true "job-1"), .task (.cronPoll sampleEnv "job-2"), .task .resetToDraft,
    .save v, .task .startBuilding, .task .markReady].foldl (sampleRemote.after ⟨false, false, false⟩)
    (⟨sampleContract "EJ/1", []⟩, [])

theorem editedCourse_history (v : FormVals) :
    sampleRemote.History ⟨false, false, false⟩ (editedCourse v).1 (editedCourse v).2 := by
  have hstart : sampleRemote.History ⟨false, false, false⟩ ⟨sampleContract "EJ/1", []⟩ [] := by
    apply Remote.History.start
    refine ⟨by decide +kernel, ?_, by decide +kernel⟩
    intro i hi
    exact (by decide +kernel : ∀ i ∈ (sampleContract "EJ/1").partyIds.ids,
      ¬ ((sampleContract "EJ/1").partyIds.row i).ejarEntityId.truthy ∧
      ¬ ((sampleContract "EJ/1").partyIds.row i).ejarPartyId.truthy) i hi
  exact Remote.History.afterAll (x := (⟨sampleContract "EJ/1", []⟩, [])) hstart _

/-- The submission after it. -/
def secondSubmission (v : FormVals) : Outcome Exc SubmissionResult × Session Contract (List Request) :=
  (executeFullSubmission sampleEnv).run RecordWrite.apply sampleRemote.serve
    ⟨(editedCourse v).1.contract, (editedCourse v).1.contract, (editedCourse v).2⟩

theorem secondSubmission_exec (v : FormVals) : Exec RecordWrite.apply sampleRemote.replaying
    (executeFullSubmission sampleEnv)
    ⟨(editedCourse v).1.contract, (editedCourse v).1.contract, (editedCourse v).2⟩ (secondSubmission v).1
    ⟨(secondSubmission v).2.committed, (secondSubmission v).2.working, (secondSubmission v).2.seen⟩ := by
  rw [secondSubmission]
  exact Prog.run_observed (fun _ _ _ hs => Remote.serve_replaying hs) (executeFullSubmission sampleEnv)
    ⟨(editedCourse v).1.contract, (editedCourse v).1.contract, (editedCourse v).2⟩

deriving instance DecidableEq for IndividualEntityAttributes, OrganizationEntityAttributes, ContractAttributes,
  PartyAttributes, FinancialAttributes, RentalFeeAttributes, ApiCall, Request

def Contract.items (c : Contract) : List Item :=
  c.partyIds.ids.map .entity ++ [.contract] ++ c.unitIds.ids.map .unit ++ c.partyIds.ids.map .party ++
    [.financialInfo, .rentalFee]

theorem Contract.mem_items {c : Contract} {item : Item} : item ∈ c.items ↔ c.has item := by
  cases item <;> simp [items, has]

namespace Remote

variable {m : Remote} {profile : Option BrokerageProfile} {c : Contract} {q : Request}

/-- All that the record asks for, listed. -/
def asked (m : Remote) (profile : Option BrokerageProfile) (c : Contract) : List Request :=
  c.items.filterMap fun item => (m.call profile c item).map fun call => ⟨c.companyId, call⟩

theorem mem_asked : q ∈ m.asked profile c ↔ m.Asks profile c q := by
  constructor
  · intro hq
    obtain ⟨item, hitem, hcall⟩ := List.mem_filterMap.mp hq
    obtain ⟨call, hbuilt, rfl⟩ := Option.map_eq_some_iff.mp hcall
    exact ⟨rfl, item, Contract.mem_items.mp hitem, hbuilt⟩
  · rintro ⟨hcompany, item, hhas, hcall⟩
    obtain ⟨client, call⟩ := q
    obtain rfl : client = c.companyId := hcompany
    exact List.mem_filterMap.mpr ⟨item, Contract.mem_items.mpr hhas, Option.map_eq_some_iff.mpr ⟨call, hcall, rfl⟩⟩

instance (m : Remote) (c : Contract) : DecidablePred (m.About c)
  | ⟨client, .createContract attrs⟩ =>
    inferInstanceAs
      (Decidable (client = c.companyId ∧ m.name (m.resource ⟨client, .createContract attrs⟩) = m.contractId c))
  | ⟨client, .attachUnit id _ _⟩ => inferInstanceAs (Decidable (client = c.companyId ∧ id = m.contractId c))
  | ⟨client, .addParty id _⟩ => inferInstanceAs (Decidable (client = c.companyId ∧ id = m.contractId c))
  | ⟨client, .addFinancialInformation id _⟩ => inferInstanceAs (Decidable (client = c.companyId ∧ id = m.contractId c))
  | ⟨client, .addRentalFee id _⟩ => inferInstanceAs (Decidable (client = c.companyId ∧ id = m.contractId c))
  | ⟨client, .createIndividualEntity _⟩ => inferInstanceAs (Decidable (client = c.companyId ∧ False))
  | ⟨client, .createOrganizationEntity _⟩ => inferInstanceAs (Decidable (client = c.companyId ∧ False))
  | ⟨client, .uploadProxyDocument ..⟩ => inferInstanceAs (Decidable (client = c.companyId ∧ False))
  | ⟨client, .uploadSignedDocument ..⟩ => inferInstanceAs (Decidable (client = c.companyId ∧ False))
  | ⟨client, .submitContract _⟩ => inferInstanceAs (Decidable (client = c.companyId ∧ False))
  | ⟨client, .getContract _⟩ => inferInstanceAs (Decidable (client = c.companyId ∧ False))

theorem current_of_sent {log : List Request} (hcontract : m.contractId c = m.name (contractResource c))
    (hentity : ∀ i ∈ c.partyIds.ids, m.entityId c i = some (m.name (m.entityResource c i)))
    (helse : ∀ q ∈ log, m.About c q → q ∈ m.asked profile c) (hleft : ∀ q ∈ m.asked profile c, q ∈ log)
    (hnodup : (log.map m.resource).Nodup) : m.Current profile c log := by
  refine ⟨⟨hcontract, hentity⟩, ?_, ?_, ?_⟩
  · exact fun q hq habout => mem_asked.mp (helse q hq habout)
  · exact fun q hq => Or.inl (hleft q (mem_asked.mpr hq))
  · intro q hq r hr hkey
    have hlog : r ∈ log := by
      rcases hr with hr | hr
      · exact hr
      · exact hleft r (mem_asked.mpr hr)
    exact List.inj_on_of_nodup_map hnodup hlog (hleft q (mem_asked.mpr hq)) hkey

end Remote

theorem unedited_checks : succeeds (secondSubmission {}).1 ∧
    sampleRemote.contractId (editedCourse {}).1.contract =
      sampleRemote.name (Remote.contractResource (editedCourse {}).1.contract) ∧
    (∀ i ∈ (editedCourse {}).1.contract.partyIds.ids, sampleRemote.entityId (editedCourse {}).1.contract i =
      some (sampleRemote.name (sampleRemote.entityResource (editedCourse {}).1.contract i))) ∧
    (∀ q ∈ (editedCourse {}).2, sampleRemote.About (editedCourse {}).1.contract q → q ∈ sampleRemote.asked
      ((editedCourse {}).1.contract.brokerageProfileId.or sampleEnv.companyProfile) (editedCourse {}).1.contract) ∧
    ∀ q ∈ sampleRemote.asked ((editedCourse {}).1.contract.brokerageProfileId.or sampleEnv.companyProfile)
      (editedCourse {}).1.contract, q ∈ (editedCourse {}).2 := by
  decide +kernel

/-- Not edited, the record is on file as it is. -/
theorem submitted_data_current_unedited : sampleRemote.filed (secondSubmission {}).2.seen
    (secondSubmission {}).2.committed.companyId (secondSubmission {}).2.committed.ejarContractId.str =
      (secondSubmission {}).2.committed.filed := by
  have hexec := secondSubmission_exec {}
  have hhistory := editedCourse_history {}
  obtain ⟨hsucceeds, hcontract, hentity, helse, hleft⟩ := unedited_checks
  cases hresult : (secondSubmission {}).1 with
  | ret result =>
    rw [hresult] at hexec
    apply (submitted_data_current_iff sampleRemote_name_injective hhistory hexec).mpr
    exact Remote.current_of_sent hcontract hentity helse hleft hhistory.nodup
  | _ =>
    rw [hresult] at hsucceeds
    cases hsucceeds

/-- The financial information of the sample contract. -/
def firstInfo : FinancialAttributes where
  annualRent := 50000
  billingType := some "monthly"
  paymentOption := "bank_transfer"
  ibanNumber := "SA0000000000000000000000"
  ibanBelongTo := "lessor"
  ejarFeesPaidBy := "brokerage_office"

def raisedRent : FormVals := { rentAmount := some 60000 }

theorem raisedRent_checks : succeeds (secondSubmission raisedRent).1 ∧
    ⟨(secondSubmission raisedRent).2.committed.companyId, .addFinancialInformation
      (secondSubmission raisedRent).2.committed.ejarContractId.str firstInfo⟩ ∈ (secondSubmission raisedRent).2.seen ∧
    (buildFinancialAttributes (secondSubmission raisedRent).2.committed).toOption ≠ some firstInfo := by
  decide +kernel

/-- After a rejection the rent is raised; the second submission succeeds, and Ejar
keeps the old rent. -/
theorem submitted_data_not_current : ¬ ∀ (m : Remote) (inst : Installation) (w : World) (log log' : List Request)
    (env : Env) (result : SubmissionResult) (d v : Contract), Function.Injective m.name → m.History inst w log →
    Exec RecordWrite.apply m.replaying (executeFullSubmission env) ⟨w.contract, w.contract, log⟩ (.ret result)
      ⟨d, v, log'⟩ → m.filed log' d.companyId d.ejarContractId.str = d.filed := by
  intro h
  have hexec := secondSubmission_exec raisedRent
  obtain ⟨hsucceeds, hold, hnew⟩ := raisedRent_checks
  cases hresult : (secondSubmission raisedRent).1 with
  | ret result =>
    rw [hresult] at hexec
    have heq := h _ _ _ _ _ _ _ _ _ sampleRemote_name_injective (editedCourse_history raisedRent) hexec
    have hmem : firstInfo ∈ (secondSubmission raisedRent).2.committed.filed.financialInfo := by
      rw [← heq]
      exact hold
    exact hnew (Remote.toOption_eq_some.mpr hmem)
  | _ =>
    rw [hresult] at hsucceeds
    cases hsucceeds

end Ejar
