import Mathlib.Data.Set.Basic
import PropzaAmlak.Data.Ledger
import PropzaAmlak.Ejar.Server

/-! What Ejar has on file for a contract, by the requests it carried out, and
what the record says should be there. -/

namespace Ejar

open Tx

/-- A contract with its units, its parties with the calls their entities were
created by, its financial information and its brokerage fee. -/
@[ext] structure Filed where
  attributes : Set ContractAttributes
  units : Set (CharField × CharField)
  parties : Set (PartyAttributes × Set ApiCall)
  financialInfo : Set FinancialAttributes
  rentalFee : Set RentalFeeAttributes

/-- The data built from the record. -/
def Contract.filed (c : Contract) : Filed where
  attributes := {attrs | buildContractAttributes c c.brokerageProfileId = .ok attrs}
  units := {u | ∃ unit ∈ c.units, u = (unit.ejarPropertyId, unit.ejarUnitId)}
  parties := {p | ∃ party ∈ c.parties, buildPartyAttributes party party.ejarEntityId = .ok p.1 ∧
    p.2 = {call | entityCall party = .ok call}}
  financialInfo := {attrs | buildFinancialAttributes c = .ok attrs}
  rentalFee := {attrs | buildRentalFeeAttributes c c.brokerageProfileId = some attrs}

namespace Remote

/-- The remote contract `id` after the requests in `log`, each with the data it
was carried out with. -/
def filed (m : Remote) (log : List Request) (companyId : Nat) (id : String) : Filed where
  attributes := {attrs | ⟨companyId, .createContract attrs⟩ ∈ log ∧
    m.name (m.resource ⟨companyId, .createContract attrs⟩) = id}
  units := {u | ⟨companyId, .attachUnit id u.1 u.2⟩ ∈ log}
  parties := {p | ⟨companyId, .addParty id p.1⟩ ∈ log ∧
    p.2 = {call | ⟨companyId, call⟩ ∈ log ∧ p.1.entityId = some (m.name (m.resource ⟨companyId, call⟩))}}
  financialInfo := {attrs | ⟨companyId, .addFinancialInformation id attrs⟩ ∈ log}
  rentalFee := {attrs | ⟨companyId, .addRentalFee id attrs⟩ ∈ log}

/-- A GET does nothing, and under each key the first request is carried out. -/
def perform (m : Remote) (log : List Request) (request : Request) : List Request :=
  if request.call.method = "GET" then log else Ledger.enter m.resource log request

/-- A repeated request is answered as it was the first time, or with a conflict. -/
def answers (m : Remote) (log : List Request) (request : Request) (reply : Reply) : Prop :=
  reply = (m.answer (log.map m.resource) request).1 ∨
    m.resource request ∈ log.map m.resource ∧ reply = (m.answer [] request).1

/-- A request is answered, or it fails or its answer gets lost, with the request
carried out or not. -/
def replaying (m : Remote) {W : Type} : Observer W Request Reply (List Request)
  | log, .write _, log' => log' = log
  | log, .commit, log' => log' = log
  | log, .call request reply, log' =>
    if request.call.method = "GET" then log' = log
    else m.answers log request reply ∧ log' = m.perform log request ∨
      ¬ reply.accepted ∧ (log' = log ∨ log' = m.perform log request)
  | log, .lost request, log' => log' = log ∨ log' = m.perform log request

variable {m : Remote} {W : Type} {log log' : List Request} {request : Request}

theorem perform_post (h : request.call.method ≠ "GET") :
    m.perform log request = Ledger.enter m.resource log request :=
  if_neg h

theorem replaying_perform {e : Event W Request Reply} (h : m.replaying log e log') :
    log' = log ∨ ∃ request, log' = m.perform log request := by
  cases e with
  | write u => exact Or.inl h
  | commit => exact Or.inl h
  | call request reply =>
    by_cases hget : request.call.method = "GET"
    · rw [replaying, if_pos hget] at h
      exact Or.inl h
    · rw [replaying, if_neg hget] at h
      rcases h with ⟨-, h⟩ | ⟨-, h | h⟩
      · exact Or.inr ⟨request, h⟩
      · exact Or.inl h
      · exact Or.inr ⟨request, h⟩
  | lost request => exact h.imp_right fun h => ⟨request, h⟩

theorem perform_nodup (h : (log.map m.resource).Nodup) (request : Request) :
    ((m.perform log request).map m.resource).Nodup := by
  by_cases hget : request.call.method = "GET"
  · rwa [perform, if_pos hget]
  · rw [perform_post hget]
    exact Ledger.enter_nodup h request

theorem replaying_nodup {e : Event W Request Reply} (h : m.replaying log e log')
    (hlog : (log.map m.resource).Nodup) : (log'.map m.resource).Nodup := by
  rcases replaying_perform h with rfl | ⟨request, rfl⟩
  · exact hlog
  · exact perform_nodup hlog request

theorem replaying_subset {e : Event W Request Reply} (h : m.replaying log e log') : log ⊆ log' := by
  rcases replaying_perform h with rfl | ⟨request, rfl⟩
  · exact List.Subset.refl log'
  · by_cases hget : request.call.method = "GET"
    · rw [perform, if_pos hget]
      exact List.Subset.refl log
    · rw [perform_post hget]
      exact Ledger.subset_enter m.resource log request

theorem answers_of_accepted {reply : Reply} (hpost : request.call.method ≠ "GET")
    (h : m.replaying (W := W) log (.call request reply) log') (haccepted : reply.accepted) :
    m.answers log request reply ∧ log' = Ledger.enter m.resource log request := by
  rw [replaying, if_neg hpost, perform_post hpost] at h
  rcases h with h | ⟨hrefused, -⟩
  · exact h
  · exact absurd haccepted hrefused

/-- The ids in the answers are those of the resource, in whichever way they
come. -/
theorem exists_answer {reply : Reply} (h : m.answers log request reply) :
    ∃ performed, reply = (m.answer performed request).1 := by
  rcases h with h | ⟨-, h⟩
  · exact ⟨_, h⟩
  · exact ⟨[], h⟩

end Remote

end Ejar
