import Mathlib.Data.List.Nodup
import Mathlib.Data.List.TakeWhile
import PropzaAmlak.Maintenance.Contract
import PropzaAmlak.Tx.Histories

/-! What periodic maintenance a sequence of runs of the cron gives. -/

namespace Maintenance

namespace Ledger

def new (c : Contract) : Ledger := ⟨c, []⟩

/-- The requests for a property and a due date. -/
def requestsFor (l : Ledger) (d : Date) (property : Nat) : Nat :=
  l.made.countP fun x => x.1 = d ∧ x.2.property = property

/-- No due date has two requests for a property. -/
def AtMostOnce (l : Ledger) : Prop := ∀ d property, l.requestsFor d property ≤ 1

/-- No request raises. -/
def Complete (l : Ledger) (v : Visit) : Prop := ∀ p ∈ l.contract.properties, v.raises l.contract.id p = false

/-- The request for the first property does not raise. -/
def Begun (l : Ledger) (v : Visit) : Prop := ∃ p ∈ l.contract.properties.head?, v.raises l.contract.id p = false

/-- A complete run of a contract that is due gives each property its request for the due
date and leaves the due date a period later. Any other run leaves the due date as it is. -/
structure Serves (v : Visit) (l l' : Ledger) : Prop where
  served : ∀ d, l.contract.due v.today → l.contract.nextServiceDate = some d → l.Complete v →
    (∀ p ∈ l.contract.properties, l'.requestsFor d p = 1) ∧
    l'.contract.nextServiceDate = d.addMonths l.contract.frequency.offset
  kept : ¬ (l.contract.due v.today ∧ l.Complete v) → l'.contract.nextServiceDate = l.contract.nextServiceDate

/-- A run that gets past the first property is the first one to do so for its due date,
and a complete one is on time. -/
def InTime (l : Ledger) (v : Visit) : Prop :=
  ∀ d, l.contract.due v.today → l.contract.nextServiceDate = some d →
    (l.Begun v → ∀ x ∈ l.made, x.1 ≠ d) ∧
    (l.Complete v → v.today.addMonths l.contract.frequency.offset = d.addMonths l.contract.frequency.offset)

/-- The requests are for due dates up to the next one, and if some are for that one, the
first property has such a request. -/
structure Dated (l : Ledger) : Prop where
  le : ∀ d, l.contract.nextServiceDate = some d → ∀ x ∈ l.made, x.1 ≤ d
  first : ∀ d, l.contract.nextServiceDate = some d → ∀ x ∈ l.made, x.1 = d →
    ∃ p ∈ l.contract.properties.head?, 0 < l.requestsFor d p

/-- The properties that a run creates requests for. -/
def reached (l : Ledger) (v : Visit) : List Nat :=
  l.contract.properties.takeWhile fun p => !v.raises l.contract.id p

variable {l : Ledger} {v : Visit} {d e : Date} {p : Nat}

theorem reached_nodup : (l.reached v).Nodup := l.contract.properties_nodup.sublist (List.takeWhile_sublist _)

theorem reached_of_complete (h : l.Complete v) : l.reached v = l.contract.properties := by
  rw [reached, List.takeWhile_eq_self_iff]
  intro p hp
  simp [h p hp]

theorem reached_of_head (hp : p ∈ l.contract.properties.head?) (hraises : v.raises l.contract.id p = false) :
    p ∈ l.reached v := by
  obtain ⟨rest, hrest⟩ := List.head?_eq_some_iff.mp hp
  rw [reached, hrest, List.takeWhile_cons]
  simp [hraises]

theorem begun_of_reached (h : l.reached v ≠ []) : l.Begun v := by
  unfold reached at h
  unfold Begun
  cases hproperties : l.contract.properties with
  | nil => simp [hproperties] at h
  | cons p rest =>
    have hraises : v.raises l.contract.id p = false := by
      by_contra hraises
      simp [hproperties, hraises] at h
    exact ⟨p, rfl, hraises⟩

theorem visit_of_not_due (h : ¬ l.contract.due v.today) : l.visit v = l := if_neg h

theorem made_visit (hdue : l.contract.due v.today) (hnext : l.contract.nextServiceDate = some d) :
    (l.visit v).made = l.made ++
      (l.contract.createRequests v.today (v.raises l.contract.id) l.contract.properties).1.map fun r => (d, r) := by
  rw [visit, if_pos hdue]
  simp only [Contract.generateRequest, hnext, Option.map_some, List.filterMap_eq_map']

theorem requestsFor_visit (hdue : l.contract.due v.today) (hnext : l.contract.nextServiceDate = some d) (e : Date)
    (p : Nat) : (l.visit v).requestsFor e p = l.requestsFor e p + if d = e then (l.reached v).count p else 0 := by
  have hproperties := Contract.createRequests_properties l.contract v.today (v.raises l.contract.id)
    l.contract.properties
  rw [requestsFor, made_visit hdue hnext, List.countP_append, List.countP_map, reached, ← hproperties,
    List.count_eq_countP, List.countP_map]
  split
  · rename_i hde
    congr 1
    refine List.countP_congr fun r _ => ?_
    simp [hde]
  · rename_i hde
    simp [requestsFor, hde]

theorem mem_made_visit (hdue : l.contract.due v.today) (hnext : l.contract.nextServiceDate = some d)
    {x : Date × Request} (hx : x ∈ (l.visit v).made) : x ∈ l.made ∨ x.1 = d ∧ l.Begun v := by
  rw [made_visit hdue hnext, List.mem_append, List.mem_map] at hx
  rcases hx with hx | ⟨r, hr, rfl⟩
  · exact .inl hx
  · have hproperty : r.property ∈ l.reached v := by
      rw [reached, ← Contract.createRequests_properties]
      exact List.mem_map_of_mem hr
    exact .inr ⟨rfl, begun_of_reached (List.ne_nil_of_mem hproperty)⟩

theorem contract_visit_of_complete (hdue : l.contract.due v.today) (hcomplete : l.Complete v) :
    (l.visit v).contract = { l.contract with lastServiceDate := some v.today } := by
  have hdone := (l.contract.createRequests_done v.today).mpr hcomplete
  rw [visit, if_pos hdue]
  simp [Contract.generateRequest, hdone]

theorem contract_visit (h : ¬ (l.contract.due v.today ∧ l.Complete v)) : (l.visit v).contract = l.contract := by
  by_cases hdue : l.contract.due v.today
  · have hdone := (l.contract.createRequests_done v.today).not.mpr fun hcomplete =>
      h ⟨hdue, hcomplete⟩
    rw [visit, if_pos hdue]
    simp [Contract.generateRequest, hdone]
  · rw [visit_of_not_due hdue]

theorem nextServiceDate_visit (hdue : l.contract.due v.today) (hcomplete : l.Complete v) :
    (l.visit v).contract.nextServiceDate = v.today.addMonths l.contract.frequency.offset := by
  rw [contract_visit_of_complete hdue hcomplete]
  rfl

theorem new_dated (c : Contract) : (new c).Dated := ⟨by simp [new], by simp [new]⟩

theorem new_atMostOnce (c : Contract) : (new c).AtMostOnce := by simp [AtMostOnce, requestsFor, new]

theorem Dated.visit (h : l.Dated) (v : Visit) : (l.visit v).Dated := by
  by_cases hdue : l.contract.due v.today
  · obtain ⟨d, hnext, htoday⟩ := Contract.due_next hdue
    have hle : ∀ x ∈ (l.visit v).made, x.1 ≤ d := by
      intro x hx
      rcases mem_made_visit hdue hnext hx with hx | ⟨rfl, -⟩
      · exact h.le d hnext x hx
      · exact Nat.le_refl _
    by_cases hcomplete : l.Complete v
    · -- the next due date is later than all requests
      have hlt : ∀ e, (l.visit v).contract.nextServiceDate = some e → ∀ x ∈ (l.visit v).made, x.1 < e := by
        intro e he x hx
        rw [nextServiceDate_visit hdue hcomplete] at he
        have hlater := Contract.lt_next (Contract.offset_pos _) he
        exact Nat.lt_of_le_of_lt ((hle x hx).trans htoday) hlater
      refine ⟨fun e he x hx => Nat.le_of_lt (hlt e he x hx), fun e he x hx hxe => ?_⟩
      exact absurd (hlt e he x hx) (hxe ▸ Nat.lt_irrefl _)
    · have hcontract := contract_visit fun hboth : l.contract.due v.today ∧ l.Complete v => hcomplete hboth.2
      refine ⟨fun e he => ?_, fun e he x hx hxe => ?_⟩
      · rw [hcontract, hnext] at he
        obtain rfl := Option.some.inj he
        exact hle
      · rw [hcontract, hnext] at he
        obtain rfl := Option.some.inj he
        rw [hcontract]
        rcases mem_made_visit hdue hnext hx with hx | ⟨-, p, hp, hraises⟩
        · obtain ⟨p, hp, hpos⟩ := h.first d hnext x hx hxe
          refine ⟨p, hp, ?_⟩
          rw [requestsFor_visit hdue hnext]
          omega
        · have hcount := List.count_pos_iff.mpr (reached_of_head hp hraises)
          refine ⟨p, hp, ?_⟩
          rw [requestsFor_visit hdue hnext, if_pos rfl]
          omega
  · rw [visit_of_not_due hdue]
    exact h

theorem requestsFor_eq_zero (h : ∀ x ∈ l.made, x.1 ≠ d) : l.requestsFor d p = 0 := by
  rw [requestsFor, List.countP_eq_zero]
  intro x hx
  simp [h x hx]

theorem inTime_iff (hdated : l.Dated) (honce : l.AtMostOnce) (v : Visit) :
    l.InTime v ↔ Serves v l (l.visit v) ∧ (l.visit v).AtMostOnce := by
  have hkept : ¬ (l.contract.due v.today ∧ l.Complete v) →
      (l.visit v).contract.nextServiceDate = l.contract.nextServiceDate := fun h => by rw [contract_visit h]
  by_cases hdue : l.contract.due v.today
  · obtain ⟨d, hnext, -⟩ := Contract.due_next hdue
    constructor
    · intro h
      obtain ⟨hfirst, hontime⟩ := h d hdue hnext
      have hone : ∀ p, l.requestsFor d p + (l.reached v).count p ≤ 1 := by
        intro p
        by_cases hreached : l.reached v = []
        · rw [hreached, List.count_nil]
          exact honce d p
        · have hzero : l.requestsFor d p = 0 := requestsFor_eq_zero (hfirst (begun_of_reached hreached))
          have hcount := List.nodup_iff_count_le_one.mp (reached_nodup (l := l) (v := v)) p
          omega
      refine ⟨⟨fun e _ he hcomplete => ?_, hkept⟩, fun e p => ?_⟩
      · obtain rfl := Option.some.inj (hnext.symm.trans he)
        refine ⟨fun p hp => ?_, ?_⟩
        · have hle := hone p
          have hpos := List.count_pos_iff.mpr hp
          rw [reached_of_complete hcomplete] at hle
          rw [requestsFor_visit hdue hnext, if_pos rfl, reached_of_complete hcomplete]
          omega
        · rw [nextServiceDate_visit hdue hcomplete, hontime hcomplete]
      · rw [requestsFor_visit hdue hnext]
        split
        · rename_i hde
          rw [← hde]
          exact hone p
        · exact honce e p
    · rintro ⟨hserves, hafter⟩ e - he
      obtain rfl := Option.some.inj (hnext.symm.trans he)
      refine ⟨?_, fun hcomplete => ?_⟩
      · rintro ⟨p, hp, hraises⟩ x hx hxd
        -- the first property has a request already
        obtain ⟨q, hq, hpos⟩ := hdated.first d hnext x hx hxd
        obtain rfl := Option.some.inj (Eq.trans (Eq.symm hp) hq)
        have hcount := List.count_pos_iff.mpr (reached_of_head hp hraises)
        have hle := hafter d p
        rw [requestsFor_visit hdue hnext, if_pos rfl] at hle
        omega
      · rw [← nextServiceDate_visit hdue hcomplete]
        exact (hserves.served d hdue hnext hcomplete).2
  · rw [visit_of_not_due hdue] at hkept ⊢
    refine ⟨fun _ => ⟨⟨fun d h => absurd h hdue, fun _ => rfl⟩, honce⟩, fun _ d h => absurd h hdue⟩

end Ledger

/-- In every sequence of runs over the contracts, each due date has its requests once
and the schedules do not drift, just when every run is in time for every contract. -/
theorem maintenance_generated_once_iff (contracts : List Contract) (visits : List Visit) :
    Tx.Always cronGenerateDueServices (fun book => ∀ l ∈ book, l.AtMostOnce) (contracts.map Ledger.new) visits ∧
      Tx.EachStep cronGenerateDueServices
        (fun book v => List.Forall₂ (Ledger.Serves v) book (cronGenerateDueServices book v))
        (contracts.map Ledger.new) visits ↔
    Tx.EachStep cronGenerateDueServices (fun book v => ∀ l ∈ book, l.InTime v) (contracts.map Ledger.new) visits := by
  refine Tx.law_iff (B := fun book => ∀ l ∈ book, l.Dated) ?_ ?_ ?_ ?_
  · intro book v h l' hl'
    obtain ⟨l, hl, rfl⟩ := List.mem_map.mp hl'
    exact (h l hl).visit v
  · intro book v hdated honce
    rw [cronGenerateDueServices, List.forall_mem_map, List.forall₂_map_right_iff, List.forall₂_same, ← forall₂_and]
    exact forall₂_congr fun l hl => Ledger.inTime_iff (hdated l hl) (honce l hl) v
  · intro l hl
    obtain ⟨c, -, rfl⟩ := List.mem_map.mp hl
    exact Ledger.new_dated c
  · intro l hl
    obtain ⟨c, -, rfl⟩ := List.mem_map.mp hl
    exact Ledger.new_atMostOnce c

theorem covered_nodup : [1, 2].Nodup := by decide

def yearly : Contract where
  id := 1
  name := "C1"
  supplierPartner := 1
  properties := [1, 2]
  properties_nodup := covered_nodup
  category := .ac
  frequency := .annual
  startDate := Date.january1
  state := .active

/-- The second request raises on the due date. -/
def failedVisit : Visit := ⟨Date.nextJanuary1, fun _ property => property == 2⟩

/-- The run of the next day makes both requests. -/
def nextVisit : Visit := ⟨Date.nextJanuary2, fun _ _ => false⟩

theorem generated_twice : ¬ ∀ (contracts : List Contract) (visits : List Visit),
    Tx.Always cronGenerateDueServices (fun book => ∀ l ∈ book, l.AtMostOnce) (contracts.map Ledger.new) visits ∧
      Tx.EachStep cronGenerateDueServices
        (fun book v => List.Forall₂ (Ledger.Serves v) book (cronGenerateDueServices book v))
        (contracts.map Ledger.new) visits := by
  intro hall
  have honce := (hall [yearly] [failedVisit, nextVisit]).1 _ List.prefix_rfl
  have hmem : ((Ledger.new yearly).visit failedVisit).visit nextVisit ∈
      Tx.after cronGenerateDueServices ([yearly].map Ledger.new) [failedVisit, nextVisit] := by
    simp [Tx.after, cronGenerateDueServices]
  have hle := honce _ hmem Date.nextJanuary1 1
  revert hle
  decide

end Maintenance
