import Mathlib.Data.List.MinMax
import PropzaAmlak.Crm.Reservation
import PropzaAmlak.Data.Loads

/-! The load-based rotation of `sa_crm_lead.py`. -/

namespace Crm

structure UserRow where
  id : Nat
  leadRotationEligible : Bool
  isAgent : Bool
  isManager : Bool
  active : Bool := true

/-- The users in the order of a search, and whether the two groups are there. -/
structure Roster where
  users : List UserRow
  agentGroup : Bool := true
  managerGroup : Bool := true

def Roster.agents (r : Roster) : List Nat :=
  if r.agentGroup then
    (r.users.filter fun u => u.leadRotationEligible && u.isAgent && u.active && !(r.managerGroup && u.isManager)).map
      UserRow.id
  else []

/-- `COUNT(*)` of the leads of a user with `state = 'open'` -/
def openLeads (rows : List LeadRow) (user : Nat) : Nat := rows.countP fun l => l.user = some user ∧ l.state = .opened

/-- The leads as the database has them and as the ORM does, with writes that are not
flushed yet. -/
structure Env where
  stored : List LeadRow
  cached : List LeadRow

/-- `_get_least_loaded_agent` -/
def leastLoadedAgent (r : Roster) (env : Env) : Option Nat := r.agents.argmin (openLeads env.stored)

/-- `lead.user_id = agent.id`, where there is an agent. It stays in the cache. -/
def assign (r : Roster) (env : Env) (k : Nat) : Env :=
  match leastLoadedAgent r env with
  | none => env
  | some agent => { env with cached := env.cached.modify k fun l => { l with user := some agent } }

/-- `search([('user_id', '=', False), ('state', '=', 'open')])` -/
def unassigned (rows : List LeadRow) : List Nat :=
  (List.range rows.length).filter fun k => rows[k]?.any fun l => l.user = none ∧ l.state = .opened ∧ l.active

/-- The order of a search -/
structure Order where
  sort : List Nat → List Nat
  perm : ∀ l, (sort l).Perm l

/-- A search flushes the fields it looks at. -/
def flush (env : Env) : Env := ⟨env.cached, env.cached⟩

/-- `_cron_auto_assign_unassigned_leads` -/
def autoAssignUnassignedLeads (r : Roster) (order : Order) (env : Env) : Env :=
  (order.sort (unassigned env.cached)).foldl (assign r) (flush env)

def fillUser (r : Roster) (env : Env) (v : LeadRow) : LeadRow :=
  match v.user with
  | some _ => v
  | none => { v with user := leastLoadedAgent r env }

/-- `create`. The rows are inserted after all have their users. -/
def create (r : Roster) (env : Env) (vals : List LeadRow) : List LeadRow × Env :=
  let created := vals.map (fillUser r env)
  (created, ⟨env.stored ++ created, env.cached ++ created⟩)

inductive Batch where
  | create (vals : List LeadRow)
  | cron (order : Order)

namespace Batch

def after (r : Roster) (env : Env) : Batch → Env
  | create vals => (Crm.create r env vals).2
  | cron order => autoAssignUnassignedLeads r order env

/-- The leads of a batch in their order, each as it was and as it has become. -/
def turns (r : Roster) (env : Env) : Batch → List (LeadRow × LeadRow)
  | create vals => vals.zip (Crm.create r env vals).1
  | cron order => (order.sort (unassigned env.cached)).filterMap fun k =>
    (env.cached[k]?).bind fun l => ((autoAssignUnassignedLeads r order env).cached[k]?).map fun l' => (l, l')

end Batch

/-- A lead that had no user is shared out; one that is open counts. -/
def piece (turn : LeadRow × LeadRow) : Loads.Piece Nat where
  owner := turn.2.user
  shared := turn.1.user.isNone
  counts := turn.2.state = .opened

/-- Each lead without a user goes to an agent with the fewest open leads at its turn,
and if all leads of the batch are such, the agents end up no further apart than they
were, or than one. -/
structure FairlyShared (r : Roster) (env : Env) (batch : Batch) : Prop where
  given : Loads.Fair r.agents (openLeads env.cached) ((batch.turns r env).map piece)
  spread : (∀ turn ∈ batch.turns r env, turn.1.user = none) → ∀ d, Loads.Within r.agents d (openLeads env.cached) →
    Loads.Within r.agents (max d 1) (openLeads (batch.after r env).cached)

namespace Batch

/-- The leads of a batch as they come in. -/
def vals (env : Env) : Batch → List LeadRow
  | create vals => vals
  | cron order => (order.sort (unassigned env.cached)).filterMap fun k => env.cached[k]?

/-- The rows that the database counts for all leads of a batch. -/
def counted (env : Env) : Batch → List LeadRow
  | create _ => env.stored
  | cron _ => env.cached

/-- One agent is the first of those with the fewest counted leads, and at the turn of
each lead without a user he is still not ahead of another, all earlier leads without a
user being his. -/
def Behind (r : Roster) (env : Env) (batch : Batch) : Prop :=
  ∀ i v, (batch.vals env)[i]? = some v → v.user = none →
    ∃ a, r.agents.argmin (openLeads (batch.counted env)) = some a ∧ ∀ b ∈ r.agents, b ≠ a →
      openLeads env.cached a +
          ((batch.vals env).take i).countP (fun v => v.state = .opened ∧ (v.user = none ∨ v.user = some a)) ≤
        openLeads env.cached b + ((batch.vals env).take i).countP (fun v => v.state = .opened ∧ v.user = some b)

end Batch

variable {r : Roster} {env : Env} {ks : List Nat} {rows : List LeadRow} {agent : Option Nat} {v : LeadRow}

def withUser (agent : Option Nat) (v : LeadRow) : LeadRow :=
  match v.user with
  | some _ => v
  | none => { v with user := agent }

theorem withUser_user : (withUser agent v).user = v.user.or agent := by
  cases h : v.user <;> simp [withUser, h]

theorem withUser_state : (withUser agent v).state = v.state := by
  cases h : v.user <;> simp [withUser, h]

theorem getElem?_of_mem_unassigned {k : Nat} (hk : k ∈ unassigned rows) :
    ∃ l, rows[k]? = some l ∧ l.user = none ∧ l.state = .opened := by
  have hany := (List.mem_filter.mp hk).2
  rw [Option.any_eq_true] at hany
  obtain ⟨l, hl, hopen⟩ := hany
  simp only [Bool.decide_and, Bool.and_eq_true, decide_eq_true_eq] at hopen
  exact ⟨l, hl, hopen.1, hopen.2.1⟩

theorem assign_eq (r : Roster) (env : Env) {k : Nat} {l : LeadRow} (hl : env.cached[k]? = some l)
    (hfree : l.user = none) :
    assign r env k = ⟨env.stored, env.cached.set k (withUser (leastLoadedAgent r env) l)⟩ := by
  obtain ⟨hk, hget⟩ := List.getElem?_eq_some_iff.mp hl
  rw [assign]
  cases hchosen : leastLoadedAgent r env with
  | none =>
    have hsame : withUser none l = l := by
      rw [withUser, hfree]
      cases l
      simp_all
    rw [hsame, ← hget, List.set_getElem_self]
  | some agent =>
    have hrow : withUser (some agent) l = { l with user := some agent } := by rw [withUser, hfree]
    simp only [hrow]
    rw [List.modify_eq_set_getElem?, hl]
    rfl

theorem openLeads_set {k user : Nat} {l : LeadRow} (hl : rows[k]? = some l) (hfree : l.user = none)
    (hopen : l.state = .opened) : openLeads (rows.set k (withUser agent l)) user =
      openLeads rows user + if agent = some user then 1 else 0 := by
  obtain ⟨hk, hget⟩ := List.getElem?_eq_some_iff.mp hl
  have hbefore : decide (l.user = some user ∧ l.state = .opened) = false := by simp [hfree]
  have hafter : decide ((withUser agent l).user = some user ∧ (withUser agent l).state = .opened) =
      decide (agent = some user) := by
    rw [withUser_user, withUser_state, hfree, hopen]
    simp
  rw [openLeads, List.countP_set hk, hget, hbefore, hafter]
  simp [openLeads]

/-- The rows that the cron looks for get the agent that is chosen first. -/
theorem foldl_assign (hks : ks.Nodup)
    (hopen : ∀ k ∈ ks, ∃ l, env.cached[k]? = some l ∧ l.user = none ∧ l.state = .opened) :
    (∀ k, (ks.foldl (assign r) env).cached[k]? =
      if k ∈ ks then (env.cached[k]?).map (withUser (leastLoadedAgent r env)) else env.cached[k]?) ∧
    ∀ user, openLeads (ks.foldl (assign r) env).cached user =
      openLeads env.cached user + if leastLoadedAgent r env = some user then ks.length else 0 := by
  induction ks generalizing env with
  | nil => simp
  | cons k ks ih =>
    obtain ⟨hnot, hnodup⟩ := List.nodup_cons.mp hks
    obtain ⟨l, hl, hfree, hstate⟩ := hopen k (by simp)
    have hstep := assign_eq r env hl hfree
    have hother : ∀ j, j ≠ k → (assign r env k).cached[j]? = env.cached[j]? := by
      intro j hj
      rw [hstep, List.getElem?_set_ne hj.symm]
    have hchosen : leastLoadedAgent r (assign r env k) = leastLoadedAgent r env := by rw [hstep]; rfl
    have hrest : ∀ j ∈ ks, ∃ l, (assign r env k).cached[j]? = some l ∧ l.user = none ∧ l.state = .opened := by
      intro j hj
      have hjk : j ≠ k := by
        rintro rfl
        exact hnot hj
      rw [hother j hjk]
      exact hopen j (by simp [hj])
    obtain ⟨hget, hcount⟩ := ih hnodup hrest
    rw [List.foldl_cons]
    refine ⟨fun j => ?_, fun user => ?_⟩
    · rw [hget, hchosen]
      by_cases hjk : j = k
      · subst hjk
        have hlength := (List.getElem?_eq_some_iff.mp hl).1
        rw [if_neg hnot, if_pos (by simp), hstep, List.getElem?_set_self hlength, hl]
        rfl
      · simp [hjk, hother j hjk]
    · rw [hcount, hchosen, hstep, openLeads_set hl hfree hstate, List.length_cons]
      split
      · omega
      · rfl

/-- The user that a batch gives to its leads without one. -/
def Batch.chosen (r : Roster) (env : Env) (batch : Batch) : Option Nat :=
  r.agents.argmin (openLeads (batch.counted env))

theorem sorted_unassigned (order : Order) (rows : List LeadRow) : (order.sort (unassigned rows)).Nodup ∧
    ∀ k ∈ order.sort (unassigned rows), ∃ l, rows[k]? = some l ∧ l.user = none ∧ l.state = .opened := by
  have hperm := order.perm (unassigned rows)
  refine ⟨hperm.nodup_iff.mpr (List.nodup_range.filter _), fun k hk => ?_⟩
  exact getElem?_of_mem_unassigned (hperm.subset hk)

theorem Batch.turns_eq (r : Roster) (env : Env) (batch : Batch) :
    batch.turns r env = (batch.vals env).map fun v => (v, withUser (batch.chosen r env) v) := by
  cases batch with
  | create vals =>
    have hfill : fillUser r env = withUser (leastLoadedAgent r env) := rfl
    rw [turns, Crm.create, hfill]
    exact List.map_prod_left_eq_zip.symm
  | cron order =>
    obtain ⟨hnodup, hopen⟩ := sorted_unassigned order env.cached
    have hopen' : ∀ k ∈ order.sort (unassigned env.cached), ∃ l, (flush env).cached[k]? = some l ∧ l.user = none ∧
        l.state = .opened := hopen
    obtain ⟨hget, -⟩ := foldl_assign (r := r) hnodup hopen'
    rw [turns, vals, List.map_filterMap]
    refine List.filterMap_congr fun k hk => ?_
    obtain ⟨l, hl, -⟩ := hopen k hk
    have hlast : (autoAssignUnassignedLeads r order env).cached[k]? =
        some (withUser (leastLoadedAgent r (flush env)) l) := by
      rw [autoAssignUnassignedLeads, hget, if_pos hk]
      simp [flush, hl]
    rw [hl, hlast]
    rfl

def Batch.pieces (r : Roster) (env : Env) (batch : Batch) : List (Loads.Piece Nat) :=
  (batch.vals env).map fun v => piece (v, withUser (batch.chosen r env) v)

theorem isOf_piece (user : Nat) : Loads.Piece.isOf user (piece (v, withUser agent v)) =
    (v.state = .opened && v.user.or agent = some user : Bool) := by
  rw [Loads.Piece.isOf, piece, withUser_user, withUser_state]

theorem countP_pieces (agent : Option Nat) (vals : List LeadRow) (user : Nat) :
    (vals.map fun v => piece (v, withUser agent v)).countP (Loads.Piece.isOf user) =
      vals.countP fun v => v.state = .opened && v.user.or agent = some user := by
  rw [List.countP_map]
  exact List.countP_congr fun v _ => by rw [Function.comp, isOf_piece]

theorem countP_found (agent : Option Nat)
    (hopen : ∀ k ∈ ks, ∃ l, rows[k]? = some l ∧ l.user = none ∧ l.state = .opened) (user : Nat) :
    ((ks.filterMap fun k => rows[k]?).countP fun v => v.state = .opened && v.user.or agent = some user) =
      if agent = some user then ks.length else 0 := by
  have hfree : ∀ v ∈ ks.filterMap fun k => rows[k]?, v.state = .opened ∧ v.user = none := by
    intro v hv
    obtain ⟨k, hk, hget⟩ := List.mem_filterMap.mp hv
    obtain ⟨l, hl, hnone, hstate⟩ := hopen k hk
    obtain rfl : l = v := Option.some.inj (hl.symm.trans hget)
    exact ⟨hstate, hnone⟩
  have hlength : (ks.filterMap fun k => rows[k]?).length = ks.length := by
    rw [List.length_filterMap_eq_countP, List.countP_eq_length]
    intro k hk
    obtain ⟨l, hl, -⟩ := hopen k hk
    simp [hl]
  split
  · rename_i hagent
    rw [← hlength, List.countP_eq_length]
    intro v hv
    obtain ⟨hstate, hnone⟩ := hfree v hv
    simp [hstate, hnone, hagent]
  · rename_i hagent
    rw [List.countP_eq_zero]
    intro v hv
    obtain ⟨hstate, hnone⟩ := hfree v hv
    simp [hnone, hagent]

theorem openLeads_after (r : Roster) (env : Env) (batch : Batch) : openLeads (batch.after r env).cached =
    Loads.loadAfter (openLeads env.cached) (batch.pieces r env) := by
  funext user
  rw [Loads.loadAfter, Batch.pieces, countP_pieces]
  cases batch with
  | create vals =>
    have hrows : (Batch.after r env (.create vals)).cached =
        env.cached ++ vals.map (withUser (leastLoadedAgent r env)) := rfl
    rw [hrows, openLeads, List.countP_append, List.countP_map]
    congr 1
    refine List.countP_congr fun v _ => ?_
    rw [Function.comp, withUser_user, withUser_state]
    simp [Batch.chosen, Batch.counted, leastLoadedAgent, and_comm]
  | cron order =>
    obtain ⟨hnodup, hopen⟩ := sorted_unassigned order env.cached
    have hopen' : ∀ k ∈ order.sort (unassigned env.cached), ∃ l, (flush env).cached[k]? = some l ∧ l.user = none ∧
        l.state = .opened := hopen
    obtain ⟨-, hfold⟩ := foldl_assign (r := r) hnodup hopen'
    have hcount := countP_found (Batch.chosen r env (.cron order)) hopen user
    rw [Batch.vals, hcount]
    exact hfold user

theorem fair_iff_behind (r : Roster) (env : Env) (batch : Batch) :
    Loads.Fair r.agents (openLeads env.cached) (batch.pieces r env) ↔ batch.Behind r env := by
  have hload : ∀ i user, Loads.loadAfter (openLeads env.cached) ((batch.pieces r env).take i) user =
      openLeads env.cached user + ((batch.vals env).take i).countP fun v =>
        v.state = .opened && v.user.or (batch.chosen r env) = some user := by
    intro i user
    rw [Loads.loadAfter, Batch.pieces, ← List.map_take, countP_pieces]
  -- the earlier leads of the agent chosen, and of another one
  have hown : ∀ {a} i, batch.chosen r env = some a → ((batch.vals env).take i).countP (fun v =>
      v.state = .opened && v.user.or (batch.chosen r env) = some a) = ((batch.vals env).take i).countP fun v =>
        v.state = .opened ∧ (v.user = none ∨ v.user = some a) := by
    intro a i ha
    refine List.countP_congr fun v _ => ?_
    rw [ha]
    cases v.user <;> simp
  have hother : ∀ {a b} i, batch.chosen r env = some a → b ≠ a → ((batch.vals env).take i).countP (fun v =>
      v.state = .opened && v.user.or (batch.chosen r env) = some b) = ((batch.vals env).take i).countP fun v =>
        v.state = .opened ∧ v.user = some b := by
    intro a b i ha hb
    refine List.countP_congr fun v _ => ?_
    rw [ha]
    cases v.user <;> simp [hb.symm]
  rw [Loads.fair_iff]
  constructor
  · intro hfair i v hi hfree
    have hpiece : (batch.pieces r env)[i]? = some (piece (v, withUser (batch.chosen r env) v)) := by
      rw [Batch.pieces, List.getElem?_map, hi]
      rfl
    obtain ⟨a, howner, hmem, hleast⟩ := hfair i _ hpiece (by simp [piece, hfree])
    have ha : batch.chosen r env = some a := by
      rw [piece, withUser_user, hfree] at howner
      exact howner
    refine ⟨a, ha, fun b hb hne => ?_⟩
    have hle := hleast b hb
    rw [hload, hload, hown i ha, hother i ha hne] at hle
    exact hle
  · intro hbehind i p hi hshared
    rw [Batch.pieces, List.getElem?_map, Option.map_eq_some_iff] at hi
    obtain ⟨v, hv, rfl⟩ := hi
    have hfree : v.user = none := by simpa [piece] using hshared
    obtain ⟨a, ha, hleast⟩ := hbehind i v hv hfree
    have ha : batch.chosen r env = some a := ha
    refine ⟨a, ?_, List.argmin_mem ha, fun b hb => ?_⟩
    · rw [piece, withUser_user, hfree]
      exact ha
    · by_cases hne : b = a
      · rw [hne]
      · rw [hload, hload, hown i ha, hother i ha hne]
        exact hleast b hb hne

/-- A batch is shared out fairly just when the agent with the fewest leads stays behind
the others to its end. -/
theorem rotation_fair_iff (r : Roster) (env : Env) (batch : Batch) : FairlyShared r env batch ↔ batch.Behind r env := by
  have hpieces : (batch.turns r env).map piece = batch.pieces r env := by
    rw [batch.turns_eq, List.map_map]
    rfl
  constructor
  · intro hfair
    have hgiven := hfair.given
    rw [hpieces] at hgiven
    exact (fair_iff_behind r env batch).mp hgiven
  · intro hbehind
    have hgiven := (fair_iff_behind r env batch).mpr hbehind
    refine ⟨hpieces ▸ hgiven, fun hfree d hwithin => ?_⟩
    rw [openLeads_after]
    refine hgiven.within (fun p hp => ?_) (Loads.Within.mono hwithin (le_max_left d 1)) (le_max_right d 1)
    rw [← hpieces] at hp
    obtain ⟨turn, hturn, rfl⟩ := List.mem_map.mp hp
    simp [piece, hfree turn hturn]

def newLead : LeadRow where
  user := none
  category := .lead
  state := .opened
  stage := none

def eligible (id : Nat) : UserRow where
  id := id
  leadRotationEligible := true
  isAgent := true
  isManager := false

/-- Two leads of one batch both go to the first of two agents. -/
theorem same_agent_twice : ¬ ∀ (r : Roster) (env : Env) (batch : Batch), FairlyShared r env batch := by
  intro hall
  have hfair := hall { users := [eligible 1, eligible 2] } ⟨[], []⟩ (.create [newLead, newLead])
  have hspread := hfair.spread (by decide) 0 (by decide) 1 (by decide) 2 (by decide)
  revert hspread
  decide

end Crm
