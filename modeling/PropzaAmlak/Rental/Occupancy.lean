import PropzaAmlak.Rental.Payments
import PropzaAmlak.Tx.Histories

/-! A property and the tenancies on it: `property_tenancy.py`, with the end wizard
and the renewal, which touch the same records. -/

namespace Rental

/-- A tenancy, as far as the property and its state go. -/
structure Lease where
  partner : Nat
  state : TenancyState := .draft
  startDate : Option Date
  endDate : Option Date
  renewedTo : Option Nat := none
deriving DecidableEq

/-- A property with its tenancies in the order they were made. -/
structure Occupancy where
  state : PropertyState
  tenantPartner : Option Nat
  leases : List Lease

namespace Occupancy

def setState (o : Occupancy) (i : Nat) (t : Lease) (state : TenancyState) : Occupancy :=
  { o with leases := o.leases.set i { t with state } }

/-- `action_confirm` -/
def confirm (o : Occupancy) (i : Nat) (t : Lease) : Except Error Occupancy :=
  if t.state ≠ .draft then .error (.userError "يمكن تأكيد العقد فقط من حالة \"جديد\".")
  else if t.startDate = none ∨ t.endDate = none then
    .error (.userError "يجب تحديد تاريخ البداية والنهاية قبل التأكيد.")
  else .ok (o.setState i t .confirm)

/-- `action_start` -/
def start (o : Occupancy) (i : Nat) (t : Lease) : Except Error Occupancy :=
  if t.state ≠ .confirm ∧ t.state ≠ .draft then .error (.userError "يمكن بدء العقد فقط من حالة \"مؤكد\".")
  else
    let started := o.setState i t .running
    if o.state = .draft then .ok { started with state := .onRent, tenantPartner := some t.partner } else .ok started

/-- What `action_close` and `action_cancel` do, which differ in the state they set. -/
def leave (o : Occupancy) (i : Nat) (t : Lease) (state : TenancyState) : Occupancy :=
  let left := o.setState i t state
  if o.state = .onRent then { left with state := .draft, tenantPartner := none } else left

/-- `action_close` -/
def close (o : Occupancy) (i : Nat) (t : Lease) : Occupancy := o.leave i t .closed

/-- `action_cancel` -/
def cancel (o : Occupancy) (i : Nat) (t : Lease) : Occupancy := o.leave i t .cancelled

/-- `action_set_to_draft` -/
def setToDraft (o : Occupancy) (i : Nat) (t : Lease) : Occupancy := o.setState i t .draft

/-- `action_end_tenancy` of the wizard, its checks passed -/
def endTenancy (o : Occupancy) (i : Nat) (t : Lease) : Occupancy :=
  let ended := o.setState i t .closed
  if o.state = .onRent then { ended with state := .draft } else ended

/-- `_do_renewal`, which makes a new tenancy for the dates -/
def renew (o : Occupancy) (i : Nat) (t : Lease) (startDate endDate : Date) : Except Error Occupancy :=
  if t.renewedTo.isSome then .error (.userError "العقد مُجدَّد بالفعل")
  else
    .ok { o with
      leases := o.leases.set i { t with renewedTo := some o.leases.length } ++
        [{ partner := t.partner, startDate := some startDate, endDate := some endDate }] }

inductive Operation where
  | confirm
  | start
  | close
  | cancel
  | setToDraft
  | endTenancy
  | renew (startDate endDate : Date)

/-- An operation on the tenancy with the given number. -/
structure Action where
  tenancy : Nat
  operation : Operation

def perform (o : Occupancy) (i : Nat) (t : Lease) : Operation → Except Error Occupancy
  | .confirm => o.confirm i t
  | .start => o.start i t
  | .close => .ok (o.close i t)
  | .cancel => .ok (o.cancel i t)
  | .setToDraft => .ok (o.setToDraft i t)
  | .endTenancy => .ok (o.endTenancy i t)
  | .renew startDate endDate => o.renew i t startDate endDate

/-- An operation that raises changes nothing. -/
def act (o : Occupancy) (a : Action) : Occupancy :=
  match o.leases[a.tenancy]? with
  | none => o
  | some t => (o.perform a.tenancy t a.operation).toOption.getD o

def running (o : Occupancy) : List Lease := o.leases.filter fun t => t.state = .running

/-- The property is let to the partner of the one running tenancy, or to nobody. -/
structure Consistent (o : Occupancy) : Prop where
  one : o.running.length ≤ 1
  onRent : o.state = .onRent ↔ o.running.length = 1
  tenant : o.state = .onRent → ∀ t ∈ o.running, o.tenantPartner = some t.partner
  vacant : o.state ≠ .onRent → o.tenantPartner = none

structure Vacant (o : Occupancy) : Prop where
  state : o.state = .draft
  tenantPartner : o.tenantPartner = none

/-- What an operation has to find, so that it leaves the property consistent. -/
def Fits (o : Occupancy) (t : Lease) : Operation → Prop
  | .start => t.state = .confirm ∨ t.state = .draft → o.state = .draft
  | .close => o.state = .onRent → t.state = .running
  | .cancel => o.state = .onRent → t.state = .running
  | .setToDraft => t.state ≠ .running
  | .endTenancy => o.state ≠ .onRent
  | _ => True

def Allowed (o : Occupancy) (a : Action) : Prop := ∀ t, o.leases[a.tenancy]? = some t → o.Fits t a.operation

variable {o : Occupancy} {i : Nat} {t : Lease}

theorem split_at (ht : o.leases[i]? = some t) : ∃ before rest, o.leases = before ++ t :: rest ∧
    ∀ t', o.leases.set i t' = before ++ t' :: rest := by
  obtain ⟨hi, hget⟩ := List.getElem?_eq_some_iff.mp ht
  refine ⟨o.leases.take i, o.leases.drop (i + 1), ?_, ?_⟩
  · rw [← hget, List.getElem_cons_drop hi, List.take_append_drop]
  · intro t'
    rw [List.set_eq_take_append_cons_drop, if_pos hi]

theorem running_split (ht : o.leases[i]? = some t) : ∃ before rest : List Lease,
    o.running = before ++ (if t.state = .running then [t] else []) ++ rest ∧
    ∀ t', (o.leases.set i t').filter (fun t => t.state = .running) =
      before ++ (if t'.state = .running then [t'] else []) ++ rest := by
  obtain ⟨before, rest, hleases, hset⟩ := split_at ht
  refine ⟨before.filter fun t => t.state = .running, rest.filter fun t => t.state = .running, ?_, ?_⟩
  · rw [running, hleases, List.filter_append, List.filter_cons]
    by_cases h : t.state = .running <;> simp [h]
  · intro t'
    rw [hset, List.filter_append, List.filter_cons]
    by_cases h : t'.state = .running <;> simp [h]

theorem Consistent.congr (hc : o.Consistent) {o' : Occupancy} (hstate : o'.state = o.state)
    (htenant : o'.tenantPartner = o.tenantPartner)
    (hrunning : o'.running.map Lease.partner = o.running.map Lease.partner) : o'.Consistent := by
  have hlength : o'.running.length = o.running.length := by simpa using congrArg List.length hrunning
  constructor
  · rw [hlength]
    exact hc.one
  · rw [hstate, hlength]
    exact hc.onRent
  · intro hrent t ht
    have hpartner : t.partner ∈ o.running.map Lease.partner := hrunning ▸ List.mem_map_of_mem ht
    obtain ⟨t', ht', hsame⟩ := List.mem_map.mp hpartner
    rw [htenant, ← hsame]
    exact hc.tenant (hstate ▸ hrent) t' ht'
  · intro hrent
    rw [htenant]
    exact hc.vacant (hstate ▸ hrent)

theorem Consistent.idle (hc : o.Consistent) (hrent : o.state ≠ .onRent) : o.running = [] := by
  have hone := hc.one
  have hnot := mt hc.onRent.mpr hrent
  exact List.length_eq_zero_iff.mp (by omega)

/-- A property without a running tenancy is consistent when it is not on rent. -/
theorem consistent_of_idle (hrunning : o.running = []) (hstate : o.state ≠ .onRent)
    (htenant : o.tenantPartner = none) : o.Consistent := by
  constructor
  · simp [hrunning]
  · simp [hrunning, hstate]
  · intro h
    exact absurd h hstate
  · intro _
    exact htenant

/-- A tenancy that stops running, or was not, in a property with one running at most. -/
theorem running_setState (hc : o.Consistent) (ht : o.leases[i]? = some t) {state : TenancyState}
    (hstate : state ≠ .running) : (o.setState i t state).running = if t.state = .running then [] else o.running := by
  obtain ⟨before, rest, hrunning, hset⟩ := running_split ht
  have hone := hc.one
  have hafter : (o.setState i t state).running = before ++ rest := by
    have h := hset { t with state }
    rwa [if_neg hstate, List.append_nil] at h
  rw [hafter]
  by_cases h : t.state = .running
  · rw [hrunning] at hone
    simp only [h, if_true, List.length_append, List.length_singleton] at hone
    have hbefore : before = [] := List.length_eq_zero_iff.mp (by omega)
    have hrest : rest = [] := List.length_eq_zero_iff.mp (by omega)
    simp [h, hbefore, hrest]
  · rw [hrunning]
    simp [h]

theorem Consistent.onRent_of_running (hc : o.Consistent) (ht : o.leases[i]? = some t) (hrunning : t.state = .running) :
    o.state = .onRent := by
  have hmem : t ∈ o.running := List.mem_filter.mpr ⟨List.mem_of_getElem? ht, by simpa using hrunning⟩
  have hpos := List.length_pos_of_mem hmem
  have hone := hc.one
  exact hc.onRent.mpr (by omega)

theorem leave_iff (hc : o.Consistent) (ht : o.leases[i]? = some t) {state : TenancyState} (hstate : state ≠ .running) :
    (o.state = .onRent → t.state = .running) ↔ (o.leave i t state).Consistent := by
  have hset := running_setState hc ht hstate
  by_cases hrent : o.state = .onRent
  · have hleft : o.leave i t state = { o.setState i t state with state := .draft, tenantPartner := none } := by
      simp [leave, hrent]
    have hrunning : (o.leave i t state).running = (o.setState i t state).running := by rw [hleft]; rfl
    by_cases h : t.state = .running
    · have hnone : (o.leave i t state).running = [] := by rw [hrunning, hset, if_pos h]
      have hdraft : (o.leave i t state).state ≠ .onRent := by simp [hleft]
      have hvacant : (o.leave i t state).tenantPartner = none := by simp [hleft]
      simp only [h, implies_true, true_iff]
      exact consistent_of_idle hnone hdraft hvacant
    · -- another tenancy runs on
      have hother : (o.leave i t state).running.length = 1 := by
        rw [hrunning, hset, if_neg h]
        exact hc.onRent.mp hrent
      simp only [hrent, h, imp_false, not_true_eq_false, false_iff]
      intro hafter
      have hstill := hafter.onRent.mpr hother
      simp [hleft] at hstill
  · have hleft : o.leave i t state = o.setState i t state := by simp [leave, hrent]
    have hidle := hc.idle hrent
    simp only [hrent, false_imp_iff, true_iff]
    rw [hleft]
    apply consistent_of_idle
    · rw [hset, hidle, ite_self]
    · exact hrent
    · exact hc.vacant hrent

theorem setToDraft_iff (hc : o.Consistent) (ht : o.leases[i]? = some t) :
    t.state ≠ .running ↔ (o.setToDraft i t).Consistent := by
  have hset : (o.setToDraft i t).running = if t.state = .running then [] else o.running :=
    running_setState hc ht (by simp)
  by_cases h : t.state = .running
  · have hrent := hc.onRent_of_running ht h
    rw [if_pos h] at hset
    simp only [h, ne_eq, not_true_eq_false, false_iff]
    intro hafter
    have hstill := hafter.onRent.mp hrent
    simp [hset] at hstill
  · rw [if_neg h] at hset
    simp only [h, ne_eq, not_false_eq_true, true_iff]
    exact hc.congr rfl rfl (by rw [hset])

theorem endTenancy_iff (hc : o.Consistent) (ht : o.leases[i]? = some t) :
    o.state ≠ .onRent ↔ (o.endTenancy i t).Consistent := by
  have hset : (o.setState i t .closed).running = if t.state = .running then [] else o.running :=
    running_setState hc ht (by simp)
  by_cases hrent : o.state = .onRent
  · -- the tenant stays on the property
    have hended : o.endTenancy i t = { o.setState i t .closed with state := .draft } := by simp [endTenancy, hrent]
    simp only [hrent, ne_eq, not_true_eq_false, false_iff]
    intro hafter
    have hvacant := hafter.vacant (by simp [hended])
    have hkept : o.tenantPartner = none := by simpa [hended, setState] using hvacant
    have hone := hc.onRent.mp hrent
    obtain ⟨t', ht'⟩ := List.length_eq_one_iff.mp hone
    have htenant := hc.tenant hrent t' (by simp [ht'])
    rw [hkept] at htenant
    cases htenant
  · have hended : o.endTenancy i t = o.setState i t .closed := by simp [endTenancy, hrent]
    have hidle := hc.idle hrent
    simp only [hrent, ne_eq, not_false_eq_true, true_iff]
    rw [hended]
    apply consistent_of_idle
    · rw [hset, hidle, ite_self]
    · exact hrent
    · exact hc.vacant hrent

theorem start_iff (hc : o.Consistent) (ht : o.leases[i]? = some t) (hready : t.state = .confirm ∨ t.state = .draft) :
    o.state = .draft ↔ ((o.start i t).toOption.getD o).Consistent := by
  obtain ⟨before, rest, hrunning, hset⟩ := running_split ht
  have hnot : t.state ≠ .running := by rcases hready with h | h <;> simp [h]
  rw [if_neg hnot, List.append_nil] at hrunning
  have haccepted : ¬ (t.state ≠ .confirm ∧ t.state ≠ .draft) := by rcases hready with h | h <;> simp [h]
  have hstarted : (o.setState i t .running).running = before ++ [{ t with state := .running }] ++ rest := by
    have h := hset { t with state := .running }
    rwa [if_pos rfl] at h
  by_cases hdraft : o.state = .draft
  · have hidle := hc.idle (by simp [hdraft])
    obtain ⟨hbefore, hrest⟩ : before = [] ∧ rest = [] := by simpa using hrunning.symm.trans hidle
    rw [hbefore, hrest] at hstarted
    have hone : (o.setState i t .running).running = [{ t with state := .running }] := hstarted
    have hafter : (o.start i t).toOption.getD o =
        { o.setState i t .running with state := .onRent, tenantPartner := some t.partner } := by
      simp [start, haccepted, hdraft, Except.toOption]
    simp only [hdraft, true_iff]
    rw [hafter]
    constructor
    · exact le_of_eq (congrArg List.length hone)
    · exact ⟨fun _ => congrArg List.length hone, fun _ => rfl⟩
    · intro _ t' ht'
      have hsame : t' ∈ (o.setState i t .running).running := ht'
      rw [hone, List.mem_singleton] at hsame
      rw [hsame]
    · intro h
      exact absurd rfl h
  · have hafter : (o.start i t).toOption.getD o = o.setState i t .running := by
      simp [start, haccepted, hdraft, Except.toOption]
    have hlength : (o.setState i t .running).running.length = o.running.length + 1 := by
      rw [hstarted, hrunning]
      simp only [List.length_append, List.length_singleton]
      omega
    simp only [hdraft, false_iff]
    rw [hafter]
    intro hc'
    have hone := hc'.one
    have hrent : o.state = .onRent := hc'.onRent.mpr (by omega)
    have hbefore := hc.onRent.mp hrent
    omega

theorem confirm_consistent (hc : o.Consistent) (ht : o.leases[i]? = some t) :
    ((o.confirm i t).toOption.getD o).Consistent := by
  by_cases hdraft : t.state = .draft
  · have hset : (o.setState i t .confirm).running = if t.state = .running then [] else o.running :=
      running_setState hc ht (by simp)
    rw [if_neg (by simp [hdraft])] at hset
    unfold confirm
    rw [if_neg (by simp [hdraft])]
    split
    · exact hc
    · exact hc.congr rfl rfl (by rw [Except.toOption, Option.getD_some, hset])
  · unfold confirm
    rw [if_pos hdraft]
    exact hc

theorem renew_consistent (hc : o.Consistent) (ht : o.leases[i]? = some t) (startDate endDate : Date) :
    ((o.renew i t startDate endDate).toOption.getD o).Consistent := by
  unfold renew
  split
  · exact hc
  · obtain ⟨before, rest, hrunning, hset⟩ := running_split ht
    have hold := hset { t with renewedTo := some o.leases.length }
    refine hc.congr rfl rfl ?_
    rw [Except.toOption, Option.getD_some, hrunning]
    unfold running
    rw [List.filter_append, hold]
    by_cases h : t.state = .running <;> simp [h]

theorem allowed_iff (hc : o.Consistent) (a : Action) : o.Allowed a ↔ (o.act a).Consistent := by
  unfold act Allowed
  cases ht : o.leases[a.tenancy]? with
  | none => simp [hc]
  | some t =>
    simp only [Option.some.injEq, forall_eq']
    cases hop : a.operation with
    | confirm => exact ⟨fun _ => confirm_consistent hc ht, fun _ => trivial⟩
    | start =>
      by_cases hready : t.state = .confirm ∨ t.state = .draft
      · simp only [Fits, hready, true_imp_iff]
        exact start_iff hc ht hready
      · have hrefused : o.start a.tenancy t = .error (.userError "يمكن بدء العقد فقط من حالة \"مؤكد\".") :=
          if_pos (not_or.mp hready)
        simp only [Fits, hready, false_imp_iff, true_iff, perform, hrefused]
        exact hc
    | close => exact leave_iff hc ht (by simp)
    | cancel => exact leave_iff hc ht (by simp)
    | setToDraft => exact setToDraft_iff hc ht
    | endTenancy => exact endTenancy_iff hc ht
    | renew startDate endDate => exact ⟨fun _ => renew_consistent hc ht startDate endDate, fun _ => trivial⟩

end Occupancy

/-- The property is consistent all along just when no tenancy runs at first and
every operation fits what it finds. -/
theorem occupancy_consistent_iff {o : Occupancy} (hvacant : o.Vacant) (actions : List Occupancy.Action) :
    Tx.Always Occupancy.act Occupancy.Consistent o actions ↔
      o.running = [] ∧ Tx.EachStep Occupancy.act Occupancy.Allowed o actions := by
  have hnot : o.state ≠ .onRent := by simp [hvacant.state]
  by_cases hidle : o.running = []
  · have hc := Occupancy.consistent_of_idle hidle hnot hvacant.tenantPartner
    simp only [hidle, true_and]
    exact Tx.always_iff (fun _ a hc => Occupancy.allowed_iff hc a) hc
  · have hfails : ¬ Tx.Always Occupancy.act Occupancy.Consistent o actions := by
      intro hall
      exact hidle ((hall [] List.nil_prefix).idle hnot)
    simp [hidle, hfails]

/-- A vacant property with two drafts of tenancies, of partners 1 and 2. -/
def twoDrafts : Occupancy where
  state := .draft
  tenantPartner := none
  leases := [{ partner := 1, startDate := none, endDate := none }, { partner := 2, startDate := none, endDate := none }]

theorem occupancy_consistent_twoDrafts :
    ¬ Tx.Always Occupancy.act Occupancy.Consistent twoDrafts [⟨0, .start⟩, ⟨1, .start⟩] := by
  rw [occupancy_consistent_iff ⟨rfl, rfl⟩]
  rintro ⟨-, hallowed⟩
  have hlast := hallowed [⟨0, .start⟩] ⟨1, .start⟩ List.prefix_rfl
    { partner := 2, startDate := none, endDate := none } rfl
  have hdraft := hlast (.inr rfl)
  revert hdraft
  decide

/-- The draft of another tenancy is cancelled while the first one runs. -/
theorem property_freed_early : ¬ ∀ (o : Occupancy), o.Vacant → o.running = [] → ∀ actions : List Occupancy.Action,
    Tx.Always Occupancy.act Occupancy.Consistent o actions := by
  intro hall
  have hlast := hall twoDrafts ⟨rfl, rfl⟩ rfl [⟨0, .start⟩, ⟨1, .cancel⟩] _ List.prefix_rfl
  have hrent := hlast.onRent
  revert hrent
  decide

end Rental
