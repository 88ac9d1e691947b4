import PropzaAmlak.Ejar.Client
import PropzaAmlak.Tx.Shared
import Mathlib.Algebra.Order.Ring.Rat
import Mathlib.Data.Rat.Floor
import Mathlib.Tactic.NormNum

/-! The circuit breaker of `services/ejar_client.py`, and the requests that
`_make_request` sends through it. -/

namespace Ejar

def cbFailureThreshold : Nat := 5
def cbRecoveryTimeout : ℚ := 60
def cbSuccessThreshold : Nat := 2

inductive CBState where
  | closed
  | opened
  | halfOpen
deriving DecidableEq

structure CircuitBreakerState where
  state : CBState := .closed
  failureCount : Nat := 0
  lastFailureAt : ℚ := 0
  halfOpenSuccessCount : Nat := 0
deriving DecidableEq

/-- The state the check leaves behind, or the `retry_after` it raises with. -/
def circuitCheck (now : ℚ) (cb : CircuitBreakerState) : Except Nat CircuitBreakerState :=
  match cb.state with
  | .opened =>
    let elapsed := now - cb.lastFailureAt
    if elapsed < cbRecoveryTimeout then .error (cbRecoveryTimeout - elapsed).floor.toNat
    else .ok { cb with state := .halfOpen, halfOpenSuccessCount := 0 }
  | _ => .ok cb

def circuitRecordSuccess (cb : CircuitBreakerState) : CircuitBreakerState :=
  match cb.state with
  | .halfOpen =>
    let count := cb.halfOpenSuccessCount + 1
    if cbSuccessThreshold ≤ count then
      { cb with state := .closed, failureCount := 0, halfOpenSuccessCount := count }
    else { cb with halfOpenSuccessCount := count }
  | .closed => { cb with failureCount := 0 }
  | .opened => cb

def circuitRecordFailure (now : ℚ) (cb : CircuitBreakerState) : CircuitBreakerState :=
  let count := cb.failureCount + 1
  if cbFailureThreshold ≤ count then
    { cb with state := .opened, failureCount := count, lastFailureAt := now }
  else { cb with failureCount := count, lastFailureAt := now }

inductive CircuitOp where
  | check
  | recordSuccess
  | recordFailure
deriving DecidableEq

/-- One step under the lock: by whom, at which reading of the clock, and on
which state. -/
structure CircuitUse where
  client : Nat
  op : CircuitOp
  now : ℚ
  before : CircuitBreakerState
deriving DecidableEq

namespace CircuitUse

def after (u : CircuitUse) : CircuitBreakerState :=
  match u.op with
  | .check => (circuitCheck u.now u.before).toOption.getD u.before
  | .recordSuccess => circuitRecordSuccess u.before
  | .recordFailure => circuitRecordFailure u.now u.before

/-- The check lets its request through. -/
def admits (u : CircuitUse) : Bool := u.op == .check && (circuitCheck u.now u.before).isOk

def succeeds (u : CircuitUse) : Bool := u.op == .recordSuccess

def fails (u : CircuitUse) : Bool := u.op == .recordFailure

end CircuitUse

/-- A breaker with the last reading of the clock. -/
structure Circuit where
  cb : CircuitBreakerState
  now : ℚ
deriving DecidableEq

structure CircuitCall where
  client : Nat
  op : CircuitOp
  now : ℚ

/-- Clients of one company using its breaker in any order. -/
def circuit (t₀ : ℚ) : Tx.Shared Circuit CircuitCall CircuitUse where
  start := ⟨{}, t₀⟩
  step x c :=
    let use := ⟨c.client, c.op, c.now, x.cb⟩
    if x.now ≤ c.now then some (some use, ⟨use.after, c.now⟩) else none

section Counters

variable {cb : CircuitBreakerState} {now : ℚ}

theorem circuitCheck_of_ne (hstate : cb.state ≠ .opened) : circuitCheck now cb = .ok cb := by
  unfold circuitCheck
  split
  · contradiction
  · rfl

theorem circuitCheck_of_lt (hstate : cb.state = .opened) (helapsed : now - cb.lastFailureAt < cbRecoveryTimeout) :
    ∃ retryAfter, circuitCheck now cb = .error retryAfter := by
  simp [circuitCheck, hstate, helapsed]

theorem circuitCheck_of_le (hstate : cb.state = .opened) (helapsed : cbRecoveryTimeout ≤ now - cb.lastFailureAt) :
    circuitCheck now cb = .ok { cb with state := .halfOpen, halfOpenSuccessCount := 0 } := by
  have hnot : ¬ now - cb.lastFailureAt < cbRecoveryTimeout := not_lt.mpr helapsed
  simp [circuitCheck, hstate, hnot]

end Counters

/-- The uses after the last success hold `n` failures. -/
def FailuresInARow (h : List CircuitUse) (n : Nat) : Prop :=
  ∃ older recent, h = older ++ recent ∧ (∀ u ∈ recent, ¬ u.succeeds) ∧
    recent.countP CircuitUse.fails = n

def LastFailureAt (h : List CircuitUse) (t : ℚ) : Prop :=
  ∃ older u recent, h = older ++ u :: recent ∧ u.fails ∧ (∀ v ∈ recent, ¬ v.fails) ∧ u.now = t

/-- The breaker has been half open from a check that found it open, without a
failure and with `n` successes. -/
def HalfOpenPeriod (h : List CircuitUse) (n : Nat) : Prop :=
  ∃ older u recent, h = older ++ u :: recent ∧ u.before.state = .opened ∧ u.admits ∧
    (∀ v ∈ recent, v.before.state = .halfOpen ∧ ¬ v.fails) ∧
    recent.countP CircuitUse.succeeds = n

section Concat

variable {h : List CircuitUse} {u : CircuitUse} {n : Nat} {t : ℚ}

theorem FailuresInARow.concat (hrow : FailuresInARow h n) (hu : ¬ u.succeeds) :
    FailuresInARow (h ++ [u]) (n + if u.fails then 1 else 0) := by
  obtain ⟨older, recent, rfl, hnone, hcount⟩ := hrow
  have hnone' := List.forall_mem_append.mpr ⟨hnone, List.forall_mem_singleton.mpr hu⟩
  exact ⟨older, recent ++ [u], by simp, hnone', by simp [hcount]⟩

theorem FailuresInARow.none : FailuresInARow h 0 := ⟨h, [], by simp, by simp, rfl⟩

theorem LastFailureAt.concat (hlast : LastFailureAt h t) (hu : ¬ u.fails) : LastFailureAt (h ++ [u]) t := by
  obtain ⟨older, f, recent, rfl, hf, hnone, hnow⟩ := hlast
  have hnone' := List.forall_mem_append.mpr ⟨hnone, List.forall_mem_singleton.mpr hu⟩
  exact ⟨older, f, recent ++ [u], by simp, hf, hnone', hnow⟩

theorem LastFailureAt.of_fails (hu : u.fails) : LastFailureAt (h ++ [u]) u.now :=
  ⟨h, u, [], rfl, hu, by simp, rfl⟩

theorem HalfOpenPeriod.concat (hperiod : HalfOpenPeriod h n) (hhalf : u.before.state = .halfOpen)
    (hu : ¬ u.fails) : HalfOpenPeriod (h ++ [u]) (n + if u.succeeds then 1 else 0) := by
  obtain ⟨older, o, recent, rfl, hopened, hadmits, hnone, hcount⟩ := hperiod
  have hnone' := List.forall_mem_append.mpr ⟨hnone, List.forall_mem_singleton.mpr ⟨hhalf, hu⟩⟩
  exact ⟨older, o, recent ++ [u], by simp, hopened, hadmits, hnone', by simp [hcount]⟩

theorem HalfOpenPeriod.of_admits (hopened : u.before.state = .opened) (hu : u.admits) :
    HalfOpenPeriod (h ++ [u]) 0 :=
  ⟨h, u, [], rfl, hopened, hu, by simp, rfl⟩

end Concat

/-- What the fields of a breaker say about the uses so far. -/
structure Accounted (h : List CircuitUse) (cb : CircuitBreakerState) : Prop where
  below : cb.state = .closed → cb.failureCount < cbFailureThreshold
  reached : cb.state ≠ .closed → cbFailureThreshold ≤ cb.failureCount
  recovering : cb.state = .halfOpen → cb.halfOpenSuccessCount < cbSuccessThreshold
  row : cb.state = .closed → FailuresInARow h cb.failureCount
  last : 0 < cb.failureCount → LastFailureAt h cb.lastFailureAt
  period : cb.state = .halfOpen → HalfOpenPeriod h cb.halfOpenSuccessCount

theorem Accounted.start : Accounted [] {} := by
  constructor
  all_goals simp [cbFailureThreshold, FailuresInARow.none]

section Step

variable {h : List CircuitUse} {u : CircuitUse}

theorem Accounted.last_of_opened {cb : CircuitBreakerState} (ha : Accounted h cb) (hopened : cb.state = .opened) :
    LastFailureAt h cb.lastFailureAt := by
  have hreached := ha.reached (by simp [hopened])
  exact ha.last (by simp only [cbFailureThreshold] at hreached; omega)

theorem CircuitUse.after_of_check (hop : u.op = .check) :
    u.after = u.before ∨ u.before.state = .opened ∧ u.admits ∧
      cbRecoveryTimeout ≤ u.now - u.before.lastFailureAt ∧
      u.after = { u.before with state := .halfOpen, halfOpenSuccessCount := 0 } := by
  simp only [CircuitUse.after, CircuitUse.admits, hop]
  by_cases hopened : u.before.state = .opened
  · by_cases helapsed : u.now - u.before.lastFailureAt < cbRecoveryTimeout
    · obtain ⟨retryAfter, hcheck⟩ := circuitCheck_of_lt hopened helapsed
      left
      simp [hcheck, Except.toOption]
    · have hcheck := circuitCheck_of_le hopened (not_lt.mp helapsed)
      right
      simp [hcheck, Except.toOption, Except.isOk, Except.toBool, hopened, not_lt.mp helapsed]
  · left
    simp [circuitCheck_of_ne hopened, Except.toOption]

theorem Accounted.check (ha : Accounted h u.before) (hop : u.op = .check) :
    Accounted (h ++ [u]) u.after := by
  have hsucceeds : ¬ u.succeeds := by simp [CircuitUse.succeeds, hop]
  have hfails : ¬ u.fails := by simp [CircuitUse.fails, hop]
  rcases CircuitUse.after_of_check hop with hafter | ⟨hopened, hadmits, -, hafter⟩
  · rw [hafter]
    constructor
    · exact ha.below
    · exact ha.reached
    · exact ha.recovering
    · intro hclosed
      simpa [hfails] using (ha.row hclosed).concat hsucceeds
    · intro hpos
      exact (ha.last hpos).concat hfails
    · intro hhalf
      simpa [hsucceeds] using (ha.period hhalf).concat hhalf hfails
  · have hreached := ha.reached (by simp [hopened])
    have hlast := (ha.last_of_opened hopened).concat hfails
    have hperiod : HalfOpenPeriod (h ++ [u]) 0 := .of_admits hopened hadmits
    rw [hafter]
    constructor
    all_goals simp [cbSuccessThreshold, hreached, hlast, hperiod]

theorem Accounted.success (ha : Accounted h u.before) (hop : u.op = .recordSuccess) :
    Accounted (h ++ [u]) u.after := by
  have hsucceeds : u.succeeds := by simp [CircuitUse.succeeds, hop]
  have hfails : ¬ u.fails := by simp [CircuitUse.fails, hop]
  have hafter : u.after = circuitRecordSuccess u.before := by simp [CircuitUse.after, hop]
  cases hstate : u.before.state with
  | closed =>
    rw [hafter]
    simp only [circuitRecordSuccess, hstate]
    constructor
    all_goals simp [cbFailureThreshold, FailuresInARow.none]
  | opened =>
    have hreached := ha.reached (by simp [hstate])
    have hlast := (ha.last_of_opened hstate).concat hfails
    rw [hafter]
    simp only [circuitRecordSuccess, hstate]
    constructor
    all_goals simp [hstate, hreached, hlast]
  | halfOpen =>
    have hreached := ha.reached (by simp [hstate])
    have hperiod := (ha.period hstate).concat hstate hfails
    rw [hafter]
    by_cases hcount : cbSuccessThreshold ≤ u.before.halfOpenSuccessCount + 1
    · simp only [circuitRecordSuccess, hstate, hcount, if_true]
      constructor
      all_goals simp [cbFailureThreshold, FailuresInARow.none]
    · simp only [circuitRecordSuccess, hstate, hcount, if_false]
      constructor
      · simp
      · simp [hreached]
      · simp only [not_le] at hcount
        simp [hcount]
      · simp
      · intro hpos
        exact (ha.last hpos).concat hfails
      · simpa [hsucceeds] using hperiod

theorem Accounted.failure (ha : Accounted h u.before) (hop : u.op = .recordFailure) :
    Accounted (h ++ [u]) u.after := by
  have hsucceeds : ¬ u.succeeds := by simp [CircuitUse.succeeds, hop]
  have hfails : u.fails := by simp [CircuitUse.fails, hop]
  have hafter : u.after = circuitRecordFailure u.now u.before := by simp [CircuitUse.after, hop]
  have hlast : LastFailureAt (h ++ [u]) u.now := .of_fails hfails
  rw [hafter]
  by_cases hcount : cbFailureThreshold ≤ u.before.failureCount + 1
  · simp only [circuitRecordFailure, hcount, if_true]
    constructor
    all_goals simp [hcount, hlast]
  · -- fewer failures than the threshold are only counted while closed
    have hclosed : u.before.state = .closed := by
      by_contra hne
      have hreached := ha.reached hne
      omega
    have hrow := (ha.row hclosed).concat hsucceeds
    simp only [hfails, if_true] at hrow
    simp only [circuitRecordFailure, hcount, if_false]
    constructor
    · intro _
      simpa using hcount
    all_goals simp [hclosed, hlast, hrow]

theorem Accounted.use (ha : Accounted h u.before) : Accounted (h ++ [u]) u.after := by
  cases hop : u.op with
  | check => exact ha.check hop
  | recordSuccess => exact ha.success hop
  | recordFailure => exact ha.failure hop

end Step

section Runs

variable {t₀ : ℚ} {h : List CircuitUse} {x : Circuit}

theorem circuit_step {c : CircuitCall} {l : Option CircuitUse} {x' : Circuit}
    (hstep : (circuit t₀).step x c = some (l, x')) :
    ∃ u : CircuitUse, l = some u ∧ u.before = x.cb ∧ x'.cb = u.after := by
  simp only [circuit] at hstep
  split at hstep
  · simp only [Option.some.injEq, Prod.mk.injEq] at hstep
    obtain ⟨rfl, rfl⟩ := hstep
    exact ⟨_, rfl, rfl, rfl⟩
  · cases hstep

theorem circuit_accounted (hrun : (circuit t₀).Run h x) : Accounted h x.cb := by
  refine hrun.invariant (I := fun h x => Accounted h x.cb) .start ?_
  intro h x c l x' ha hstep
  obtain ⟨u, rfl, hbefore, hafter⟩ := circuit_step hstep
  rw [hafter]
  exact Accounted.use (hbefore ▸ ha)

theorem circuit_accounted_before {before after : List CircuitUse} {u : CircuitUse}
    (hrun : (circuit t₀).Run (before ++ u :: after) x) : Accounted before u.before := by
  obtain ⟨x₀, c, x₁, hrun₀, hstep⟩ := hrun.split
  obtain ⟨_, heq, hbefore, -⟩ := circuit_step hstep
  obtain rfl := Option.some.inj heq
  exact hbefore ▸ circuit_accounted hrun₀

theorem Accounted.trips {u : CircuitUse} (ha : Accounted h u.before) (hclosed : u.before.state = .closed)
    (hopened : u.after.state = .opened) :
    u.fails ∧ FailuresInARow (h ++ [u]) cbFailureThreshold := by
  have hbelow := ha.below hclosed
  cases hop : u.op with
  | check =>
    rcases CircuitUse.after_of_check hop with hafter | ⟨hwas, -⟩
    · simp [hafter, hclosed] at hopened
    · simp [hwas] at hclosed
  | recordSuccess => simp [CircuitUse.after, hop, circuitRecordSuccess, hclosed] at hopened
  | recordFailure =>
    have hsucceeds : ¬ u.succeeds := by simp [CircuitUse.succeeds, hop]
    have hfails : u.fails := by simp [CircuitUse.fails, hop]
    have hrow := (ha.row hclosed).concat hsucceeds
    by_cases hcount : cbFailureThreshold ≤ u.before.failureCount + 1
    · have hexact : u.before.failureCount + 1 = cbFailureThreshold := by omega
      simp only [hfails, if_true, hexact] at hrow
      exact ⟨hfails, hrow⟩
    · simp [CircuitUse.after, hop, circuitRecordFailure, hcount, hclosed] at hopened

theorem Accounted.cooled {u : CircuitUse} (ha : Accounted h u.before) (hopened : u.before.state = .opened)
    (hadmits : u.admits) : ∃ t, LastFailureAt h t ∧ cbRecoveryTimeout ≤ u.now - t := by
  refine ⟨u.before.lastFailureAt, ha.last_of_opened hopened, ?_⟩
  by_contra helapsed
  obtain ⟨retryAfter, hcheck⟩ := circuitCheck_of_lt hopened (not_le.mp helapsed)
  simp [CircuitUse.admits, hcheck, Except.isOk, Except.toBool] at hadmits

theorem circuit_breaker_invariant (hrun : (circuit t₀).Run h x) :
    (x.cb.state = .closed → x.cb.failureCount < cbFailureThreshold) ∧
    (x.cb.state = .opened ∨ x.cb.state = .halfOpen → cbFailureThreshold ≤ x.cb.failureCount) ∧
    (x.cb.state = .halfOpen → x.cb.halfOpenSuccessCount < cbSuccessThreshold) ∧
    (∀ before u after, h = before ++ u :: after → u.before.state = .closed → u.after.state = .opened →
      u.fails ∧ FailuresInARow (before ++ [u]) cbFailureThreshold) ∧
    (∀ before u after, h = before ++ u :: after → u.before.state = .opened → u.admits →
      ∃ t, LastFailureAt before t ∧ cbRecoveryTimeout ≤ u.now - t) := by
  have ha := circuit_accounted hrun
  refine ⟨ha.below, ?_, ha.recovering, ?_, ?_⟩
  · rintro (hstate | hstate)
    all_goals exact ha.reached (by simp [hstate])
  · rintro before u after rfl hclosed hopened
    exact (circuit_accounted_before hrun).trips hclosed hopened
  · rintro before u after rfl hopened hadmits
    exact (circuit_accounted_before hrun).cooled hopened hadmits

end Runs

/-- Five failures, a check refused after 30 seconds and one let through after 60. -/
def outage : List CircuitCall :=
  (List.range 5).map (fun client => ⟨client, .recordFailure, 100⟩) ++
    [⟨5, .check, 130⟩, ⟨6, .check, 160⟩]

theorem circuit_breaker_invariant_outage :
    ∃ h x, (circuit 0).Run h x ∧ x.cb.state = .halfOpen ∧
      (x.cb.state = .opened ∨ x.cb.state = .halfOpen → cbFailureThreshold ≤ x.cb.failureCount) := by
  have hexec : ∃ y, (circuit 0).exec outage ([], (circuit 0).start) = some y ∧
      y.2.cb.state = .halfOpen := by
    refine ⟨((circuit 0).exec outage ([], (circuit 0).start)).get (by decide +kernel), ?_, ?_⟩
    · simp
    · decide +kernel
  obtain ⟨y, hy, hstate⟩ := hexec
  have hrun := Tx.Shared.exec_run (S := circuit 0) .start hy
  exact ⟨y.1, y.2, hrun, hstate, (circuit_breaker_invariant hrun).2.1⟩

end Ejar
