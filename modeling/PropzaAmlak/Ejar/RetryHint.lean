import PropzaAmlak.Ejar.Recovery
import PropzaAmlak.Ejar.Queue
import Mathlib.Tactic.Linarith

/-! The delay that `classify_ejar_exception` asks for a request the circuit
refuses, and the check that is made after it. -/

namespace Ejar

/-- `seconds` of the `RetryableJobError` for an exception, where it has them. -/
def retrySeconds (exc : Exc) : Option Nat :=
  match exc.cls with
  | .ejarRateLimitError | .ejarCircuitOpenError => some (max exc.retryAfter 5)
  | .ejarAuthError => some 30
  | .ejarTokenExpiredError => some 60
  | _ => none

namespace CircuitUse

/-- The delay for the request that the check refuses. -/
def delay (u : CircuitUse) (request : Request) : Option Nat :=
  match u.op, circuitCheck u.now u.before with
  | .check, .error retryAfter =>
    match readReply request (.circuitOpen retryAfter) with
    | .error exc => retrySeconds exc
    | .ok _ => none
  | _, _ => none

/-- The seconds until the breaker lets a request through. -/
def remaining (u : CircuitUse) : ℚ := cbRecoveryTimeout - (u.now - u.before.lastFailureAt)

end CircuitUse

section Refusal

variable {u : CircuitUse} {request : Request} {d : Nat}

theorem CircuitUse.after_of_refused (hop : u.op = .check) (hpos : 0 < u.remaining) : u.after = u.before := by
  rcases CircuitUse.after_of_check hop with hafter | ⟨-, -, helapsed, -⟩
  · exact hafter
  · unfold CircuitUse.remaining at hpos
    linarith

theorem CircuitUse.delay_eq_some (hdelay : u.delay request = some d) :
    u.op = .check ∧ u.before.state = .opened ∧ 0 < u.remaining ∧ d = max u.remaining.floor.toNat 5 := by
  unfold CircuitUse.delay at hdelay
  split at hdelay
  case h_2 => cases hdelay
  rename_i retryAfter hop hcheck
  have hopened : u.before.state = .opened := by
    by_contra hne
    simp [circuitCheck_of_ne hne] at hcheck
  have helapsed : u.now - u.before.lastFailureAt < cbRecoveryTimeout := by
    by_contra hle
    simp [circuitCheck_of_le hopened (not_lt.mp hle)] at hcheck
  have hpos : 0 < u.remaining := sub_pos.mpr helapsed
  simp only [circuitCheck, hopened, helapsed, if_true, Except.error.injEq] at hcheck
  simp only [readReply, retrySeconds, Option.some.injEq, ← hcheck] at hdelay
  exact ⟨hop, hopened, hpos, hdelay.symm⟩

/-- The truncated hint covers the time that remains if nothing was cut off, or
if five seconds cover it. -/
theorem remaining_le_hint_iff {r : ℚ} (hpos : 0 < r) :
    r ≤ (max r.floor.toNat 5 : Nat) ↔ r ≤ 5 ∨ ∃ k : Nat, r = k := by
  have hfloor : ((r.floor.toNat : Nat) : ℚ) ≤ r := by
    have hnonneg : 0 ≤ r.floor := Int.floor_nonneg.mpr hpos.le
    calc ((r.floor.toNat : Nat) : ℚ) = (r.floor.toNat : ℤ) := by norm_cast
      _ = r.floor := by rw [Int.toNat_of_nonneg hnonneg]
      _ ≤ r := Int.floor_le r
  constructor
  · intro hle
    rcases le_total r.floor.toNat 5 with hfive | hfive
    · left
      simpa [max_eq_right hfive] using hle
    · right
      rw [max_eq_left hfive] at hle
      exact ⟨r.floor.toNat, le_antisymm hle hfloor⟩
  · rintro (hfive | ⟨k, rfl⟩)
    · exact hfive.trans (by exact_mod_cast Nat.le_max_right _ 5)
    · have hk : ((k : ℚ).floor).toNat = k := by
        rw [show (k : ℚ).floor = ⌊(k : ℚ)⌋ from rfl]
        simp
      rw [hk]
      exact_mod_cast Nat.le_max_left k 5

end Refusal

/-- With no failure recorded since, the check is not refused once the delay is past. -/
def HintSuffices (t₀ : ℚ) (before : List CircuitUse) (u : CircuitUse) (d : Nat) : Prop :=
  ∀ rest v m, (requests t₀).Run (before ++ u :: (rest ++ [v])) m → (∀ w ∈ rest, ¬ w.fails) →
    v.op = .check → u.now + d ≤ v.now → v.admits

section Runs

variable {t₀ : ℚ} {h before rest : List CircuitUse} {u v : CircuitUse} {m m' : Requests}
  {request : Request} {d : Nat}

theorem CircuitUse.after_of_not_fails (hfails : ¬ v.fails) : v.after = v.before ∨ v.after.state ≠ .opened := by
  cases hop : v.op with
  | check =>
    rcases CircuitUse.after_of_check hop with hafter | ⟨-, -, -, hafter⟩
    · exact .inl hafter
    · exact .inr (by simp [hafter])
  | recordFailure => simp [CircuitUse.fails, hop] at hfails
  | recordSuccess =>
    have hafter : v.after = circuitRecordSuccess v.before := by simp [CircuitUse.after, hop]
    rw [hafter]
    cases hstate : v.before.state with
    | opened => exact .inl (by simp [circuitRecordSuccess, hstate])
    | closed => exact .inr (by simp [circuitRecordSuccess, hstate])
    | halfOpen =>
      right
      by_cases hcount : cbSuccessThreshold ≤ v.before.halfOpenSuccessCount + 1
      · simp [circuitRecordSuccess, hstate, hcount]
      · simp [circuitRecordSuccess, hstate, hcount]

/-- Until a failure is recorded the breaker stays as the refusal left it, or it
is not open. -/
theorem unchanged_or_not_opened (hrun : (requests t₀).Run (before ++ u :: rest) m) (hu : u.after = u.before)
    (hnone : ∀ w ∈ rest, ¬ w.fails) : m.circuit.cb = u.before ∨ m.circuit.cb.state ≠ .opened := by
  have hinv := hrun.invariant (I := fun h m => ∀ rest, h = before ++ u :: rest → (∀ w ∈ rest, ¬ w.fails) →
    m.circuit.cb = u.before ∨ m.circuit.cb.state ≠ .opened) (by simp) ?_
  · exact hinv rest rfl hnone
  · intro h m c l m' ih hstep rest hh hnone
    rcases (Requests.step_next hstep).circuit with ⟨rfl, hsame⟩ | ⟨v, rfl, hbefore, hafter⟩
    · rw [hsame]
      exact ih rest (by simpa using hh) hnone
    · rw [hafter]
      cases rest using List.reverseRecOn with
      | nil =>
        obtain ⟨-, hv⟩ := List.append_inj' hh rfl
        obtain rfl : v = u := by simpa using hv
        exact .inl hu
      | append_singleton rest w =>
        have hsplit : h ++ [v] = (before ++ u :: rest) ++ [w] := by simpa using hh
        obtain ⟨hh', hv⟩ := List.append_inj' hsplit rfl
        obtain rfl : v = w := by simpa using hv
        have hfails : ¬ v.fails := hnone v (by simp)
        rcases ih rest hh' (fun w hw => hnone w (by simp [hw])) with hcb | hcb
        · rcases CircuitUse.after_of_not_fails hfails with hv | hv
          · exact .inl (hv.trans (hbefore.trans hcb))
          · exact .inr hv
        · right
          rcases CircuitUse.after_of_not_fails hfails with hv | hv
          · rwa [hv, hbefore]
          · exact hv

theorem exists_waiting (hrun : (requests t₀).Run h m) : ∃ n, ∀ i, n ≤ i → m.progress i = .waiting := by
  refine hrun.invariant (I := fun _ m => ∃ n, ∀ i, n ≤ i → m.progress i = .waiting) ⟨0, by simp [requests]⟩ ?_
  rintro h m c l m' ⟨n, hn⟩ hstep
  have hlater (j : Nat) (p : Progress) (i : Nat) (hi : max n (j + 1) ≤ i) :
      Function.update m.progress j p i = .waiting := by
    have hne : i ≠ j := by omega
    simpa [hne] using hn i (by omega)
  cases Requests.step_next hstep with
  | refused => exact ⟨_, hlater _ _⟩
  | admitted => exact ⟨_, hlater _ _⟩
  | recorded => exact ⟨_, hlater _ _⟩
  | unrecorded => exact ⟨_, hlater _ _⟩

/-- A step that leaves a use in the history reads the clock and the breaker there. -/
theorem Requests.Next.reading (hnext : m.Next (some u) m') :
    m.circuit.now ≤ u.now ∧ u.before = m.circuit.cb ∧ m'.circuit = ⟨u.after, u.now⟩ := by
  cases hnext with
  | refused hwaiting htime hcheck =>
    exact ⟨htime, rfl, by simp [CircuitUse.after, hcheck, Except.toOption]⟩
  | admitted hwaiting htime hcheck =>
    exact ⟨htime, rfl, by simp [CircuitUse.after, hcheck, Except.toOption]⟩
  | recorded hlive htime hop => exact ⟨htime, rfl, rfl⟩

/-- Some request has not been made yet, and can be made at any later time. -/
theorem exists_check (hrun : (requests t₀).Run h m) (request : Request) {now : ℚ} (hnow : m.circuit.now ≤ now) :
    ∃ (v : CircuitUse) (m' : Requests), (requests t₀).Run (h ++ [v]) m' ∧ v.op = .check ∧ v.now = now ∧
      v.before = m.circuit.cb := by
  obtain ⟨n, hwaiting⟩ := exists_waiting hrun
  have hstep : (requests t₀).step m (.begin n request now) =
      some (some (m.begin n request now).1, (m.begin n request now).2) := by
    simp [requests, Requests.step, hwaiting n le_rfl, hnow]
  have huse : (m.begin n request now).1 = ⟨n, .check, now, m.circuit.cb⟩ := by
    unfold Requests.begin
    split
    all_goals rfl
  refine ⟨_, _, hrun.step hstep, ?_⟩
  simp [huse]

theorem CircuitUse.admits_iff (hop : v.op = .check) (hopened : v.before.state = .opened) :
    v.admits ↔ v.remaining ≤ 0 := by
  unfold CircuitUse.admits CircuitUse.remaining
  by_cases helapsed : v.now - v.before.lastFailureAt < cbRecoveryTimeout
  · obtain ⟨retryAfter, hcheck⟩ := circuitCheck_of_lt hopened helapsed
    simpa [hop, hcheck, Except.isOk, Except.toBool] using helapsed
  · have hcheck := circuitCheck_of_le hopened (not_lt.mp helapsed)
    simpa [hop, hcheck, Except.isOk, Except.toBool] using not_lt.mp helapsed

theorem hintSuffices_of_le (hop : u.op = .check) (hpos : 0 < u.remaining) (hle : u.remaining ≤ d) :
    HintSuffices t₀ before u d := by
  intro rest v m' hrun hnone hv hnow
  have hlast : before ++ u :: (rest ++ [v]) = (before ++ u :: rest) ++ v :: [] := by simp
  obtain ⟨m, c, m₁, hrun₀, hstep⟩ := (hlast ▸ hrun).split
  obtain ⟨-, hbefore, -⟩ := (Requests.step_next hstep).reading
  have hafter := CircuitUse.after_of_refused hop hpos
  by_cases hopened : v.before.state = .opened
  · rw [CircuitUse.admits_iff hv hopened]
    rcases unchanged_or_not_opened hrun₀ hafter hnone with hsame | hne
    · have hvu : v.before = u.before := hbefore.trans hsame
      unfold CircuitUse.remaining at hle ⊢
      rw [hvu]
      linarith
    · exact absurd (hbefore ▸ hopened) hne
  · simp [CircuitUse.admits, hv, circuitCheck_of_ne hopened, Except.isOk, Except.toBool]

/-- A request made as soon as the delay is past is refused if the hint is too short. -/
theorem le_of_hintSuffices (hrun : (requests t₀).Run (before ++ [u]) m) (hop : u.op = .check)
    (hopened : u.before.state = .opened) (hpos : 0 < u.remaining) (hsuffices : HintSuffices t₀ before u d) :
    u.remaining ≤ d := by
  obtain ⟨m₀, c, m₁, hrun₀, hstep⟩ := hrun.split
  obtain ⟨-, -, hreading⟩ := (Requests.step_next hstep).reading
  have hafter := CircuitUse.after_of_refused hop hpos
  have hrun₁ : (requests t₀).Run (before ++ [u]) m₁ := by simpa using hrun₀.step hstep
  have hdelay : m₁.circuit.now ≤ u.now + d := by simp [hreading]
  obtain ⟨v, m₂, hrun₂, hv, hnow, hbefore⟩ := exists_check hrun₁ ⟨0, .getContract ""⟩ hdelay
  have hvu : v.before = u.before := by simp [hbefore, hreading, hafter]
  have hadmits := hsuffices [] v m₂ (by simpa using hrun₂) (by simp) hv hnow.ge
  rw [CircuitUse.admits_iff hv (by rw [hvu, hopened])] at hadmits
  unfold CircuitUse.remaining at hadmits ⊢
  rw [hvu, hnow] at hadmits
  linarith

/-- The delay suffices exactly if the time that remained at the refusal was a
whole number of seconds or at most five. -/
theorem hint_suffices_iff (hrun : (requests t₀).Run (before ++ [u]) m) (hdelay : u.delay request = some d) :
    HintSuffices t₀ before u d ↔ u.remaining ≤ 5 ∨ ∃ k : Nat, u.remaining = k := by
  obtain ⟨hop, hopened, hpos, rfl⟩ := CircuitUse.delay_eq_some hdelay
  rw [← remaining_le_hint_iff hpos]
  constructor
  · intro hsuffices
    exact le_of_hintSuffices hrun hop hopened hpos hsuffices
  · intro hle
    exact hintSuffices_of_le hop hpos hle

end Runs

/-- Five requests time out, and others are made at the given times. -/
def timeouts (later : List ℚ) : List RequestChoice :=
  (List.range 5).map (.begin · poll 100) ++ (List.range 5).map (.answer · .timeout 100) ++
    later.zipIdx.map fun x => .begin (x.2 + 5) poll x.1

def timeoutUses : List CircuitUse :=
  (List.range 5).map (⟨·, .check, 100, {}⟩) ++
    (List.range 5).map fun i => ⟨i, .recordFailure, 100,
      { failureCount := i, lastFailureAt := if i = 0 then 0 else 100 }⟩

def checkAt (client : Nat) (now : ℚ) : CircuitUse :=
  ⟨client, .check, now, { state := .opened, failureCount := 5, lastFailureAt := 100 }⟩

theorem timeouts_run (later : List ℚ) (uses : List CircuitUse)
    (hexec : ((requests 0).exec (timeouts later) ([], (requests 0).start)).map Prod.fst =
      some (timeoutUses ++ uses)) : ∃ m, (requests 0).Run (timeoutUses ++ uses) m := by
  obtain ⟨y, hy, huses⟩ := Option.map_eq_some_iff.mp hexec
  exact ⟨y.2, huses ▸ Tx.Shared.exec_run .start hy⟩

/-- Refused half a second past 130 with the hint to wait 29 seconds, and refused
again when they are over. -/
theorem refused_after_delay : ¬ ∀ t₀ before u m request d, (requests t₀).Run (before ++ [u]) m →
    u.delay request = some d → HintSuffices t₀ before u d := by
  intro hall
  obtain ⟨m, hrun⟩ := timeouts_run [261 / 2] [checkAt 5 (261 / 2)] (by decide +kernel)
  obtain ⟨m', hrun'⟩ := timeouts_run [261 / 2, 319 / 2] [checkAt 5 (261 / 2), checkAt 6 (319 / 2)] (by decide +kernel)
  have hsuffices := hall 0 timeoutUses (checkAt 5 (261 / 2)) m poll 29 hrun (by decide +kernel)
  have hadmits := hsuffices [] (checkAt 6 (319 / 2)) m' hrun' (by simp) rfl (by decide +kernel)
  revert hadmits
  decide +kernel

theorem hint_suffices_iff_timeouts : HintSuffices 0 timeoutUses (checkAt 5 130) 30 ↔
    (checkAt 5 130).remaining ≤ 5 ∨ ∃ k : Nat, (checkAt 5 130).remaining = k := by
  obtain ⟨m, hrun⟩ := timeouts_run [130] [checkAt 5 130] (by decide +kernel)
  have hdelay : (checkAt 5 130).delay poll = some 30 := by decide +kernel
  exact hint_suffices_iff hrun hdelay

end Ejar
