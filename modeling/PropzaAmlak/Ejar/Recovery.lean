import PropzaAmlak.Ejar.CircuitBreaker

/-! `_make_request`: a request is let through by the breaker at one moment and
its outcome is recorded at another, with other requests in between. -/

namespace Ejar

inductive Progress where
  | waiting
  | underWay (request : Request)
  | done (result : Except Exc Json)

structure Requests where
  circuit : Circuit
  progress : Nat → Progress

inductive RequestChoice where
  | begin (i : Nat) (request : Request) (now : ℚ)
  | answer (i : Nat) (reply : Reply) (now : ℚ)

/-- The reply is what became of a request that was sent. -/
def Reply.arrives : Reply → Bool
  | .circuitOpen _ => false
  | _ => true

/-- What `_make_request` records of a result. -/
def recorded : Except Exc Json → Option CircuitOp
  | .ok _ => some .recordSuccess
  | .error e =>
    match e.cls with
    | .ejarTimeoutError => some .recordFailure
    | .ejarNetworkError => some .recordFailure
    | .ejarServerError => some .recordFailure
    | .ejarRateLimitError => some .recordFailure
    | _ => none

namespace Requests

def finish (m : Requests) (i : Nat) (result : Except Exc Json) : Nat → Progress :=
  Function.update m.progress i (.done result)

def begin (m : Requests) (i : Nat) (request : Request) (now : ℚ) : CircuitUse × Requests :=
  let use : CircuitUse := ⟨i, .check, now, m.circuit.cb⟩
  match circuitCheck now m.circuit.cb with
  | .ok _ => (use, ⟨⟨use.after, now⟩, Function.update m.progress i (.underWay request)⟩)
  | .error retryAfter =>
    (use, ⟨⟨use.after, now⟩, m.finish i (readReply request (.circuitOpen retryAfter))⟩)

def answer (m : Requests) (i : Nat) (request : Request) (reply : Reply) (now : ℚ) :
    Option CircuitUse × Requests :=
  let result := readReply request reply
  match recorded result with
  | some op =>
    let use : CircuitUse := ⟨i, op, now, m.circuit.cb⟩
    (some use, ⟨⟨use.after, now⟩, m.finish i result⟩)
  | none => (none, ⟨⟨m.circuit.cb, now⟩, m.finish i result⟩)

def step (m : Requests) (c : RequestChoice) : Option (Option CircuitUse × Requests) :=
  match c with
  | .begin i request now =>
    match m.progress i with
    | .waiting =>
      if m.circuit.now ≤ now then
        let next := m.begin i request now
        some (some next.1, next.2)
      else none
    | _ => none
  | .answer i reply now =>
    match m.progress i with
    | .underWay request =>
      if m.circuit.now ≤ now ∧ reply.arrives then some (m.answer i request reply now) else none
    | _ => none

end Requests

/-- Any number of requests through one breaker, each made once. -/
def requests (t₀ : ℚ) : Tx.Shared Requests RequestChoice CircuitUse where
  start := ⟨⟨{}, t₀⟩, fun _ => .waiting⟩
  step := Requests.step

theorem recorded_ne_check {result : Except Exc Json} : recorded result ≠ some .check := by
  cases result with
  | ok _ => simp [recorded]
  | error e =>
    simp only [recorded]
    split
    all_goals simp

section Step

variable {m m' : Requests} {l : Option CircuitUse}

/-- What one step of the requests does. -/
inductive Requests.Next (m : Requests) : Option CircuitUse → Requests → Prop where
  | refused {i request now retryAfter} (hwaiting : m.progress i = .waiting) (htime : m.circuit.now ≤ now)
      (hcheck : circuitCheck now m.circuit.cb = .error retryAfter) :
      Next m (some ⟨i, .check, now, m.circuit.cb⟩)
        ⟨⟨m.circuit.cb, now⟩, m.finish i (readReply request (.circuitOpen retryAfter))⟩
  | admitted {i request now cb} (hwaiting : m.progress i = .waiting) (htime : m.circuit.now ≤ now)
      (hcheck : circuitCheck now m.circuit.cb = .ok cb) :
      Next m (some ⟨i, .check, now, m.circuit.cb⟩)
        ⟨⟨cb, now⟩, Function.update m.progress i (.underWay request)⟩
  | recorded {i request reply now op} (hlive : m.progress i = .underWay request)
      (htime : m.circuit.now ≤ now) (hop : recorded (readReply request reply) = some op) :
      Next m (some ⟨i, op, now, m.circuit.cb⟩)
        ⟨⟨(CircuitUse.mk i op now m.circuit.cb).after, now⟩, m.finish i (readReply request reply)⟩
  | unrecorded {i request reply now} (hlive : m.progress i = .underWay request)
      (htime : m.circuit.now ≤ now) (hop : recorded (readReply request reply) = none) :
      Next m none ⟨⟨m.circuit.cb, now⟩, m.finish i (readReply request reply)⟩

theorem Requests.step_next {c : RequestChoice} (hstep : m.step c = some (l, m')) : m.Next l m' := by
  cases c with
  | begin i request now =>
    simp only [Requests.step] at hstep
    split at hstep
    case h_2 => cases hstep
    rename_i hwaiting
    split at hstep
    case isFalse => cases hstep
    rename_i htime
    cases hcheck : circuitCheck now m.circuit.cb with
    | ok cb =>
      simp only [Requests.begin, hcheck, Option.some.injEq, Prod.mk.injEq] at hstep
      obtain ⟨rfl, rfl⟩ := hstep
      have hnext := @Requests.Next.admitted m i request now cb hwaiting htime hcheck
      simpa [CircuitUse.after, hcheck, Except.toOption] using hnext
    | error retryAfter =>
      simp only [Requests.begin, hcheck, Option.some.injEq, Prod.mk.injEq] at hstep
      obtain ⟨rfl, rfl⟩ := hstep
      have hnext := @Requests.Next.refused m i request now retryAfter hwaiting htime hcheck
      simpa [CircuitUse.after, hcheck, Except.toOption] using hnext
  | answer i reply now =>
    simp only [Requests.step] at hstep
    split at hstep
    case h_2 => cases hstep
    rename_i request hlive
    split at hstep
    case isFalse => cases hstep
    rename_i hguard
    have htime := hguard.1
    cases hop : recorded (readReply request reply) with
    | none =>
      simp only [Requests.answer, hop, Option.some.injEq, Prod.mk.injEq] at hstep
      obtain ⟨rfl, rfl⟩ := hstep
      exact .unrecorded hlive htime hop
    | some op =>
      simp only [Requests.answer, hop, Option.some.injEq, Prod.mk.injEq] at hstep
      obtain ⟨rfl, rfl⟩ := hstep
      exact .recorded hlive htime hop

theorem Requests.Next.circuit (hnext : m.Next l m') :
    (l = none ∧ m'.circuit.cb = m.circuit.cb) ∨
      ∃ u, l = some u ∧ u.before = m.circuit.cb ∧ m'.circuit.cb = u.after := by
  cases hnext with
  | refused hwaiting htime hcheck =>
    right
    exact ⟨_, rfl, rfl, by simp [CircuitUse.after, hcheck, Except.toOption]⟩
  | admitted hwaiting htime hcheck =>
    right
    exact ⟨_, rfl, rfl, by simp [CircuitUse.after, hcheck, Except.toOption]⟩
  | recorded hlive htime hop => exact .inr ⟨_, rfl, rfl, rfl⟩
  | unrecorded hlive htime hop => exact .inl ⟨rfl, rfl⟩

end Step

/-- Every outcome in the history is that of a request let through before, and
no request has two. -/
structure Answered (h : List CircuitUse) (m : Requests) : Prop where
  sent : ∀ i request, m.progress i = .underWay request → ∃ a ∈ h, a.client = i ∧ a.admits
  outcome : ∀ u ∈ h, u.op ≠ .check →
    (∃ result, m.progress u.client = .done result) ∧ ∃ a ∈ h, a.client = u.client ∧ a.admits
  once : ((h.filter fun u => u.op ≠ .check).map CircuitUse.client).Nodup

section Runs

variable {t₀ : ℚ} {h : List CircuitUse} {m m' : Requests} {l : Option CircuitUse}

theorem Answered.start : Answered [] (requests t₀).start := by
  constructor
  all_goals simp [requests]

/-- A request leaves no outcome when it begins or when its answer is not recorded. -/
theorem Answered.keep (ha : Answered h m) {i : Nat} {p : Progress} {x : Circuit} {quiet : List CircuitUse}
    (hquiet : ∀ u ∈ quiet, u.op = .check) (hlive : ∀ result, m.progress i ≠ .done result)
    (hsent : ∀ request, p = .underWay request → ∃ a ∈ h ++ quiet, a.client = i ∧ a.admits) :
    Answered (h ++ quiet) ⟨x, Function.update m.progress i p⟩ := by
  have hnone : quiet.filter (fun u => u.op ≠ .check) = [] := by
    rw [List.filter_eq_nil_iff]
    intro u hu
    simp [hquiet u hu]
  constructor
  · intro j request hj
    by_cases hji : j = i
    · subst hji
      exact hsent request (by simpa using hj)
    · obtain ⟨a, hmem, hclient, hadmits⟩ := ha.sent j request (by simpa [hji] using hj)
      exact ⟨a, List.mem_append_left _ hmem, hclient, hadmits⟩
  · intro u hu hop
    have hold : u ∈ h := by
      rcases List.mem_append.mp hu with hu | hu
      · exact hu
      · exact absurd (hquiet u hu) hop
    obtain ⟨⟨result, hdone⟩, a, hmem, hclient, hadmits⟩ := ha.outcome u hold hop
    have hne : u.client ≠ i := by
      intro heq
      exact hlive result (heq ▸ hdone)
    exact ⟨⟨result, by simpa [hne] using hdone⟩, a, List.mem_append_left _ hmem, hclient, hadmits⟩
  · rw [List.filter_append, hnone, List.append_nil]
    exact ha.once

theorem Answered.next (ha : Answered h m) (hnext : m.Next l m') : Answered (h ++ l.toList) m' := by
  cases hnext with
  | refused hwaiting htime hcheck =>
    exact ha.keep (by simp) (by simp [hwaiting]) (by simp)
  | @admitted i request now cb hwaiting htime hcheck =>
    refine ha.keep (by simp) (by simp [hwaiting]) ?_
    intro _ _
    exact ⟨⟨i, .check, now, m.circuit.cb⟩, by simp, rfl,
      by simp [CircuitUse.admits, hcheck, Except.isOk, Except.toBool]⟩
  | unrecorded hlive htime hop =>
    exact ha.keep (by simp) (by simp [hlive]) (by simp)
  | @recorded i request reply now op hlive htime hop =>
    have hne : op ≠ .check := by
      rintro rfl
      exact recorded_ne_check hop
    obtain ⟨a, hmem, hclient, hadmits⟩ := ha.sent i request hlive
    -- the outcomes so far belong to requests that are done
    have hnew : ∀ u ∈ h, u.op ≠ .check → u.client ≠ i := by
      intro u hu hop' heq
      obtain ⟨⟨result, hdone⟩, -⟩ := ha.outcome u hu hop'
      simp [heq, hlive] at hdone
    constructor
    · intro j request' hj
      by_cases hji : j = i
      · simp [Requests.finish, hji] at hj
      · obtain ⟨b, hb, hbclient, hbadmits⟩ := ha.sent j request' (by simpa [Requests.finish, hji] using hj)
        exact ⟨b, List.mem_append_left _ hb, hbclient, hbadmits⟩
    · intro u hu hop'
      rcases List.mem_append.mp hu with hu | hu
      · obtain ⟨⟨result, hdone⟩, b, hb, hbclient, hbadmits⟩ := ha.outcome u hu hop'
        have hdone' : Function.update m.progress i (.done (readReply request reply)) u.client =
            .done result := by simpa [hnew u hu hop'] using hdone
        exact ⟨⟨result, hdone'⟩, b, List.mem_append_left _ hb, hbclient, hbadmits⟩
      · obtain rfl := List.mem_singleton.mp hu
        exact ⟨⟨readReply request reply, by simp [Requests.finish]⟩, a, List.mem_append_left _ hmem, hclient, hadmits⟩
    · simp only [Option.toList_some, List.filter_append, List.map_append, List.nodup_append]
      refine ⟨ha.once, by simp [hne], ?_⟩
      intro j hj k hk hjk
      obtain ⟨u, hu, rfl⟩ := List.mem_map.mp hj
      simp only [List.filter_cons, hne, ne_eq, not_false_eq_true, decide_true, if_true,
        List.filter_nil, List.map_cons, List.map_nil, List.mem_singleton] at hk
      have hfilter := List.mem_filter.mp hu
      exact hnew u hfilter.1 (by simpa using hfilter.2) (hjk.trans hk)

theorem requests_answered (hrun : (requests t₀).Run h m) : Answered h m :=
  hrun.invariant .start fun _ _ _ _ _ ha hstep => ha.next (Requests.step_next hstep)

theorem requests_accounted (hrun : (requests t₀).Run h m) : Accounted h m.circuit.cb := by
  refine hrun.invariant (I := fun h m => Accounted h m.circuit.cb) .start ?_
  intro h m c l m' ha hstep
  rcases (Requests.step_next hstep).circuit with ⟨rfl, hsame⟩ | ⟨u, rfl, hbefore, hafter⟩
  · simpa [hsame] using ha
  · rw [hafter]
    exact Accounted.use (hbefore ▸ ha)

theorem requests_split {before after : List CircuitUse} {u : CircuitUse}
    (hrun : (requests t₀).Run (before ++ u :: after) m) :
    Accounted before u.before ∧ ∃ m', (requests t₀).Run (before ++ [u]) m' := by
  obtain ⟨m₀, c, m₁, hrun₀, hstep⟩ := hrun.split
  rcases (Requests.step_next hstep).circuit with ⟨hnone, -⟩ | ⟨_, heq, hbefore, -⟩
  · cases hnone
  · obtain rfl := Option.some.inj heq
    exact ⟨hbefore ▸ requests_accounted hrun₀, m₁, by simpa using hrun₀.step hstep⟩

theorem Accounted.recovers {u : CircuitUse} (ha : Accounted h u.before) (hhalf : u.before.state = .halfOpen)
    (hclosed : u.after.state = .closed) :
    u.succeeds ∧ u.before.halfOpenSuccessCount + 1 = cbSuccessThreshold := by
  have hrecovering := ha.recovering hhalf
  have hreached := ha.reached (by simp [hhalf])
  cases hop : u.op with
  | check =>
    rcases CircuitUse.after_of_check hop with hafter | ⟨hopened, -⟩
    · simp [hafter, hhalf] at hclosed
    · simp [hhalf] at hopened
  | recordFailure =>
    have hcount : cbFailureThreshold ≤ u.before.failureCount + 1 := by omega
    simp [CircuitUse.after, hop, circuitRecordFailure, hcount] at hclosed
  | recordSuccess =>
    by_cases hcount : cbSuccessThreshold ≤ u.before.halfOpenSuccessCount + 1
    · exact ⟨by simp [CircuitUse.succeeds, hop], by omega⟩
    · simp [CircuitUse.after, hop, circuitRecordSuccess, hhalf, hcount] at hclosed

theorem filter_succeeds_sublist (uses : List CircuitUse) :
    (uses.filter CircuitUse.succeeds).Sublist (uses.filter fun u => u.op ≠ .check) := by
  apply List.monotone_filter_right
  intro u hu
  simp only [CircuitUse.succeeds, beq_iff_eq] at hu
  simp [hu]

/-- The breaker closes on answers, as many as the threshold and to different
requests, that are recorded while it is half open. -/
theorem closes_on_recorded_successes (hrun : (requests t₀).Run h m) {before after : List CircuitUse}
    {u : CircuitUse} (hh : h = before ++ u :: after) (hhalf : u.before.state = .halfOpen)
    (hclosed : u.after.state = .closed) :
    ∃ older o recent, before = older ++ o :: recent ∧ o.before.state = .opened ∧ o.admits ∧
      (∀ v ∈ recent ++ [u], v.before.state = .halfOpen ∧ ¬ v.fails) ∧
      (recent ++ [u]).countP CircuitUse.succeeds = cbSuccessThreshold ∧
      (((recent ++ [u]).filter CircuitUse.succeeds).map CircuitUse.client).Nodup ∧
      ∀ v ∈ recent ++ [u], v.succeeds → ∃ a ∈ before, a.client = v.client ∧ a.admits := by
  subst hh
  obtain ⟨haccounted, m', hrun'⟩ := requests_split hrun
  obtain ⟨hsucceeds, hcount⟩ := haccounted.recovers hhalf hclosed
  have hfails : ¬ u.fails := by
    intro hfails
    simp only [CircuitUse.succeeds, CircuitUse.fails, beq_iff_eq] at hsucceeds hfails
    simp [hsucceeds] at hfails
  obtain ⟨older, o, recent, rfl, hopened, hadmits, hnone, hrecent⟩ := haccounted.period hhalf
  have hanswered := requests_answered hrun'
  refine ⟨older, o, recent, rfl, hopened, hadmits, ?_, ?_, ?_, ?_⟩
  · exact List.forall_mem_append.mpr ⟨hnone, List.forall_mem_singleton.mpr ⟨hhalf, hfails⟩⟩
  · simp [hrecent, hsucceeds, hcount]
  · refine hanswered.once.sublist (List.Sublist.map _ ?_)
    have htail : (recent ++ [u]).Sublist (older ++ o :: recent ++ [u]) := by
      have hsuffix : recent ++ [u] <:+ older ++ o :: recent ++ [u] := ⟨older ++ [o], by simp⟩
      exact hsuffix.sublist
    exact (filter_succeeds_sublist _).trans (htail.filter _)
  · intro v hv hvsucceeds
    have hmem : v ∈ older ++ o :: recent ++ [u] := by
      rcases List.mem_append.mp hv with hv | hv
      · simp [hv]
      · simp [List.mem_singleton.mp hv]
    have hop : v.op ≠ .check := by
      simp only [CircuitUse.succeeds, beq_iff_eq] at hvsucceeds
      simp [hvsucceeds]
    obtain ⟨-, a, ha, hclient, haadmits⟩ := hanswered.outcome v hmem hop
    rcases List.mem_append.mp ha with ha | ha
    · exact ⟨a, ha, hclient, haadmits⟩
    · obtain rfl := List.mem_singleton.mp ha
      simp only [CircuitUse.succeeds, CircuitUse.admits, Bool.and_eq_true, beq_iff_eq] at hsucceeds haadmits
      simp [hsucceeds] at haadmits

end Runs

/-- Every closing rests on answers to requests let through in the half-open
period it ends. -/
def FreshEvidence (h : List CircuitUse) : Prop :=
  ∀ before u after, h = before ++ u :: after → u.before.state = .halfOpen → u.after.state = .closed →
    ∃ older o recent, before = older ++ o :: recent ∧ o.before.state = .opened ∧ o.admits ∧
      (∀ v ∈ recent, v.before.state = .halfOpen ∧ ¬ v.fails) ∧
      cbSuccessThreshold ≤ (recent ++ [u]).countP fun v =>
        v.succeeds && (o :: recent).any fun a => a.client == v.client && a.admits

def poll : Request := ⟨1, .getContract "C1"⟩

/-- Requests 5 and 6 are sent, five others time out, request 7 tries the
circuit a minute later, and only then are 5 and 6 answered. -/
def lateAnswers : List RequestChoice :=
  (List.range 7).map (.begin · poll 100) ++ (List.range 5).map (.answer · .timeout 110) ++
    [.begin 7 poll 170, .answer 5 (.response 200 none "") 171, .answer 6 (.response 200 none "") 172]

def lateUses : List CircuitUse :=
  (List.range 7).map (⟨·, .check, 100, {}⟩) ++
    (List.range 5).map (fun i => ⟨i, .recordFailure, 110,
      { failureCount := i, lastFailureAt := if i = 0 then 0 else 110 }⟩) ++
    [⟨7, .check, 170, { state := .opened, failureCount := 5, lastFailureAt := 110 }⟩,
     ⟨5, .recordSuccess, 171, { state := .halfOpen, failureCount := 5, lastFailureAt := 110 }⟩]

def lastAnswer : CircuitUse :=
  ⟨6, .recordSuccess, 172,
    { state := .halfOpen, failureCount := 5, lastFailureAt := 110, halfOpenSuccessCount := 1 }⟩

theorem lateAnswers_run : ∃ m, (requests 0).Run (lateUses ++ [lastAnswer]) m := by
  have hsome : ((requests 0).exec lateAnswers ([], (requests 0).start)).isSome := by decide +kernel
  obtain ⟨y, hy⟩ := Option.isSome_iff_exists.mp hsome
  have huses : ((requests 0).exec lateAnswers ([], (requests 0).start)).map Prod.fst =
      some (lateUses ++ [lastAnswer]) := by decide +kernel
  simp only [hy, Option.map_some, Option.some.injEq] at huses
  exact ⟨y.2, huses ▸ Tx.Shared.exec_run .start hy⟩

theorem closes_on_stale_answers : ¬ ∀ t₀ h m, (requests t₀).Run h m → FreshEvidence h := by
  intro hall
  obtain ⟨m, hrun⟩ := lateAnswers_run
  obtain ⟨older, o, recent, hbefore, hopened, -, hperiod, hcount⟩ :=
    hall 0 _ m hrun lateUses lastAnswer [] rfl (by decide) (by decide +kernel)
  have hsucceeds : ∀ v ∈ lateUses ++ [lastAnswer], v.succeeds → v.client = 5 ∨ v.client = 6 := by
    decide +kernel
  have hsent : ∀ a ∈ lateUses, a.admits → a.client = 5 ∨ a.client = 6 → a.before.state = .closed := by
    decide +kernel
  have hnone : ∀ v ∈ recent ++ [lastAnswer], ¬ (v.succeeds &&
      (o :: recent).any fun a => a.client == v.client && a.admits) := by
    intro v hv hboth
    simp only [Bool.and_eq_true, List.any_eq_true, beq_iff_eq] at hboth
    obtain ⟨hv', a, ha, hclient, hadmits⟩ := hboth
    have hmem : v ∈ lateUses ++ [lastAnswer] := by
      rw [hbefore]
      simp only [List.mem_append, List.mem_cons] at hv ⊢
      tauto
    have hclosed := hsent a (by rw [hbefore]; simp only [List.mem_append]; exact .inr ha) hadmits
      (hclient ▸ hsucceeds v hmem hv')
    rcases List.mem_cons.mp ha with rfl | ha
    · simp [hclosed] at hopened
    · have hhalf := (hperiod a ha).1
      simp [hclosed] at hhalf
  rw [List.countP_eq_zero.mpr hnone] at hcount
  simp [cbSuccessThreshold] at hcount

theorem closes_on_recorded_successes_lateAnswers :
    ∃ older o recent, lateUses = older ++ o :: recent ∧ o.before.state = .opened ∧ o.admits ∧
      (∀ v ∈ recent ++ [lastAnswer], v.before.state = .halfOpen ∧ ¬ v.fails) ∧
      (recent ++ [lastAnswer]).countP CircuitUse.succeeds = cbSuccessThreshold ∧
      (((recent ++ [lastAnswer]).filter CircuitUse.succeeds).map CircuitUse.client).Nodup ∧
      ∀ v ∈ recent ++ [lastAnswer], v.succeeds → ∃ a ∈ lateUses, a.client = v.client ∧ a.admits := by
  obtain ⟨m, hrun⟩ := lateAnswers_run
  exact closes_on_recorded_successes hrun rfl (by decide) (by decide +kernel)

end Ejar
