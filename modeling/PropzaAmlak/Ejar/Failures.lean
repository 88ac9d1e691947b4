import PropzaAmlak.Ejar.Credentials
import PropzaAmlak.Ejar.Recovery

/-! Which replies outside 2xx `_make_request` turns into the exception of their
status, with the effects that go with it. -/

namespace Ejar

variable {status : Nat} {v body errors : Json} {fields : List (String × Json)} {request : Request} {now : ℚ}

/-- The breaker of the company and the cached credentials of all companies. -/
structure ClientState where
  circuit : CircuitBreakerState
  credentials : Nat → Option EjarCredentials

/-- `EjarAuthService.invalidate_cache` -/
def ClientState.invalidateCache (s : ClientState) (companyId : Nat) : ClientState :=
  { s with credentials := Function.update s.credentials companyId none }

def raisesAuthError : Except Exc Json → Bool
  | .ok _ => false
  | .error e => e.cls = .ejarAuthError

/-- What `_make_request` does once a response is there: it reads the body, and records
the success or the failure. -/
def handleResponse (request : Request) (status : Nat) (json : Option Json) (text : String) (now : ℚ) (s : ClientState) :
    Except Exc Json × ClientState :=
  let result := readReply request (.response status json text)
  match recorded result with
  | some .recordSuccess => (result, { s with circuit := circuitRecordSuccess s.circuit })
  | some .recordFailure => (result, { s with circuit := circuitRecordFailure now s.circuit })
  | _ => (result, if raisesAuthError result then s.invalidateCache request.companyId else s)

/-- The exception that a status outside 2xx calls for. -/
def statusClass (status : Nat) : ExcClass :=
  match status with
  | 400 | 422 => .ejarValidationError
  | 401 => .ejarAuthError
  | 403 => .ejarForbiddenError
  | 404 => .ejarNotFoundError
  | 409 => .ejarConflictError
  | 429 => .ejarRateLimitError
  | 500 | 502 | 503 | 504 => .ejarServerError
  | _ => .ejarAPIError

/-- What the status calls for besides. -/
def statusEffect (status companyId : Nat) (now : ℚ) (s : ClientState) : ClientState :=
  if status ∈ [429, 500, 502, 503, 504] then { s with circuit := circuitRecordFailure now s.circuit }
  else if status = 401 then s.invalidateCache companyId
  else s

/-- The exception and the effects depend on the status alone. -/
def TypedFailure (request : Request) (status : Nat) (json : Option Json) (text : String) : Prop :=
  ∀ now s, ∃ e, handleResponse request status json text now s =
    (.error e, statusEffect status request.companyId now s) ∧ e.cls = statusClass status

/-- `errors` is falsy or a list that begins with an object. -/
def ReadableErrors (errors : Json) : Prop :=
  errors.truthy = false ∨ ∃ fields rest, errors = .arr (.obj fields :: rest)

/-- An object whose `source` is an object or missing. -/
def ReadableEntry (e : Json) : Prop :=
  ∃ fields source, e = .obj fields ∧ (Json.lookup fields "source").getD (.obj []) = .obj source

/-- `errors` can be gone through, and every entry read. -/
def ReadableEntries (errors : Json) : Prop :=
  errors = .str "" ∨ errors = .obj [] ∨ ∃ entries, errors = .arr entries ∧ ∀ e ∈ entries, ReadableEntry e

/-- A body that can be read at a status. -/
def ReadableBody (status : Nat) (body : Json) : Prop :=
  ∃ fields, body = .obj fields ∧
    let errors := (Json.lookup fields "errors").getD (.arr [])
    ReadableErrors errors ∧ (status = 400 ∨ status = 422 → ReadableEntries errors)

theorem pyGet_isOk {key : String} {default : Json} : (∃ r, pyGet v key default = .ok r) ↔ ∃ fields, v =
    .obj fields := by
  constructor
  · rintro ⟨r, hr⟩
    cases v with
    | obj fields => exact ⟨fields, rfl⟩
    | _ => simp [pyGet] at hr
  · rintro ⟨fields, rfl⟩
    exact ⟨_, rfl⟩

theorem firstDetail_isOk : (∃ r, firstDetail errors = .ok r) ↔ ReadableErrors errors := by
  unfold firstDetail ReadableErrors
  by_cases htruthy : errors.truthy
  · rw [if_pos htruthy]
    constructor
    · rintro ⟨r, hr⟩
      obtain ⟨first, hfirst, hr⟩ := bind_eq_ok.mp hr
      obtain ⟨fields, rfl⟩ := pyGet_isOk.mp ⟨r, hr⟩
      unfold pyFirst at hfirst
      split at hfirst
      · rename_i x rest
        obtain rfl := Except.ok.inj hfirst
        exact .inr ⟨fields, rest, rfl⟩
      all_goals simp at hfirst
    · rintro (hfalsy | ⟨fields, rest, rfl⟩)
      · simp [htruthy] at hfalsy
      · exact ⟨_, rfl⟩
  · simp [htruthy]

theorem fieldError_isOk : (∃ r, fieldError v = .ok r) ↔ ReadableEntry v := by
  constructor
  · rintro ⟨r, hr⟩
    obtain ⟨source, hsource, hr⟩ := bind_eq_ok.mp hr
    obtain ⟨pointer, hpointer, -⟩ := bind_eq_ok.mp hr
    obtain ⟨fields, rfl⟩ := pyGet_isOk.mp ⟨source, hsource⟩
    obtain ⟨inner, rfl⟩ := pyGet_isOk.mp ⟨pointer, hpointer⟩
    exact ⟨fields, inner, rfl, Except.ok.inj hsource⟩
  · rintro ⟨fields, source, rfl, hsource⟩
    exact ⟨_, by simp [fieldError, pyGet, hsource]; rfl⟩

theorem mapM_fieldError_isOk {entries : List Json} :
    (∃ r, entries.mapM fieldError = .ok r) ↔ ∀ e ∈ entries, ReadableEntry e := by
  induction entries with
  | nil =>
    simp only [List.not_mem_nil, false_implies, implies_true, iff_true]
    exact ⟨[], rfl⟩
  | cons entry rest ih =>
    rw [List.forall_mem_cons, ← ih, ← fieldError_isOk, List.mapM_cons]
    constructor
    · rintro ⟨r, hr⟩
      obtain ⟨first, hfirst, hr⟩ := bind_eq_ok.mp hr
      obtain ⟨others, hothers, -⟩ := bind_eq_ok.mp hr
      exact ⟨⟨first, hfirst⟩, others, hothers⟩
    · rintro ⟨⟨first, hfirst⟩, others, hothers⟩
      exact ⟨first :: others, by rw [hfirst, hothers]; rfl⟩

theorem not_readableEntry_str {text : String} : ¬ReadableEntry (.str text) := by
  rintro ⟨fields, source, heq, -⟩
  cases heq

theorem entries_isOk : (∃ entries r, pyIter errors = .ok entries ∧ entries.mapM fieldError = .ok r) ↔
    ReadableEntries errors := by
  unfold ReadableEntries
  constructor
  · rintro ⟨entries, r, hentries, hr⟩
    have hall := mapM_fieldError_isOk.mp ⟨r, hr⟩
    unfold pyIter at hentries
    split at hentries
    · obtain rfl := Except.ok.inj hentries
      exact .inr (.inr ⟨_, rfl, hall⟩)
    · rename_i text
      obtain rfl := Except.ok.inj hentries
      cases hchars : text.toList with
      | nil =>
        obtain rfl : text = "" := String.toList_inj.mp hchars
        exact .inl rfl
      | cons c rest => exact absurd (hall _ (List.mem_map.mpr ⟨c, by simp [hchars], rfl⟩)) not_readableEntry_str
    · rename_i fields
      obtain rfl := Except.ok.inj hentries
      cases fields with
      | nil => exact .inr (.inl rfl)
      | cons kv rest => exact absurd (hall (.str kv.1) (by simp)) not_readableEntry_str
    · cases hentries
  · rintro (rfl | rfl | ⟨entries, rfl, hall⟩)
    · exact ⟨[], [], rfl, rfl⟩
    · exact ⟨[], [], rfl, rfl⟩
    · obtain ⟨r, hr⟩ := mapM_fieldError_isOk.mpr hall
      exact ⟨entries, r, rfl, hr⟩

theorem ejarException_cls {message : String} {e : Exc} (h : ejarException status body errors message = .ok e) :
    e.cls = statusClass status := by
  unfold ejarException at h
  split at h
  case h_1 | h_2 =>
    obtain ⟨_, -, h⟩ := bind_eq_ok.mp h
    obtain ⟨_, -, h⟩ := bind_eq_ok.mp h
    cases h
    rfl
  case h_6 =>
    obtain ⟨_, -, h⟩ := bind_eq_ok.mp h
    cases h
    rfl
  all_goals
    cases h
    simp [statusClass, *]

theorem ejarException_isOk {message : String} : (∃ e, ejarException status (.obj fields) errors message = .ok e) ↔
    (status = 400 ∨ status = 422 → ReadableEntries errors) := by
  rw [← entries_isOk]
  by_cases hvalidation : status = 400 ∨ status = 422
  · simp only [hvalidation, true_implies]
    constructor
    · rintro ⟨e, he⟩
      rcases hvalidation with rfl | rfl
      · obtain ⟨entries, hentries, he⟩ := bind_eq_ok.mp he
        obtain ⟨r, hr, -⟩ := bind_eq_ok.mp he
        exact ⟨entries, r, hentries, hr⟩
      · obtain ⟨entries, hentries, he⟩ := bind_eq_ok.mp he
        obtain ⟨r, hr, -⟩ := bind_eq_ok.mp he
        exact ⟨entries, r, hentries, hr⟩
    · rintro ⟨entries, r, hentries, hr⟩
      rcases hvalidation with rfl | rfl
      · exact ⟨_, bind_eq_ok.mpr ⟨entries, hentries, bind_eq_ok.mpr ⟨r, hr, rfl⟩⟩⟩
      · exact ⟨_, bind_eq_ok.mpr ⟨entries, hentries, bind_eq_ok.mpr ⟨r, hr, rfl⟩⟩⟩
  · simp only [hvalidation, false_implies, iff_true]
    unfold ejarException
    split
    case h_1 | h_2 => simp at hvalidation
    all_goals exact ⟨_, rfl⟩

theorem statusClass_ejar (status : Nat) : (statusClass status).isEjarAPIError := by
  unfold statusClass
  split <;> rfl

/-- The exception of the status is raised just when the body can be read. -/
theorem raises_statusClass_iff (hstatus : ¬(200 ≤ status ∧ status < 300)) :
    (∃ e, raiseForEjarStatus status body = .error e ∧ e.cls = statusClass status) ↔ ReadableBody status body := by
  constructor
  · rintro ⟨e, he, hcls⟩
    have hejar : e.cls.isEjarAPIError := hcls ▸ statusClass_ejar status
    obtain ⟨-, errors, firstMsg, fallback, herrors, hfirst, -, hexc⟩ := raiseForEjarStatus_of_ejar he hejar
    obtain ⟨fields, rfl⟩ := pyGet_isOk.mp ⟨errors, herrors⟩
    obtain rfl := Except.ok.inj herrors
    exact ⟨fields, rfl, firstDetail_isOk.mp ⟨firstMsg, hfirst⟩, ejarException_isOk.mp ⟨e, hexc⟩⟩
  · rintro ⟨fields, rfl, hreadable, hentries⟩
    obtain ⟨firstMsg, hfirst⟩ := firstDetail_isOk.mpr hreadable
    let fallback := (Json.lookup fields "message").getD (.str ("HTTP " ++ toString status))
    obtain ⟨e, he⟩ : ∃ e, ejarException status (.obj fields) _ (firstMsg.orElse fallback).text = .ok e :=
      ejarException_isOk.mpr hentries
    refine ⟨e, ?_, ejarException_cls he⟩
    rw [raiseForEjarStatus, if_neg hstatus]
    refine bind_eq_error.mpr (.inr ⟨_, rfl, ?_⟩)
    refine bind_eq_error.mpr (.inr ⟨firstMsg, hfirst, ?_⟩)
    refine bind_eq_error.mpr (.inr ⟨_, rfl, ?_⟩)
    exact bind_eq_error.mpr (.inr ⟨e, he, rfl⟩)

theorem recorded_of_statusClass {e : Exc} (hcls : e.cls = statusClass status) :
    recorded (.error e) = if status ∈ [429, 500, 502, 503, 504] then some .recordFailure else none := by
  unfold statusClass at hcls
  split at hcls <;> simp_all [recorded]

theorem raisesAuthError_of_statusClass {e : Exc} (hcls : e.cls = statusClass status) :
    raisesAuthError (.error e) = decide (status = 401) := by
  unfold statusClass at hcls
  split at hcls <;> simp_all [raisesAuthError]

/-- With the exception of the status come its effects. -/
theorem handleResponse_of_statusClass {json : Option Json} {text : String} {e : Exc}
    (he : raiseForEjarStatus status (responseBody json text) = .error e) (hcls : e.cls = statusClass status)
    (now : ℚ) (s : ClientState) :
    handleResponse request status json text now s = (.error e, statusEffect status request.companyId now s) := by
  have hread : readReply request (.response status json text) = .error e := by
    rw [readReply, he]
    rfl
  simp only [handleResponse, hread, recorded_of_statusClass hcls, raisesAuthError_of_statusClass hcls, statusEffect]
  by_cases hfailure : status ∈ [429, 500, 502, 503, 504]
  · simp [hfailure]
  · simp [hfailure]

theorem handleResponse_fst {json : Option Json} {text : String} {s : ClientState} :
    (handleResponse request status json text now s).1 = readReply request (.response status json text) := by
  simp only [handleResponse]
  split <;> rfl

theorem typed_failure_iff {json : Option Json} {text : String} (hstatus : ¬(200 ≤ status ∧ status < 300)) :
    TypedFailure request status json text ↔ ReadableBody status (responseBody json text) := by
  rw [← raises_statusClass_iff hstatus]
  constructor
  · intro h
    obtain ⟨e, he, hcls⟩ := h 0 ⟨{}, fun _ => none⟩
    have hread := handleResponse_fst.symm.trans (congrArg Prod.fst he)
    rw [readReply] at hread
    cases hraise : raiseForEjarStatus status (responseBody json text) with
    | ok _ => simp [hraise, Except.map] at hread
    | error e' =>
      simp only [hraise, Except.map, Except.error.injEq] at hread
      exact ⟨e', rfl, hread ▸ hcls⟩
  · rintro ⟨e, he, hcls⟩ now s
    exact ⟨e, handleResponse_of_statusClass he hcls now s, hcls⟩

theorem typed_failure_serverError : TypedFailure ⟨1, .getContract "C1"⟩ 503 none "Service Unavailable" ↔
    ReadableBody 503 (responseBody none "Service Unavailable") :=
  typed_failure_iff (by decide)

/-- A 503 whose body is an empty list raises an `AttributeError`, and the breaker does
not learn of it. -/
theorem failure_not_typed : ¬∀ request status json text, ¬(200 ≤ status ∧ status < 300) →
    TypedFailure request status json text := by
  intro h
  obtain ⟨e, he, hcls⟩ := h ⟨1, .getContract "C1"⟩ 503 (some (.arr [])) "[]" (by decide) 0 ⟨{}, fun _ => none⟩
  obtain rfl := Except.error.inj (congrArg Prod.fst he)
  exact absurd hcls (by decide)

end Ejar
