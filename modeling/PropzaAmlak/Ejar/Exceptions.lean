import PropzaAmlak.Data.Json

/-! `services/exceptions.py`: the exception classes, and the mapping of HTTP
statuses to them. -/

namespace Ejar

inductive ExcClass where
  | ejarAPIError
  | ejarNetworkError
  | ejarTimeoutError
  | ejarAuthError
  | ejarForbiddenError
  | ejarRateLimitError
  | ejarValidationError
  | ejarNotFoundError
  | ejarConflictError
  | ejarServerError
  | ejarIdentityValidationError
  | ejarTokenError
  | ejarTokenExpiredError
  | ejarCircuitOpenError
  | ejarConfigurationError
  | ejarPayloadError
  | ejarWebhookError
  | ejarWebhookSignatureInvalid
  | ejarWebhookSignatureMissing
  | ejarWebhookTimestampMissing
  | ejarWebhookReplayAttack
  | ejarWebhookInvalidJSON
  | ejarWebhookConfigMissing
  | ejarWebhookContractNotFound
  | ejarWebhookUnknownEventType
  | ejarWebhookIdempotencyKeyMissing
  | userError
  | validationError
  | attributeError
  | typeError
  | keyError
  | valueError
deriving DecidableEq

/-- `isinstance(exc, EjarWebhookError)` -/
def ExcClass.isWebhookError : ExcClass → Bool
  | ejarWebhookError => true
  | ejarWebhookSignatureInvalid => true
  | ejarWebhookSignatureMissing => true
  | ejarWebhookTimestampMissing => true
  | ejarWebhookReplayAttack => true
  | ejarWebhookInvalidJSON => true
  | ejarWebhookConfigMissing => true
  | ejarWebhookContractNotFound => true
  | ejarWebhookUnknownEventType => true
  | ejarWebhookIdempotencyKeyMissing => true
  | _ => false

/-- `isinstance(exc, EjarAPIError)`: every class of the module. -/
def ExcClass.isEjarAPIError : ExcClass → Bool
  | userError => false
  | validationError => false
  | attributeError => false
  | typeError => false
  | keyError => false
  | valueError => false
  | _ => true

def ExcClass.isPermanent : ExcClass → Bool
  | ejarForbiddenError => true
  | ejarValidationError => true
  | ejarNotFoundError => true
  | ejarIdentityValidationError => true
  | ejarTokenError => true
  | ejarTokenExpiredError => true
  | ejarConfigurationError => true
  | ejarPayloadError => true
  | ejarWebhookSignatureInvalid => true
  | ejarWebhookSignatureMissing => true
  | ejarWebhookTimestampMissing => true
  | ejarWebhookInvalidJSON => true
  | ejarWebhookConfigMissing => true
  | ejarWebhookContractNotFound => true
  | ejarWebhookIdempotencyKeyMissing => true
  | _ => false

structure Exc where
  cls : ExcClass
  message : String
  httpStatus : Option Nat := none
  existingResource : Json := .obj []
  fieldErrors : List (Json × Json) := []
  retryAfter : Nat := 60
  odooField : String := ""
  odooModel : String := ""

/-- `v.get(key, default)` -/
def pyGet (v : Json) (key : String) (default : Json) : Except Exc Json :=
  match v with
  | .obj fields => .ok ((Json.lookup fields key).getD default)
  | v => .error { cls := .attributeError, message := "'" ++ v.typeName ++ "' object has no attribute 'get'" }

/-- `v[0]` -/
def pyFirst (v : Json) : Except Exc Json :=
  match v with
  | .arr (x :: _) => .ok x
  | .str s => .ok (.str (String.ofList (s.toList.take 1)))
  | .obj _ => .error { cls := .keyError, message := "0" }
  | v => .error { cls := .typeError, message := "'" ++ v.typeName ++ "' object is not subscriptable" }

/-- `for e in v` -/
def pyIter (v : Json) : Except Exc (List Json) :=
  match v with
  | .arr xs => .ok xs
  | .str s => .ok (s.toList.map fun c => .str (String.ofList [c]))
  | .obj fields => .ok (fields.map fun kv => .str kv.1)
  | v => .error { cls := .typeError, message := "'" ++ v.typeName ++ "' object is not iterable" }

def fieldError (e : Json) : Except Exc (Json × Json) := do
  let source ← pyGet e "source" (.obj [])
  let pointer ← pyGet source "pointer" (.str "")
  let detail ← pyGet e "detail" (.str "")
  return (pointer, detail)

def firstDetail (errors : Json) : Except Exc Json :=
  if errors.truthy then do
    let first ← pyFirst errors
    pyGet first "detail" (.str "")
  else .ok (.str "")

/-- The exception for a status outside 2xx, or the one that reading the body
raises instead. -/
def ejarException (httpStatus : Nat) (responseBody errors : Json) (message : String) :
    Except Exc Exc :=
  match httpStatus with
  | 400 | 422 => do
    let entries ← pyIter errors
    let fieldErrors ← entries.mapM fieldError
    return { cls := .ejarValidationError, message, httpStatus := some httpStatus, fieldErrors }
  | 401 => .ok { cls := .ejarAuthError, message, httpStatus := some httpStatus }
  | 403 => .ok { cls := .ejarForbiddenError, message, httpStatus := some httpStatus }
  | 404 => .ok { cls := .ejarNotFoundError, message, httpStatus := some httpStatus }
  | 409 => do
    let existing ← pyGet responseBody "data" .null
    return { cls := .ejarConflictError, message, httpStatus := some httpStatus,
             existingResource := existing.orElse (.obj []) }
  | 429 => .ok { cls := .ejarRateLimitError, message, httpStatus := some httpStatus }
  | 500 | 502 | 503 | 504 => .ok { cls := .ejarServerError, message, httpStatus := some httpStatus }
  | _ => .ok { cls := .ejarAPIError, httpStatus := some httpStatus
               message := "Unexpected HTTP " ++ toString httpStatus ++ ": " ++ message }

/-- Returns on 2xx and raises on every other status. -/
def raiseForEjarStatus (httpStatus : Nat) (responseBody : Json) : Except Exc Unit :=
  if 200 ≤ httpStatus ∧ httpStatus < 300 then .ok () else do
    let errors ← pyGet responseBody "errors" (.arr [])
    let firstMsg ← firstDetail errors
    let fallback ← pyGet responseBody "message" (.str ("HTTP " ++ toString httpStatus))
    let exc ← ejarException httpStatus responseBody errors (firstMsg.orElse fallback).text
    throw exc

theorem bind_eq_error {ε α β : Type} {x : Except ε α} {f : α → Except ε β} {e : ε} :
    (x >>= f) = .error e ↔ x = .error e ∨ ∃ a, x = .ok a ∧ f a = .error e := by
  cases x <;> simp [bind, Except.bind]

theorem bind_eq_ok {ε α β : Type} {x : Except ε α} {f : α → Except ε β} {b : β} :
    (x >>= f) = .ok b ↔ ∃ a, x = .ok a ∧ f a = .ok b := by
  cases x <;> simp [bind, Except.bind]

/-! What reading a body of another shape raises is no exception of the module. -/

theorem pyGet_foreign {v default : Json} {key : String} {e : Exc} (he : pyGet v key default = .error e) :
    e.cls.isEjarAPIError = false := by
  cases v
  all_goals simp only [pyGet, Except.error.injEq, reduceCtorEq] at he
  all_goals simp [← he, ExcClass.isEjarAPIError]

theorem pyFirst_foreign {v : Json} {e : Exc} (he : pyFirst v = .error e) : e.cls.isEjarAPIError = false := by
  unfold pyFirst at he
  split at he
  all_goals simp only [Except.error.injEq, reduceCtorEq] at he
  all_goals simp [← he, ExcClass.isEjarAPIError]

theorem pyIter_foreign {v : Json} {e : Exc} (he : pyIter v = .error e) : e.cls.isEjarAPIError = false := by
  unfold pyIter at he
  split at he
  all_goals simp only [Except.error.injEq, reduceCtorEq] at he
  all_goals simp [← he, ExcClass.isEjarAPIError]

theorem fieldError_foreign {v : Json} {e : Exc} (he : fieldError v = .error e) : e.cls.isEjarAPIError = false := by
  rcases bind_eq_error.mp he with he | ⟨_, -, he⟩
  · exact pyGet_foreign he
  rcases bind_eq_error.mp he with he | ⟨_, -, he⟩
  · exact pyGet_foreign he
  rcases bind_eq_error.mp he with he | ⟨_, -, he⟩
  · exact pyGet_foreign he
  · cases he

theorem mapM_fieldError_foreign {vs : List Json} {e : Exc} (he : vs.mapM fieldError = .error e) :
    e.cls.isEjarAPIError = false := by
  induction vs with
  | nil => cases he
  | cons v vs ih =>
    rw [List.mapM_cons] at he
    rcases bind_eq_error.mp he with he | ⟨_, -, he⟩
    · exact fieldError_foreign he
    rcases bind_eq_error.mp he with he | ⟨_, -, he⟩
    · exact ih he
    · cases he

theorem firstDetail_foreign {v : Json} {e : Exc} (he : firstDetail v = .error e) : e.cls.isEjarAPIError = false := by
  unfold firstDetail at he
  split at he
  · rcases bind_eq_error.mp he with he | ⟨_, -, he⟩
    · exact pyFirst_foreign he
    · exact pyGet_foreign he
  · cases he

theorem ejarException_foreign {status : Nat} {body errors : Json} {message : String} {e : Exc}
    (he : ejarException status body errors message = .error e) : e.cls.isEjarAPIError = false := by
  unfold ejarException at he
  split at he
  case h_1 | h_2 =>
    rcases bind_eq_error.mp he with he | ⟨_, -, he⟩
    · exact pyIter_foreign he
    rcases bind_eq_error.mp he with he | ⟨_, -, he⟩
    · exact mapM_fieldError_foreign he
    · cases he
  case h_6 =>
    rcases bind_eq_error.mp he with he | ⟨_, -, he⟩
    · exact pyGet_foreign he
    · cases he
  all_goals cases he

/-- An exception of the module is the one that the status calls for, raised last. -/
theorem raiseForEjarStatus_of_ejar {status : Nat} {body : Json} {e : Exc} (he : raiseForEjarStatus status body =
    .error e)
    (hcls : e.cls.isEjarAPIError) : ¬(200 ≤ status ∧ status < 300) ∧ ∃ errors firstMsg fallback,
      pyGet body "errors" (.arr []) = .ok errors ∧ firstDetail errors = .ok firstMsg ∧
      pyGet body "message" (.str ("HTTP " ++ toString status)) = .ok fallback ∧
      ejarException status body errors (firstMsg.orElse fallback).text = .ok e := by
  unfold raiseForEjarStatus at he
  split at he
  · cases he
  rename_i hstatus
  rcases bind_eq_error.mp he with he | ⟨errors, herrors, he⟩
  · simp [pyGet_foreign he] at hcls
  rcases bind_eq_error.mp he with he | ⟨firstMsg, hfirst, he⟩
  · simp [firstDetail_foreign he] at hcls
  rcases bind_eq_error.mp he with he | ⟨fallback, hfallback, he⟩
  · simp [pyGet_foreign he] at hcls
  rcases bind_eq_error.mp he with he | ⟨_, hexc, he⟩
  · simp [ejarException_foreign he] at hcls
  · cases he
    exact ⟨hstatus, errors, firstMsg, fallback, herrors, hfirst, hfallback, hexc⟩

theorem ejarException_conflict {status : Nat} {body errors : Json} {message : String} {e : Exc}
    (he : ejarException status body errors message = .ok e) (hcls : e.cls = .ejarConflictError) :
    status = 409 ∧ ∃ existing, pyGet body "data" .null = .ok existing ∧
      e.existingResource = existing.orElse (.obj []) := by
  unfold ejarException at he
  split at he
  case h_1 | h_2 =>
    obtain ⟨_, -, he⟩ := bind_eq_ok.mp he
    obtain ⟨_, -, he⟩ := bind_eq_ok.mp he
    cases he
    cases hcls
  case h_6 =>
    obtain ⟨existing, hexisting, he⟩ := bind_eq_ok.mp he
    cases he
    exact ⟨rfl, existing, hexisting, rfl⟩
  all_goals
    cases he
    cases hcls

theorem raiseForEjarStatus_ok_iff {status : Nat} {body : Json} :
    raiseForEjarStatus status body = .ok () ↔ 200 ≤ status ∧ status < 300 := by
  unfold raiseForEjarStatus
  split
  · simp [*]
  · refine iff_of_false (fun hok => ?_) ‹_›
    obtain ⟨_, -, hok⟩ := bind_eq_ok.mp hok
    obtain ⟨_, -, hok⟩ := bind_eq_ok.mp hok
    obtain ⟨_, -, hok⟩ := bind_eq_ok.mp hok
    obtain ⟨_, -, hok⟩ := bind_eq_ok.mp hok
    cases hok

theorem raiseForEjarStatus_conflict {status : Nat} {body : Json} {e : Exc}
    (he : raiseForEjarStatus status body = .error e) (hcls : e.cls = .ejarConflictError) :
    status = 409 ∧ ∃ existing, pyGet body "data" .null = .ok existing ∧
      e.existingResource = existing.orElse (.obj []) := by
  obtain ⟨-, _, _, _, -, -, -, hexc⟩ := raiseForEjarStatus_of_ejar he (by rw [hcls]; rfl)
  exact ejarException_conflict hexc hcls

end Ejar
