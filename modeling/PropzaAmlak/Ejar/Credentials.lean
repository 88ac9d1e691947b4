import PropzaAmlak.Ejar.Contract
import PropzaAmlak.Ejar.Exceptions
import PropzaAmlak.Tx.ReadThrough
import Mathlib.Tactic.NormNum

/-! `services/auth_service.py`: the credentials of a company, their resolution
from the configuration, and the cache in front of it. -/

namespace Ejar

def envUat : String := "uat"
def envProduction : String := "production"
def validEnvironments : List String := [envUat, envProduction]
def ttlSeconds : ℚ := 300

structure EjarCredentials where
  apiKey : String
  apiSecret : String
  companyId : Nat
  environment : String
  apiKey_ne : apiKey ≠ ""
  apiSecret_ne : apiSecret ≠ ""
  environment_mem : environment ∈ validEnvironments

/-- The constructor with its `__post_init__`. -/
def ejarCredentials (apiKey apiSecret : String) (companyId : Nat) (environment : String) :
    Except Exc EjarCredentials :=
  if hkey : apiKey = "" then .error { cls := .ejarConfigurationError, message := "api_key is empty" }
  else if hsecret : apiSecret = "" then
    .error { cls := .ejarConfigurationError, message := "api_secret is empty" }
  else if henvironment : environment ∈ validEnvironments then
    .ok ⟨apiKey, apiSecret, companyId, environment, hkey, hsecret, henvironment⟩
  else
    .error { cls := .ejarConfigurationError
             message := "Unknown environment '" ++ environment ++
               "'. Valid: ['production', 'uat']" }

/-- A record of `propza.ejar.api.token`; a value it lacks is empty. -/
structure Token where
  expiresAt : Option Datetime
  apiKey : String
  apiSecretKey : String
  environment : String

/-- What a resolution reads. `tokens` finds the latest active token of a company
where that model is installed; `params` are the system parameters. -/
structure Configuration where
  now : Datetime
  printed : Datetime → String
  tokens : Option (Nat → Option Token)
  params : String → Option String

def Configuration.getParam (config : Configuration) (key default : String) : String :=
  match config.params key with
  | some value => if value = "" then default else value
  | none => default

def fromTokenModel (config : Configuration) (companyId : Nat) : Except Exc (Option EjarCredentials) :=
  match config.tokens.bind (· companyId) with
  | none => .ok none
  | some token =>
    match token.expiresAt.filter (· < config.now) with
    | some expiresAt =>
      .error { cls := .ejarTokenExpiredError
               message := "Ejar token for company " ++ toString companyId ++ " expired at " ++
                 config.printed expiresAt }
    | none =>
      if token.apiKey = "" ∨ token.apiSecretKey = "" then .ok none
      else
        let environment := if token.environment = "" then envUat else token.environment
        (ejarCredentials token.apiKey token.apiSecretKey companyId environment).map some

/-- Whatever is raised here is logged and swallowed. -/
def fromConfigParams (config : Configuration) (companyId : Nat) (companyScoped : Bool) : Option EjarCredentials :=
  let suffix := if companyScoped then ".company_" ++ toString companyId else ""
  let apiKey := config.getParam ("ejar.api.key" ++ suffix) ""
  let apiSecret := config.getParam ("ejar.api.secret" ++ suffix) ""
  let environment := config.getParam ("ejar.api.environment" ++ suffix) envUat
  if apiKey = "" ∨ apiSecret = "" then none
  else
    let environment := if environment ∈ validEnvironments then environment else envUat
    (ejarCredentials apiKey apiSecret companyId environment).toOption

def resolve (config : Configuration) (companyId : Nat) : Except Exc EjarCredentials :=
  match fromTokenModel config companyId with
  | .error e => .error e
  | .ok (some creds) => .ok creds
  | .ok none =>
    match (fromConfigParams config companyId true).or (fromConfigParams config companyId false) with
    | some creds => .ok creds
    | none =>
      .error { cls := .ejarConfigurationError
               message := "No Ejar API credentials configured for company " ++ toString companyId ++
                 ". Configure ejar.api.key.company_\x7bid\x7d in System Parameters or " ++
                 "create a propza.ejar.api.token record." }

theorem ejarCredentials_companyId {apiKey apiSecret environment : String} {companyId : Nat}
    {creds : EjarCredentials} (hcreds : ejarCredentials apiKey apiSecret companyId environment = .ok creds) :
    creds.companyId = companyId := by
  unfold ejarCredentials at hcreds
  split at hcreds
  · cases hcreds
  split at hcreds
  · cases hcreds
  split at hcreds
  · simp only [Except.ok.injEq] at hcreds
    rw [← hcreds]
  · cases hcreds

theorem fromTokenModel_companyId {config : Configuration} {companyId : Nat} {creds : EjarCredentials}
    (hcreds : fromTokenModel config companyId = .ok (some creds)) : creds.companyId = companyId := by
  unfold fromTokenModel at hcreds
  split at hcreds
  · cases hcreds
  split at hcreds
  · cases hcreds
  split at hcreds
  · cases hcreds
  · rename_i token _ _ _ _
    cases hmade : ejarCredentials token.apiKey token.apiSecretKey companyId
        (if token.environment = "" then envUat else token.environment) with
    | error e => simp [hmade, Except.map] at hcreds
    | ok made =>
      simp only [hmade, Except.map, Except.ok.injEq, Option.some.injEq] at hcreds
      exact hcreds ▸ ejarCredentials_companyId hmade

theorem fromConfigParams_companyId {config : Configuration} {companyId : Nat} {companyScoped : Bool}
    {creds : EjarCredentials} (hcreds : fromConfigParams config companyId companyScoped = some creds) :
    creds.companyId = companyId := by
  simp only [fromConfigParams, Option.ite_none_left_eq_some] at hcreds
  obtain ⟨-, hcreds⟩ := hcreds
  generalize hmade : ejarCredentials _ _ _ _ = made at hcreds
  cases made with
  | error e => cases hcreds
  | ok made =>
    simp only [Except.toOption, Option.some.injEq] at hcreds
    exact hcreds ▸ ejarCredentials_companyId hmade

theorem resolve_companyId (config : Configuration) (companyId : Nat) (creds : EjarCredentials)
    (hcreds : resolve config companyId = .ok creds) : creds.companyId = companyId := by
  unfold resolve at hcreds
  split at hcreds
  · cases hcreds
  · simp only [Except.ok.injEq] at hcreds
    exact hcreds ▸ fromTokenModel_companyId (by assumption)
  split at hcreds
  · rename_i made hmade
    simp only [Except.ok.injEq] at hcreds
    rcases Option.or_eq_some_iff.mp hmade with hscoped | ⟨-, hglobal⟩
    · exact hcreds ▸ fromConfigParams_companyId hscoped
    · exact hcreds ▸ fromConfigParams_companyId hglobal
  · cases hcreds

/-- `get_credentials` and `invalidate_cache` by any threads, while the
configuration is edited. -/
def credentialCache (config : Configuration) (t₀ : ℚ) :
    Tx.Shared (Tx.ReadThrough.State Nat EjarCredentials Configuration)
      (Tx.ReadThrough.Choice Nat Configuration) (Tx.ReadThrough.Label Nat EjarCredentials Exc) :=
  Tx.ReadThrough.cache ttlSeconds EjarCredentials.companyId resolve config t₀

open Tx.ReadThrough (Settled Fresh Known)

theorem credential_rotation {config : Configuration} {t₀ : ℚ}
    {h : List (Tx.ReadThrough.Label Nat EjarCredentials Exc)}
    {m : Tx.ReadThrough.State Nat EjarCredentials Configuration}
    (hrun : (credentialCache config t₀).Run h m) :
    (∀ x ∈ h, ∀ i c l, x.returned = some (i, c, l) → l.value.companyId = c ∧ Known h c l) ∧
    ((credentialCache config t₀).RunWithin Settled h m → Fresh h) ∧
    ∀ i c l, m.caller i = .resolved c l → ∃ h' m',
      (credentialCache config t₀).Run (h ++ .invalidate c :: h') m' ∧ ¬ Fresh (h ++ .invalidate c :: h') := by
  have ho := Tx.ReadThrough.origin resolve_companyId hrun
  refine ⟨?_, Tx.ReadThrough.fresh_of_settled resolve_companyId, ?_⟩
  · intro x hx i c l hl
    have hknown := ho.returned x hx i c l hl
    exact ⟨ho.key c l hknown, hknown⟩
  · intro i c l hi
    exact Tx.ReadThrough.stale_of_unsettled (by norm_num [ttlSeconds]) resolve_companyId hrun hi

def configured (key : String) : Configuration where
  now := 0
  printed _ := "2025-01-01 00:00:00"
  tokens := none
  params := fun name =>
    if name = "ejar.api.key.company_7" then some key
    else if name = "ejar.api.secret.company_7" then some "s3cret"
    else none

/-- A call misses the cache and reads the key that is then replaced. -/
def overtaken : List (Tx.ReadThrough.Choice Nat Configuration) :=
  [.begin 0 7, .lookup 0 0, .load 0, .configure (configured "rotated")]

theorem overtaken_run :
    ∃ h m l, (credentialCache (configured "original") 0).Run h m ∧ m.caller 0 = .resolved 7 l := by
  obtain ⟨creds, hcreds⟩ : ∃ creds, resolve (configured "original") 7 = .ok creds := by
    have hok : (resolve (configured "original") 7).isOk := by decide +kernel
    cases hresolve : resolve (configured "original") 7 with
    | ok creds => exact ⟨creds, rfl⟩
    | error e => simp [hresolve, Except.isOk, Except.toBool] at hok
  have hexec : ∃ y, (credentialCache (configured "original") 0).exec overtaken
      ([], (credentialCache (configured "original") 0).start) = some y ∧
      y.2.caller 0 = .resolved 7 ⟨creds, 2⟩ := by
    simp [Tx.Shared.exec, credentialCache, Tx.ReadThrough.cache, Tx.ReadThrough.State.step,
      Tx.ReadThrough.State.moved, Tx.ReadThrough.State.lookup, Tx.ReadThrough.State.load,
      Tx.ReadThrough.get, overtaken, hcreds]
  obtain ⟨y, hy, hcaller⟩ := hexec
  exact ⟨y.1, y.2, _, Tx.Shared.exec_run .start hy, hcaller⟩

theorem rotation_overtaken : ¬ ∀ config t₀ h m, (credentialCache config t₀).Run h m →
    (∀ x ∈ h, ∀ i c l, x.returned = some (i, c, l) → l.value.companyId = c) ∧ Fresh h := by
  intro hall
  obtain ⟨h, m, l, hrun, hcaller⟩ := overtaken_run
  obtain ⟨h', m', hrun', hstale⟩ :=
    Tx.ReadThrough.stale_of_unsettled (by norm_num [ttlSeconds]) resolve_companyId hrun hcaller
  exact hstale (hall _ _ _ _ hrun').2

theorem credential_rotation_overtaken : ∃ h m,
    (∀ x ∈ h, ∀ i c l, x.returned = some (i, c, l) → l.value.companyId = c ∧ Known h c l) ∧
    ((credentialCache (configured "original") 0).RunWithin Settled h m → Fresh h) ∧
    ∀ i c l, m.caller i = .resolved c l → ∃ h' m',
      (credentialCache (configured "original") 0).Run (h ++ .invalidate c :: h') m' ∧
      ¬ Fresh (h ++ .invalidate c :: h') := by
  obtain ⟨h, m, l, hrun, hcaller⟩ := overtaken_run
  exact ⟨h, m, credential_rotation hrun⟩

end Ejar
