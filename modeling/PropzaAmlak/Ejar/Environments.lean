import PropzaAmlak.Ejar.Credentials
import PropzaAmlak.Tx.Lifetimes

/-! The environment of a company as `services/auth_service.py` gives it in two
ways: with the credentials the client uses, and by `get_environment`, from which
the submit wizard decides whether to warn. -/

namespace Ejar

def baseUrls : List (String × String) :=
  [(envUat, "https://uat-ejar3.housingapps.sa/api/v1/ecrs"),
   (envProduction, "https://ejar3.housingapps.sa/api/v1/ecrs")]

/-- `_base_url` of a client made without an environment of its own. -/
def EjarCredentials.baseUrl (creds : EjarCredentials) : Option String := baseUrls.lookup creds.environment

/-- `is_production` of the submit wizard. -/
def isProduction (envName : String) : Bool := envName == envProduction

namespace Configuration

variable (config : Configuration)

def environmentParam (suffix : String) : String := config.getParam ("ejar.api.environment" ++ suffix) ""

def keyed (suffix : String) : Bool :=
  config.getParam ("ejar.api.key" ++ suffix) "" ≠ "" && config.getParam ("ejar.api.secret" ++ suffix) "" ≠ ""

/-- The light read of `get_environment`. -/
def lightEnvironment (companyId : Nat) : String :=
  let env := config.getParam ("ejar.api.environment.company_" ++ toString companyId)
    (config.getParam "ejar.api.environment" envUat)
  if env ∈ validEnvironments then env else envUat

end Configuration

def ofCompany (companyId : Nat) : String := ".company_" ++ toString companyId

/-- What `get_credentials` returns. -/
def getCredentials (config : Configuration) (store : Nat → Option (Tx.ReadThrough.Entry EjarCredentials))
    (now : ℚ) (companyId : Nat) : Except Exc EjarCredentials :=
  match (Tx.ReadThrough.get store now companyId).1 with
  | some cached => .ok cached.value
  | none => resolve config companyId

def getEnvironment (config : Configuration) (store : Nat → Option (Tx.ReadThrough.Entry EjarCredentials))
    (now : ℚ) (companyId : Nat) : String :=
  match (Tx.ReadThrough.get store now companyId).1 with
  | some cached => cached.value.environment
  | none => config.lightEnvironment companyId

/-- Where the credentials of a company come from. -/
inductive Source where
  | expired
  | token (token : Token)
  | scoped
  | unscoped
  | missing

def Token.expired (config : Configuration) (token : Token) : Bool :=
  token.expiresAt.any (· < config.now)

def Token.keyed (token : Token) : Bool := token.apiKey ≠ "" && token.apiSecretKey ≠ ""

def Configuration.paramSource (config : Configuration) (companyId : Nat) : Source :=
  if config.keyed (ofCompany companyId) then .scoped
  else if config.keyed "" then .unscoped
  else .missing

def Configuration.source (config : Configuration) (companyId : Nat) : Source :=
  match config.tokens.bind (· companyId) with
  | none => config.paramSource companyId
  | some token =>
    if token.expired config then .expired
    else if token.keyed then .token token
    else config.paramSource companyId

/-- The parameters of the environment, without a look at the keys, say production. -/
def Configuration.saysProduction (config : Configuration) (companyId : Nat) : Prop :=
  config.environmentParam (ofCompany companyId) = envProduction ∨
    config.environmentParam (ofCompany companyId) = "" ∧ config.environmentParam "" = envProduction

/-- The environment the source of the credentials has and the one the parameters
have are both production or both not. -/
def Configuration.Consistent (config : Configuration) (companyId : Nat) : Prop :=
  match config.source companyId with
  | .token token =>
    token.environment ∉ "" :: validEnvironments ∨
      (token.environment = envProduction ↔ config.saysProduction companyId)
  | .scoped => config.environmentParam (ofCompany companyId) ≠ "" ∨ config.environmentParam "" ≠ envProduction
  | .unscoped =>
    config.environmentParam (ofCompany companyId) = "" ∨
      (config.environmentParam (ofCompany companyId) = envProduction ↔ config.environmentParam "" = envProduction)
  | .expired | .missing => True

section Environments

variable {config : Configuration} {companyId : Nat}

theorem eq_iff_production {x y : String} (hx : x ∈ validEnvironments) (hy : y ∈ validEnvironments) :
    x = y ↔ (x = envProduction ↔ y = envProduction) := by
  simp only [validEnvironments, List.mem_cons, List.not_mem_nil, or_false] at hx hy
  rcases hx with rfl | rfl
  · rcases hy with rfl | rfl
    · simp
    · decide
  · rcases hy with rfl | rfl
    · decide
    · simp

theorem production_of_default {env : String} :
    (if env ∈ validEnvironments then env else envUat) = envProduction ↔ env = envProduction := by
  by_cases hvalid : env ∈ validEnvironments
  · simp [hvalid]
  · have hne : env ≠ envProduction := by
      rintro rfl
      exact hvalid (by decide)
    have huat : envUat ≠ envProduction := by decide
    simp [hvalid, hne, huat]

theorem getParam_default (key default : String) :
    config.getParam key default = if config.getParam key "" = "" then default else config.getParam key "" := by
  unfold Configuration.getParam
  split
  · rename_i value _
    by_cases hempty : value = ""
    · simp [hempty]
    · simp [hempty]
  · simp

theorem getParam_production (key : String) :
    config.getParam key envUat = envProduction ↔ config.getParam key "" = envProduction := by
  rw [getParam_default]
  split
  · rename_i hempty
    rw [hempty]
    decide
  · rfl

theorem environmentParam_ofCompany :
    config.environmentParam (ofCompany companyId) =
      config.getParam ("ejar.api.environment.company_" ++ toString companyId) "" := by
  have hkey : "ejar.api.environment" ++ ofCompany companyId =
      "ejar.api.environment.company_" ++ toString companyId := by
    rw [ofCompany, ← String.append_assoc]
    rfl
  rw [Configuration.environmentParam, hkey]

theorem mem_of_default {env : String} : (if env ∈ validEnvironments then env else envUat) ∈ validEnvironments := by
  split
  · assumption
  · decide

theorem lightEnvironment_mem : config.lightEnvironment companyId ∈ validEnvironments := mem_of_default

theorem lightEnvironment_production :
    config.lightEnvironment companyId = envProduction ↔ config.saysProduction companyId := by
  have hglobal : config.environmentParam "" = config.getParam "ejar.api.environment" "" := by
    simp [Configuration.environmentParam]
  unfold Configuration.lightEnvironment Configuration.saysProduction
  rw [production_of_default, getParam_default, ← environmentParam_ofCompany, hglobal]
  by_cases hscoped : config.environmentParam (ofCompany companyId) = ""
  · have hne : "" ≠ envProduction := by decide
    simp [hscoped, hne, getParam_production]
  · simp [hscoped]

theorem ejarCredentials_ok {apiKey apiSecret environment : String} (companyId : Nat) (hkey : apiKey ≠ "")
    (hsecret : apiSecret ≠ "") (henvironment : environment ∈ validEnvironments) :
    ∃ creds, ejarCredentials apiKey apiSecret companyId environment = .ok creds ∧
      creds.environment = environment := by
  simp [ejarCredentials, hkey, hsecret, henvironment]

theorem keyed_iff {suffix : String} : config.keyed suffix ↔
    config.getParam ("ejar.api.key" ++ suffix) "" ≠ "" ∧ config.getParam ("ejar.api.secret" ++ suffix) "" ≠ "" := by
  simp [Configuration.keyed]

theorem fromConfigParams_of_not_keyed (companyId : Nat) (companyScoped : Bool)
    (hkeyed : ¬ config.keyed (if companyScoped then ofCompany companyId else "")) :
    fromConfigParams config companyId companyScoped = none := by
  rw [keyed_iff, not_and_or, not_not, not_not] at hkeyed
  simp only [ofCompany] at hkeyed
  simp only [fromConfigParams, hkeyed, if_true]

theorem fromConfigParams_of_keyed (companyId : Nat) (companyScoped : Bool)
    (hkeyed : config.keyed (if companyScoped then ofCompany companyId else "")) :
    ∃ creds, fromConfigParams config companyId companyScoped = some creds ∧
      (creds.environment = envProduction ↔
        config.environmentParam (if companyScoped then ofCompany companyId else "") = envProduction) := by
  obtain ⟨hkey, hsecret⟩ := keyed_iff.mp hkeyed
  simp only [ofCompany] at hkey hsecret
  simp only [fromConfigParams, hkey, hsecret, or_self, if_false, Configuration.environmentParam, ofCompany]
  generalize hparam : config.getParam ("ejar.api.environment" ++ _) envUat = environment
  obtain ⟨creds, hcreds, henvironment⟩ := ejarCredentials_ok companyId hkey hsecret mem_of_default
  refine ⟨creds, by rw [hcreds]; rfl, ?_⟩
  rw [henvironment, production_of_default, ← hparam, getParam_production]

theorem fromTokenModel_expired {token : Token} (htoken : config.tokens.bind (· companyId) = some token)
    (hexpired : token.expired config) : ∃ e, fromTokenModel config companyId = .error e := by
  obtain ⟨expiresAt, hexpires, hlt⟩ := (Option.any_eq_true _ _).mp hexpired
  have hfilter : token.expiresAt.filter (· < config.now) = some expiresAt := by
    rw [hexpires, Option.filter_some, if_pos hlt]
  simp only [fromTokenModel, htoken, hfilter]
  exact ⟨_, rfl⟩

theorem expiresAt_filter {token : Token} (hexpired : ¬ token.expired config) :
    token.expiresAt.filter (· < config.now) = none := by
  cases hexpires : token.expiresAt with
  | none => rfl
  | some expiresAt =>
    simp only [Token.expired, hexpires, Option.any_some] at hexpired
    rw [Option.filter_some, if_neg hexpired]

theorem fromTokenModel_unkeyed {token : Token} (htoken : config.tokens.bind (· companyId) = some token)
    (hexpired : ¬ token.expired config) (hkeyed : ¬ token.keyed) :
    fromTokenModel config companyId = .ok none := by
  have hempty : token.apiKey = "" ∨ token.apiSecretKey = "" := by
    simpa [Token.keyed, or_iff_not_imp_left] using hkeyed
  simp only [fromTokenModel, htoken, expiresAt_filter hexpired, hempty, if_true]

theorem fromTokenModel_keyed {token : Token} (htoken : config.tokens.bind (· companyId) = some token)
    (hexpired : ¬ token.expired config) (hkeyed : token.keyed) :
    fromTokenModel config companyId = (ejarCredentials token.apiKey token.apiSecretKey companyId
      (if token.environment = "" then envUat else token.environment)).map some := by
  have hempty : ¬ (token.apiKey = "" ∨ token.apiSecretKey = "") := by
    simpa [Token.keyed, ← not_and_or] using hkeyed
  simp only [fromTokenModel, htoken, expiresAt_filter hexpired, hempty, if_false]

/-- Credentials are found, and are for production exactly if `p` says so. -/
def Resolves (config : Configuration) (companyId : Nat) (p : Prop) : Prop :=
  ∃ creds, resolve config companyId = .ok creds ∧ (creds.environment = envProduction ↔ p)

theorem resolve_of_error {e : Exc} (he : fromTokenModel config companyId = .error e) :
    resolve config companyId = .error e := by
  simp [resolve, he]

theorem resolve_of_token {token : Token} (htoken : config.tokens.bind (· companyId) = some token)
    (hexpired : ¬ token.expired config) (hkeyed : token.keyed) :
    if token.environment ∈ "" :: validEnvironments then
      Resolves config companyId (token.environment = envProduction)
    else ∃ e, resolve config companyId = .error e := by
  have hmodel := fromTokenModel_keyed htoken hexpired hkeyed
  simp only [Token.keyed, Bool.and_eq_true, decide_eq_true_eq] at hkeyed
  obtain ⟨hkey, hsecret⟩ := hkeyed
  split
  · rename_i hmem
    have hvalid : (if token.environment = "" then envUat else token.environment) ∈ validEnvironments := by
      rcases List.mem_cons.mp hmem with hempty | hvalid
      · rw [if_pos hempty]
        decide
      · rw [if_neg (by rintro hempty; rw [hempty] at hvalid; revert hvalid; decide)]
        exact hvalid
    obtain ⟨creds, hcreds, henvironment⟩ := ejarCredentials_ok companyId hkey hsecret hvalid
    refine ⟨creds, by simp [resolve, hmodel, hcreds, Except.map], ?_⟩
    rw [henvironment]
    split
    · rename_i hempty
      rw [hempty]
      decide
    · rfl
  · rename_i hmem
    rw [List.mem_cons, not_or] at hmem
    simp only [hmem.1, if_false] at hmodel
    simp [resolve, hmodel, ejarCredentials, hkey, hsecret, hmem.2, Except.map]

theorem resolve_of_scoped (hnone : fromTokenModel config companyId = .ok none)
    (hkeyed : config.keyed (ofCompany companyId)) :
    Resolves config companyId (config.environmentParam (ofCompany companyId) = envProduction) := by
  obtain ⟨creds, hcreds, henvironment⟩ := fromConfigParams_of_keyed companyId true hkeyed
  exact ⟨creds, by simp [resolve, hnone, hcreds], henvironment⟩

theorem resolve_of_unscoped (hnone : fromTokenModel config companyId = .ok none)
    (hscoped : ¬ config.keyed (ofCompany companyId)) (hkeyed : config.keyed "") :
    Resolves config companyId (config.environmentParam "" = envProduction) := by
  have hfirst := fromConfigParams_of_not_keyed companyId true hscoped
  obtain ⟨creds, hcreds, henvironment⟩ := fromConfigParams_of_keyed companyId false hkeyed
  exact ⟨creds, by simp [resolve, hnone, hfirst, hcreds], henvironment⟩

theorem resolve_of_missing (hnone : fromTokenModel config companyId = .ok none)
    (hscoped : ¬ config.keyed (ofCompany companyId)) (hkeyed : ¬ config.keyed "") :
    ∃ e, resolve config companyId = .error e := by
  have hfirst := fromConfigParams_of_not_keyed companyId true hscoped
  have hsecond := fromConfigParams_of_not_keyed companyId false hkeyed
  simp [resolve, hnone, hfirst, hsecond]

/-- Without the cache the two ways agree. -/
def LightReadAgrees (config : Configuration) (companyId : Nat) : Prop :=
  ∀ creds, resolve config companyId = .ok creds → config.lightEnvironment companyId = creds.environment

theorem lightReadAgrees_of_error (hfails : ∃ e, resolve config companyId = .error e) :
    LightReadAgrees config companyId := by
  obtain ⟨e, he⟩ := hfails
  intro creds hcreds
  simp [he] at hcreds

theorem Resolves.agrees_iff {p : Prop} (hresolves : Resolves config companyId p) :
    LightReadAgrees config companyId ↔ (p ↔ config.saysProduction companyId) := by
  obtain ⟨creds, hcreds, henvironment⟩ := hresolves
  have heq : config.lightEnvironment companyId = creds.environment ↔ (p ↔ config.saysProduction companyId) := by
    rw [eq_iff_production lightEnvironment_mem creds.environment_mem, lightEnvironment_production, henvironment]
    exact iff_comm
  rw [← heq]
  constructor
  · intro hagrees
    exact hagrees creds hcreds
  · intro hsame other hother
    obtain rfl : creds = other := by simpa [hcreds] using hother
    exact hsame

theorem consistent_of_params (hnone : fromTokenModel config companyId = .ok none)
    (hsource : config.source companyId = config.paramSource companyId) :
    LightReadAgrees config companyId ↔ config.Consistent companyId := by
  unfold Configuration.Consistent
  rw [hsource]
  unfold Configuration.paramSource
  by_cases hscoped : config.keyed (ofCompany companyId)
  · rw [if_pos hscoped, (resolve_of_scoped hnone hscoped).agrees_iff]
    have hne : "" ≠ envProduction := by decide
    by_cases hempty : config.environmentParam (ofCompany companyId) = ""
    · simp [Configuration.saysProduction, hempty, hne]
    · simp [Configuration.saysProduction, hempty]
  · rw [if_neg hscoped]
    by_cases hkeyed : config.keyed ""
    · rw [if_pos hkeyed, (resolve_of_unscoped hnone hscoped hkeyed).agrees_iff]
      have hne : "" ≠ envProduction := by decide
      by_cases hempty : config.environmentParam (ofCompany companyId) = ""
      · simp [Configuration.saysProduction, hempty, hne]
      · simp [Configuration.saysProduction, hempty, iff_comm]
    · rw [if_neg hkeyed]
      simp [lightReadAgrees_of_error (resolve_of_missing hnone hscoped hkeyed)]

theorem lightReadAgrees_iff : LightReadAgrees config companyId ↔ config.Consistent companyId := by
  cases htoken : config.tokens.bind (· companyId) with
  | none => exact consistent_of_params (by simp [fromTokenModel, htoken]) (by simp [Configuration.source, htoken])
  | some token =>
    by_cases hexpired : token.expired config
    · have hfails := resolve_of_error (fromTokenModel_expired htoken hexpired).choose_spec
      simp [Configuration.Consistent, Configuration.source, htoken, hexpired, lightReadAgrees_of_error ⟨_, hfails⟩]
    by_cases hkeyed : token.keyed
    · have hresolve := resolve_of_token htoken hexpired hkeyed
      have hsource : config.source companyId = .token token := by
        simp [Configuration.source, htoken, hexpired, hkeyed]
      simp only [Configuration.Consistent, hsource]
      split at hresolve
      · rename_i hmem
        simp only [hresolve.agrees_iff, hmem, not_true_eq_false, false_or]
      · rename_i hmem
        simp [lightReadAgrees_of_error hresolve, hmem]
    · exact consistent_of_params (fromTokenModel_unkeyed htoken hexpired hkeyed)
        (by simp [Configuration.source, htoken, hexpired, hkeyed])

end Environments

/-- If `get_credentials` succeeds, `get_environment` gives their environment, and the
wizard warns exactly if the client calls the production endpoint. -/
def EnvironmentAgrees (config : Configuration) (store : Nat → Option (Tx.ReadThrough.Entry EjarCredentials))
    (now : ℚ) (companyId : Nat) : Prop :=
  ∀ creds, getCredentials config store now companyId = .ok creds →
    getEnvironment config store now companyId = creds.environment ∧
    (isProduction (getEnvironment config store now companyId) ↔ creds.baseUrl = baseUrls.lookup envProduction)

def Configuration.at (config : Configuration) (wall : Datetime) : Configuration := { config with now := wall }

/-- Threads that use the service under one configuration, while the wall clock moves. -/
def authService (config : Configuration) (t₀ : ℚ) :
    Tx.Shared (Tx.ReadThrough.State Nat EjarCredentials Datetime) (Tx.ReadThrough.Op Nat Datetime)
      (Tx.ReadThrough.Event Nat EjarCredentials Exc) :=
  Tx.ReadThrough.openCache ttlSeconds EjarCredentials.companyId (fun wall => resolve (config.at wall)) config.now t₀

abbrev CredentialsWarm (h : List (Tx.ReadThrough.Event Nat EjarCredentials Exc)) : Nat → ℚ → Prop :=
  Tx.ReadThrough.Warm ttlSeconds EjarCredentials.companyId h

section Service

variable {config : Configuration} {companyId : Nat} {t₀ now : ℚ}
  {h : List (Tx.ReadThrough.Event Nat EjarCredentials Exc)}
  {m : Tx.ReadThrough.State Nat EjarCredentials Datetime} {creds : EjarCredentials}

theorem warns_iff (creds : EjarCredentials) :
    isProduction creds.environment ↔ creds.baseUrl = baseUrls.lookup envProduction := by
  have hmem := creds.environment_mem
  unfold EjarCredentials.baseUrl isProduction
  simp only [validEnvironments, List.mem_cons, List.not_mem_nil, or_false] at hmem
  rcases hmem with henvironment | henvironment
  · rw [henvironment]
    decide
  · rw [henvironment]
    decide

theorem environmentAgrees_iff_eq {store : Nat → Option (Tx.ReadThrough.Entry EjarCredentials)} :
    EnvironmentAgrees config store now companyId ↔ ∀ creds, getCredentials config store now companyId = .ok creds →
      getEnvironment config store now companyId = creds.environment := by
  constructor
  · intro hagrees creds hcreds
    exact (hagrees creds hcreds).1
  · intro heq creds hcreds
    have hsame := heq creds hcreds
    exact ⟨hsame, hsame ▸ warns_iff creds⟩

/-- From a warm cache the two agree; otherwise it is for the configuration. -/
theorem environmentAgrees_iff {store : Nat → Option (Tx.ReadThrough.Entry EjarCredentials)} :
    EnvironmentAgrees config store now companyId ↔
      (Tx.ReadThrough.get store now companyId).1.isSome ∨ config.Consistent companyId := by
  rw [environmentAgrees_iff_eq, ← lightReadAgrees_iff]
  unfold getCredentials getEnvironment
  cases hget : (Tx.ReadThrough.get store now companyId).1 with
  | none => simp [LightReadAgrees]
  | some cached => simp

theorem environment_agrees_iff (hrun : (authService config t₀).Run h m) (hnow : m.now ≤ now) :
    EnvironmentAgrees (config.at m.config) m.store now companyId ↔
      CredentialsWarm h companyId now ∨ (config.at m.config).Consistent companyId := by
  rw [environmentAgrees_iff, CredentialsWarm, Tx.ReadThrough.warm_iff hrun hnow]

end Service

/-- The keys are shared and for production, and company 7 has its environment set to UAT. -/
def piloted : Configuration where
  now := 0
  printed _ := "2025-01-01 00:00:00"
  tokens := none
  params := fun name =>
    if name = "ejar.api.key" then some "key"
    else if name = "ejar.api.secret" then some "s3cret"
    else if name = "ejar.api.environment" then some "production"
    else if name = "ejar.api.environment.company_7" then some "uat"
    else none

/-- The client of company 7 calls production, and the wizard does not warn. -/
theorem production_unannounced : ¬ ∀ config t₀ h m now companyId, (authService config t₀).Run h m →
    m.now ≤ now → EnvironmentAgrees (config.at m.config) m.store now companyId := by
  intro hall
  have hagrees := hall piloted 0 [] (authService piloted 0).start 0 7 .start le_rfl
  have hproduction : (resolve piloted 7).toOption.map (·.environment) = some envProduction := by decide +kernel
  have huat : piloted.lightEnvironment 7 = envUat := by decide +kernel
  obtain ⟨creds, hcreds, henvironment⟩ := Option.map_eq_some_iff.mp hproduction
  have hresolved : resolve piloted 7 = .ok creds := by
    cases hresolve : resolve piloted 7 with
    | ok made => simpa [hresolve, Except.toOption] using hcreds
    | error e => simp [hresolve, Except.toOption] at hcreds
  have hsame : piloted.lightEnvironment 7 = creds.environment := (hagrees creds hresolved).1
  rw [huat, henvironment] at hsame
  revert hsame
  decide

theorem environment_agrees_iff_piloted :
    EnvironmentAgrees (piloted.at 0) (authService piloted 0).start.store 0 7 ↔
      CredentialsWarm [] 7 0 ∨ (piloted.at 0).Consistent 7 := by
  have hrun : (authService piloted 0).Run [] (authService piloted 0).start := .start
  exact environment_agrees_iff hrun le_rfl

end Ejar
