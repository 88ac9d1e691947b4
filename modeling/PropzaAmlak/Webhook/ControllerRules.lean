import PropzaAmlak.Webhook.Controller

/-! What the controller's parts do: what an accepted request is made of, which
contracts and which log rows its processing leaves alone. -/

namespace Ejar

open Tx

theorem except_bind_eq_ok {ε α β : Type} {x : Except ε α} {f : α → Except ε β} {b : β} :
    (x >>= f) = .ok b ↔ ∃ a, x = .ok a ∧ f a = .ok b := by
  cases x with
  | error e => simp [bind, Except.bind]
  | ok a => simp [bind, Except.bind]

theorem requireElse_eq_ok {c : Bool} {cls : ExcClass} {message : String} {u : Unit} :
    requireElse c cls message = .ok u ↔ c = true := by
  cases c <;> simp [requireElse]

theorem lookup_cons (fields : List (String × Json)) (k key : String) (v : Json) :
    Json.lookup ((k, v) :: fields) key = if key = k then some v else Json.lookup fields key := by
  by_cases hkey : key = k
  · simp [Json.lookup, hkey]
  · have hbeq : (key == k) = false := by simp [hkey]
    simp [Json.lookup, List.lookup_cons, hkey, hbeq]

theorem lookup_setItem (fields : List (String × Json)) (key other : String) (v : Json) :
    Json.lookup (Json.setItem fields key v) other = if other = key then some v else Json.lookup fields other := by
  induction fields with
  | nil => rw [Json.setItem, lookup_cons]
  | cons kv rest ih =>
    obtain ⟨k, w⟩ := kv
    by_cases hk : k = key
    · have hset : Json.setItem ((k, w) :: rest) key v = (k, v) :: rest := by simp [Json.setItem, hk]
      rw [hset, lookup_cons, lookup_cons, hk]
      split
      all_goals rfl
    · have hset : Json.setItem ((k, w) :: rest) key v = (k, w) :: Json.setItem rest key v := by
        simp [Json.setItem, hk]
      rw [hset, lookup_cons, lookup_cons, ih]
      by_cases hother : other = k
      · subst hother
        simp [hk]
      · simp [hother]

/-- The dict that the body holds. -/
def bodyData (P : Platform) (body : List UInt8) : WebhookData :=
  match P.loads body with
  | .ok v => dictFields v
  | .error _ => []

/-- The company that a body names. -/
def bodyCompany (P : Platform) (body : List UInt8) : Json := (bodyData P body).get "company_id"

section

variable {P : Platform} {params : String → Option String} {signature timestamp : Option String}
  {body : List UInt8} {now : Datetime} {data : WebhookData}

theorem findSecret_eq_ok {company : Json} {secret : String} (hsecret : findSecret params company = .ok secret) :
    params (secretParam company) = some secret := by
  unfold findSecret at hsecret
  cases hparam : params (secretParam company) with
  | none => simp [hparam] at hsecret
  | some s =>
    by_cases hempty : s = ""
    · simp [hparam, hempty] at hsecret
    · simpa [hparam, hempty] using hsecret

theorem compareDigest_eq_ok {given expected : String} (hsame : compareDigest given expected = .ok true) :
    given = expected := by
  unfold compareDigest at hsame
  split at hsame
  · simpa using hsame
  · cases hsame

theorem readBody_eq_ok {v : Json} (hbody : readBody P body = .ok v) : P.loads body = .ok v := by
  unfold readBody at hbody
  split at hbody
  · cases hbody
  · cases hloads : P.loads body with
    | error e => simp [hloads] at hbody
    | ok w => simpa [hloads] using hbody

/-- What is known of a request that the validator lets through. -/
structure Validated (P : Platform) (params : String → Option String) (signature timestamp : Option String)
    (body : List UInt8) (now : Datetime) (data : WebhookData) : Prop where
  intime : ∃ t, readTimestamp P timestamp = .ok t ∧ (now - t).natAbs ≤ 300
  signed : ∃ secret, params (secretParam (bodyCompany P body)) = some secret ∧
    signature = some (P.hexdigest secret body)
  company : data.get "_company_id" = bodyCompany P body
  get_eq : ∀ key, key ≠ "_validated_at" → key ≠ "_timestamp" → key ≠ "_company_id" →
    data.get key = (bodyData P body).get key

theorem validate_eq_ok (hvalid : validate P params signature timestamp body now = .ok data) :
    Validated P params signature timestamp body now data := by
  unfold validate at hvalid
  obtain ⟨t, htime, hvalid⟩ := except_bind_eq_ok.mp hvalid
  obtain ⟨_, hwindow, hvalid⟩ := except_bind_eq_ok.mp hvalid
  obtain ⟨v, hbody, hvalid⟩ := except_bind_eq_ok.mp hvalid
  obtain ⟨company, hcompany, hvalid⟩ := except_bind_eq_ok.mp hvalid
  obtain ⟨_, _, hvalid⟩ := except_bind_eq_ok.mp hvalid
  obtain ⟨_, hsignature, hvalid⟩ := except_bind_eq_ok.mp hvalid
  obtain ⟨secret, hsecret, hvalid⟩ := except_bind_eq_ok.mp hvalid
  obtain ⟨same, hsame, hvalid⟩ := except_bind_eq_ok.mp hvalid
  obtain ⟨_, hequal, hvalid⟩ := except_bind_eq_ok.mp hvalid
  have hdata : data = Json.setItem (Json.setItem (Json.setItem (dictFields v) "_validated_at" (.int now))
      "_timestamp" (.int t)) "_company_id" company := by
    simpa [pure, Except.pure, eq_comm] using hvalid
  have hfields : bodyData P body = dictFields v := by simp [bodyData, readBody_eq_ok hbody]
  have hnamed : company = bodyCompany P body := by
    cases v with
    | obj fields => simpa [pyGet, bodyCompany, hfields, WebhookData.get, dictFields, eq_comm] using hcompany
    | _ => simp [pyGet] at hcompany
  rw [requireElse_eq_ok] at hwindow hsignature hequal
  subst hequal
  constructor
  · exact ⟨t, htime, of_decide_eq_true hwindow⟩
  · have hdigest := compareDigest_eq_ok hsame
    cases signature with
    | none => simp at hsignature
    | some text => exact ⟨secret, hnamed ▸ findSecret_eq_ok hsecret, by simpa using hdigest⟩
  · rw [hdata, ← hnamed, WebhookData.get, lookup_setItem, if_pos rfl, Option.getD_some]
  · intro key h1 h2 h3
    rw [hdata, hfields, WebhookData.get, lookup_setItem, if_neg h3, lookup_setItem, if_neg h2,
      lookup_setItem, if_neg h1, WebhookData.get]

/-- A request in time, about a company with a secret and signed with it. -/
theorem validate_of {fields : List (String × Json)} {company : Json} {t : Int} {secret : String}
    (htime : readTimestamp P timestamp = .ok t) (hwindow : (now - t).natAbs ≤ 300)
    (hbody : readBody P body = .ok (.obj fields)) (hcompany : Json.lookup fields "company_id" = some company)
    (htruthy : company.truthy) (hsecret : findSecret params company = .ok secret)
    (hsignature : signature = some (P.hexdigest secret body)) (hdigest : P.hexdigest secret body ≠ "")
    (hascii : ∀ c ∈ (P.hexdigest secret body).toList, c.val < 128) :
    validate P params signature timestamp body now = .ok (Json.setItem (Json.setItem
      (Json.setItem fields "_validated_at" (.int now)) "_timestamp" (.int t)) "_company_id" company) := by
  have hsame : compareDigest (P.hexdigest secret body) (P.hexdigest secret body) = .ok true := by
    rw [compareDigest, if_pos (List.all_eq_true.mpr fun c hc => decide_eq_true (hascii c hc)), beq_self_eq_true]
  have hnull : Json.truthy .null = false := rfl
  subst hsignature
  simp only [validate, htime, hbody, hsecret, hsame, hnull, pyGet, hcompany, htruthy, requireElse,
    timestampWindowSeconds, hwindow, hdigest, dictFields, bind, Except.bind, pure, Except.pure, Option.getD_some,
    decide_true, Bool.false_eq_true, ↓reduceIte, bne_iff_ne, ne_eq, not_false_eq_true]

end

theorem apply_companyId (w : RecordWrite) (c : Contract) : (w.apply c).companyId = c.companyId := by
  cases w <;> rfl

theorem run_companyId {τ α : Type} (serve : τ → Request → Option (Reply × τ)) (p : Pipeline α)
    (x : Session Contract τ) :
    (p.run RecordWrite.apply serve x).2.working.companyId = x.working.companyId := by
  induction p generalizing x with
  | ret a => rfl
  | raise e => rfl
  | read k ih => exact ih x.working x
  | write w k ih =>
    have hkeeps := ih ⟨x.committed, w.apply x.working, x.seen⟩
    rw [apply_companyId] at hkeeps
    exact hkeeps
  | commit k ih => exact ih ⟨x.working, x.working, x.seen⟩
  | call q k ih =>
    simp only [Prog.run]
    split
    · rename_i r s hserve
      exact ih r ⟨x.committed, x.working, s⟩
    · rfl

theorem runOn_snd (p : Pipeline Unit) (c : Contract) :
    (runOn p c).2 = (p.run RecordWrite.apply (fun (_ : Unit) _ => none) ⟨c, c, ()⟩).2.working := by
  unfold runOn
  cases hrun : p.run RecordWrite.apply (fun (_ : Unit) _ => none) ⟨c, c, ()⟩ with
  | mk o x => cases o <;> rfl

theorem runOn_companyId (p : Pipeline Unit) (c : Contract) : (runOn p c).2.companyId = c.companyId := by
  rw [runOn_snd, run_companyId]

/-- The contracts that a dict names. -/
def namedIds (data : WebhookData) : List Int :=
  match browse (data.get "contract_id") with
  | .ok ids => ids
  | .error _ => []

/-- The handler for the event, with what comes around it. -/
def eventProgram (data : WebhookData) (correlationId : String) (now : Datetime) : Pipeline Unit :=
  if (namedIds data).length = 1 then processEvent data correlationId now
  else processSeveral data (namedIds data)

section

variable {db : Database} {data : WebhookData} {correlationId : String} {now : Datetime}

theorem processContract_contracts (id : Int) :
    (processContract db data correlationId now).2.contracts id =
      if id ∈ namedIds data then
        (db.contracts id).map fun c => (runOn (eventProgram data correlationId now) c).2
      else db.contracts id := by
  unfold processContract namedIds eventProgram namedIds
  cases hids : browse (data.get "contract_id") with
  | error e => simp
  | ok ids =>
    by_cases hany : ids.any db.has
    · simp [hany, Database.onContracts]
    · have hnone : id ∈ ids → db.contracts id = none := by
        intro hid
        by_contra hsome
        apply hany
        rw [List.any_eq_true]
        exact ⟨id, hid, by simpa [Database.has, Option.isSome_iff_ne_none] using hsome⟩
      by_cases hid : id ∈ ids
      · simp [hany, hid, hnone hid]
      · simp [hany, hid]

theorem processContract_syncLogs : (processContract db data correlationId now).2.syncLogs = db.syncLogs := by
  unfold processContract
  split
  · rfl
  · split
    · rfl
    · rfl

theorem processContract_params : (processContract db data correlationId now).2.params = db.params := by
  unfold processContract
  split
  · rfl
  · split
    · rfl
    · rfl

theorem runOn_unhandled {e : Exc} (hevent : webhookHandler data = .error e) (c : Contract) :
    (runOn (eventProgram data correlationId now) c).2 = c := by
  rw [runOn_snd, eventProgram]
  split
  all_goals simp only [processEvent, processSeveral, hevent, Prog.ofExcept, Prog.raise_bind, Prog.run]

/-- Later updates of the row are ignored: with or without them the outcome is
that of steps 2 to 5 on the database with the row. -/
theorem processWebhook_append {creates : String → Bool} (hcreates : creates "pending") :
    processWebhook creates db data correlationId now =
      processContract { db with syncLogs := db.syncLogs ++ [receiptRow data correlationId now] }
        data correlationId now := by
  have hlog : logCall creates (receiptRow data correlationId now) db =
      (.ok (), { db with syncLogs := db.syncLogs ++ [receiptRow data correlationId now] }) := by
    have hstatus : creates (receiptRow data correlationId now).status := hcreates
    rw [logCall, if_pos hstatus]
  unfold processWebhook
  simp only [hlog]
  split
  · rename_i x db' hrun
    rw [hrun, Database.writeLog_eq]
  · rename_i e db' hrun
    rw [hrun, Database.writeLog_eq, ite_self]

theorem processWebhook_refused {creates : String → Bool} (hcreates : creates "pending" = false) :
    processWebhook creates db data correlationId now =
      (.error { cls := .valueError
                message := "Wrong value for ejar.sync.log.status: 'pending'" }, db) := by
  have hlog : logCall creates (receiptRow data correlationId now) db =
      (.error { cls := .valueError
                message := "Wrong value for ejar.sync.log.status: 'pending'" }, db) := by
    rw [logCall, if_neg (by simpa [receiptRow] using hcreates)]
    rfl
  simp only [processWebhook, hlog]

end

/-- A request that the validator lets through is skipped or processed. -/
theorem receive_valid {P : Platform} {creates : String → Bool} {db : Database} {d : Delivery}
    {data : WebhookData} (hvalid : validate P db.params d.signature d.timestamp d.body d.now = .ok data) :
    receive P creates db d =
      if isDuplicate db.syncLogs (data.get "idempotency_key") d.now then (.duplicate data, db)
      else (.processed data (processWebhook creates db data d.correlation d.now).1,
        (processWebhook creates db data d.correlation d.now).2) := by
  simp only [receive, hvalid]

theorem receive_refused {P : Platform} {creates : String → Bool} {db : Database} {d : Delivery} {e : Exc}
    (hrefused : validate P db.params d.signature d.timestamp d.body d.now = .error e) :
    receive P creates db d = (.refused e, db) := by
  simp only [receive, hrefused]

section

variable {P : Platform}

theorem apply_params (P : Platform) (db : Database) (op : InboxOp) : (db.apply P op).params = db.params := by
  cases op with
  | deliver d =>
    simp only [Database.apply]
    cases hvalid : validate P db.params d.signature d.timestamp d.body d.now with
    | error e => rw [receive_refused hvalid]
    | ok data =>
      rw [receive_valid hvalid]
      split
      · rfl
      · rw [processWebhook_append rfl, processContract_params]
  | call row => rfl
  | store id contract => rfl

theorem apply_processed {db : Database} {d : Delivery} {data : WebhookData}
    (hvalid : validate P db.params d.signature d.timestamp d.body d.now = .ok data)
    (hfresh : isDuplicate db.syncLogs (data.get "idempotency_key") d.now = false) :
    (db.apply P (.deliver d)).syncLogs = db.syncLogs ++ [receiptRow data d.correlation d.now] ∧
      (db.apply P (.deliver d)).contracts = (processContract db data d.correlation d.now).2.contracts := by
  have happly : db.apply P (.deliver d) = (processContract
      { db with syncLogs := db.syncLogs ++ [receiptRow data d.correlation d.now] } data d.correlation d.now).2 := by
    have happend := @processWebhook_append db data d.correlation d.now appends rfl
    simp only [Database.apply, receive_valid hvalid, hfresh, happend]
    rfl
  rw [happly, processContract_syncLogs]
  refine ⟨rfl, funext fun id => ?_⟩
  rw [processContract_contracts, processContract_contracts]

theorem apply_skipped {db : Database} {d : Delivery} {data : WebhookData}
    (hvalid : validate P db.params d.signature d.timestamp d.body d.now = .ok data)
    (hdup : isDuplicate db.syncLogs (data.get "idempotency_key") d.now = true) :
    db.apply P (.deliver d) = db := by
  simp only [Database.apply, receive_valid hvalid, hdup, if_true]

theorem apply_syncLogs {db : Database} {row : SyncLog} (hrow : row ∈ db.syncLogs) (op : InboxOp) :
    row ∈ (db.apply P op).syncLogs := by
  cases op with
  | deliver d =>
    cases hvalid : validate P db.params d.signature d.timestamp d.body d.now with
    | error e => simpa only [Database.apply, receive_refused hvalid] using hrow
    | ok data =>
      cases hdup : isDuplicate db.syncLogs (data.get "idempotency_key") d.now with
      | true => rwa [apply_skipped hvalid hdup]
      | false =>
        rw [(apply_processed hvalid hdup).1]
        exact List.mem_append_left _ hrow
  | call row' => exact List.mem_append_left _ hrow
  | store id contract => exact hrow

end

/-- `int(text)` of plain digits -/
def readDigits (text : String) : Option Int :=
  if text != "" && text.toList.all Char.isDigit then
    some (text.toList.foldl (fun n c => 10 * n + (c.toNat - 48)) 0)
  else none

/-- What Python computes on one body and one secret. -/
def Platform.ofBody (body : List UInt8) (dict : List (String × Json)) (secret digest : String) : Platform where
  loads b := if b = body then .ok (.obj dict) else .error "Expecting value: line 1 column 1 (char 0)"
  int := readDigits
  hexdigest s b := if s = secret ∧ b = body then digest else ""

theorem validate_ofBody {body : List UInt8} {dict : List (String × Json)} {secret digest text : String}
    {params : String → Option String} {company : Json} {t now : Int} (hbody : body.isEmpty = false)
    (hdigits : readDigits text = some t) (hwindow : (now - t).natAbs ≤ 300)
    (hcompany : Json.lookup dict "company_id" = some company) (htruthy : company.truthy)
    (hparam : params (secretParam company) = some secret) (hsecret : secret ≠ "") (hdigest : digest ≠ "")
    (hascii : ∀ c ∈ digest.toList, c.val < 128) :
    validate (.ofBody body dict secret digest) params (some digest) (some text) body now =
      .ok (Json.setItem (Json.setItem (Json.setItem dict "_validated_at" (.int now))
        "_timestamp" (.int t)) "_company_id" company) := by
  have hsigned : (Platform.ofBody body dict secret digest).hexdigest secret body = digest := if_pos ⟨rfl, rfl⟩
  have htime : readTimestamp (.ofBody body dict secret digest) (some text) = .ok t := by
    have htext : text ≠ "" := by
      rintro rfl
      simp [readDigits] at hdigits
    simp [readTimestamp, htext, Platform.ofBody, hdigits]
  have hread : readBody (.ofBody body dict secret digest) body = .ok (.obj dict) := by
    simp [readBody, hbody, Platform.ofBody]
  have hfound : findSecret params company = .ok secret := by simp [findSecret, hparam, hsecret]
  exact validate_of htime hwindow hread hcompany htruthy hfound (by rw [hsigned]) (by rwa [hsigned])
    (by rwa [hsigned])

end Ejar
