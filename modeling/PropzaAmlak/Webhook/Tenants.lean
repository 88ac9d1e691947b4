import PropzaAmlak.Webhook.Outcome

/-! One company's deliveries and another company's records: a run with the
deliveries of one company, and the same run without them. -/

namespace Ejar

open Tx

/-- The company that a delivery is authenticated for, as it is put in the name of
the secret. -/
def senderOf (P : Platform) (params : String → Option String) (d : Delivery) : Option String :=
  match validate P params d.signature d.timestamp d.body d.now with
  | .ok data => some (data.get "_company_id").text
  | .error _ => none

def isFrom (P : Platform) (params : String → Option String) (company : Nat) : InboxOp → Bool
  | .deliver d => senderOf P params d == some (toString company)
  | _ => false

def play (P : Platform) (db : Database) (ops : List InboxOp) : Database := ops.foldl (Database.apply P) db

/-- The run with the deliveries of the company left out. -/
def playWithout (P : Platform) (company : Nat) (db : Database) (ops : List InboxOp) : Database :=
  play P db (ops.filter fun op => !isFrom P db.params company op)

/-- A row that a delivery of the company stored. -/
def storedFor (company : Nat) (row : SyncLog) : Bool :=
  row.direction == .inbound && row.companyId.text == toString company

/-- A delivery of the company that reaches a handler names contracts of the company
only; no other delivery finds its key in a row of the last 24 hours that a delivery
of the company stored after the first `n` rows. -/
def SafeFor (P : Platform) (company n : Nat) (db : Database) : InboxOp → Prop
  | .deliver d => ∀ data, validate P db.params d.signature d.timestamp d.body d.now = .ok data →
      if (data.get "_company_id").text = toString company then
        isDuplicate db.syncLogs (data.get "idempotency_key") d.now = false →
          (∃ handler, webhookHandler data = .ok handler) →
          ∀ id ∈ namedIds data, ∀ c, db.contracts id = some c → c.companyId = company
      else ∀ row ∈ db.syncLogs.drop n, storedFor company row →
        isDuplicate [row] (data.get "idempotency_key") d.now = false
  | _ => True

/-- Every step of the run is safe for the company's neighbours. -/
def TenantSafe (P : Platform) (company n : Nat) : Database → List InboxOp → Prop
  | _, [] => True
  | db, op :: ops => SafeFor P company n db op ∧ TenantSafe P company n (db.apply P op) ops

/-- What the run and the run without the company have in common. -/
structure Agree (company : Nat) (old : List SyncLog) (full rest : Database) : Prop where
  params : full.params = rest.params
  contracts : ∀ id, full.contracts id = rest.contracts id ∨
    ∃ c c', full.contracts id = some c ∧ rest.contracts id = some c' ∧
      c.companyId = company ∧ c'.companyId = company
  logs : ∃ new, full.syncLogs = old ++ new ∧
    rest.syncLogs = old ++ new.filter fun row => !storedFor company row

section

variable {P : Platform} {company : Nat} {old : List SyncLog} {full rest : Database}

theorem isDuplicate_append (logs logs' : List SyncLog) (key : Json) (now : Datetime) :
    isDuplicate (logs ++ logs') key now = (isDuplicate logs key now || isDuplicate logs' key now) := by
  simp [isDuplicate, Bool.and_or_distrib_left]

theorem isDuplicate_filter {logs : List SyncLog} {key : Json} {now : Datetime} {p : SyncLog → Bool}
    (hp : ∀ row ∈ logs, p row = false → isDuplicate [row] key now = false) :
    isDuplicate (logs.filter p) key now = isDuplicate logs key now := by
  induction logs with
  | nil => rfl
  | cons row rows ih =>
    have hrows := ih fun r hr => hp r (List.mem_cons_of_mem _ hr)
    have hcons := isDuplicate_append [row] rows key now
    rw [List.singleton_append] at hcons
    by_cases hrow : p row
    · have hfilter := isDuplicate_append [row] (rows.filter p) key now
      rw [List.singleton_append] at hfilter
      rw [List.filter_cons_of_pos hrow, hfilter, hcons, hrows]
    · have hout := hp row List.mem_cons_self (by simpa using hrow)
      rw [List.filter_cons_of_neg hrow, hcons, hrows, hout, Bool.false_or]

theorem Agree.append (hagree : Agree company old full rest) {rows : List SyncLog} {full' rest' : Database}
    (hparams : full'.params = rest'.params)
    (hcontracts : ∀ id, full'.contracts id = rest'.contracts id ∨
      ∃ c c', full'.contracts id = some c ∧ rest'.contracts id = some c' ∧
        c.companyId = company ∧ c'.companyId = company)
    (hfull : full'.syncLogs = full.syncLogs ++ rows)
    (hrest : rest'.syncLogs = rest.syncLogs ++ rows.filter fun row => !storedFor company row) :
    Agree company old full' rest' := by
  obtain ⟨new, hnew, hkept⟩ := hagree.logs
  refine ⟨hparams, hcontracts, new ++ rows, ?_, ?_⟩
  · rw [hfull, hnew, List.append_assoc]
  · rw [hrest, hkept, List.filter_append, List.append_assoc]

theorem Agree.processContract (hagree : Agree company old full rest) (data : WebhookData)
    (correlationId : String) (now : Datetime) (id : Int) :
    (processContract full data correlationId now).2.contracts id =
        (processContract rest data correlationId now).2.contracts id ∨
      ∃ c c', (processContract full data correlationId now).2.contracts id = some c ∧
        (processContract rest data correlationId now).2.contracts id = some c' ∧
        c.companyId = company ∧ c'.companyId = company := by
  rw [processContract_contracts, processContract_contracts]
  obtain heq | ⟨c, c', hc, hc', hcompany, hcompany'⟩ := hagree.contracts id
  · left
    rw [heq]
  · right
    by_cases hid : id ∈ namedIds data
    · exact ⟨_, _, by rw [if_pos hid, hc]; rfl, by rw [if_pos hid, hc']; rfl,
        (runOn_companyId _ c).trans hcompany, (runOn_companyId _ c').trans hcompany'⟩
    · exact ⟨c, c', by rw [if_neg hid, hc], by rw [if_neg hid, hc'], hcompany, hcompany'⟩

/-- A delivery of the company changes nothing that the run without it would miss. -/
theorem agree_own (hagree : Agree company old full rest) {d : Delivery} {data : WebhookData}
    (hvalid : validate P full.params d.signature d.timestamp d.body d.now = .ok data)
    (hcompany : (data.get "_company_id").text = toString company)
    (hsafe : SafeFor P company old.length full (.deliver d)) : Agree company old (full.apply P (.deliver d)) rest := by
  cases hdup : isDuplicate full.syncLogs (data.get "idempotency_key") d.now with
  | true => rwa [apply_skipped hvalid hdup]
  | false =>
    obtain ⟨hlogs, hcontracts⟩ := apply_processed hvalid hdup
    have hrow : storedFor company (receiptRow data d.correlation d.now) = true := by
      simp [storedFor, receiptRow, hcompany]
    have hnamed := hsafe data hvalid
    rw [if_pos hcompany] at hnamed
    apply hagree.append ((apply_params P full _).trans hagree.params) _ hlogs (by simp [hrow])
    intro id
    rw [hcontracts, processContract_contracts]
    by_cases hid : id ∈ namedIds data
    · rw [if_pos hid]
      cases hhandler : webhookHandler data with
      | error e =>
        have hsame : ((full.contracts id).map fun c =>
            (runOn (eventProgram data d.correlation d.now) c).2) = full.contracts id := by
          simp [runOn_unhandled hhandler]
        rw [hsame]
        exact hagree.contracts id
      | ok handler =>
        cases hc : full.contracts id with
        | none => simpa [hc] using hagree.contracts id
        | some c =>
          have howned := hnamed hdup ⟨handler, hhandler⟩ id hid c hc
          right
          obtain heq | ⟨x, y, hx, hy, _, hcompany'⟩ := hagree.contracts id
          · exact ⟨_, c, rfl, heq ▸ hc, (runOn_companyId _ c).trans howned, howned⟩
          · exact ⟨_, y, rfl, hy, (runOn_companyId _ c).trans howned, hcompany'⟩
    · rw [if_neg hid]
      exact hagree.contracts id

theorem agree_other (hagree : Agree company old full rest) {d : Delivery} {data : WebhookData}
    (hvalid : validate P full.params d.signature d.timestamp d.body d.now = .ok data)
    (hcompany : (data.get "_company_id").text ≠ toString company)
    (hsafe : SafeFor P company old.length full (.deliver d)) :
    Agree company old (full.apply P (.deliver d)) (rest.apply P (.deliver d)) := by
  have hvalid' : validate P rest.params d.signature d.timestamp d.body d.now = .ok data := by
    rwa [← hagree.params]
  have hrows := hsafe data hvalid
  rw [if_neg hcompany] at hrows
  have hsame : isDuplicate rest.syncLogs (data.get "idempotency_key") d.now =
      isDuplicate full.syncLogs (data.get "idempotency_key") d.now := by
    obtain ⟨new, hnew, hkept⟩ := hagree.logs
    rw [hnew, hkept, isDuplicate_append, isDuplicate_append]
    rw [isDuplicate_filter]
    intro row hrow hstored
    exact hrows row (by simpa [hnew] using hrow) (by simpa using hstored)
  cases hdup : isDuplicate full.syncLogs (data.get "idempotency_key") d.now with
  | true => rwa [apply_skipped hvalid hdup, apply_skipped hvalid' (hsame.trans hdup)]
  | false =>
    obtain ⟨hlogs, hcontracts⟩ := apply_processed hvalid hdup
    obtain ⟨hlogs', hcontracts'⟩ := apply_processed hvalid' (hsame.trans hdup)
    have hrow : storedFor company (receiptRow data d.correlation d.now) = false := by
      simpa [storedFor, receiptRow] using hcompany
    apply hagree.append (by rw [apply_params, apply_params, hagree.params]) _ hlogs (by simp [hlogs', hrow])
    intro id
    rw [hcontracts, hcontracts']
    exact hagree.processContract data d.correlation d.now id

theorem agree_step (hagree : Agree company old full rest) {op : InboxOp}
    (hsafe : SafeFor P company old.length full op) :
    Agree company old (full.apply P op)
      (if isFrom P full.params company op then rest else rest.apply P op) := by
  cases op with
  | deliver d =>
    cases hvalid : validate P full.params d.signature d.timestamp d.body d.now with
    | error e =>
      have hvalid' : validate P rest.params d.signature d.timestamp d.body d.now = .error e := by
        rwa [← hagree.params]
      have hfrom : isFrom P full.params company (.deliver d) = false := by simp [isFrom, senderOf, hvalid]
      simpa [hfrom, Database.apply, receive_refused hvalid, receive_refused hvalid'] using hagree
    | ok data =>
      by_cases hcompany : (data.get "_company_id").text = toString company
      · have hfrom : isFrom P full.params company (.deliver d) = true := by
          simp [isFrom, senderOf, hvalid, hcompany]
        rw [if_pos hfrom]
        exact agree_own hagree hvalid hcompany hsafe
      · have hfrom : ¬ isFrom P full.params company (.deliver d) = true := by
          simpa [isFrom, senderOf, hvalid] using hcompany
        rw [if_neg hfrom]
        exact agree_other hagree hvalid hcompany hsafe
  | call row =>
    have hrow : storedFor company { row with direction := .outbound } = false := rfl
    exact hagree.append hagree.params hagree.contracts rfl (by simp [isFrom, Database.apply, hrow])
  | store id contract =>
    refine hagree.append hagree.params (fun j => ?_) (List.append_nil _).symm (by simp [isFrom, Database.apply])
    by_cases hj : j = id
    · left
      simp [isFrom, Database.apply, hj]
    · simpa [isFrom, Database.apply, hj] using hagree.contracts j

theorem agree_run {ops : List InboxOp} (hagree : Agree company old full rest)
    (hsafe : TenantSafe P company old.length full ops) :
    Agree company old (play P full ops) (play P rest (ops.filter fun op => !isFrom P full.params company op)) := by
  induction ops generalizing full rest with
  | nil => exact hagree
  | cons op ops ih =>
    have hnext := agree_step hagree hsafe.1
    have hrest := ih hnext hsafe.2
    rw [apply_params] at hrest
    by_cases hfrom : isFrom P full.params company op
    · simpa [play, hfrom] using hrest
    · simpa [play, hfrom] using hrest

end

/-- In a run that is safe for the company's neighbours, every record of another
company ends as if the company had sent nothing. -/
theorem tenant_isolation {P : Platform} {company : Nat} {db : Database} {ops : List InboxOp}
    (hsafe : TenantSafe P company db.syncLogs.length db ops) (id : Int) (c : Contract)
    (hother : c.companyId ≠ company) :
    (play P db ops).contracts id = some c ↔ (playWithout P company db ops).contracts id = some c := by
  have hstart : Agree company db.syncLogs db db := ⟨rfl, fun _ => .inl rfl, [], by simp, by simp⟩
  obtain heq | ⟨x, y, hx, hy, hcompany, hcompany'⟩ := (agree_run hstart hsafe).contracts id
  · rw [heq]
    rfl
  · have hfull : (play P db ops).contracts id ≠ some c := by
      intro hc
      obtain rfl : x = c := by simpa [hx] using hc
      exact hother hcompany
    have hrest : (playWithout P company db ops).contracts id ≠ some c := by
      intro hc
      have hyc : some y = some c := hy.symm.trans hc
      obtain rfl : y = c := by simpa using hyc
      exact hother hcompany'
    simp [hfull, hrest]

def othersContract : Contract := { sampleContract "EJR/2025/0008" with companyId := 2 }

/-- Contract 7 is the first company's and contract 8 the second's. -/
def twoTenants : Database :=
  { approvalDatabase 1 with
    contracts := (Function.update (approvalDatabase 1).contracts 8 (some othersContract)) }

theorem safe_approval : TenantSafe approvalPlatform 1 0 twoTenants [.deliver (approvalDelivery 1754000010)] := by
  refine ⟨fun data hvalid => ?_, trivial⟩
  have happroval : validate approvalPlatform twoTenants.params (approvalDelivery 1754000010).signature
      (approvalDelivery 1754000010).timestamp (approvalDelivery 1754000010).body 1754000010 =
        .ok (approvalData 1754000010) := approval_valid (by decide)
  obtain rfl : data = approvalData 1754000010 := Except.ok.inj (hvalid.symm.trans happroval)
  have hcompany : ((approvalData 1754000010).get "_company_id").text = toString 1 := by decide +kernel
  rw [if_pos hcompany]
  intro _ _ id hid c hc
  obtain rfl : id = 7 := List.mem_singleton.mp hid
  obtain rfl : _ = c := Option.some.inj hc
  rfl

theorem tenant_isolation_approval :
    (play approvalPlatform twoTenants [.deliver (approvalDelivery 1754000010)]).contracts 8 = some othersContract ↔
      (playWithout approvalPlatform 1 twoTenants [.deliver (approvalDelivery 1754000010)]).contracts 8 =
        some othersContract :=
  tenant_isolation safe_approval 8 othersContract (by decide)

/-- Company 1 approves contract 7 of company 2. -/
theorem other_tenant_approved : ∃ c, c.companyId = 2 ∧
    (playWithout approvalPlatform 1 (approvalDatabase 2) [.deliver (approvalDelivery 1754000010)]).contracts 7 =
      some c ∧
    (play approvalPlatform (approvalDatabase 2) [.deliver (approvalDelivery 1754000010)]).contracts 7 ≠ some c := by
  have hvalid : validate approvalPlatform (approvalDatabase 2).params (approvalDelivery 1754000010).signature
      (approvalDelivery 1754000010).timestamp (approvalDelivery 1754000010).body (approvalDelivery 1754000010).now =
        .ok (approvalData 1754000010) := approval_valid (by decide)
  have hfresh : isDuplicate (approvalDatabase 2).syncLogs ((approvalData 1754000010).get "idempotency_key")
      (approvalDelivery 1754000010).now = false := by decide +kernel
  have hfrom : isFrom approvalPlatform (approvalDatabase 2).params 1 (.deliver (approvalDelivery 1754000010)) =
    true := by
    simp only [isFrom, senderOf, hvalid]
    decide +kernel
  refine ⟨{ sampleContract "EJR/2025/0007" with companyId := 2, ejarStatus := .submitted }, rfl, ?_, ?_⟩
  · simp only [playWithout, List.filter_cons, hfrom]
    rfl
  · have hafter := (apply_processed hvalid hfresh).2
    intro hsame
    have hstatus := congrArg (Option.map (·.ejarStatus)) hsame
    simp only [play, List.foldl_cons, List.foldl_nil, hafter, processContract_contracts] at hstatus
    revert hstatus
    decide +kernel

end Ejar
