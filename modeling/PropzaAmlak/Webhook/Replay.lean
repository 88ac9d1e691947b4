import PropzaAmlak.Tx.Shared
import PropzaAmlak.Webhook.Outcome

/-! Replayed deliveries: the signature covers the body alone, so that whoever has
seen a delivery may send its body again with a timestamp of its own. -/

namespace Ejar

open Tx

/-- The data name an existing contract, and an event with a handler. -/
def routed (db : Database) (data : WebhookData) : Bool :=
  (namedIds data).any db.has && (webhookHandler data).isOk

/-- The delivery comes as far as the call of a handler. -/
def handsOver (P : Platform) (db : Database) (d : Delivery) : Bool :=
  match validate P db.params d.signature d.timestamp d.body d.now with
  | .ok data => !isDuplicate db.syncLogs (data.get "idempotency_key") d.now && routed db data
  | .error _ => false

/-- `sent` has the bodies that Ejar signed, with the timestamps they were first
sent with, and `handed` the deliveries that were handed to a handler. -/
structure Exposed where
  db : Database
  now : Datetime
  sent : List UInt8 → Option Int
  handed : List Delivery

inductive ExposedOp where
  | send (body : List UInt8) (timestamp : Int)
  | deliver (d : Delivery)
  | call (row : SyncLog)
  | store (id : Int) (contract : Contract)

namespace Exposed

def deliver (P : Platform) (s : Exposed) (d : Delivery) : Exposed :=
  { s with
    db := s.db.apply P (.deliver d)
    now := d.now
    handed := if handsOver P s.db d then s.handed ++ [d] else s.handed }

/-- No one but Ejar can sign: a body with a valid signature has been sent. -/
def authentic (P : Platform) (s : Exposed) (d : Delivery) : Bool :=
  !(validate P s.db.params d.signature d.timestamp d.body d.now).isOk || (s.sent d.body).isSome

/-- Anyone delivers anything at any time, within what can be signed. -/
def step (P : Platform) (s : Exposed) : ExposedOp → Option (Option Delivery × Exposed)
  | .send body timestamp =>
    some (none, { s with sent := Function.update s.sent body (some ((s.sent body).getD timestamp)) })
  | .deliver d => if s.now ≤ d.now ∧ s.authentic P d then some (some d, s.deliver P d) else none
  | .call row => some (none, { s with db := s.db.apply P (.call row) })
  | .store id contract => some (none, { s with db := s.db.apply P (.store id contract) })

end Exposed

def exposed (P : Platform) (db : Database) (now : Datetime) : Shared Exposed ExposedOp Delivery where
  start := ⟨db, now, fun _ => none, []⟩
  step := Exposed.step P

/-- Each signed body was handed over at most once, and no later than 300 seconds
after the timestamp it was first sent with. -/
structure ReplaySafe (s : Exposed) : Prop where
  once : (s.handed.map (·.body)).Nodup
  intime : ∀ d ∈ s.handed, ∃ timestamp, s.sent d.body = some timestamp ∧ d.now ≤ timestamp + 300

/-- A search for the key finds the row that a delivery with the key stores. -/
def findsItself (key : Json) : Bool := key.truthy && keyMatches key (.ofJson key)

/-- A delivery that could be handed over comes, the first time, without a timestamp
later than its own once the 300 seconds are over, and again only with a key and
within 24 hours. -/
def Fair (P : Platform) (s : Exposed) : ExposedOp → Prop
  | .deliver d => ∀ data, validate P s.db.params d.signature d.timestamp d.body d.now = .ok data →
      routed s.db data →
      (∀ d' ∈ s.handed, d'.body = d.body →
        findsItself (data.get "idempotency_key") ∧ d.now ≤ d'.now + 24 * 3600) ∧
      ((∀ d' ∈ s.handed, d'.body ≠ d.body) → ∀ t original, readTimestamp P d.timestamp = .ok t →
        s.sent d.body = some original → t ≤ original ∨ d.now ≤ original + 300)
  | _ => True

section

variable {P : Platform} {db : Database} {s : Exposed} {d : Delivery}

theorem handsOver_iff : handsOver P db d = true ↔
    ∃ data, validate P db.params d.signature d.timestamp d.body d.now = .ok data ∧
      isDuplicate db.syncLogs (data.get "idempotency_key") d.now = false ∧ routed db data = true := by
  unfold handsOver
  cases hvalid : validate P db.params d.signature d.timestamp d.body d.now with
  | error e => simp
  | ok data => simp

theorem key_of_body {data : WebhookData}
    (hvalid : validate P db.params d.signature d.timestamp d.body d.now = .ok data) :
    data.get "idempotency_key" = (bodyData P d.body).get "idempotency_key" :=
  (validate_eq_ok hvalid).get_eq _ (by decide) (by decide) (by decide)

/-- What the log keeps of the deliveries that were handed over. -/
def Logged (P : Platform) (s : Exposed) : Prop :=
  ∀ d ∈ s.handed, ∃ row ∈ s.db.syncLogs,
    row.idempotencyKey = .ofJson ((bodyData P d.body).get "idempotency_key") ∧ row.createDate = d.now

theorem logged_deliver (hlogged : Logged P s) : Logged P (s.deliver P d) := by
  intro d' hd'
  simp only [Exposed.deliver] at hd' ⊢
  split at hd'
  · rename_i hhanded
    obtain ⟨data, hvalid, hfresh, _⟩ := handsOver_iff.mp hhanded
    rw [List.mem_append, List.mem_singleton] at hd'
    cases hd' with
    | inl hold =>
      obtain ⟨row, hrow, hkept⟩ := hlogged d' hold
      exact ⟨row, apply_syncLogs hrow _, hkept⟩
    | inr hnew =>
      subst hnew
      rw [(apply_processed hvalid hfresh).1]
      exact ⟨receiptRow data d'.correlation d'.now, by simp, by rw [← key_of_body hvalid]; rfl, rfl⟩
  · obtain ⟨row, hrow, hkept⟩ := hlogged d' hd'
    exact ⟨row, apply_syncLogs hrow _, hkept⟩

theorem isDuplicate_of_row {logs : List SyncLog} {row : SyncLog} {key : Json} {now : Datetime}
    (hrow : row ∈ logs) (hkey : row.idempotencyKey = .ofJson key) (hfinds : findsItself key)
    (hrecent : now ≤ row.createDate + 24 * 3600) : isDuplicate logs key now = true := by
  simp only [findsItself, Bool.and_eq_true] at hfinds
  rw [isDuplicate, Bool.and_eq_true]
  refine ⟨hfinds.1, List.any_eq_true.mpr ⟨row, hrow, ?_⟩⟩
  rw [Bool.and_eq_true, hkey]
  exact ⟨hfinds.2, decide_eq_true (Int.sub_right_le_of_le_add hrecent)⟩

theorem fresh_of_handsOver (hlogged : Logged P s) (hfair : Fair P s (.deliver d))
    (hhanded : handsOver P s.db d = true) : ∀ d' ∈ s.handed, d'.body ≠ d.body := by
  intro d' hd' hbody
  obtain ⟨data, hvalid, hfresh, hrouted⟩ := handsOver_iff.mp hhanded
  obtain ⟨hfinds, hsoon⟩ := (hfair data hvalid hrouted).1 d' hd' hbody
  obtain ⟨row, hrow, hkey, hdate⟩ := hlogged d' hd'
  rw [hbody, ← key_of_body hvalid] at hkey
  have hdup := isDuplicate_of_row hrow hkey hfinds (hdate ▸ hsoon)
  rw [hfresh] at hdup
  cases hdup

theorem intime_of_handsOver (hlogged : Logged P s) (hfair : Fair P s (.deliver d)) {original : Int}
    (hsent : s.sent d.body = some original) (hhanded : handsOver P s.db d = true) : d.now ≤ original + 300 := by
  obtain ⟨data, hvalid, _, hrouted⟩ := handsOver_iff.mp hhanded
  obtain ⟨t, htime, hwindow⟩ := (validate_eq_ok hvalid).intime
  obtain hearly | hintime :=
    (hfair data hvalid hrouted).2 (fresh_of_handsOver hlogged hfair hhanded) t original htime hsent
  · have hlate : t + 300 ≤ original + 300 := by omega
    exact Int.le_trans (by omega) hlate
  · exact hintime

theorem safe_deliver (hlogged : Logged P s) (hsafe : ReplaySafe s) (hfair : Fair P s (.deliver d))
    (hauthentic : s.authentic P d = true) : ReplaySafe (s.deliver P d) := by
  cases hhanded : handsOver P s.db d with
  | false =>
    constructor
    · simpa [Exposed.deliver, hhanded] using hsafe.once
    · simpa [Exposed.deliver, hhanded] using hsafe.intime
  | true =>
    have hnew := fresh_of_handsOver hlogged hfair hhanded
    constructor
    · simp only [Exposed.deliver, hhanded, if_true, List.map_append, List.map_cons, List.map_nil]
      refine List.nodup_append.mpr ⟨hsafe.once, by simp, ?_⟩
      intro body hold body' hlast
      obtain ⟨d', hd', rfl⟩ := List.mem_map.mp hold
      obtain rfl := List.mem_singleton.mp hlast
      exact hnew d' hd'
    · intro d' hd'
      simp only [Exposed.deliver, hhanded, if_true, List.mem_append, List.mem_singleton] at hd' ⊢
      cases hd' with
      | inl hold => exact hsafe.intime d' hold
      | inr hlast =>
        subst hlast
        obtain ⟨data, hvalid, _⟩ := handsOver_iff.mp hhanded
        have hsent : (s.sent d'.body).isSome := by
          simpa [Exposed.authentic, hvalid, Except.isOk, Except.toBool] using hauthentic
        obtain ⟨original, horiginal⟩ := Option.isSome_iff_exists.mp hsent
        exact ⟨original, horiginal, intime_of_handsOver hlogged hfair horiginal hhanded⟩

theorem replay_step (hlogged : Logged P s) (hsafe : ReplaySafe s) {op : ExposedOp} {l : Option Delivery}
    {s' : Exposed} (hfair : Fair P s op) (hstep : s.step P op = some (l, s')) : Logged P s' ∧ ReplaySafe s' := by
  cases op with
  | send body timestamp =>
    simp only [Exposed.step, Option.some.injEq, Prod.mk.injEq] at hstep
    obtain ⟨_, rfl⟩ := hstep
    refine ⟨hlogged, hsafe.once, fun d hd => ?_⟩
    obtain ⟨original, horiginal, hintime⟩ := hsafe.intime d hd
    refine ⟨original, ?_, hintime⟩
    by_cases hbody : d.body = body
    · subst hbody
      simp [horiginal]
    · simpa [hbody] using horiginal
  | deliver d =>
    simp only [Exposed.step, Option.ite_none_right_eq_some, Option.some.injEq, Prod.mk.injEq] at hstep
    obtain ⟨⟨_, hauthentic⟩, _, rfl⟩ := hstep
    exact ⟨logged_deliver hlogged, safe_deliver hlogged hsafe hfair hauthentic⟩
  | call row =>
    simp only [Exposed.step, Option.some.injEq, Prod.mk.injEq] at hstep
    obtain ⟨_, rfl⟩ := hstep
    refine ⟨fun d hd => ?_, hsafe.once, hsafe.intime⟩
    obtain ⟨row', hrow', hkept⟩ := hlogged d hd
    exact ⟨row', @apply_syncLogs P _ _ hrow' (.call row), hkept⟩
  | store id contract =>
    simp only [Exposed.step, Option.some.injEq, Prod.mk.injEq] at hstep
    obtain ⟨_, rfl⟩ := hstep
    exact ⟨hlogged, hsafe.once, hsafe.intime⟩

end

/-- In every run of fair steps, each signed body is handed over at most once and in
time. -/
theorem replay_safe {P : Platform} {db : Database} {now : Datetime} {h : List Delivery} {s : Exposed}
    (hrun : (exposed P db now).RunWithin (Fair P) h s) : ReplaySafe s := by
  have hboth : Logged P s ∧ ReplaySafe s := by
    apply hrun.invariant (I := fun _ s => Logged P s ∧ ReplaySafe s)
    · refine ⟨fun d hd => absurd hd List.not_mem_nil, List.nodup_nil, fun d hd => absurd hd List.not_mem_nil⟩
    · intro _ s op l s' ⟨hlogged, hsafe⟩ hfair hstep
      exact replay_step hlogged hsafe hfair hstep
  exact hboth.2

/-- The approval is on its way. -/
def approvalSent : Exposed where
  db := approvalDatabase 1
  now := 1754000000
  sent := Function.update (fun _ => none) approvalBody (some ((none : Option Int).getD 1754000000))
  handed := []

theorem replay_safe_approval :
    ReplaySafe (approvalSent.deliver approvalPlatform (approvalDelivery 1754000010)) := by
  have hsent : approvalSent.sent approvalBody = some 1754000000 := by simp [approvalSent]
  have hfair : Fair approvalPlatform approvalSent (.deliver (approvalDelivery 1754000010)) := by
    intro data _ _
    refine ⟨fun d hd => absurd hd List.not_mem_nil, fun _ t original _ horiginal => .inr ?_⟩
    obtain rfl : 1754000000 = original := Option.some.inj (hsent.symm.trans horiginal)
    decide
  have hauthentic : approvalSent.authentic approvalPlatform (approvalDelivery 1754000010) = true := by
    have hbody : (approvalDelivery 1754000010).body = approvalBody := rfl
    simp [Exposed.authentic, hbody, hsent]
  have hstep : approvalSent.step approvalPlatform (.deliver (approvalDelivery 1754000010)) =
      some (some (approvalDelivery 1754000010),
        approvalSent.deliver approvalPlatform (approvalDelivery 1754000010)) := if_pos ⟨by decide, hauthentic⟩
  exact replay_safe (.step (@Shared.RunWithin.step _ _ _ (exposed approvalPlatform (approvalDatabase 1) 1754000000)
    _ [] _ (.send approvalBody 1754000000) none approvalSent .start trivial rfl) hfair hstep)

/-- A rejection without a key. -/
def rejectionBody : List UInt8 :=
  "\x7b\"company_id\": 1, \"event_type\": \"contract.rejected\", \"contract_id\": 7, \"reason\": \"missing deed\"\x7d".toUTF8.toList

def rejectionDict : List (String × Json) :=
  [("company_id", .int 1), ("event_type", .str "contract.rejected"), ("contract_id", .int 7),
    ("reason", .str "missing deed")]

def rejectionPlatform : Platform :=
  .ofBody rejectionBody rejectionDict "s3cret-1" "00f95db8ad2555f6765eeacd52e55d6d4deb25d32753998e87c3f0a91699d4b6"

/-- The same body and signature under a timestamp of the sender's choice. -/
def rejectionDelivery (timestamp : String) (now : Datetime) : Delivery where
  signature := some "00f95db8ad2555f6765eeacd52e55d6d4deb25d32753998e87c3f0a91699d4b6"
  timestamp := some timestamp
  body := rejectionBody
  now := now
  uuid4 := "2b7e4f0a-93d5-4e1c-a6c1-5d8f7a90b6e2"

def rejectionData (timestamp now : Int) : WebhookData :=
  rejectionDict ++ [("_validated_at", .int now), ("_timestamp", .int timestamp), ("_company_id", .int 1)]

theorem rejection_valid {text : String} {t now : Int} (htext : readDigits text = some t)
    (hnow : (now - t).natAbs ≤ 300) :
    validate rejectionPlatform approvalParams (rejectionDelivery text now).signature
      (rejectionDelivery text now).timestamp (rejectionDelivery text now).body now = .ok (rejectionData t now) := by
  have hbody : rejectionBody.isEmpty = false := by decide +kernel
  have hparam : approvalParams (secretParam (.int 1)) = some "s3cret-1" := by decide +kernel
  exact validate_ofBody hbody htext hnow rfl rfl hparam (by decide) (by decide) (by simp)

theorem rejection_handsOver {db : Database} {text : String} {t now : Int} (hparams : db.params = approvalParams)
    (hcontract : db.has 7 = true) (htext : readDigits text = some t) (hnow : (now - t).natAbs ≤ 300) :
    handsOver rejectionPlatform db (rejectionDelivery text now) = true := by
  have hvalid := rejection_valid htext hnow
  rw [← hparams] at hvalid
  refine handsOver_iff.mpr ⟨rejectionData t now, hvalid, rfl, ?_⟩
  have hids : namedIds (rejectionData t now) = [7] := rfl
  have hhandler : (webhookHandler (rejectionData t now)).isOk = true := rfl
  simp [routed, hids, hcontract, hhandler]

theorem rejection_has {db : Database} {text : String} {t now : Int} (hparams : db.params = approvalParams)
    (hcontract : db.has 7 = true) (htext : readDigits text = some t) (hnow : (now - t).natAbs ≤ 300) :
    (db.apply rejectionPlatform (.deliver (rejectionDelivery text now))).has 7 = true := by
  have hvalid := rejection_valid htext hnow
  rw [← hparams] at hvalid
  have hcontracts := (apply_processed (d := rejectionDelivery text now) hvalid rfl).2
  rw [Database.has, hcontracts, processContract_contracts]
  split
  · simpa [Database.has] using hcontract
  · exact hcontract

/-- The rejection is on its way. -/
def rejectionSent : Exposed where
  db := approvalDatabase 1
  now := 1754000000
  sent := Function.update (fun _ => none) rejectionBody (some ((none : Option Int).getD 1754000000))
  handed := []

/-- It has been delivered. -/
def rejectionHanded : Exposed :=
  rejectionSent.deliver rejectionPlatform (rejectionDelivery "1754000000" 1754000010)

/-- It is delivered in time, and once more an hour later under a new timestamp. -/
theorem rejection_replayed : ∃ h s, (exposed rejectionPlatform (approvalDatabase 1) 1754000000).Run h s ∧
    ¬ ReplaySafe s := by
  have hearly : readDigits "1754000000" = some 1754000000 := by decide +kernel
  have hlate : readDigits "1754003600" = some 1754003600 := by decide +kernel
  have hfirst : handsOver rejectionPlatform rejectionSent.db (rejectionDelivery "1754000000" 1754000010) = true :=
    rejection_handsOver rfl rfl hearly (by decide)
  have hhanded : rejectionHanded.handed = [rejectionDelivery "1754000000" 1754000010] := by
    simp only [rejectionHanded, Exposed.deliver, hfirst, if_true]
    rfl
  have hparams : rejectionHanded.db.params = approvalParams := apply_params _ _ _
  have hcontract : rejectionHanded.db.has 7 = true := rejection_has rfl rfl hearly (by decide)
  have hsecond : handsOver rejectionPlatform rejectionHanded.db (rejectionDelivery "1754003600" 1754003605) = true :=
    rejection_handsOver hparams hcontract hlate (by decide)
  have hauthentic : ∀ {s : Exposed} {text : String} {now : Datetime}, s.sent = rejectionSent.sent →
      s.authentic rejectionPlatform (rejectionDelivery text now) = true := by
    intro s text now hsent
    simp [Exposed.authentic, hsent, rejectionSent, rejectionDelivery]
  have hsend := @Shared.Run.step _ _ _ (exposed rejectionPlatform (approvalDatabase 1) 1754000000) [] _
    (.send rejectionBody 1754000000) none rejectionSent .start rfl
  have hdeliver := @Shared.Run.step _ _ _ (exposed rejectionPlatform (approvalDatabase 1) 1754000000) _ _
    (.deliver (rejectionDelivery "1754000000" 1754000010)) _ rejectionHanded hsend
    (if_pos ⟨by decide, hauthentic rfl⟩)
  have hreplay := @Shared.Run.step _ _ _ (exposed rejectionPlatform (approvalDatabase 1) 1754000000) _ _
    (.deliver (rejectionDelivery "1754003600" 1754003605)) _ _ hdeliver (if_pos ⟨by decide, hauthentic rfl⟩)
  refine ⟨_, _, hreplay, fun hsafe => ?_⟩
  have hbodies := hsafe.once
  simp only [Exposed.deliver, hsecond, if_true, hhanded] at hbodies
  simp [rejectionDelivery] at hbodies

end Ejar
