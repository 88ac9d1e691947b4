import PropzaAmlak.Tx.Shared
import PropzaAmlak.Webhook.Outcome

/-! What is skipped as a duplicate: the log is searched by key alone, for rows of
every company, of both directions and of every outcome. -/

namespace Ejar

open Tx

section

variable {α : Type}

/-- Alone on any contract, the program returns if and only if `b`. -/
def ReturnsIff (p : Pipeline α) (b : Prop) : Prop :=
  ∀ x, (∃ a, (p.run RecordWrite.apply (fun (_ : Unit) _ => none) x).1 = .ret a) ↔ b

theorem returnsIff_ret (a : α) : ReturnsIff (.ret a) True := fun _ => ⟨fun _ => trivial, fun _ => ⟨a, rfl⟩⟩

theorem returnsIff_raise (e : Exc) : ReturnsIff (.raise e : Pipeline α) False := by
  intro x
  simp [Prog.run]

theorem returnsIff_congr {p : Pipeline α} {b b' : Prop} (hb : b ↔ b') (hp : ReturnsIff p b) : ReturnsIff p b' :=
  fun x => (hp x).trans hb

theorem returnsIff_put (w : RecordWrite) : ReturnsIff (Prog.put w) True :=
  fun _ => ⟨fun _ => trivial, fun _ => ⟨(), rfl⟩⟩

theorem returnsIff_get {f : Contract → Pipeline α} {b : Prop} (hf : ∀ c, ReturnsIff (f c) b) :
    ReturnsIff (Prog.get >>= f) b :=
  fun x => hf x.working x

theorem returnsIff_bind {p : Pipeline Unit} {f : Unit → Pipeline α} {b b' : Prop} (hp : ReturnsIff p b)
    (hf : ReturnsIff (f ()) b') : ReturnsIff (p >>= f) (b ∧ b') := by
  intro x
  have hfirst := hp x
  rw [Prog.run_bind]
  cases hrun : p.run RecordWrite.apply (fun (_ : Unit) _ => none) x with
  | mk o y =>
    rw [hrun] at hfirst
    cases o with
    | ret a => simpa [← hfirst] using hf y
    | raise e => simp [← hfirst]
    | cut => simp [← hfirst]

theorem returnsIff_writeContract (vals : ContractVals) : ReturnsIff (writeContract vals) True := by
  intro x
  simp [writeContract, checkStateTransition_ok, Prog.put, Prog.get, Prog.ofExcept, Prog.run]

theorem returnsIff_forEach {ι : Type} {xs : List ι} {body : ι → Pipeline Unit} {b : ι → Prop}
    (hbody : ∀ i, ReturnsIff (body i) (b i)) : ReturnsIff (Prog.forEach xs body) (∀ i ∈ xs, b i) := by
  induction xs with
  | nil => simpa [Prog.forEach] using returnsIff_ret ()
  | cons i xs ih =>
    have hboth := returnsIff_bind (hbody i) (f := fun _ => Prog.forEach xs body) ih
    simpa [Prog.forEach] using hboth

end

def isDict : Json → Bool
  | .obj _ => true
  | _ => false

/-- The event has a handler, and the data are of the shape that it reads. -/
def readable (data : WebhookData) : Bool :=
  match data.get "event_type" with
  | .str "contract.approved" => true
  | .str "contract.rejected" => true
  | .str "acknowledgement.completed" =>
    match pyIter (data.get "parties" (.arr [])) with
    | .ok parties => parties.all isDict
    | .error _ => false
  | .str "document.verification" => true
  | .str "status.update" => true
  | _ => false

/-- The data name one contract that exists and an event that can be handled. -/
def processable (db : Database) (data : WebhookData) : Bool :=
  match namedIds data with
  | [id] => db.has id && readable data
  | _ => false

section

variable {data : WebhookData}

theorem returnsIff_acknowledgeParty (party : Json) :
    ReturnsIff (acknowledgeParty party) (isDict party = true) := by
  have hputs : ∀ (ids : List Nat), ReturnsIff
      (Prog.forEach ids fun i => Prog.put (.party i { syncState := some .synced }) : Pipeline Unit)
      (∀ i ∈ ids, True) := fun ids => returnsIff_forEach fun i => returnsIff_put _
  cases party with
  | obj fields =>
    have hget : ReturnsIff (acknowledgeParty (.obj fields)) True :=
      returnsIff_get fun c => by simpa using hputs _
    simpa [isDict] using hget
  | _ => exact returnsIff_congr (by simp [isDict]) (returnsIff_raise _)

theorem returnsIff_acknowledgement :
    ReturnsIff (handleAcknowledgementCompleted data) (∃ parties, pyIter (data.get "parties" (.arr [])) = .ok parties ∧
      parties.all isDict) := by
  unfold handleAcknowledgementCompleted
  cases hparties : pyIter (data.get "parties" (.arr [])) with
  | error e => exact returnsIff_congr (by simp) (returnsIff_raise e)
  | ok parties =>
    have hloop : ReturnsIff (Prog.forEach parties acknowledgeParty) (∀ party ∈ parties, isDict party = true) :=
      returnsIff_forEach returnsIff_acknowledgeParty
    exact returnsIff_congr (by simp) hloop

theorem returnsIff_handler :
    ReturnsIff (Prog.ofExcept (webhookHandler data) >>= fun handler => handler) (readable data = true) := by
  unfold webhookHandler readable
  split
  case h_1 hevent => exact returnsIff_congr (by simp [hevent]) (returnsIff_writeContract _)
  case h_2 hevent => exact returnsIff_congr (by simp [hevent]) (returnsIff_writeContract _)
  case h_3 hevent =>
    have hparties : (∃ parties, pyIter (data.get "parties" (.arr [])) = .ok parties ∧ parties.all isDict) ↔
        (match pyIter (data.get "parties" (.arr [])) with
          | .ok parties => parties.all isDict
          | .error _ => false) = true := by
      cases pyIter (data.get "parties" (.arr [])) with
      | error e => simp
      | ok parties => simp
    simp only [hevent, ← hparties]
    exact returnsIff_acknowledgement
  case h_4 hevent => exact returnsIff_congr (by simp [hevent]) (returnsIff_ret ())
  case h_5 hevent => exact returnsIff_congr (by simp [hevent]) (returnsIff_ret ())
  case h_6 hevent => exact returnsIff_congr (by simp [hevent]) (returnsIff_raise _)
  case h_7 hevent => exact returnsIff_congr (by simp [hevent]) (returnsIff_raise _)
  case h_8 =>
    split
    all_goals simp_all
    exact returnsIff_raise _

theorem returnsIff_handlerThen {f : Unit → Pipeline Unit} {b : Prop} (hf : ReturnsIff (f ()) b) :
    ReturnsIff (Prog.ofExcept (webhookHandler data) >>= fun handler => handler >>= f)
      (readable data = true ∧ b) := by
  have hboth := returnsIff_bind (@returnsIff_handler data) hf
  cases hhandler : webhookHandler data with
  | error e => simpa only [hhandler, Prog.ofExcept, Prog.raise_bind] using hboth
  | ok handler => simpa only [hhandler, Prog.ofExcept, Prog.ret_bind] using hboth

theorem returnsIff_processEvent {correlationId : String} {now : Datetime} :
    ReturnsIff (processEvent data correlationId now) (readable data = true) :=
  returnsIff_congr (and_true _).to_iff (returnsIff_handlerThen (returnsIff_writeContract _))

theorem returnsIff_processSeveral {ids : List Int} : ReturnsIff (processSeveral data ids) False :=
  returnsIff_congr (and_false _).to_iff (returnsIff_handlerThen (returnsIff_raise _))

theorem runOn_ok_iff {p : Pipeline Unit} {b : Prop} (hp : ReturnsIff p b) (c : Contract) :
    (runOn p c).1 = .ok () ↔ b := by
  rw [← hp ⟨c, c, ()⟩]
  unfold runOn
  cases hrun : p.run RecordWrite.apply (fun (_ : Unit) _ => none) ⟨c, c, ()⟩ with
  | mk o x => cases o <;> simp

theorem processContract_ok_iff {db : Database} {correlationId : String} {now : Datetime} :
    (processContract db data correlationId now).1 = .ok () ↔ processable db data = true := by
  unfold processContract processable namedIds
  cases hids : browse (data.get "contract_id") with
  | error e => simp
  | ok ids =>
    by_cases hany : ids.any db.has
    · obtain ⟨id, hid⟩ : ∃ id, ids.find? db.has = some id := by
        rw [← Option.isSome_iff_exists, List.find?_isSome]
        simpa using hany
      have hhas : db.has id = true := List.find?_some hid
      obtain ⟨c, hc⟩ := Option.isSome_iff_exists.mp hhas
      simp only [hany, ↓reduceIte, Database.onContracts, hid, Option.bind_eq_bind, Option.bind_some, hc]
      by_cases hone : ids.length = 1
      · obtain ⟨only, rfl⟩ := List.length_eq_one_iff.mp hone
        have honly : db.has only = true := by simpa using hany
        simp [runOn_ok_iff returnsIff_processEvent, honly]
      · rw [if_neg hone, runOn_ok_iff returnsIff_processSeveral]
        split
        · simp at hone
        · simp
    · simp only [if_neg hany]
      split
      · rename_i id
        have hnone : db.has id = false := by simpa using hany
        simp [hnone]
      · simp

end

/-- A delivery and what became of it. -/
structure Receipt where
  delivery : Delivery
  verdict : Verdict

/-- The database, and the data of the accepted deliveries that could be processed when
they came in, skipped or not. -/
structure Inbox where
  db : Database
  usable : List WebhookData

/-- The data of a delivery that is accepted and that could be processed. -/
def usableData (P : Platform) (db : Database) (d : Delivery) : List WebhookData :=
  match validate P db.params d.signature d.timestamp d.body d.now with
  | .ok data => if processable db data then [data] else []
  | .error _ => []

namespace Inbox

def deliver (P : Platform) (s : Inbox) (d : Delivery) : Receipt × Inbox :=
  let (verdict, db) := receive P appends s.db d
  (⟨d, verdict⟩, ⟨db, s.usable ++ usableData P s.db d⟩)

def step (P : Platform) (s : Inbox) (op : InboxOp) : Option (Option Receipt × Inbox) :=
  match op with
  | .deliver d => some (some (s.deliver P d).1, (s.deliver P d).2)
  | op => some (none, { s with db := s.db.apply P op })

end Inbox

def inbox (P : Platform) (db : Database) : Shared Inbox InboxOp Receipt where
  start := ⟨db, []⟩
  step := Inbox.step P

/-- Same company, same key. -/
def SameEvent (data data' : WebhookData) : Prop :=
  (data'.get "_company_id").text = (data.get "_company_id").text ∧
    CharField.ofJson (data'.get "idempotency_key") = CharField.ofJson (data.get "idempotency_key")

/-- Whenever a delivery is skipped, an earlier one of its company with its key
was processed to success. -/
def NoneLost (h : List Receipt) : Prop :=
  ∀ before r after data, h = before ++ r :: after → r.verdict = .duplicate data →
    ∃ r' ∈ before, ∃ data', r'.verdict = .processed data' (.ok ()) ∧ SameEvent data data'

/-- Where some row of the last 24 hours, of whatever company, direction and outcome, has the
key of a delivery, an earlier delivery of its company with that key could be processed. -/
def Excused (P : Platform) (s : Inbox) : InboxOp → Prop
  | .deliver d => ∀ data, validate P s.db.params d.signature d.timestamp d.body d.now = .ok data →
      (data.get "idempotency_key").truthy → ∀ row ∈ s.db.syncLogs,
      keyMatches (data.get "idempotency_key") row.idempotencyKey → d.now - 24 * 3600 ≤ row.createDate →
      ∃ data' ∈ s.usable, SameEvent data data'
  | _ => True

theorem SameEvent.trans {data data' data'' : WebhookData} (h : SameEvent data data') (h' : SameEvent data' data'') :
    SameEvent data data'' := ⟨h'.1.trans h.1, h'.2.trans h.2⟩

theorem isDuplicate_iff {logs : List SyncLog} {key : Json} {now : Datetime} : isDuplicate logs key now = true ↔
    key.truthy ∧ ∃ row ∈ logs, keyMatches key row.idempotencyKey ∧ now - 24 * 3600 ≤ row.createDate := by
  simp [isDuplicate]

section

variable {P : Platform} {db : Database} {h : List Receipt} {s : Inbox}

/-- What a delivery leaves in the history, and whether it could be processed. -/
theorem deliver_cases (d : Delivery) :
    (∃ e, s.deliver P d = (⟨d, .refused e⟩, s)) ∨
    (∃ data, validate P s.db.params d.signature d.timestamp d.body d.now = .ok data ∧
      isDuplicate s.db.syncLogs (data.get "idempotency_key") d.now ∧
      s.deliver P d = (⟨d, .duplicate data⟩, ⟨s.db, s.usable ++ if processable s.db data then [data] else []⟩)) ∨
    (∃ data result db', ¬ isDuplicate s.db.syncLogs (data.get "idempotency_key") d.now ∧
      s.deliver P d = (⟨d, .processed data result⟩, ⟨db', s.usable ++ if processable s.db data then [data] else []⟩) ∧
      (result = .ok () ↔ processable s.db data)) := by
  cases hvalid : validate P s.db.params d.signature d.timestamp d.body d.now with
  | error e =>
    left
    refine ⟨e, ?_⟩
    simp only [Inbox.deliver, receive_refused hvalid, usableData, hvalid, List.append_nil]
  | ok data =>
    right
    by_cases hdup : isDuplicate s.db.syncLogs (data.get "idempotency_key") d.now
    · left
      refine ⟨data, rfl, hdup, ?_⟩
      simp only [Inbox.deliver, receive_valid hvalid, usableData, hvalid, hdup, if_true]
    · right
      refine ⟨data, _, _, hdup, by simp only [Inbox.deliver, receive_valid hvalid, usableData, hvalid, hdup]; rfl, ?_⟩
      rw [processWebhook_append rfl, processContract_ok_iff]
      rfl

theorem noneLost_append {r : Receipt} :
    NoneLost (h ++ [r]) ↔ NoneLost h ∧ ∀ data, r.verdict = .duplicate data →
      ∃ r' ∈ h, ∃ data', r'.verdict = .processed data' (.ok ()) ∧ SameEvent data data' := by
  constructor
  · intro hlost
    constructor
    · intro before r' after data hsplit hverdict
      exact hlost before r' (after ++ [r]) data (by simp [hsplit]) hverdict
    · intro data hverdict
      exact hlost h r [] data rfl hverdict
  · intro ⟨hlost, hlast⟩ before r' after data hsplit hverdict
    cases after using List.reverseRecOn with
    | nil =>
      obtain ⟨rfl, hr⟩ := List.append_inj' hsplit rfl
      obtain rfl : r = r' := by simpa using hr
      exact hlast data hverdict
    | append_singleton after last =>
      have hinit : h = before ++ r' :: after := by
        have hlists : h ++ [r] = (before ++ r' :: after) ++ [last] := by simpa using hsplit
        exact (List.append_inj' hlists rfl).1
      exact hlost before r' after data hinit hverdict

/-- What was processed to success could be processed. -/
def Remembers (h : List Receipt) (s : Inbox) : Prop :=
  ∀ r ∈ h, ∀ data, r.verdict = .processed data (.ok ()) → data ∈ s.usable

/-- For every delivery that could be processed, one of its company with its key was. -/
def Served (h : List Receipt) (s : Inbox) : Prop :=
  ∀ data ∈ s.usable, ∃ r ∈ h, ∃ data', r.verdict = .processed data' (.ok ()) ∧ SameEvent data data'

theorem Served.mono {s' : Inbox} (hserved : Served h s) (husable : s'.usable = s.usable) {more : List Receipt} :
    Served (h ++ more) s' := by
  intro data hdata
  obtain ⟨r, hr, hsuccess⟩ := hserved data (husable ▸ hdata)
  exact ⟨r, List.mem_append_left _ hr, hsuccess⟩

theorem remembers_step (hremembers : Remembers h s) {op : InboxOp} {l : Option Receipt} {s' : Inbox}
    (hstep : s.step P op = some (l, s')) : Remembers (h ++ l.toList) s' := by
  cases op with
  | deliver d =>
    simp only [Inbox.step, Option.some.injEq, Prod.mk.injEq] at hstep
    obtain ⟨rfl, rfl⟩ := hstep
    intro r hr data hverdict
    rw [Option.toList_some, List.mem_append, List.mem_singleton] at hr
    obtain ⟨e, hd⟩ | ⟨data', _, _, hd⟩ | ⟨data', result, db', _, hd, hresult⟩ := @deliver_cases P s d
    all_goals rw [hd] at hr ⊢
    all_goals obtain hold | rfl := hr
    · exact hremembers r hold data hverdict
    · simp at hverdict
    · exact List.mem_append_left _ (hremembers r hold data hverdict)
    · simp at hverdict
    · exact List.mem_append_left _ (hremembers r hold data hverdict)
    · obtain ⟨rfl, rfl⟩ : data' = data ∧ result = .ok () := by simpa using hverdict
      simp [hresult.mp rfl]
  | call row =>
    simp only [Inbox.step, Option.some.injEq, Prod.mk.injEq] at hstep
    obtain ⟨rfl, rfl⟩ := hstep
    simpa [Remembers] using hremembers
  | store id contract =>
    simp only [Inbox.step, Option.some.injEq, Prod.mk.injEq] at hstep
    obtain ⟨rfl, rfl⟩ := hstep
    simpa [Remembers] using hremembers

/-- A delivery that is skipped though one before it was processed is excused. -/
theorem excused_of_noneLost (hremembers : Remembers h s) {d : Delivery} (hlost : ∀ data,
    (s.deliver P d).1.verdict = .duplicate data →
      ∃ r' ∈ h, ∃ data', r'.verdict = .processed data' (.ok ()) ∧ SameEvent data data') :
    Excused P s (.deliver d) := by
  intro data hvalid htruthy row hrow hkey hrecent
  have hdup : isDuplicate s.db.syncLogs (data.get "idempotency_key") d.now :=
    isDuplicate_iff.mpr ⟨htruthy, row, hrow, hkey, hrecent⟩
  have hverdict : (s.deliver P d).1.verdict = .duplicate data := by
    simp only [Inbox.deliver, receive_valid hvalid, hdup, if_true]
  obtain ⟨r, hr, data', hsuccess, hsame⟩ := hlost data hverdict
  exact ⟨data', hremembers r hr data' hsuccess, hsame⟩

/-- The first delivery of a company with its key that could be processed is not skipped. -/
theorem served_deliver (hserved : Served h s) {d : Delivery} (hexcused : Excused P s (.deliver d)) :
    Served (h ++ [(s.deliver P d).1]) (s.deliver P d).2 ∧ ∀ data, (s.deliver P d).1.verdict = .duplicate data →
      ∃ r' ∈ h, ∃ data', r'.verdict = .processed data' (.ok ()) ∧ SameEvent data data' := by
  obtain ⟨e, hd⟩ | ⟨data, hvalid, hdup, hd⟩ | ⟨data, result, db', hfresh, hd, hresult⟩ := @deliver_cases P s d
  · rw [hd]
    exact ⟨hserved.mono rfl, by simp⟩
  · obtain ⟨htruthy, row, hrow, hkey, hrecent⟩ := isDuplicate_iff.mp hdup
    obtain ⟨data₁, husable, hsame⟩ := hexcused data hvalid htruthy row hrow hkey hrecent
    obtain ⟨r, hr, data₂, hsuccess, hsame'⟩ := hserved data₁ husable
    rw [hd]
    refine ⟨fun other hother => ?_, fun other hother => ?_⟩
    · rcases List.mem_append.mp hother with hold | hnew
      · exact hserved.mono rfl other hold
      · obtain rfl : other = data := by
          split at hnew
          · simpa using hnew
          · simp at hnew
        exact ⟨r, List.mem_append_left _ hr, data₂, hsuccess, hsame.trans hsame'⟩
    · obtain rfl : data = other := by simpa using hother
      exact ⟨r, hr, data₂, hsuccess, hsame.trans hsame'⟩
  · rw [hd]
    refine ⟨fun other hother => ?_, by simp⟩
    rcases List.mem_append.mp hother with hold | hnew
    · exact hserved.mono rfl other hold
    · by_cases hcan : processable s.db data
      · obtain rfl : other = data := by simpa [hcan] using hnew
        exact ⟨_, List.mem_append_right _ (List.mem_singleton_self _), other, by rw [hresult.mpr hcan], rfl, rfl⟩
      · simp [hcan] at hnew

theorem served_step (hserved : Served h s) (hlost : NoneLost h) {op : InboxOp} (hexcused : Excused P s op)
    {l : Option Receipt} {s' : Inbox} (hstep : s.step P op = some (l, s')) :
    Served (h ++ l.toList) s' ∧ NoneLost (h ++ l.toList) := by
  cases op with
  | deliver d =>
    simp only [Inbox.step, Option.some.injEq, Prod.mk.injEq] at hstep
    obtain ⟨rfl, rfl⟩ := hstep
    obtain ⟨hnext, hlast⟩ := served_deliver hserved hexcused
    exact ⟨hnext, noneLost_append.mpr ⟨hlost, hlast⟩⟩
  | call row =>
    simp only [Inbox.step, Option.some.injEq, Prod.mk.injEq] at hstep
    obtain ⟨rfl, rfl⟩ := hstep
    exact ⟨hserved.mono rfl, by simpa using hlost⟩
  | store id contract =>
    simp only [Inbox.step, Option.some.injEq, Prod.mk.injEq] at hstep
    obtain ⟨rfl, rfl⟩ := hstep
    exact ⟨hserved.mono rfl, by simpa using hlost⟩

theorem excused_step (hremembers : Remembers h s) {op : InboxOp} {l : Option Receipt} {s' : Inbox}
    (hstep : s.step P op = some (l, s')) (hlost : NoneLost (h ++ l.toList)) : NoneLost h ∧ Excused P s op := by
  cases op with
  | deliver d =>
    simp only [Inbox.step, Option.some.injEq, Prod.mk.injEq] at hstep
    obtain ⟨rfl, rfl⟩ := hstep
    obtain ⟨hbefore, hlast⟩ := noneLost_append.mp hlost
    exact ⟨hbefore, excused_of_noneLost hremembers hlast⟩
  | call row =>
    simp only [Inbox.step, Option.some.injEq, Prod.mk.injEq] at hstep
    obtain ⟨rfl, rfl⟩ := hstep
    exact ⟨by simpa using hlost, trivial⟩
  | store id contract =>
    simp only [Inbox.step, Option.some.injEq, Prod.mk.injEq] at hstep
    obtain ⟨rfl, rfl⟩ := hstep
    exact ⟨by simpa using hlost, trivial⟩

theorem noneLost_nil : NoneLost [] := by
  intro before r after data hsplit
  simp at hsplit

theorem run_remembers (hrun : (inbox P db).Run h s) : Remembers h s :=
  hrun.invariant (fun _ hr => absurd hr List.not_mem_nil) fun _ _ _ _ _ hremembers hstep =>
    remembers_step hremembers hstep

end

/-- No event is lost in exactly the runs in which a key comes back within 24 hours only once
it could be processed for its company. -/
theorem none_lost_iff {P : Platform} {db : Database} {h : List Receipt} {s : Inbox}
    (hrun : (inbox P db).Run h s) : NoneLost h ↔ (inbox P db).RunWithin (Excused P) h s := by
  constructor
  · intro hlost
    induction hrun with
    | start => exact .start
    | step hrun hstep ih =>
      obtain ⟨hbefore, hexcused⟩ := excused_step (run_remembers hrun) hstep hlost
      exact .step (ih hbefore) hexcused hstep
  · intro hwithin
    have hboth : Served h s ∧ NoneLost h := by
      apply hwithin.invariant (I := fun h s => Served h s ∧ NoneLost h)
      · exact ⟨fun _ hdata => absurd hdata List.not_mem_nil, noneLost_nil⟩
      · intro h s op l s' ⟨hserved, hlost⟩ hexcused hstep
        exact served_step hserved hlost hexcused hstep
    exact hboth.2

theorem none_lost_iff_approval :
    NoneLost ([] ++ [((inbox approvalPlatform (approvalDatabase 1)).start.deliver approvalPlatform
        (approvalDelivery 1754000010)).1]) ↔
      (inbox approvalPlatform (approvalDatabase 1)).RunWithin (Excused approvalPlatform)
        ([] ++ [((inbox approvalPlatform (approvalDatabase 1)).start.deliver approvalPlatform
          (approvalDelivery 1754000010)).1])
        ((inbox approvalPlatform (approvalDatabase 1)).start.deliver approvalPlatform
          (approvalDelivery 1754000010)).2 :=
  none_lost_iff (@Shared.Run.step _ _ _ (inbox approvalPlatform (approvalDatabase 1)) [] _
    (.deliver (approvalDelivery 1754000010)) (some _) _ .start rfl)

def emptyDatabase : Database := { approvalDatabase 1 with contracts := fun _ => none }

/-- An approval comes in before its contract is there. -/
def afterEarlyApproval : Inbox where
  db := { emptyDatabase with syncLogs := [receiptRow (approvalData 1754000010)
    (approvalDelivery 1754000010).correlation 1754000010] }
  usable := []

theorem early_approval_fails :
    (inbox approvalPlatform emptyDatabase).start.deliver approvalPlatform (approvalDelivery 1754000010) =
      (⟨approvalDelivery 1754000010, .processed (approvalData 1754000010)
        (.error { cls := .ejarWebhookContractNotFound, message := "Contract 7 not found" })⟩,
       afterEarlyApproval) := by
  have hvalid : validate approvalPlatform emptyDatabase.params (approvalDelivery 1754000010).signature
      (approvalDelivery 1754000010).timestamp (approvalDelivery 1754000010).body 1754000010 =
        .ok (approvalData 1754000010) := approval_valid (by decide)
  have hreceive : receive approvalPlatform appends emptyDatabase (approvalDelivery 1754000010) =
      (.processed (approvalData 1754000010)
        (.error { cls := .ejarWebhookContractNotFound, message := "Contract 7 not found" }),
       afterEarlyApproval.db) := by
    rw [receive_valid hvalid, processWebhook_append rfl]
    rfl
  have husable : usableData approvalPlatform emptyDatabase (approvalDelivery 1754000010) = [] := by
    have hnot : processable emptyDatabase (approvalData 1754000010) = false := by decide +kernel
    have hnow : (approvalDelivery 1754000010).now = 1754000010 := rfl
    simp only [usableData, hnow, hvalid, hnot]
    rfl
  have hstart : (inbox approvalPlatform emptyDatabase).start = ⟨emptyDatabase, []⟩ := rfl
  simp only [hstart, Inbox.deliver, hreceive, husable]
  rfl

/-- Then the contract is saved. -/
def afterContract : Inbox where
  db := { afterEarlyApproval.db with
    contracts := (Function.update (fun _ => none) 7 (some (sampleContract "EJR/2025/0007"))) }
  usable := []

theorem retry_is_skipped : (afterContract.deliver approvalPlatform (approvalDelivery 1754000070)).1.verdict =
    .duplicate (approvalData 1754000070) := by
  have hvalid : validate approvalPlatform afterContract.db.params (approvalDelivery 1754000070).signature
      (approvalDelivery 1754000070).timestamp (approvalDelivery 1754000070).body
      (approvalDelivery 1754000070).now = .ok (approvalData 1754000070) := approval_valid (by decide)
  have hdup : isDuplicate afterContract.db.syncLogs ((approvalData 1754000070).get "idempotency_key")
      (approvalDelivery 1754000070).now = true := by decide +kernel
  simp only [Inbox.deliver, receive_valid hvalid, hdup, if_true]

theorem retry_is_lost : ∃ h s, (inbox approvalPlatform emptyDatabase).Run h s ∧ ¬ NoneLost h := by
  have hearly := @Shared.Run.step _ _ _ (inbox approvalPlatform emptyDatabase) [] _
    (.deliver (approvalDelivery 1754000010)) (some _) _ .start rfl
  rw [early_approval_fails] at hearly
  have hsaved := @Shared.Run.step _ _ _ (inbox approvalPlatform emptyDatabase) _ _
    (.store 7 (sampleContract "EJR/2025/0007")) none afterContract hearly rfl
  have hretry := @Shared.Run.step _ _ _ (inbox approvalPlatform emptyDatabase) _ _
    (.deliver (approvalDelivery 1754000070)) (some _) _ hsaved rfl
  refine ⟨_, _, hretry, fun hlost => ?_⟩
  obtain ⟨r, hr, data, hsuccess, _⟩ := (noneLost_append.mp hlost).2 _ retry_is_skipped
  simp only [Option.toList, List.nil_append, List.append_nil, List.mem_singleton] at hr
  subst hr
  simp at hsuccess

end Ejar
