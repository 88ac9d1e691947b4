import PropzaAmlak.Ejar.Lifecycle

/-! What the steps of the pipeline take from the replies. -/

namespace Ejar

theorem buildContractAttributes_terms {c : Contract} {profile : Option BrokerageProfile}
    {attrs : ContractAttributes} (h : buildContractAttributes c profile = .ok attrs) :
    attrs.contractStartDate = dateStr c.startDate ∧ attrs.contractEndDate = dateStr c.endDate ∧
      attrs.contractType = (c.contractType.getD .residential).str := by
  obtain ⟨_, -, h⟩ := bind_eq_ok.mp h
  obtain ⟨_, -, h⟩ := bind_eq_ok.mp h
  obtain ⟨_, -, h⟩ := bind_eq_ok.mp h
  obtain ⟨_, -, h⟩ := bind_eq_ok.mp h
  cases h
  exact ⟨rfl, rfl, rfl⟩

/-- `v` with a conflict handled by `handler`. -/
def orConflict {α : Type} (v : Except Exc α) (handler : Exc → Except Exc α) : Except Exc α :=
  match v with
  | .ok a => .ok a
  | .error e => if e.cls = .ejarConflictError then handler e else .error e

/-- The id that a reply to an entity call stores. -/
def entityReply (request : Request) (reply : Reply) : Except Exc Json := do
  let resp ← orConflict (readReply request reply) fun exc => do
    let entityId ← existingId exc
    if entityId.truthy then .ok (.obj [("data", .obj [("id", entityId)])]) else .error exc
  respId resp

/-- The id and the number that a reply to `create_contract` stores. -/
def contractReply (request : Request) (reply : Reply) : Except Exc (Json × Json) := do
  let resp ← orConflict (readReply request reply) fun exc => do
    let ejarId ← existingId exc
    if ejarId.truthy then
      .ok (.obj [("data", .obj [("id", ejarId), ("attributes", exc.existingResource.orElse (.obj []))])])
    else .error exc
  let ejarId ← respId resp
  let data ← respData resp
  let attrsResp ← pyGet data "attributes" (.obj [])
  let ejarNumber ← pyGet attrsResp "contract_number" (.str "")
  .ok (ejarId, ejarNumber)

/-- The id that a reply to `attach_unit` or `add_party` stores. -/
def linkReply (request : Request) (reply : Reply) : Except Exc Json := do
  let linkedId ← orConflict ((readReply request reply).map respId) fun exc => .ok (existingId exc)
  linkedId

def proxyReply (request : Request) (reply : Reply) : Except Exc Json := do
  let resp ← readReply request reply
  respId resp

def docReply (request : Request) (reply : Reply) : Except Exc Unit := do
  let _ ← readReply request reply
  .ok ()

def infoReply (request : Request) (reply : Reply) : Except Exc Unit :=
  orConflict (docReply request reply) fun _ => .ok ()

def submitReply (request : Request) (reply : Reply) : Except Exc Unit := do
  let resp ← readReply request reply
  let _ ← respData resp
  .ok ()

/-- The answer carries the id of a resource: the new one, or the existing one of a
conflict. -/
def Reply.carriesId : Reply → Prop
  | .response _ json text => ∃ id, respId (responseBody json text) = .ok id ∧ id.truthy
  | _ => False

theorem Reply.accepted_of_ok {request : Request} {reply : Reply} {body : Json}
    (hbody : readReply request reply = .ok body) : reply.accepted := by
  obtain ⟨statusCode, json, text, rfl, hlow, hhigh, -⟩ := readReply_ok hbody
  simp [Reply.accepted, hlow, hhigh]

theorem Reply.accepted_of_conflict {request : Request} {reply : Reply} {e : Exc}
    (he : readReply request reply = .error e) (hcls : e.cls = .ejarConflictError) :
    reply.accepted := by
  obtain ⟨json, text, existing, rfl, -⟩ := readReply_conflict he hcls
  rfl

theorem orConflict_ok {α : Type} {v : Except Exc α} {handler : Exc → Except Exc α} {a : α} :
    orConflict v handler = .ok a ↔
      v = .ok a ∨ ∃ e, v = .error e ∧ e.cls = .ejarConflictError ∧ handler e = .ok a := by
  cases v with
  | ok b => simp [orConflict]
  | error e => by_cases hcls : e.cls = .ejarConflictError <;> simp [orConflict, hcls]

theorem Reply.carriesId.respId {request : Request} {reply : Reply} {body id : Json}
    (hid : reply.carriesId) (hbody : readReply request reply = .ok body)
    (hresp : Ejar.respId body = .ok id) : id.truthy := by
  obtain ⟨statusCode, json, text, rfl, -, -, rfl⟩ := readReply_ok hbody
  obtain ⟨id', hid', htruthy⟩ := hid
  rw [hresp, Except.ok.injEq] at hid'
  rwa [hid']

theorem orElse_of_id {d id : Json} (hid : pyGet d "id" (.str "") = .ok id) (htruthy : id.truthy) :
    d.orElse (.obj []) = d := by
  cases d with
  | obj fields =>
    cases fields with
    | nil =>
      simp only [pyGet, Json.lookup, List.lookup_nil, Option.getD_none, Except.ok.injEq] at hid
      simp [← hid] at htruthy
    | cons kv fields => rfl
  | _ => simp [pyGet] at hid

/-- The id of the existing resource in a conflict that carries one. -/
theorem Reply.carriesId.existingId {request : Request} {reply : Reply} {e : Exc} {id : Json}
    (hid : reply.carriesId) (he : readReply request reply = .error e)
    (hcls : e.cls = .ejarConflictError) (hexisting : Ejar.existingId e = .ok id) : id.truthy := by
  obtain ⟨json, text, existing, rfl, hdata, hresource⟩ := readReply_conflict he hcls
  obtain ⟨id', hid', htruthy⟩ := hid
  cases hbody : responseBody json text with
  | obj fields =>
    simp only [hbody, pyGet, Except.ok.injEq] at hdata
    obtain ⟨d, hd, hid'⟩ := bind_eq_ok.mp hid'
    simp only [respData, hbody, pyGet, Except.ok.injEq] at hd
    cases hlookup : Json.lookup fields "data" with
    | none =>
      simp only [hlookup, Option.getD_none] at hd
      subst hd
      simp only [pyGet, Json.lookup, List.lookup_nil, Option.getD_none, Except.ok.injEq] at hid'
      simp [← hid'] at htruthy
    | some d' =>
      simp only [hlookup, Option.getD_some] at hd hdata
      subst hd hdata
      have hd' := orElse_of_id hid' htruthy
      simp only [Ejar.existingId, hresource, hd', hid', Except.ok.injEq] at hexisting
      rwa [← hexisting]
  | _ => simp [hbody, pyGet] at hdata

theorem entityReply_ok {request : Request} {reply : Reply} {id : Json}
    (h : entityReply request reply = .ok id) :
    reply.accepted ∧ (reply.carriesId → id.truthy) := by
  obtain ⟨resp, hresp, hid⟩ := bind_eq_ok.mp h
  rcases orConflict_ok.mp hresp with hbody | ⟨e, he, hcls, hhandler⟩
  · exact ⟨Reply.accepted_of_ok hbody, fun hcarries => hcarries.respId hbody hid⟩
  · refine ⟨Reply.accepted_of_conflict he hcls, fun hcarries => ?_⟩
    obtain ⟨entityId, hexisting, hentity⟩ := bind_eq_ok.mp hhandler
    have htruthy := hcarries.existingId he hcls hexisting
    rw [if_pos htruthy, Except.ok.injEq] at hentity
    subst hentity
    have hrespId : respId (.obj [("data", .obj [("id", entityId)])]) = .ok entityId := rfl
    rw [hrespId, Except.ok.injEq] at hid
    rwa [← hid]

theorem contractReply_ok {request : Request} {reply : Reply} {created : Json × Json}
    (h : contractReply request reply = .ok created) :
    reply.accepted ∧ (reply.carriesId → created.1.truthy) := by
  obtain ⟨resp, hresp, h⟩ := bind_eq_ok.mp h
  obtain ⟨ejarId, hid, h⟩ := bind_eq_ok.mp h
  obtain ⟨data, -, h⟩ := bind_eq_ok.mp h
  obtain ⟨attrsResp, -, h⟩ := bind_eq_ok.mp h
  obtain ⟨ejarNumber, -, h⟩ := bind_eq_ok.mp h
  cases h
  rcases orConflict_ok.mp hresp with hbody | ⟨e, he, hcls, hhandler⟩
  · exact ⟨Reply.accepted_of_ok hbody, fun hcarries => hcarries.respId hbody hid⟩
  · refine ⟨Reply.accepted_of_conflict he hcls, fun hcarries => ?_⟩
    obtain ⟨existing, hexisting, hcontract⟩ := bind_eq_ok.mp hhandler
    have htruthy := hcarries.existingId he hcls hexisting
    rw [if_pos htruthy, Except.ok.injEq] at hcontract
    subst hcontract
    have hrespId : ∀ attributes, respId (.obj [("data", .obj [("id", existing),
        ("attributes", attributes)])]) = .ok existing := fun _ => rfl
    rw [hrespId, Except.ok.injEq] at hid
    rwa [← hid]

theorem linkReply_ok {request : Request} {reply : Reply} {id : Json}
    (h : linkReply request reply = .ok id) :
    reply.accepted ∧ (reply.carriesId → id.truthy) := by
  obtain ⟨linkedId, hlinked, hid⟩ := bind_eq_ok.mp h
  cases hread : readReply request reply with
  | ok body =>
    simp only [hread, Except.map, orConflict, Except.ok.injEq] at hlinked
    exact ⟨Reply.accepted_of_ok hread, fun hcarries => hcarries.respId hread (hlinked.trans hid)⟩
  | error e =>
    simp only [hread, Except.map] at hlinked
    rcases orConflict_ok.mp hlinked with hbody | ⟨e', he, hcls, hhandler⟩
    · cases hbody
    · cases he
      simp only [Except.ok.injEq] at hhandler
      exact ⟨Reply.accepted_of_conflict hread hcls,
        fun hcarries => hcarries.existingId hread hcls (hhandler.trans hid)⟩

theorem docReply_ok {request : Request} {reply : Reply} (h : docReply request reply = .ok ()) :
    reply.accepted := by
  obtain ⟨body, hbody, -⟩ := bind_eq_ok.mp h
  exact Reply.accepted_of_ok hbody

theorem infoReply_ok {request : Request} {reply : Reply} (h : infoReply request reply = .ok ()) :
    reply.accepted := by
  rcases orConflict_ok.mp h with hdoc | ⟨e, he, hcls, -⟩
  · exact docReply_ok hdoc
  · rcases bind_eq_error.mp he with he | ⟨_, -, he⟩
    · exact Reply.accepted_of_conflict he hcls
    · cases he

end Ejar
