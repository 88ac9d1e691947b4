import PropzaAmlak.Ejar.Keeps

/-! Ejar as a service that does each POST for a resource once, and answers a
further one with a conflict and the resource that is there. -/

namespace Ejar

open Tx

/-- What a POST is for, in the parts of its idempotency key. -/
abbrev Resource := List String

/-- The ids that Ejar gives, and the hash of a file. -/
structure Remote where
  hash : List UInt8 → String
  name : Resource → String
  name_ne : ∀ r, name r ≠ ""

namespace Remote

def resource (m : Remote) (request : Request) : Resource :=
  request.call.idempotencyParts m.hash request.companyId

/-- A resource as the answers show it. -/
def body (m : Remote) (r : Resource) : Json :=
  .obj [("data", .obj [("id", .str (m.name r)), ("attributes", .obj [])])]

/-- The answer, and the resources there are after it. -/
def answer (m : Remote) (performed : List Resource) (request : Request) : Reply × List Resource :=
  let r := m.resource request
  if r ∈ performed then (.response 409 (some (m.body r)) "", performed)
  else (.response 201 (some (m.body r)) "", performed ++ [r])

/-- Every call is answered. -/
def answered (m : Remote) : Observer RecordWrite Request Reply (List Resource) :=
  served fun performed request => some (m.answer performed request)

/-- A call may also fail, or its answer get lost, with the request done or not. -/
def unreliable (m : Remote) : Observer RecordWrite Request Reply (List Resource)
  | performed, .write _, performed' => performed' = performed
  | performed, .commit, performed' => performed' = performed
  | performed, .call request reply, performed' =>
    (reply, performed') = m.answer performed request ∨
      ¬ reply.accepted ∧ (performed' = performed ∨ performed' = (m.answer performed request).2)
  | performed, .lost request, performed' =>
    performed' = performed ∨ performed' = (m.answer performed request).2

variable {m : Remote} {performed : List Resource} {request : Request}

theorem answer_new (h : m.resource request ∉ performed) : m.answer performed request =
    (.response 201 (some (m.body (m.resource request))) "", performed ++ [m.resource request]) :=
  if_neg h

theorem answer_again (h : m.resource request ∈ performed) : m.answer performed request =
    (.response 409 (some (m.body (m.resource request))) "", performed) :=
  if_pos h

theorem readReply_new (h : m.resource request ∉ performed) :
    readReply request (m.answer performed request).1 = .ok (m.body (m.resource request)) := by
  rw [answer_new h]
  rfl

theorem readReply_again (h : m.resource request ∈ performed) :
    ∃ e, readReply request (m.answer performed request).1 = .error e ∧ e.cls = .ejarConflictError ∧
      existingId e = .ok (.str (m.name (m.resource request))) ∧
      e.existingResource = .obj [("id", .str (m.name (m.resource request))), ("attributes", .obj [])] := by
  rw [answer_again h]
  exact ⟨_, rfl, rfl, rfl, rfl⟩

theorem name_truthy (m : Remote) (r : Resource) : (Json.str (m.name r)).truthy := by
  simpa using m.name_ne r

theorem entityReply_answer (m : Remote) (performed : List Resource) (request : Request) :
    entityReply request (m.answer performed request).1 = .ok (.str (m.name (m.resource request))) := by
  by_cases h : m.resource request ∈ performed
  · obtain ⟨e, he, hcls, hexisting, -⟩ := readReply_again h
    rw [entityReply, he, orConflict, if_pos hcls, hexisting]
    have htruthy := m.name_truthy (m.resource request)
    simp only [bind, Except.bind, htruthy, if_true]
    rfl
  · rw [entityReply, readReply_new h]
    rfl

theorem contractReply_answer (m : Remote) (performed : List Resource) (request : Request) :
    contractReply request (m.answer performed request).1 = .ok (.str (m.name (m.resource request)), .str "") := by
  by_cases h : m.resource request ∈ performed
  · obtain ⟨e, he, hcls, hexisting, hresource⟩ := readReply_again h
    rw [contractReply, he, orConflict, if_pos hcls, hexisting, hresource]
    have htruthy := m.name_truthy (m.resource request)
    simp only [bind, Except.bind, htruthy, if_true]
    rfl
  · rw [contractReply, readReply_new h]
    rfl

theorem linkReply_answer (m : Remote) (performed : List Resource) (request : Request) :
    linkReply request (m.answer performed request).1 = .ok (.str (m.name (m.resource request))) := by
  by_cases h : m.resource request ∈ performed
  · obtain ⟨e, he, hcls, hexisting, -⟩ := readReply_again h
    rw [linkReply, he]
    simp only [Except.map, orConflict, hcls, if_true, hexisting]
    rfl
  · rw [linkReply, readReply_new h]
    rfl

theorem infoReply_answer (m : Remote) (performed : List Resource) (request : Request) :
    infoReply request (m.answer performed request).1 = .ok () := by
  by_cases h : m.resource request ∈ performed
  · obtain ⟨e, he, hcls, -⟩ := readReply_again h
    rw [infoReply, docReply, he]
    change (if e.cls = .ejarConflictError then Except.ok () else .error e) = _
    rw [if_pos hcls]
  · rw [infoReply, docReply, readReply_new h]
    rfl

theorem proxyReply_new (h : m.resource request ∉ performed) :
    proxyReply request (m.answer performed request).1 = .ok (.str (m.name (m.resource request))) := by
  rw [proxyReply, readReply_new h]
  rfl

theorem docReply_new (h : m.resource request ∉ performed) :
    docReply request (m.answer performed request).1 = .ok () := by
  rw [docReply, readReply_new h]
  rfl

theorem submitReply_new (h : m.resource request ∉ performed) :
    submitReply request (m.answer performed request).1 = .ok () := by
  rw [submitReply, readReply_new h]
  rfl

theorem proxyReply_again (h : m.resource request ∈ performed) :
    ∃ e, proxyReply request (m.answer performed request).1 = .error e := by
  obtain ⟨e, he, -⟩ := readReply_again h
  exact ⟨e, by rw [proxyReply, he]; rfl⟩

theorem docReply_again (h : m.resource request ∈ performed) :
    ∃ e, docReply request (m.answer performed request).1 = .error e := by
  obtain ⟨e, he, -⟩ := readReply_again h
  exact ⟨e, by rw [docReply, he]; rfl⟩

theorem submitReply_again (h : m.resource request ∈ performed) :
    ∃ e, submitReply request (m.answer performed request).1 = .error e := by
  obtain ⟨e, he, -⟩ := readReply_again h
  exact ⟨e, by rw [submitReply, he]; rfl⟩

theorem mem_answer (m : Remote) (performed : List Resource) (request : Request) (r : Resource) :
    r ∈ (m.answer performed request).2 ↔ r ∈ performed ∨ r = m.resource request := by
  by_cases h : m.resource request ∈ performed
  · rw [answer_again h]
    constructor
    · exact Or.inl
    · rintro (hr | rfl)
      · exact hr
      · exact h
  · rw [answer_new h]
    simp

theorem answer_nodup (m : Remote) (request : Request) (h : performed.Nodup) :
    (m.answer performed request).2.Nodup := by
  by_cases hmem : m.resource request ∈ performed
  · rwa [answer_again hmem]
  · rw [answer_new hmem]
    exact List.nodup_append.mpr ⟨h, by simp, by
      intro a ha b hb
      rw [List.mem_singleton.mp hb]
      exact fun heq => hmem (heq ▸ ha)⟩

theorem answered_unreliable {e : Event RecordWrite Request Reply} {performed' : List Resource}
    (h : m.answered performed e performed') : m.unreliable performed e performed' := by
  cases e with
  | write u => exact h
  | commit => exact h
  | call request reply => exact Or.inl (Option.some.inj h).symm
  | lost request => exact h.elim

end Remote

/-- Each part of a resource with a mark before every character and at its end. -/
def spelled : Resource → List Char
  | [] => []
  | s :: r => s.toList.flatMap (fun ch => ['.', ch]) ++ ';' :: spelled r

theorem marked_injective {s t x y : List Char}
    (h : s.flatMap (fun ch => ['.', ch]) ++ ';' :: x = t.flatMap (fun ch => ['.', ch]) ++ ';' :: y) :
    s = t ∧ x = y := by
  induction s generalizing t with
  | nil =>
    cases t with
    | nil => simpa using h
    | cons b t => simp at h
  | cons a s ih =>
    cases t with
    | nil => simp at h
    | cons b t =>
      simp only [List.flatMap_cons, List.cons_append, List.nil_append, List.cons.injEq, true_and] at h
      obtain ⟨rfl, hrest⟩ := h
      obtain ⟨rfl, hxy⟩ := ih hrest
      exact ⟨rfl, hxy⟩

theorem spelled_injective : Function.Injective spelled := by
  intro r r' h
  induction r generalizing r' with
  | nil =>
    cases r' with
    | nil => rfl
    | cons s r' => cases s.toList <;> simp [spelled] at h
  | cons s r ih =>
    cases r' with
    | nil => simp [spelled] at h
    | cons t r' =>
      obtain ⟨hst, hrest⟩ := marked_injective h
      rw [String.toList_inj.mp hst, ih hrest]

/-- A service whose ids spell out what they are for. -/
def sampleRemote : Remote where
  hash := fun bytes => toString bytes.length
  name := fun r => String.ofList ('#' :: spelled r)
  name_ne := fun r h => by simpa using congrArg String.toList h

theorem sampleRemote_name_injective : Function.Injective sampleRemote.name := by
  intro r r' h
  have hspelled : '#' :: spelled r = '#' :: spelled r' := by
    simpa [sampleRemote] using congrArg String.toList h
  exact spelled_injective (List.cons.inj hspelled).2

end Ejar
