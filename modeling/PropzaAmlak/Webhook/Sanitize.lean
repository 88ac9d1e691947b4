import PropzaAmlak.Data.Dumps

/-! `_sanitize_json` of `services/webhook_processor.py`: what the stored body of a
webhook tells of the values under sensitive keys. -/

namespace Ejar

open Json (dumps dumpsItems dumpsFields quote escape escapeChar)

/-- `SENSITIVE_FIELDS` of `services/constants.py`. -/
def sensitiveFields : List String :=
  ["api_key", "api_secret", "api_secret_key", "iban_number", "swift_code", "id_number", "national_id", "iqama",
    "date_of_birth"]

def sensitiveKey (key : String) : Bool := sensitiveFields.contains key || "_key".toList.isSuffixOf key.toList

/-- The characters that are kept of a body. -/
def bodyLimit : Nat := 65536

mutual

/-- A value that is not under a sensitive key. -/
def sanitizeValue : Json → Json
  | .obj fields => .str (String.ofList ((dumps (.obj (sanitizeFields fields))).take bodyLimit))
  | .arr items => .arr (sanitizeItems items)
  | v => v

/-- The items of a list: dicts are sanitized, all others stay as they are. -/
def sanitizeItem : Json → Json
  | .obj fields => .str (String.ofList ((dumps (.obj (sanitizeFields fields))).take bodyLimit))
  | v => v

def sanitizeItems : List Json → List Json
  | [] => []
  | x :: xs => sanitizeItem x :: sanitizeItems xs

def sanitizeFields : List (String × Json) → List (String × Json)
  | [] => []
  | (k, v) :: rest =>
    (k, if sensitiveKey k then .str "***REDACTED***" else sanitizeValue v) :: sanitizeFields rest

end

/-- `_sanitize_json` -/
def sanitizeJson (data : List (String × Json)) : String :=
  String.ofList ((dumps (.obj (sanitizeFields data))).take bodyLimit)

mutual

/-- The same value with other values under its sensitive keys. -/
def replaceSensitive (f : Json → Json) : Json → Json
  | .arr items => .arr (replaceItems f items)
  | .obj fields => .obj (replaceFields f fields)
  | v => v

def replaceItems (f : Json → Json) : List Json → List Json
  | [] => []
  | x :: xs => replaceSensitive f x :: replaceItems f xs

def replaceFields (f : Json → Json) : List (String × Json) → List (String × Json)
  | [] => []
  | (k, v) :: rest => (k, if sensitiveKey k then f v else replaceSensitive f v) :: replaceFields f rest

end

/-- The payloads differ only in values under sensitive keys. -/
def SameButSensitive (data data' : List (String × Json)) : Prop :=
  replaceFields (fun _ => .null) data = replaceFields (fun _ => .null) data'

/-- A text up to the first value under a sensitive key that stands in it; the whole
text, where there is none. -/
structure Clear where
  text : List Char
  whole : Bool

namespace Clear

def all (text : List Char) : Clear := ⟨text, true⟩

/-- A value under a sensitive key. -/
def secret : Clear := ⟨[], false⟩

def append (a b : Clear) : Clear := if a.whole then ⟨a.text ++ b.text, b.whole⟩ else a

def escaped (a : Clear) : Clear := ⟨escape a.text, a.whole⟩

def quoted (a : Clear) : Clear := (all ['"']).append (a.escaped.append (all ['"']))

/-- Cutting a text can cut off all that is not clear. -/
def cut (a : Clear) (n : Nat) : Clear := ⟨a.text.take n, a.whole || n ≤ a.text.length⟩

end Clear

mutual

/-- A value that is written as it is. -/
def rawClear : Json → Clear
  | .arr items => (Clear.all ['[']).append ((rawItems [] items).append (.all [']']))
  | .obj fields => (Clear.all ['\x7b']).append ((rawFields [] fields).append (.all ['\x7d']))
  | v => .all (dumps v)

def rawItems (separator : List Char) : List Json → Clear
  | [] => .all []
  | x :: xs => (Clear.all separator).append ((rawClear x).append (rawItems [',', ' '] xs))

def rawFields (separator : List Char) : List (String × Json) → Clear
  | [] => .all []
  | (k, v) :: rest => (Clear.all separator).append ((Clear.all (quote k.toList)).append ((Clear.all [':', ' ']).append
      ((if sensitiveKey k then .secret else rawClear v).append (rawFields [',', ' '] rest))))

end

mutual

/-- A value that is written after `_sanitize_json` has been over it. -/
def valueClear : Json → Clear
  | .obj fields => (((Clear.all ['\x7b']).append ((fieldsClear [] fields).append (.all ['\x7d']))).cut bodyLimit).quoted
  | .arr items => (Clear.all ['[']).append ((itemsClear [] items).append (.all [']']))
  | v => .all (dumps v)

def itemClear : Json → Clear
  | .obj fields => (((Clear.all ['\x7b']).append ((fieldsClear [] fields).append (.all ['\x7d']))).cut bodyLimit).quoted
  | v => rawClear v

def itemsClear (separator : List Char) : List Json → Clear
  | [] => .all []
  | x :: xs => (Clear.all separator).append ((itemClear x).append (itemsClear [',', ' '] xs))

def fieldsClear (separator : List Char) : List (String × Json) → Clear
  | [] => .all []
  | (k, v) :: rest => (Clear.all separator).append ((Clear.all (quote k.toList)).append ((Clear.all [':', ' ']).append
      ((if sensitiveKey k then .all (dumps (.str "***REDACTED***")) else valueClear v).append
        (fieldsClear [',', ' '] rest))))

end

/-- How much of the stored body comes before the first value under a sensitive key. -/
def bodyClear (data : List (String × Json)) : Clear :=
  ((Clear.all ['\x7b']).append ((fieldsClear [] data).append (.all ['\x7d']))).cut bodyLimit

/-- What may stand from the first secret value on, in a text that goes on, is quoted
and is cut off. -/
structure Tail (Rest : List Char → Prop) : Prop where
  append : ∀ rest more, Rest rest → Rest (rest ++ more)
  escape : ∀ rest, Rest rest → Rest (escape rest)
  take : ∀ rest n, 0 < n → Rest rest → Rest (rest.take n)

/-- The text is as far clear as it says. -/
def Clear.Follows (Rest : List Char → Prop) (a : Clear) (text : List Char) : Prop :=
  if a.whole then text = a.text else ∃ rest, Rest rest ∧ text = a.text ++ rest

section

variable {Rest : List Char → Prop} {a b : Clear} {s t : List Char} {n : Nat} {f : Json → Json}

theorem follows_all (t : List Char) : (Clear.all t).Follows Rest t := rfl

theorem follows_secret (h : Rest t) : Clear.secret.Follows Rest t := ⟨t, h, rfl⟩

theorem Clear.Follows.append (hRest : Tail Rest) (ha : a.Follows Rest s) (hb : b.Follows Rest t) :
    (a.append b).Follows Rest (s ++ t) := by
  unfold Clear.append
  by_cases hwhole : a.whole
  · rw [Clear.Follows, if_pos hwhole] at ha
    rw [if_pos hwhole, ha]
    unfold Clear.Follows at hb ⊢
    split at hb
    · rename_i hb'
      rw [if_pos hb', hb]
    · rename_i hb'
      obtain ⟨rest, hrest, rfl⟩ := hb
      rw [if_neg hb']
      exact ⟨rest, hrest, (List.append_assoc _ _ _).symm⟩
  · rw [if_neg hwhole]
    rw [Clear.Follows, if_neg hwhole] at ha ⊢
    obtain ⟨rest, hrest, rfl⟩ := ha
    exact ⟨rest ++ t, hRest.append rest t hrest, List.append_assoc _ _ _⟩

theorem Clear.Follows.escaped (hRest : Tail Rest) (ha : a.Follows Rest s) : a.escaped.Follows Rest (escape s) := by
  unfold Clear.Follows at ha
  by_cases hwhole : a.whole
  · have hescaped : a.escaped.whole = true := hwhole
    rw [if_pos hwhole] at ha
    rw [ha, Clear.Follows, if_pos hescaped]
    rfl
  · have hescaped : ¬a.escaped.whole = true := hwhole
    rw [if_neg hwhole] at ha
    obtain ⟨rest, hrest, rfl⟩ := ha
    rw [Clear.Follows, if_neg hescaped]
    exact ⟨escape rest, hRest.escape rest hrest, List.flatMap_append⟩

theorem Clear.Follows.quoted (hRest : Tail Rest) (ha : a.Follows Rest s) : a.quoted.Follows Rest (quote s) :=
  (follows_all ['"']).append hRest ((ha.escaped hRest).append hRest (follows_all ['"']))

theorem Clear.Follows.cut (hRest : Tail Rest) (ha : a.Follows Rest s) : (a.cut n).Follows Rest (s.take n) := by
  unfold Clear.Follows at ha
  by_cases hwhole : a.whole
  · rw [if_pos hwhole] at ha
    rw [ha]
    simp [Clear.Follows, Clear.cut, hwhole]
  · rw [if_neg hwhole] at ha
    obtain ⟨rest, hrest, rfl⟩ := ha
    by_cases hlength : n ≤ a.text.length
    · have htake : (a.text ++ rest).take n = a.text.take n := List.take_append_of_le_length hlength
      simp [Clear.Follows, Clear.cut, hlength, htake]
    · have htext : a.text.take n = a.text := List.take_of_length_le (by omega)
      have htake : (a.text ++ rest).take n = a.text ++ rest.take (n - a.text.length) := by
        rw [List.take_append, htext]
      have hopen : ¬(a.cut n).whole = true := by simp [Clear.cut, hwhole, hlength]
      have hcut : (a.cut n).text = a.text := htext
      rw [Clear.Follows, if_neg hopen, htake, hcut]
      exact ⟨_, hRest.take rest _ (by omega) hrest, rfl⟩

/-- Replacing values under sensitive keys changes nothing of what is clear. -/
theorem rawClear_replaced (f : Json → Json) : Json.Cases (fun v => rawClear (replaceSensitive f v) = rawClear v)
    (fun xs => ∀ sep, rawItems sep (replaceItems f xs) = rawItems sep xs)
    (fun fields => ∀ sep, rawFields sep (replaceFields f fields) = rawFields sep fields) where
  null := rfl
  bool _ := rfl
  int _ := rfl
  float _ _ _ := rfl
  str _ := rfl
  arr xs ih := by simp only [replaceSensitive, rawClear, ih]
  obj fields ih := by simp only [replaceSensitive, rawClear, ih]
  nil := by simp [replaceItems]
  cons x xs ihx ih := by simp only [replaceItems, rawItems, ihx, ih, implies_true]
  empty := by simp [replaceFields]
  field k v rest ihv ih := by
    intro sep
    by_cases hkey : sensitiveKey k
    · simp only [replaceFields, rawFields, hkey, if_true, ih]
    · simp only [replaceFields, rawFields, hkey, if_false, ihv, ih, Bool.false_eq_true]

theorem clear_replaced (f : Json → Json) :
    Json.Cases
      (fun v => valueClear (replaceSensitive f v) = valueClear v ∧ itemClear (replaceSensitive f v) = itemClear v)
      (fun xs => ∀ sep, itemsClear sep (replaceItems f xs) = itemsClear sep xs)
      (fun fields => ∀ sep, fieldsClear sep (replaceFields f fields) = fieldsClear sep fields) where
  null := ⟨rfl, rfl⟩
  bool _ := ⟨rfl, rfl⟩
  int _ := ⟨rfl, rfl⟩
  float _ _ _ := ⟨rfl, rfl⟩
  str _ := ⟨rfl, rfl⟩
  arr xs ih := by
    have hraw := (rawClear_replaced f).all.1 (.arr xs)
    rw [replaceSensitive] at hraw
    simp only [replaceSensitive, valueClear, itemClear, ih, hraw, and_self]
  obj fields ih := by simp only [replaceSensitive, valueClear, itemClear, ih, and_self]
  nil := by simp [replaceItems]
  cons x xs ihx ih := by simp only [replaceItems, itemsClear, ihx.2, ih, implies_true]
  empty := by simp [replaceFields]
  field k v rest ihv ih := by
    intro sep
    by_cases hkey : sensitiveKey k
    · simp only [replaceFields, fieldsClear, hkey, if_true, ih]
    · simp only [replaceFields, fieldsClear, hkey, if_false, ihv.1, ih, Bool.false_eq_true]

theorem bodyClear_replaced (f : Json → Json) (data : List (String × Json)) :
    bodyClear (replaceFields f data) = bodyClear data := by
  rw [bodyClear, bodyClear, (clear_replaced f).all.2.2 data]

theorem nulled_replaced (f : Json → Json) :
    Json.Cases (fun v => replaceSensitive (fun _ => .null) (replaceSensitive f v) = replaceSensitive (fun _ => .null) v)
      (fun xs => replaceItems (fun _ => .null) (replaceItems f xs) = replaceItems (fun _ => .null) xs)
      (fun fields => replaceFields (fun _ => .null) (replaceFields f fields) =
        replaceFields (fun _ => .null) fields) where
  null := rfl
  bool _ := rfl
  int _ := rfl
  float _ _ _ := rfl
  str _ := rfl
  arr xs ih := by simp only [replaceSensitive, ih]
  obj fields ih := by simp only [replaceSensitive, ih]
  nil := rfl
  cons x xs ihx ih := by simp only [replaceItems, ihx, ih]
  empty := rfl
  field k v rest ihv ih := by
    by_cases hkey : sensitiveKey k
    · simp only [replaceFields, hkey, if_true, ih]
    · simp only [replaceFields, hkey, if_false, ihv, ih, Bool.false_eq_true]

theorem same_replaced (f : Json → Json) (data : List (String × Json)) :
    SameButSensitive data (replaceFields f data) := ((nulled_replaced f).all.2.2 data).symm

theorem replace_id : Json.Cases (fun v => replaceSensitive id v = v) (fun xs => replaceItems id xs = xs)
    (fun fields => replaceFields id fields = fields) where
  null := rfl
  bool _ := rfl
  int _ := rfl
  float _ _ _ := rfl
  str _ := rfl
  arr xs ih := by rw [replaceSensitive, ih]
  obj fields ih := by rw [replaceSensitive, ih]
  nil := rfl
  cons x xs ihx ih := by rw [replaceItems, ihx, ih]
  empty := rfl
  field k v rest ihv ih := by rw [replaceFields, ihv, ih, id, ite_self]

/-- What is written of a value, with `f` of each value under a sensitive key. -/
theorem rawClear_follows (hRest : Tail Rest) (hf : ∀ v, Rest (dumps (f v))) :
    Json.Cases (fun v => (rawClear v).Follows Rest (dumps (replaceSensitive f v)))
      (fun xs => ∀ sep, (rawItems sep xs).Follows Rest (dumpsItems sep (replaceItems f xs)))
      (fun fields => ∀ sep, (rawFields sep fields).Follows Rest (dumpsFields sep (replaceFields f fields))) where
  null := rfl
  bool _ := rfl
  int _ := rfl
  float _ _ _ := rfl
  str _ := rfl
  arr xs ih := (follows_all ['[']).append hRest ((ih []).append hRest (follows_all [']']))
  obj fields ih := (follows_all ['\x7b']).append hRest ((ih []).append hRest (follows_all ['\x7d']))
  nil _ := rfl
  cons x xs ihx ih sep := (follows_all sep).append hRest (ihx.append hRest (ih _))
  empty _ := rfl
  field k v rest ihv ih sep := by
    rw [rawFields, replaceFields, dumpsFields]
    refine (follows_all sep).append hRest ((follows_all _).append hRest ((follows_all _).append hRest
      (Clear.Follows.append hRest ?_ (ih _))))
    by_cases hkey : sensitiveKey k
    · rw [if_pos hkey, if_pos hkey]
      exact follows_secret (hf v)
    · rw [if_neg hkey, if_neg hkey]
      exact ihv

theorem clear_follows (hRest : Tail Rest) (hf : ∀ v, Rest (dumps (f v))) :
    Json.Cases
      (fun v => (valueClear v).Follows Rest (dumps (sanitizeValue (replaceSensitive f v))) ∧
        (itemClear v).Follows Rest (dumps (sanitizeItem (replaceSensitive f v))))
      (fun xs => ∀ sep, (itemsClear sep xs).Follows Rest (dumpsItems sep (sanitizeItems (replaceItems f xs))))
      (fun fields => ∀ sep,
        (fieldsClear sep fields).Follows Rest (dumpsFields sep (sanitizeFields (replaceFields f fields)))) where
  null := ⟨rfl, rfl⟩
  bool _ := ⟨rfl, rfl⟩
  int _ := ⟨rfl, rfl⟩
  float _ _ _ := ⟨rfl, rfl⟩
  str _ := ⟨rfl, rfl⟩
  arr xs ih := by
    have hraw := (rawClear_follows hRest hf).all.1 (.arr xs)
    exact ⟨(follows_all ['[']).append hRest ((ih []).append hRest (follows_all [']'])), hraw⟩
  obj fields ih := by
    have hbody := ((follows_all ['\x7b']).append hRest ((ih []).append hRest (follows_all ['\x7d']))).cut
      (n := bodyLimit) hRest
    have hquoted := hbody.quoted hRest
    rw [replaceSensitive, sanitizeValue, sanitizeItem, dumps, String.toList_ofList]
    exact ⟨hquoted, hquoted⟩
  nil _ := rfl
  cons x xs ihx ih sep := (follows_all sep).append hRest (ihx.2.append hRest (ih _))
  empty _ := rfl
  field k v rest ihv ih sep := by
    rw [fieldsClear, replaceFields, sanitizeFields, dumpsFields]
    refine (follows_all sep).append hRest ((follows_all _).append hRest ((follows_all _).append hRest
      (Clear.Follows.append hRest ?_ (ih _))))
    by_cases hkey : sensitiveKey k
    · rw [if_pos hkey, if_pos hkey]
      rfl
    · rw [if_neg hkey, if_neg hkey, if_neg hkey]
      exact ihv.1

theorem body_follows (hRest : Tail Rest) (hf : ∀ v, Rest (dumps (f v))) (data : List (String × Json)) :
    (bodyClear data).Follows Rest (sanitizeJson (replaceFields f data)).toList := by
  have hfields := (clear_follows hRest hf).all.2.2 data []
  rw [sanitizeJson, String.toList_ofList]
  exact ((follows_all ['\x7b']).append hRest (hfields.append hRest (follows_all ['\x7d']))).cut hRest

theorem tail_any : Tail (fun _ => True) := ⟨fun _ _ _ => trivial, fun _ _ => trivial, fun _ _ _ _ => trivial⟩

theorem tail_digit (c : Char) (hc : escapeChar c = [c]) : Tail (fun rest => rest.head? = some c) where
  append rest more h := by
    rw [List.head?_append, h, Option.some_or]
  escape rest h := by
    obtain ⟨more, rfl⟩ := List.head?_eq_some_iff.mp h
    rw [escape, List.flatMap_cons, hc]
    rfl
  take rest n hn h := by
    obtain ⟨more, rfl⟩ := List.head?_eq_some_iff.mp h
    rw [List.take_cons hn]
    rfl

/-- The stored body does not depend on the values under sensitive keys exactly if no
such value is written within the characters that are kept. -/
theorem sanitize_noninterference_iff : ∀ data : List (String × Json),
    (∀ data', SameButSensitive data data' → sanitizeJson data' = sanitizeJson data) ↔
      (bodyClear data).whole = true := by
  intro data
  constructor
  · intro hsame
    by_contra hopen
    have h1 := body_follows (f := fun _ => .int 1) (tail_digit '1' (by decide)) (fun _ => rfl) data
    have h2 := body_follows (f := fun _ => .int 2) (tail_digit '2' (by decide)) (fun _ => rfl) data
    rw [hsame _ (same_replaced _ data), Clear.Follows, if_neg hopen] at h1 h2
    obtain ⟨one, hone, htext⟩ := h1
    obtain ⟨two, htwo, htext'⟩ := h2
    have heq : one = two := List.append_cancel_left (htext.symm.trans htext')
    rw [heq, htwo] at hone
    exact absurd hone (by decide)
  · intro hwhole data' hsame
    have hbody : ∀ fields, (bodyClear fields).whole = true →
        (sanitizeJson fields).toList = (bodyClear fields).text := by
      intro fields h
      have hfollows := body_follows (f := id) tail_any (fun _ => trivial) fields
      rwa [Clear.Follows, if_pos h, replace_id.all.2.2 fields] at hfollows
    have hclear : bodyClear data' = bodyClear data := by
      rw [← bodyClear_replaced (fun _ => .null) data', ← hsame, bodyClear_replaced]
    have hwhole' : (bodyClear data').whole = true := hclear ▸ hwhole
    rw [← String.toList_inj, hbody data hwhole, hbody data' hwhole', hclear]

/-- A key in a list within a list is stored as it came. -/
theorem sanitize_nested_list :
    ¬∀ data data' : List (String × Json), SameButSensitive data data' → sanitizeJson data' = sanitizeJson data := by
  intro h
  have hbodies := h [("items", .arr [.arr [.obj [("api_key", .str "a")]]])]
    [("items", .arr [.arr [.obj [("api_key", .str "b")]]])] rfl
  exact absurd hbodies (by decide)

end

end Ejar
