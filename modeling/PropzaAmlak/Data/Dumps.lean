import PropzaAmlak.Data.Json

/-! `json.dumps`, on the characters it writes. -/

namespace Json

/-- The cases of an induction over values, lists and fields at once. -/
structure Cases (P : Json → Prop) (Q : List Json → Prop) (R : List (String × Json) → Prop) : Prop where
  null : P .null
  bool : ∀ b, P (.bool b)
  int : ∀ n, P (.int n)
  float : ∀ q text h, P (.float q text h)
  str : ∀ s, P (.str s)
  arr : ∀ xs, Q xs → P (.arr xs)
  obj : ∀ fields, R fields → P (.obj fields)
  nil : Q []
  cons : ∀ x xs, P x → Q xs → Q (x :: xs)
  empty : R []
  field : ∀ k v rest, P v → R rest → R ((k, v) :: rest)

theorem Cases.all {P : Json → Prop} {Q : List Json → Prop} {R : List (String × Json) → Prop} (h : Cases P Q R) :
    (∀ v, P v) ∧ (∀ xs, Q xs) ∧ ∀ fields, R fields := by
  have hvalue : ∀ v, P v := @Json.rec P Q R (fun kv => P kv.2) h.null h.bool h.int h.float h.str h.arr h.obj
    h.nil h.cons h.empty (fun kv rest hv hrest => h.field kv.1 kv.2 rest hv hrest) (fun _ _ hv => hv)
  refine ⟨hvalue, ?_, ?_⟩
  · intro xs
    induction xs with
    | nil => exact h.nil
    | cons x xs ih => exact h.cons x xs (hvalue x) ih
  · intro fields
    induction fields with
    | nil => exact h.empty
    | cons kv rest ih => exact h.field kv.1 kv.2 rest (hvalue kv.2) ih

/-- `'\u%04x' % n` -/
def unicodeEscape (n : Nat) : List Char :=
  let digits := Nat.toDigits 16 n
  '\\' :: 'u' :: (List.replicate (4 - digits.length) '0' ++ digits)

/-- How a character is written within quotes: what is not printable ASCII as UTF-16 units. -/
def escapeChar (c : Char) : List Char :=
  if c = '"' then ['\\', '"']
  else if c = '\\' then ['\\', '\\']
  else if c = '\n' then ['\\', 'n']
  else if c = '\r' then ['\\', 'r']
  else if c = '\t' then ['\\', 't']
  else if c = '\x0c' then ['\\', 'f']
  else if c = '\x08' then ['\\', 'b']
  else if 32 ≤ c.toNat ∧ c.toNat ≤ 126 then [c]
  else if c.toNat < 0x10000 then unicodeEscape c.toNat
  else
    let rest := c.toNat - 0x10000
    unicodeEscape (0xd800 + rest / 0x400) ++ unicodeEscape (0xdc00 + rest % 0x400)

def escape (text : List Char) : List Char := text.flatMap escapeChar

def quote (text : List Char) : List Char := '"' :: (escape text ++ ['"'])

mutual

def dumps : Json → List Char
  | null => ['n', 'u', 'l', 'l']
  | bool true => ['t', 'r', 'u', 'e']
  | bool false => ['f', 'a', 'l', 's', 'e']
  | int n => (toString n).toList
  | float _ text _ => text.toList
  | str s => quote s.toList
  | arr xs => '[' :: (dumpsItems [] xs ++ [']'])
  | obj fields => '\x7b' :: (dumpsFields [] fields ++ ['\x7d'])

/-- The items with the separator before each but the first. -/
def dumpsItems (separator : List Char) : List Json → List Char
  | [] => []
  | x :: xs => separator ++ (dumps x ++ dumpsItems [',', ' '] xs)

def dumpsFields (separator : List Char) : List (String × Json) → List Char
  | [] => []
  | (k, v) :: rest => separator ++ (quote k.toList ++ ([':', ' '] ++ (dumps v ++ dumpsFields [',', ' '] rest)))

end

end Json
