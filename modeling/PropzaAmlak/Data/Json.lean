import Mathlib.Algebra.Order.Field.Rat

/-! JSON values as Python holds them after `json.loads`, and the two things the
code does with them everywhere: truth tests and `dict.get`. -/

/-- A float is its value and the text Python prints for it. -/
inductive Json : Type where
  | null
  | bool (b : Bool)
  | int (n : Int)
  | float (q : Rat) (text : String) (nonempty : text ≠ "")
  | str (s : String)
  | arr (xs : List Json)
  | obj (fields : List (String × Json))

namespace Json

/-- The Python type of a value, as error messages name it. -/
def typeName : Json → String
  | null => "NoneType"
  | bool _ => "bool"
  | int _ => "int"
  | float _ _ _ => "float"
  | str _ => "str"
  | arr _ => "list"
  | obj _ => "dict"

/-- `bool(v)` -/
def truthy : Json → Bool
  | null => false
  | bool b => b
  | int n => n != 0
  | float q _ _ => q != 0
  | str s => s != ""
  | arr xs => !xs.isEmpty
  | obj fields => !fields.isEmpty

/-- `d.get(key)` of a dict whose keys are read in order. -/
def lookup (fields : List (String × Json)) (key : String) : Option Json :=
  fields.lookup key

/-- `v or d` -/
def orElse (v d : Json) : Json := if v.truthy then v else d

/-- `d[key] = v` -/
def setItem (fields : List (String × Json)) (key : String) (v : Json) : List (String × Json) :=
  match fields with
  | [] => [(key, v)]
  | (k, w) :: rest => if k == key then (k, v) :: rest else (k, w) :: setItem rest key v

@[simp] theorem truthy_null : truthy null = false := rfl

@[simp] theorem truthy_str (s : String) : truthy (str s) = (s != "") := rfl

mutual

/-- `repr(v)`, except that strings are not escaped. -/
def repr : Json → String
  | null => "None"
  | bool true => "True"
  | bool false => "False"
  | int n => toString n
  | float _ text _ => text
  | str s => "'" ++ s ++ "'"
  | arr xs => "[" ++ ", ".intercalate (reprList xs) ++ "]"
  | obj fields => "\x7b" ++ ", ".intercalate (reprFields fields) ++ "\x7d"

def reprList : List Json → List String
  | [] => []
  | x :: xs => repr x :: reprList xs

def reprFields : List (String × Json) → List String
  | [] => []
  | (k, v) :: rest => ("'" ++ k ++ "': " ++ repr v) :: reprFields rest

end

/-- `str(v)` -/
def text : Json → String
  | str s => s
  | v => v.repr

theorem text_ne_empty {v : Json} (hv : v.truthy) : v.text ≠ "" := by
  cases v with
  | null => simp at hv
  | bool b => cases b <;> decide
  | int n =>
    cases n with
    | ofNat n => exact Nat.repr_ne_empty
    | negSucc n => simp [text, repr, toString, Int.repr]
  | float q text h => exact h
  | str s => simpa [text] using hv
  | arr xs => simp [text, repr]
  | obj fields => simp [text, repr]

end Json
