import Mathlib.Data.Rat.Defs

namespace FidbPoc.Lib

/-- A parsed JSON document. A number keeps whether it was written as an integer. -/
inductive Json
  | null
  | bool (value : Bool)
  | int (value : Int)
  | float (value : Rat)
  | str (value : String)
  | arr (items : List Json)
  | obj (fields : List (String × Json))

namespace Json

/-- The fields of an object, as `json.loads` leaves them: each key once. -/
abbrev Fields := List (String × Json)

def Fields.get? (fields : Fields) (key : String) : Option Json :=
  (fields.find? fun f => f.1 = key).map Prod.snd

def fields? : Json → Option Fields
  | .obj fields => some fields
  | _ => none

def items? : Json → Option (List Json)
  | .arr items => some items
  | _ => none

def str? : Json → Option String
  | .str value => some value
  | _ => none

/-- `type(value) is int`. -/
def int? : Json → Option Int
  | .int value => some value
  | _ => none

/-- What Python compares a number by; a Boolean is a number. -/
def number? : Json → Option Rat
  | .bool value => some (if value then 1 else 0)
  | .int value => some value
  | .float value => some value
  | _ => none

/-- `bool(value)`. -/
def truthy : Json → Bool
  | .null => false
  | .bool value => value
  | .int value => value ≠ 0
  | .float value => value ≠ 0
  | .str value => value ≠ ""
  | .arr items => !items.isEmpty
  | .obj fields => !fields.isEmpty

def isTrue : Json → Bool
  | .bool value => value
  | _ => false

/-- `value == n`. -/
def isNumber (n : Rat) (value : Json) : Bool := value.number? = some n

/-- `value == text`. -/
def isText (text : String) (value : Json) : Bool := value.str? = some text

/-- `value in set` raises `TypeError` for a value without a hash. -/
def hashable : Json → Bool
  | .arr _ => false
  | .obj _ => false
  | _ => true

mutual

/-- `left == right`. -/
def same : Json → Json → Bool
  | .arr xs, y =>
    match y with
    | .arr ys => sameItems xs ys
    | _ => false
  | .obj xs, y =>
    match y with
    | .obj ys => decide (xs.length = ys.length) && sameFields xs ys
    | _ => false
  | .null, y =>
    match y with
    | .null => true
    | _ => false
  | .str x, y => y.isText x
  | .bool x, y => y.isNumber (if x then 1 else 0)
  | .int x, y => y.isNumber x
  | .float x, y => y.isNumber x

def sameItems : List Json → List Json → Bool
  | [], ys => ys.isEmpty
  | x :: xs, ys =>
    match ys with
    | [] => false
    | y :: ys => same x y && sameItems xs ys

/-- Every field has its equal in the other object. -/
def sameFields : List (String × Json) → List (String × Json) → Bool
  | [], _ => true
  | field :: rest, ys => sameField field ys && sameFields rest ys

def sameField : String × Json → List (String × Json) → Bool
  | (key, x), ys =>
    match Fields.get? ys key with
    | none => false
    | some y => same x y

end

/-- Comparing what `get` returns: two absent fields are equal. -/
def sameOption : Option Json → Option Json → Bool
  | none, y => y.all fun y => y.same .null
  | some x, y => (y.getD .null).same x

example : (Json.obj [("a", .int 1), ("b", .arr [.bool true])]).same
    (.obj [("b", .arr [.float 1]), ("a", .int 1)]) = true := by decide +kernel

end Json

end FidbPoc.Lib
