import Flowgate.Entries

/-!
JSON values. A number is an integer or a double, never both. The names of an object are distinct; a
value that was read has its fields in the order of their names, and one that is built keeps the
order in which its fields are to be written.
-/

namespace Flowgate.Json

inductive Number where
  | integer (n : Int)
  | float (x : Float)

inductive Value where
  | null
  | bool (b : Bool)
  | number (n : Number)
  | string (s : String)
  | array (items : List Value)
  | object (fields : List (String × Value))

instance : Inhabited Value := ⟨.null⟩

namespace Value

def isNull : Value → Bool
  | .null => true
  | _ => false

def string? : Value → Option String
  | .string s => some s
  | _ => none

def bool? : Value → Option Bool
  | .bool b => some b
  | _ => none

def array? : Value → Option (List Value)
  | .array items => some items
  | _ => none

def object? : Value → Option (Entries Value)
  | .object fields => some fields
  | _ => none

def integer? : Value → Option Int
  | .number (.integer n) => some n
  | _ => none

def list (f : α → Value) (items : List α) : Value := .array (items.map f)

-- The value of a field, of objects only.
def get? : Value → String → Option Value
  | .object fields, name => Entries.get? fields name
  | _, _ => none

-- A field's value, null when there is none.
def field (v : Value) (name : String) : Value := (v.get? name).getD .null

def ofNat (n : Nat) : Value := .number (.integer n)

-- Null for an absent text.
def ofString? (s : Option String) : Value := s.elim .null .string

def strings (items : List String) : Value := .array (items.map .string)

-- An object with its fields in the order of their names.
def record (fields : List (String × Value)) : Value := .object (Entries.ofList fields)

end Value

end Flowgate.Json
