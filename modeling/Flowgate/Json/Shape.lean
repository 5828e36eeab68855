import Flowgate.Json.Reader

/-!
Shapes: what JSON a typed value is read from. A record may be written as an object, where unknown
fields are ignored and no field may come twice, or as an array of its fields in their order. Both
ways to read, `Shape.fit` for a value and `Shape.read` for a text, bring records to the same
form, an object of the known fields that were present.
-/

namespace Flowgate.Json

-- A field of a record: its names, the first of which is the one it is kept under.
structure Field (α : Type) where
  name : String
  aliases : List String
  required : Bool
  shape : α

inductive Shape where
  | any
  | string
  | bool
  -- An integer from zero to `limit`.
  | count (limit : Nat)
  -- Null, or a value of the shape.
  | optional (shape : Shape)
  | list (shape : Shape)
  -- An object with any fields.
  | table
  | record (fields : List (Field Shape))

def Field.answers (f : Field α) (name : String) : Bool := f.name = name || f.aliases.contains name

def required (name : String) (shape : Shape) : Field Shape :=
  { name, aliases := [], required := true, shape }

def defaulted (name : String) (shape : Shape) : Field Shape :=
  { name, aliases := [], required := false, shape }

-- The greatest number of 64 bits.
def largestCount : Nat := 18446744073709551615

namespace Shape

def fitsCount (limit : Nat) : Value → Bool
  | .number (.integer n) => 0 ≤ n && n ≤ limit
  | _ => false

/-! ### Values -/

mutual

-- The value in the form of its shape, if it has the shape.
def fit : Shape → Value → Option Value
  | .any, v => some v
  | .string, v => if v.string?.isSome then some v else none
  | .bool, v => if v.bool?.isSome then some v else none
  | .count limit, v => if fitsCount limit v then some v else none
  | .optional shape, v => if v.isNull then some .null else fit shape v
  | .list shape, v =>
    match v with
    | .array items => (items.mapM fun item => fit shape item).map .array
    | _ => none
  | .table, v => if v.object?.isSome then some v else none
  | .record fields, v =>
    match v with
    | .object given => (fitFields fields given).map .object
    | .array items => (fitPlaces fields items).map .object
    | _ => none

-- The known fields among those that were given.
def fitFields : List (Field Shape) → Entries Value → Option (Entries Value)
  | [], _ => some []
  | field :: rest, given => do
    let others ← fitFields rest given
    match given.filter fun pair => field.answers pair.1 with
    | [] => if field.required then none else some others
    | [(_, v)] => return Entries.insert field.name (← fit field.shape v) others
    | _ => none

-- The fields in their order; only trailing ones may be missing, and none may be left over.
def fitPlaces : List (Field Shape) → List Value → Option (Entries Value)
  | [], [] => some []
  | [], _ :: _ => none
  | field :: rest, [] => if field.required then none else fitPlaces rest []
  | field :: rest, v :: values => do
    let first ← fit field.shape v
    return Entries.insert field.name first (← fitPlaces rest values)

end

/-! ### Text -/

-- The fault of a value that has another kind than expected. A scalar is read to its end first.
def unexpected (cs : List Char) : Fault :=
  match cs with
  | '[' :: _ => .mismatch
  | '\x7b' :: _ => .mismatch
  | cs =>
    match scalar cs with
    | .ok _ => .mismatch
    | .error fault => fault

def readNull (cs : List Char) : Except Fault (Value × List Char) :=
  match afterWord "null".toList cs with
  | some rest => .ok (.null, rest)
  | none => .error .malformed

-- The fields that are missing at the end of a record.
def finish (fields : List (Field Shape)) (found : Entries Value) : Except Fault Value :=
  if fields.any fun f => f.required && !Entries.contains found f.name then .error .mismatch
  else .ok (.object found)

mutual

-- Reads a value of the shape. The first fault met, from left to right, is the answer.
def read (steps : Nat) : Shape → Nat → List Char → Except Fault (Value × List Char)
  | .any, depth, cs => readValue steps depth cs
  | .string, _, cs =>
    match cs with
    | '"' :: _ => scalar cs
    | _ => .error (unexpected cs)
  | .bool, _, cs =>
    match cs with
    | 't' :: _ => scalar cs
    | 'f' :: _ => scalar cs
    | _ => .error (unexpected cs)
  | .count limit, _, cs =>
    match scalar cs with
    | .ok (v, rest) => if fitsCount limit v then .ok (v, rest) else .error .mismatch
    | .error _ => .error (unexpected cs)
  | .optional shape, depth, cs =>
    match cs with
    | 'n' :: _ => readNull cs
    | cs => read steps shape depth cs
  | .list shape, depth, cs =>
    match cs, depth with
    | '[' :: _, 0 => .error .malformed
    | '[' :: rest, depth + 1 => do
      let (found, rest) ← items
        (fun found cs => do
          let (v, rest) ← read steps shape depth cs
          .ok (v :: found, rest))
        steps [] rest
      .ok (.array found.reverse, rest)
    | cs, _ => .error (unexpected cs)
  | .table, depth, cs =>
    match cs with
    | '\x7b' :: _ => readValue steps depth cs
    | cs => .error (unexpected cs)
  | .record fields, depth, cs =>
    match cs, depth with
    | '[' :: _, 0 => .error .malformed
    | '\x7b' :: _, 0 => .error .malformed
    | '\x7b' :: rest, depth + 1 => do
      let (found, rest) ← Json.fields
        (fun found name cs => readField steps fields depth found name cs)
        steps [] rest
      let v ← finish fields found
      .ok (v, rest)
    | '[' :: rest, depth + 1 => do
      let (found, rest) ← readPlaces steps fields depth [] true rest
      .ok (.object found, rest)
    | cs, _ => .error (unexpected cs)

-- Reads the value of a named field. A field that came before is a fault, one that is not known is
-- passed over.
def readField (steps : Nat) : List (Field Shape) → Nat → Entries Value → String → List Char →
    Except Fault (Entries Value × List Char)
  | [], _, found, _, cs =>
    match skipValue steps [] cs with
    | some rest => .ok (found, rest)
    | none => .error .malformed
  | field :: rest, depth, found, name, cs =>
    if field.answers name then
      if Entries.contains found field.name then .error .mismatch
      else do
        let (v, rest) ← read steps field.shape depth cs
        .ok (Entries.insert field.name v found, rest)
    else readField steps rest depth found name cs

-- Reads the fields of a record in their order, after the opening bracket of an array.
def readPlaces (steps : Nat) : List (Field Shape) → Nat → Entries Value → Bool → List Char →
    Except Fault (Entries Value × List Char)
  | [], _, found, _, cs =>
    match skipBlanks cs with
    | ']' :: rest => .ok (found, rest)
    | _ => .error .malformed
  | field :: fields, depth, found, isFirst, cs =>
    match skipBlanks cs, isFirst with
    | ']' :: rest, _ =>
      if (field :: fields).any (·.required) then .error .mismatch else .ok (found, rest)
    | ',' :: rest, false => do
      let (v, rest) ← read steps field.shape depth (skipBlanks rest)
      readPlaces steps fields depth (Entries.insert field.name v found) false rest
    | cs, true => do
      let (v, rest) ← read steps field.shape depth cs
      readPlaces steps fields depth (Entries.insert field.name v found) false rest
    | _, false => .error .malformed

end

end Shape

-- A typed value: the shape of its JSON, and the value of a JSON value in that form.
structure Codec (α : Type) where
  shape : Shape
  decode : Value → Option α

def Codec.ofValue? (codec : Codec α) (v : Value) : Option α := codec.shape.fit v >>= codec.decode

-- Reads a text in which the bytes that are no characters are marked.
def Codec.ofMarked (codec : Codec α) (cs : List Char) : Except Fault α := do
  let v ← readAll (codec.shape.read (cs.length + 1) nestingLimit) cs
  match codec.decode v with
  | some a => .ok a
  | none => .error .mismatch

def Codec.ofBytes (codec : Codec α) (bytes : List UInt8) : Except Fault α :=
  codec.ofMarked (Text.readable bytes)

def Codec.ofText? (codec : Codec α) (cs : List Char) : Option α :=
  (codec.ofMarked (Text.unmarked cs)).toOption

end Flowgate.Json
