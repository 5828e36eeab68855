import Flowgate.Decimal.Notation
import Flowgate.Decimal.Rounded
import Flowgate.Json.Value
import Flowgate.Script.Term
import Flowgate.Text.Percent

/-!
Running controller scripts. A run starts from fresh globals: the functions a controller may use, and
`inputs`. What reaches outside a script is not there. A run has no result; it ends well or with a
fault, whose text names the place when the script did not choose the text itself.
-/

namespace Flowgate.Script

inductive Builtin where
  | error
  | assert
  | tostring
  | type
  | mathType
deriving DecidableEq

-- Values of scripts. JSON null is a value of its own, which no script value equals but itself.
inductive Val where
  | nil
  | null
  | bool (b : Bool)
  | integer (n : Int)
  | float (x : Float)
  | string (s : String)
  | list (items : List Val)
  | table (fields : List (String × Val))
  | builtin (b : Builtin)

inductive Fault where
  | malformed (text : String)
  | runtime (text : String)

namespace Val

-- How many integers there are on either side of zero, zero being one of the upper side.
def halfRange : Nat := 9223372036854775808

-- Integers of 64 bits; larger ones become doubles.
def ofInteger (n : Int) : Val :=
  if -(halfRange : Int) ≤ n && n < halfRange then .integer n
  else .float (UInt64.ofNat n.toNat).toFloat

mutual

def ofJson : Json.Value → Val
  | .null => .null
  | .bool b => .bool b
  | .number (.integer n) => ofInteger n
  | .number (.float x) => .float x
  | .string s => .string s
  | .array items => .list (ofItems items)
  | .object fields => .table (ofFields fields)

def ofItems : List Json.Value → List Val
  | [] => []
  | item :: rest => ofJson item :: ofItems rest

def ofFields : List (String × Json.Value) → List (String × Val)
  | [] => []
  | (name, value) :: rest => (name, ofJson value) :: ofFields rest

end

def typeName : Val → String
  | .nil => "nil"
  | .null => "userdata"
  | .bool _ => "boolean"
  | .integer _ => "number"
  | .float _ => "number"
  | .string _ => "string"
  | .list _ => "table"
  | .table _ => "table"
  | .builtin _ => "function"

-- Everything counts as true but nil and false.
def isTrue : Val → Bool
  | .nil => false
  | .bool b => b
  | _ => true

-- The text of a double: fourteen digits, positional while the number is of that size.
def floatLayout : Decimal.Layout :=
  { least := -4, greatest := 13, marked := true, exponentDigits := 2 }

def floatText (x : Float) : String :=
  if x.isNaN then (if Decimal.isNegative x then "-nan" else "nan")
  else if x.isInf then (if Decimal.isNegative x then "-inf" else "inf")
  else
    let (digits, first) := (Decimal.rounded (Decimal.magnitude x) 14).leading
    let text := String.ofList (floatLayout.write digits first)
    if Decimal.isNegative x then "-" ++ text else text

def text? : Val → Option String
  | .string s => some s
  | .integer n => some (toString n)
  | .float x => some (floatText x)
  | _ => none

def display (v : Val) : String :=
  match v with
  | .nil => "nil"
  | .null => "userdata: (nil)"
  | .bool b => if b then "true" else "false"
  | v => v.text?.getD v.typeName

def toFloat (n : Int) : Float :=
  if n < 0 then -(UInt64.ofNat n.natAbs).toFloat else (UInt64.ofNat n.toNat).toFloat

-- Whether two values are equal. Numbers compare by value; tables are never equal.
def same : Val → Val → Bool
  | .nil, .nil => true
  | .null, .null => true
  | .bool a, .bool b => a == b
  | .integer a, .integer b => a == b
  | .integer a, .float b => toFloat a == b
  | .float a, .integer b => a == toFloat b
  | .float a, .float b => a == b
  | .string a, .string b => a == b
  | .builtin a, .builtin b => a == b
  | _, _ => false

end Val

abbrev Globals := Entries Val

def Globals.initial (inputs : Json.Value) : Globals :=
  Entries.ofList
    [("error", .builtin .error), ("assert", .builtin .assert), ("tostring", .builtin .tostring),
     ("type", .builtin .type), ("math", .table [("type", .builtin .mathType)]),
     ("inputs", .ofJson inputs)]

-- How a script is called in the texts of its faults. The label is cut when it is long or has
-- several lines; one that starts with an at sign or an equals sign is a name of its own.
def chunkName (label : String) : String :=
  let bytes := Text.encode label
  let cut (bytes : List UInt8) : String := String.ofList (Text.decodeLossy bytes)
  match label.toList with
  | '=' :: _ => cut ((bytes.drop 1).take 59)
  | '@' :: _ =>
    if bytes.length ≤ 60 then cut (bytes.drop 1)
    else "..." ++ cut (bytes.drop (bytes.length - 56))
  | cs =>
    let line := Text.encode (String.ofList (cs.takeWhile (· ≠ '\n')))
    if bytes.length < 45 && line.length = bytes.length then "[string \"" ++ label ++ "\"]"
    else "[string \"" ++ cut (line.take 45) ++ "...\"]"

-- The start of the text of a fault at a line.
def place (label : String) (line : Nat) : String :=
  chunkName label ++ ":" ++ toString line ++ ": "

-- How a fault names the operand it is about.
def Term.described : Term → String
  | .global name => " (global '" ++ name ++ "')"
  | .field _ _ name => " (field '" ++ name ++ "')"
  | _ => ""

def misuse (label : String) (line : Nat) (action : String) (v : Val) (t : Term) :
    Except String α :=
  .error (place label line ++ "attempt to " ++ action ++ " a " ++ v.typeName ++ " value"
    ++ t.described)

-- The value that a table holds under a key. A string has no fields of its own.
def Val.lookup? (v key : Val) : Option Val :=
  match v, key with
  | .table fields, .string name => some ((Entries.get? fields name).getD .nil)
  | .table _, _ => some .nil
  | .list items, .integer n => some (if n < 1 then .nil else items.getD (n.toNat - 1) .nil)
  | .list _, _ => some .nil
  | .string _, _ => some .nil
  | _, _ => none

def Val.length? : Val → Option Nat
  | .string s => some (Text.byteLength s)
  | .list items => some items.length
  | .table _ => some 0
  | _ => none

-- Integers wrap around at 64 bits.
def wrap (n : Int) : Int := Int.bmod n (2 * Val.halfRange)

def arithmetic (op : Binary) : Val → Val → Option Val
  | .integer a, .integer b =>
    match op with
    | .add => some (.integer (wrap (a + b)))
    | .subtract => some (.integer (wrap (a - b)))
    | .multiply => some (.integer (wrap (a * b)))
    | _ => none
  | .integer a, .float b => floats op (Val.toFloat a) b
  | .float a, .integer b => floats op a (Val.toFloat b)
  | .float a, .float b => floats op a b
  | _, _ => none
where
  floats (op : Binary) (a b : Float) : Option Val :=
    match op with
    | .add => some (.float (a + b))
    | .subtract => some (.float (a - b))
    | .multiply => some (.float (a * b))
    | _ => none

def Builtin.call (label : String) (line : Nat) (b : Builtin) (args : List Val) :
    Except String Val :=
  let first := args.getD 0 .nil
  match b with
  | .error =>
    match first, args.getD 1 (.integer 1) with
    | .string text, .integer 0 => .error text
    | .string text, _ => .error (place label line ++ text)
    | v, _ => .error v.display
  | .assert =>
    if first.isTrue then .ok first
    else
      match args.getD 1 (.string "assertion failed!") with
      | .string text => .error (place label line ++ text)
      | v => .error v.display
  | .tostring => .ok (.string first.display)
  | .type => .ok (.string first.typeName)
  | .mathType =>
    match first with
    | .integer _ => .ok (.string "integer")
    | .float _ => .ok (.string "float")
    | _ => .ok .nil

mutual

def Term.eval (label : String) (globals : Globals) : Term → Except String Val
  | .nil => .ok .nil
  | .bool b => .ok (.bool b)
  | .integer n => .ok (.integer n)
  | .string s => .ok (.string s)
  | .global name => .ok ((Entries.get? globals name).getD .nil)
  | .field line table name => do
    let v ← table.eval label globals
    match v.lookup? (.string name) with
    | some found => .ok found
    | none => misuse label line "index" v table
  | .index line table key => do
    let v ← table.eval label globals
    let k ← key.eval label globals
    match v.lookup? k with
    | some found => .ok found
    | none => misuse label line "index" v table
  | .call line function arguments => do
    let f ← function.eval label globals
    let args ← evalAll label globals arguments
    match f with
    | .builtin b => b.call label line args
    | v => misuse label line "call" v function
  | .unary line op operand => do
    let v ← operand.eval label globals
    match op with
    | .not => .ok (.bool !v.isTrue)
    | .length =>
      match v.length? with
      | some n => .ok (.integer n)
      | none => misuse label line "get length of" v operand
    | .negate =>
      match arithmetic .subtract (.integer 0) v with
      | some r => .ok r
      | none => misuse label line "perform arithmetic on" v operand
  | .binary line op left right => do
    let a ← left.eval label globals
    match op with
    | .or => if a.isTrue then .ok a else right.eval label globals
    | .and => if a.isTrue then right.eval label globals else .ok a
    | .equal => do
      let b ← right.eval label globals
      .ok (.bool (a.same b))
    | .differ => do
      let b ← right.eval label globals
      .ok (.bool !(a.same b))
    | .join => do
      let b ← right.eval label globals
      match a.text?, b.text? with
      | some x, some y => .ok (.string (x ++ y))
      | none, _ => misuse label line "concatenate" a left
      | _, none => misuse label line "concatenate" b right
    | op => do
      let b ← right.eval label globals
      match arithmetic op a b with
      | some r => .ok r
      | none =>
        match b with
        | .integer _ => misuse label line "perform arithmetic on" a left
        | .float _ => misuse label line "perform arithmetic on" a left
        | b => misuse label line "perform arithmetic on" b right

def evalAll (label : String) (globals : Globals) : List Term → Except String (List Val)
  | [] => .ok []
  | t :: rest => do
    let v ← t.eval label globals
    let vs ← evalAll label globals rest
    .ok (v :: vs)

end

mutual

def Statement.run (label : String) (globals : Globals) : Statement → Except String Globals
  | .assign line target value =>
    match target with
    | .global name => do
      let v ← value.eval label globals
      .ok (Entries.insert name v globals)
    | .field _ table _ => do
      let t ← table.eval label globals
      let _ ← value.eval label globals
      match t.lookup? .nil with
      | some _ => .ok globals
      | none => misuse label line "index" t table
    | _ => .error (place label line ++ "cannot assign")
  | .call term => do
    let _ ← term.eval label globals
    .ok globals
  | .branch condition body otherwise => do
    let c ← condition.eval label globals
    if c.isTrue then runAll label globals body else runAll label globals otherwise

def runAll (label : String) (globals : Globals) : List Statement → Except String Globals
  | [] => .ok globals
  | s :: rest => do runAll label (← s.run label globals) rest

end

-- How many bytes of a text come before its first NUL, if it has one.
def nulOffset? (text : String) : Option Nat :=
  let before := Text.before '\x00' text
  if before = text then none else some (Text.byteLength before)

-- Runs a script on some inputs. A label with a NUL names no script, so nothing runs then. The text
-- of a fault that arises while the script runs ends before its first NUL.
def run (label source : String) (inputs : Json.Value) : Except Fault Unit :=
  match nulOffset? label with
  | some n =>
    .error (.runtime ("invalid name: nul byte found in provided data at position: " ++ toString n))
  | none =>
    match parse source with
    | .error fault => .error (.malformed (place label fault.line ++ fault.reason))
    | .ok block =>
      match runAll label (Globals.initial inputs) block with
      | .ok _ => .ok ()
      | .error text => .error (.runtime (Text.before '\x00' text))

def Fault.message : Fault → String
  | .malformed text => "syntax error: " ++ text
  | .runtime text => "runtime error: " ++ text

end Flowgate.Script
