import Flowgate.Json.Value
import Flowgate.Text.Percent

/-!
Reading JSON text. A reader takes the characters that are left and returns what it read with the
rest, or the kind of fault it met first. Nesting is bounded: a reader for depth `d` accepts at most
`d` arrays and objects inside one another. The loops over items and fields are bounded by a number
of steps, and the length of the whole text is always enough.
-/

namespace Flowgate.Json

-- Why a text was refused: it is no JSON, or it is JSON of another shape than expected.
inductive Fault where
  | malformed
  | mismatch
deriving DecidableEq

abbrev Reader (α : Type) := List Char → Except Fault (α × List Char)

def nestingLimit : Nat := 127

def isBlank (c : Char) : Bool := c = ' ' || c = '\n' || c = '\t' || c = '\r'

def skipBlanks (cs : List Char) : List Char := cs.dropWhile isBlank

-- The rest after `word`, if the text starts with it.
def afterWord : List Char → List Char → Option (List Char)
  | [], cs => some cs
  | w :: word, c :: cs => if w = c then afterWord word cs else none
  | _ :: _, [] => none

/-! ### Strings -/

def hexQuad? (a b c d : Char) : Option Nat := do
  let a ← Text.hexDigit? a
  let b ← Text.hexDigit? b
  let c ← Text.hexDigit? c
  let d ← Text.hexDigit? d
  return ((a * 16 + b) * 16 + c) * 16 + d

def shortEscape? : Char → Option Char
  | '"' => some '"'
  | '\\' => some '\\'
  | '/' => some '/'
  | 'b' => some (Char.ofNat 0x08)
  | 'f' => some (Char.ofNat 0x0C)
  | 'n' => some '\n'
  | 'r' => some '\r'
  | 't' => some '\t'
  | _ => none

def isHighSurrogate (code : Nat) : Bool := 0xD800 ≤ code && code ≤ 0xDBFF

def isLowSurrogate (code : Nat) : Bool := 0xDC00 ≤ code && code ≤ 0xDFFF

-- Reads a string after its opening quote. Two escaped surrogates make one character, and one
-- alone is a fault.
def stringBody (done : List Char) : Reader String
  | [] => .error .malformed
  | '"' :: rest => .ok (String.ofList done.reverse, rest)
  | '\\' :: 'u' :: a :: b :: c :: d :: rest =>
    match hexQuad? a b c d with
    | none => .error .malformed
    | some code =>
      if isHighSurrogate code then
        match rest with
        | '\\' :: 'u' :: e :: f :: g :: h :: rest =>
          match hexQuad? e f g h with
          | none => .error .malformed
          | some low =>
            if isLowSurrogate low then
              let full := 0x10000 + (code - 0xD800) * 0x400 + (low - 0xDC00)
              stringBody (Char.ofNat full :: done) rest
            else .error .malformed
        | _ => .error .malformed
      else if isLowSurrogate code then .error .malformed
      else stringBody (Char.ofNat code :: done) rest
  | '\\' :: e :: rest =>
    match shortEscape? e with
    | some c => stringBody (c :: done) rest
    | none => .error .malformed
  | c :: rest => if c.toNat < 0x20 then .error .malformed else stringBody (c :: done) rest

/-! ### Numbers -/

-- A number as written: its sign, the digits before and after the point, and the exponent.
structure Numeral where
  negative : Bool
  whole : List Char
  places : List Char
  exponent : Option (Bool × List Char)

-- A nonempty run of digits.
def digits (cs : List Char) : Option (List Char × List Char) :=
  let (run, rest) := cs.span Char.isDigit
  if run.isEmpty then none else some (run, rest)

def numeralPlaces : List Char → Option (List Char × List Char)
  | '.' :: cs => digits cs
  | cs => some ([], cs)

def numeralExponent : List Char → Option (Option (Bool × List Char) × List Char)
  | c :: cs =>
    if c = 'e' || c = 'E' then
      let (negative, cs) := match cs with
        | '-' :: cs => (true, cs)
        | '+' :: cs => (false, cs)
        | cs => (false, cs)
      (digits cs).map fun (run, rest) => (some (negative, run), rest)
    else some (none, c :: cs)
  | [] => some (none, [])

-- Reads the characters of a number. A zero that starts it stands alone before the point.
def numeral (cs : List Char) : Option (Numeral × List Char) := do
  let (negative, cs) := match cs with
    | '-' :: cs => (true, cs)
    | cs => (false, cs)
  let (whole, cs) ← digits cs
  if whole.head? = some '0' && whole.length > 1 then none
  let (places, cs) ← numeralPlaces cs
  let (exponent, cs) ← numeralExponent cs
  return ({ negative, whole, places, exponent }, cs)

def digitValue (c : Char) : Nat := c.toNat - '0'.toNat

-- Takes digits while the number stays below `limit`; also the digits that were left.
def gather (limit : Nat) : Nat → List Char → Nat × List Char
  | n, [] => (n, [])
  | n, c :: cs =>
    let next := n * 10 + digitValue c
    if next > limit then (n, c :: cs) else gather limit next cs

def tenTo (n : Nat) : Float := Float.ofScientific 1 false n

-- Divides by powers of ten until the exponent is one that a double can hold.
def shrink : Nat → Float → Int → Float
  | 0, f, _ => f
  | steps + 1, f, e =>
    if e ≥ -308 then f / tenTo e.natAbs
    else if f == 0.0 then f
    else shrink steps (f / tenTo 308) (e + 308)

-- A significand times a power of ten, unless it is too large for a double.
def scaled (significand : Nat) (e : Int) : Option Float :=
  let f := (UInt64.ofNat significand).toFloat
  if e < 0 then some (shrink 4 f e)
  else if e ≤ 308 then
    let g := f * tenTo e.toNat
    if g.isInf then none else some g
  else if f == 0.0 then some f
  else none

-- The greatest significand, size of a negative integer, and exponent that are read in full.
def largestSignificand : Nat := 18446744073709551615

def largestNegative : Nat := 9223372036854775808

def largestExponent : Nat := 2147483647

-- The value of a number. An integer that fits 64 bits, signed or not, stays one; all others are
-- doubles, from the leading digits that fit 64 bits scaled by one power of ten. A number too large
-- for a double has no value.
def Numeral.value? (n : Numeral) : Option Number :=
  let (significand, dropped) := gather largestSignificand 0 n.whole
  let signed (f : Float) : Number := .float (if n.negative then -f else f)
  match n.places, n.exponent with
  | [], none =>
    if dropped.isEmpty then
      if !n.negative then some (.integer significand)
      else if 1 ≤ significand && significand ≤ largestNegative then some (.integer (-significand))
      else some (signed (UInt64.ofNat significand).toFloat)
    else (scaled significand dropped.length).map signed
  | places, exponent =>
    let (significand, unused) := gather largestSignificand significand places
    let start : Int := (dropped.length : Int) - ((places.length - unused.length : Nat) : Int)
    match exponent with
    | none => (scaled significand start).map signed
    | some (down, run) =>
      let (size, excess) := gather largestExponent 0 run
      let exponent := if down then start - size else start + size
      if excess.isEmpty then (scaled significand exponent).map signed
      else if significand != 0 && !down then none
      else some (signed 0.0)

def readNumber : Reader Number := fun cs =>
  match numeral cs with
  | none => .error .malformed
  | some (n, rest) =>
    match n.value? with
    | none => .error .malformed
    | some number => .ok (number, rest)

/-! ### Items and fields -/

-- Runs `step` on each item up to the closing bracket; the text starts where an item has to.
def eachItem (step : σ → Reader σ) : Nat → σ → Reader σ
  | 0, _, _ => .error .malformed
  | steps + 1, state, cs => do
    let (state, rest) ← step state (skipBlanks cs)
    match skipBlanks rest with
    | ',' :: rest => eachItem step steps state rest
    | ']' :: rest => .ok (state, rest)
    | _ => .error .malformed

-- The items of an array after its opening bracket.
def items (step : σ → Reader σ) (steps : Nat) (state : σ) : Reader σ := fun cs =>
  match skipBlanks cs with
  | ']' :: rest => .ok (state, rest)
  | cs => eachItem step steps state cs

-- The name of a field and the text of its value.
def fieldName : Reader String := fun cs =>
  match skipBlanks cs with
  | '"' :: rest => do
    let (name, rest) ← stringBody [] rest
    match skipBlanks rest with
    | ':' :: rest => .ok (name, skipBlanks rest)
    | _ => .error .malformed
  | _ => .error .malformed

-- Runs `step` on each field up to the closing brace; the text starts where a name has to.
def eachField (step : σ → String → Reader σ) : Nat → σ → Reader σ
  | 0, _, _ => .error .malformed
  | steps + 1, state, cs => do
    let (name, rest) ← fieldName cs
    let (state, rest) ← step state name rest
    match skipBlanks rest with
    | ',' :: rest => eachField step steps state rest
    | '\x7d' :: rest => .ok (state, rest)
    | _ => .error .malformed

-- The fields of an object after its opening brace.
def fields (step : σ → String → Reader σ) (steps : Nat) (state : σ) : Reader σ := fun cs =>
  match skipBlanks cs with
  | '\x7d' :: rest => .ok (state, rest)
  | cs => eachField step steps state cs

/-! ### Values -/

-- A value that is neither an array nor an object.
def scalar : Reader Value := fun cs =>
  match cs with
  | '"' :: rest => (stringBody [] rest).map fun (s, rest) => (.string s, rest)
  | 'n' :: _ => word "null".toList .null cs
  | 't' :: _ => word "true".toList (.bool true) cs
  | 'f' :: _ => word "false".toList (.bool false) cs
  | _ => (readNumber cs).map fun (n, rest) => (.number n, rest)
where
  word (w : List Char) (v : Value) (cs : List Char) : Except Fault (Value × List Char) :=
    match afterWord w cs with
    | some rest => .ok (v, rest)
    | none => .error .malformed

-- A value of any kind; of the fields of an object with one name the last stays.
def readValue (steps : Nat) : Nat → Reader Value
  | 0, cs =>
    match cs with
    | '[' :: _ => .error .malformed
    | '\x7b' :: _ => .error .malformed
    | cs => scalar cs
  | depth + 1, cs =>
    match cs with
    | '[' :: rest => do
      let (found, rest) ← items
        (fun found cs => do
          let (v, rest) ← readValue steps depth cs
          .ok (v :: found, rest))
        steps [] rest
      .ok (.array found.reverse, rest)
    | '\x7b' :: rest => do
      let (found, rest) ← fields
        (fun found name cs => do
          let (v, rest) ← readValue steps depth cs
          .ok (Entries.insert name v found, rest))
        steps [] rest
      .ok (.object found, rest)
    | cs => scalar cs

-- Reads a whole text; only blanks may follow the value.
def readAll (read : Reader α) (cs : List Char) : Except Fault α := do
  let (v, rest) ← read (skipBlanks cs)
  if (skipBlanks rest).isEmpty then .ok v else .error .malformed

-- The value of a text with at most `depth` nested arrays and objects.
def parse (depth : Nat) (cs : List Char) : Except Fault Value :=
  readAll (readValue (cs.length + 1) depth) cs

def parse? (cs : List Char) : Option Value := (parse nestingLimit cs).toOption

/-! ### Values that nobody asked for -/

-- The rest after a string, from its opening quote on. Nobody looks at what the string says, so it
-- may hold bytes that are no characters.
def skipString : List Char → Option (List Char)
  | [] => none
  | '"' :: rest => some rest
  | '\\' :: 'u' :: a :: b :: c :: d :: rest =>
    if (hexQuad? a b c d).isSome then skipString rest else none
  | '\\' :: e :: rest => if (shortEscape? e).isSome then skipString rest else none
  | c :: rest => if c.toNat < 0x20 && c ≠ Text.faultMark then none else skipString rest

def skipScalar (cs : List Char) : Option (List Char) :=
  match cs with
  | '"' :: rest => skipString rest
  | 'n' :: _ => afterWord "null".toList cs
  | 't' :: _ => afterWord "true".toList cs
  | 'f' :: _ => afterWord "false".toList cs
  | _ => (numeral cs).map Prod.snd

def skipName (cs : List Char) : Option (List Char) :=
  match skipBlanks cs with
  | '"' :: rest => do
    match skipBlanks (← skipString rest) with
    | ':' :: rest => some rest
    | _ => none
  | _ => none

-- Walks over one value without building it. The open brackets are kept on a stack, so nesting has
-- no bound here, and numbers and escapes are checked for their form only.
def skipValue : Nat → List Char → List Char → Option (List Char)
  | 0, _, _ => none
  | steps + 1, stack, cs =>
    match skipBlanks cs with
    | '[' :: rest =>
      match skipBlanks rest with
      | ']' :: rest => close steps stack rest
      | rest => skipValue steps ('[' :: stack) rest
    | '\x7b' :: rest =>
      match skipBlanks rest with
      | '\x7d' :: rest => close steps stack rest
      | rest => (skipName rest).bind (skipValue steps ('\x7b' :: stack))
    | cs => (skipScalar cs).bind (close steps stack)
where
  -- What follows a value: the next item, the next field, or the end of what encloses it.
  close : Nat → List Char → List Char → Option (List Char)
    | _, [], cs => some cs
    | 0, _ :: _, _ => none
    | steps + 1, top :: stack, cs =>
      match skipBlanks cs with
      | ',' :: rest =>
        if top = '[' then skipValue steps (top :: stack) rest
        else (skipName rest).bind (skipValue steps (top :: stack))
      | c :: rest =>
        if (top = '[' && c = ']') || (top = '\x7b' && c = '\x7d') then close steps stack rest
        else none
      | [] => none

end Flowgate.Json
