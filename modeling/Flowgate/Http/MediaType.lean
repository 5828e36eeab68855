import Flowgate.Text.Percent

/-!
Media types, as a content type header names them: `type/subtype`, an optional suffix after a plus
sign, and parameters. Case does not matter.
-/

namespace Flowgate.Http

structure MediaType where
  type : String
  subtype : String
  suffix : Option String
deriving DecidableEq

namespace MediaType

def isTokenChar (c : Char) : Bool :=
  c.isAlphanum || "!#$%&'*+-.^_|~".toList.contains c || c.toNat = 0x60

private def isQuotedChar (c : Char) : Bool := c.toNat > 31 && c.toNat ≠ 127

-- The value of a parameter, and what follows its end.
private def afterValue (cs : List Char) : Option (List Char) :=
  match cs with
  | '"' :: first :: rest =>
    -- The first character belongs to the value even if it is a quote.
    let rest := rest.dropWhile fun c => isQuotedChar c && c ≠ '"'
    match rest with
    | '"' :: rest =>
      if !isQuotedChar first then none
      else match rest.dropWhile (· == ' ') with
        | ';' :: rest => some rest
        | [] => some []
        | _ => none
    | _ => none
  | cs =>
    let (value, rest) := cs.span isTokenChar
    match rest with
    | ';' :: rest => if value.isEmpty then none else some rest
    | [] => some []
    | _ => none

-- Whether a text is a list of parameters; the steps bound their number.
private def areParams : Nat → List Char → Bool
  | 0, cs => cs.isEmpty
  | steps + 1, cs =>
    match cs.dropWhile (· == ' ') with
    | [] => true
    | cs =>
      let (name, rest) := cs.span isTokenChar
      match rest with
      | '=' :: rest =>
        !name.isEmpty && match afterValue rest with
          | some rest => areParams steps rest
          | none => false
      | _ => false

private def lowered (cs : List Char) : String := String.ofList (cs.map Char.toLower)

def parse? (header : String) : Option MediaType :=
  let (type, rest) := header.toList.span isTokenChar
  match rest with
  | '/' :: rest =>
    let (name, rest) := rest.span isTokenChar
    let params? := match rest with
      | [] => some []
      | ';' :: rest => some rest
      | _ => none
    match params? with
    | none => none
    | some params =>
      let isUsable := !type.isEmpty && (!name.isEmpty || rest.isEmpty)
      if !isUsable || !areParams (params.length + 1) params then none
      else match Text.cutLast '+' name with
        | some (before, suffix) =>
          if before.isEmpty then
            some { type := lowered type, subtype := lowered name, suffix := none }
          else
            some
              { type := lowered type, subtype := lowered before, suffix := some (lowered suffix) }
        | none => some { type := lowered type, subtype := lowered name, suffix := none }
  | _ => none

def isJson (m : MediaType) : Bool :=
  m.type = "application" && (m.subtype = "json" || m.suffix = some "json")

end MediaType

end Flowgate.Http
