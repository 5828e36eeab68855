import Flowgate.Text.Split

/-!
Request targets. A target is a path with an optional query, an absolute address whose scheme and
authority do not matter here, an asterisk, or an authority alone. A fragment is dropped. Characters
that have to be percent-encoded make a target invalid.
-/

namespace Flowgate.Http

-- The greatest target that is read, in bytes.
def targetLimit : Nat := 65534

-- The parts of a request target that routing looks at, still percent-encoded.
structure Uri where
  path : String
  query : Option String

namespace Uri

private def within (ranges : List (Nat × Nat)) (c : Char) : Bool :=
  ranges.any fun (low, high) => low ≤ c.toNat && c.toNat ≤ high

def isPathChar (c : Char) : Bool :=
  c = '"' || c = '\x7b' || c = '\x7d' ||
    within [(0x21, 0x21), (0x24, 0x3B), (0x3D, 0x3D), (0x40, 0x5F), (0x61, 0x7A), (0x7C, 0x7C),
      (0x7E, 0x7E)] c

def isQueryChar (c : Char) : Bool :=
  within [(0x21, 0x21), (0x24, 0x3B), (0x3D, 0x3D), (0x3F, 0x7E)] c

private def isAuthorityChar (c : Char) : Bool :=
  c.isAlphanum || "!$&'()*+,-.:;=@[]_~%".toList.contains c

private def isSchemeChar (c : Char) : Bool :=
  c.isAlphanum || c = '+' || c = '-' || c = '.' || c = '~'

-- The path and query of a target, without its fragment.
def ofPath? (cs : List Char) : Option Uri :=
  let cs := cs.takeWhile (· ≠ '#')
  let (path, query) := match Text.cutFirst '?' cs with
    | some (path, query) => (path, some query)
    | none => (cs, none)
  if path.all isPathChar && (query.getD []).all isQueryChar then
    some
      { path := if path.isEmpty then "/" else String.ofList path
        query := query.map String.ofList }
  else none

-- What the characters of an authority have shown so far.
private structure Authority where
  colons : Nat
  opened : Bool
  closed : Bool
  percent : Bool

-- Reads one character. A user part before an at sign may hold colons and escapes that a host may
-- not.
private def Authority.step (a : Authority) (c : Char) : Option Authority :=
  if c = ':' then if a.colons ≥ 8 then none else some { a with colons := a.colons + 1 }
  else if c = '[' then if a.percent || a.opened then none else some { a with opened := true }
  else if c = ']' then
    if !a.opened || a.closed then none
    else some { a with closed := true, colons := 0, percent := false }
  else if c = '@' then some { a with colons := 0, percent := false }
  else if c = '%' then some { a with percent := true }
  else if isAuthorityChar c then some a
  else none

private def isAuthority (cs : List Char) : Bool :=
  let start : Authority := { colons := 0, opened := false, closed := false, percent := false }
  match cs.foldlM Authority.step start with
  | none => false
  | some a => a.opened == a.closed && a.colons ≤ 1 && cs.getLast? ≠ some '@' && !a.percent

private def endsAuthority (c : Char) : Bool := c = '/' || c = '?' || c = '#'

-- What follows the scheme of an absolute address.
private def afterScheme (cs : List Char) : Option (List Char) :=
  let scheme := cs.takeWhile isSchemeChar
  match cs.drop scheme.length with
  | ':' :: '/' :: '/' :: rest => if scheme.length ≤ 64 then some rest else none
  | _ => none

def parse? (target : String) : Option Uri :=
  if target.utf8ByteSize > targetLimit then none
  else match target.toList with
  | [] => none
  | ['*'] => some { path := "*", query := none }
  | '/' :: rest => ofPath? ('/' :: rest)
  | cs =>
    match afterScheme cs with
    | some rest =>
      let authority := rest.takeWhile (!endsAuthority ·)
      if authority.isEmpty || !isAuthority authority then none
      else ofPath? (rest.drop authority.length)
    | none => if isAuthority cs then some { path := "", query := none } else none

end Uri

end Flowgate.Http
