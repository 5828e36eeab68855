import Flowgate.Text.Percent

/-!
Addresses of requests that this service makes. Reading an address brings it to the form in which it
is sent: dot segments are resolved, and characters that may not stand there are encoded. The user
part before an at sign is not kept, because it does not belong to what is asked for.
-/

namespace Flowgate.Http

-- An address over the network, every part in the form in which it is sent.
structure Url where
  -- The scheme, and the host with its port.
  origin : String
  -- The path, which starts with a slash.
  path : String
  query : Option String
  fragment : Option String

inductive UrlFault where
  | relative
  | noHost
  | badPort
deriving DecidableEq

def UrlFault.message : UrlFault → String
  | .relative => "relative URL without a base"
  | .noHost => "empty host"
  | .badPort => "invalid port number"

namespace Url

private def isDropped (c : Char) : Bool := c = '\t' || c = '\n' || c = '\r'

private def isEdge (c : Char) : Bool := c.toNat ≤ 0x20

-- Without blanks at its ends and line breaks anywhere.
def cleaned (address : List Char) : List Char :=
  let trimmed := ((address.dropWhile isEdge).reverse.dropWhile isEdge).reverse
  trimmed.filter (!isDropped ·)

private def isPlain (c : Char) : Bool := 0x20 < c.toNat && c.toNat < 0x7F

private def isFragmentChar (c : Char) : Bool :=
  isPlain c && c ≠ '"' && c ≠ '<' && c ≠ '>' && c.toNat ≠ 0x60

private def isPathChar (c : Char) : Bool :=
  isFragmentChar c && c ≠ '#' && c ≠ '?' && c ≠ '\x7b' && c ≠ '\x7d'

private def isQueryChar (c : Char) : Bool :=
  isPlain c && c ≠ '"' && c ≠ '#' && c ≠ '<' && c ≠ '>' && c ≠ '\''

/-! ### The path -/

-- A segment with each encoded dot written as a dot.
private def dotted : List Char → List Char
  | '%' :: '2' :: 'e' :: rest => '.' :: dotted rest
  | '%' :: '2' :: 'E' :: rest => '.' :: dotted rest
  | c :: rest => c :: dotted rest
  | [] => []

-- The segments of a path without those that mean "here" and "one up". The segments before are kept
-- with the last one first.
def resolved : List (List Char) → List (List Char) → List (List Char)
  | done, [] => done.reverse
  | done, segment :: rest =>
    if dotted segment = ['.', '.'] then
      resolved (if rest.isEmpty then [] :: done.tail else done.tail) rest
    else if dotted segment = ['.'] then resolved (if rest.isEmpty then [] :: done else done) rest
    else resolved (segment :: done) rest

private def isSlash (c : Char) : Bool := c = '/' || c = '\\'

private def encoded (keep : Char → Bool) (cs : List Char) : String :=
  Text.percentEncode keep (String.ofList cs)

-- A path as it is sent; a backslash in it divides segments as a slash does.
def pathText (path : List Char) : String :=
  let slashed := path.map fun c => if isSlash c then '/' else c
  let below := match slashed with
    | '/' :: below => below
    | below => below
  "/" ++ "/".intercalate ((resolved [] (Text.piecesOf '/' below)).map (encoded isPathChar))

/-! ### The host -/

-- The port that a scheme has if none is given.
private def usualPort : String → Option Nat
  | "http" => some 80
  | "https" => some 443
  | _ => none

private def number (digits : List Char) : Nat :=
  digits.foldl (fun n c => n * 10 + (c.toNat - '0'.toNat)) 0

-- A host and port as they are sent. An empty port, and the usual one of the scheme, is left out.
private def hostText (scheme : String) (cs : List Char) : Except UrlFault String :=
  let (host, port) := (Text.cutFirst ':' cs).getD (cs, [])
  if host.isEmpty then .error .noHost
  else if port.any (!·.isDigit) || number port > 65535 then .error .badPort
  else
    let host := String.ofList (host.map Char.toLower)
    if port.isEmpty || usualPort scheme = some (number port) then .ok host
    else .ok (host ++ ":" ++ toString (number port))

/-! ### Reading and writing -/

private def endsHost (c : Char) : Bool := isSlash c || c = '?' || c = '#'

-- Reads what follows the scheme.
private def below (scheme : String) (cs : List Char) : Except UrlFault Url := do
  let (authority, rest) := cs.span (!endsHost ·)
  let host := match Text.cutLast '@' authority with
    | some (_, host) => host
    | none => authority
  let host ← hostText scheme host
  let (rest, fragment) := match Text.cutFirst '#' rest with
    | some (rest, fragment) => (rest, some fragment)
    | none => (rest, none)
  let (path, query) := match Text.cutFirst '?' rest with
    | some (path, query) => (path, some query)
    | none => (rest, none)
  return {
    origin := scheme ++ "://" ++ host
    path := pathText path
    query := query.map (encoded isQueryChar)
    fragment := fragment.map (encoded isFragmentChar) }

-- Reads an address whose scheme is that of requests over the network.
def parse (address : String) : Except UrlFault Url :=
  match Text.cutFirst ':' (cleaned address.toList) with
  | none => .error .relative
  | some (scheme, rest) =>
    let scheme := String.ofList (scheme.map Char.toLower)
    if (usualPort scheme).isSome then below scheme (rest.dropWhile isSlash) else .error .relative

def text (u : Url) : String :=
  let query := (u.query.map ("?" ++ ·)).getD ""
  let fragment := (u.fragment.map ("#" ++ ·)).getD ""
  u.origin ++ u.path ++ query ++ fragment

-- The address with some pairs at the end of its query.
def withPairs (u : Url) (pairs : List (String × String)) : Url :=
  let given := u.query.getD ""
  { u with
    query := some ((if given.isEmpty then "" else given ++ "&") ++ Text.formText pairs) }

end Url

end Flowgate.Http
