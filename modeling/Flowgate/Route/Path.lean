import Flowgate.Text.Blank
import Flowgate.Text.Split

/-!
Route paths. A canonical path starts with one slash and ends with one only when it is the root. Both
the path of an authored endpoint and a path below a mount prefix are canonical.
-/

namespace Flowgate.Route

-- The pieces of a path between slashes, empty ones left out.
def segments (path : String) : List String := (Text.pieces '/' path).filter (· ≠ "")

-- The path whose pieces are these.
def rooted (pieces : List String) : String := "/" ++ "/".intercalate pieces

-- The name of a parameter as it is authored: surrounding blanks, then leading colons, do not
-- count. A blank name is no parameter.
def paramSegment? (authored : String) : Option String :=
  let name := Text.trimStart (· == ':') (Text.trim authored)
  if name.isEmpty then none else some (":" ++ name)

-- The path of an endpoint and the parameters after it, in their order.
def canonical (endpoint : String) (params : List String) : String :=
  let trimmed := Text.trimSlashes (Text.trim endpoint)
  rooted ((if trimmed.isEmpty then [] else [trimmed]) ++ params.filterMap paramSegment?)

def join (base path : String) : String :=
  rooted ([Text.trimSlashes base, Text.trimSlashes path].filter (· ≠ ""))

-- The parameter that a segment declares: what follows its colon.
def param? (segment : String) : Option String :=
  match segment.toList with
  | ':' :: name => some (String.ofList name)
  | _ => none

end Flowgate.Route
