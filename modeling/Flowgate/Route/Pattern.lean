import Flowgate.Route.Group

/-!
Path patterns: the segments of a route path, literal or parameters, and which sets of paths a router
can hold. In a set that `checkShapes` accepts, paths that agree once the names of their parameters
are left out are the same path.
-/

namespace Flowgate.Route

-- The path as the router stores it: a parameter in braces, and braces of a literal doubled.
def template (path : String) : String := rooted ((segments path).map templateSegment)
where
  templateSegment (segment : String) : String :=
    match param? segment with
    | some name => "\x7b" ++ name ++ "\x7d"
    | none => String.ofList (segment.toList.flatMap fun c =>
        if c = '\x7b' || c = '\x7d' then [c, c] else [c])

-- Whether a path has an empty segment before its end.
def hasEmptySegment (path : String) : Bool :=
  path ≠ "/" && (Text.pieces '/' (Text.trimStart (· == '/') path)).contains ""

def isParamName (name : String) : Bool :=
  !name.isEmpty && !name.toList.any fun c => c = '\x7b' || c = '\x7d' || c = '*'

-- A segment without the name of its parameter.
def blanked (segment : String) : String := if (param? segment).isSome then ":" else segment

-- Where a parameter was first named: after which blanked segments, how, and in which path.
structure Naming where
  shape : String
  name : String
  path : String

-- Checks the segments of one path. `before` holds the blanked segments to the left and `seen` the
-- parameters among them.
def checkSegments (key path : String) :
    List String → List String → List String → List Naming → Except Error (List Naming)
  | _, _, [], namings => .ok namings
  | before, seen, segment :: rest, namings =>
    match param? segment with
    | none => checkSegments key path (before ++ [blanked segment]) seen rest namings
    | some name =>
      if !isParamName name || seen.contains name then
        .error (.compilation key ("invalid or repeated path parameter '" ++ segment ++ "'"))
      else
        let shape := "/".intercalate before
        match namings.find? (·.shape = shape) with
        | some first =>
          if first.name ≠ name then .error (.ambiguous first.path path)
          else checkSegments key path (before ++ [blanked segment]) (name :: seen) rest namings
        | none =>
          checkSegments key path (before ++ [blanked segment]) (name :: seen) rest
            ({ shape, name, path } :: namings)

def checkPath (e : Endpoint κ) (namings : List Naming) : Except Error (List Naming) :=
  if hasEmptySegment e.path then .error (.compilation e.key "empty path segment")
  else checkSegments e.key e.path [] [] (segments e.path) namings

def checkPaths : List (Endpoint κ) → List Naming → Except Error Unit
  | [], _ => .ok ()
  | e :: rest, namings => do checkPaths rest (← checkPath e namings)

-- Refuses paths that a router cannot tell apart: empty segments, parameters without a proper name
-- or with one name twice, and two names for the parameter after one prefix.
def checkShapes (endpoints : List (Endpoint κ)) : Except Error Unit := checkPaths endpoints []

end Flowgate.Route
