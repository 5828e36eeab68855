import Flowgate.Http.Message
import Flowgate.Json.Reader
import Flowgate.Route.Duplicate
import Flowgate.Route.Pattern

/-!
Routers. A router holds one slot for each path, with the endpoint of each method and perhaps one for
all other methods. It is built from a group whose endpoints pass every check, and it answers a
request with at most one call of a handler. Paths are compared as they are written, still
percent-encoded; at each segment a literal beats a parameter.
-/

namespace Flowgate.Route

open Json (Value)

structure Slot (κ : Type) where
  path : String
  methods : List (Endpoint κ)
  -- Serves the methods that have no endpoint of their own.
  others : Option (Endpoint κ)

structure Router (κ : Type) where
  slots : List (Slot κ)

-- Why the host of the router refuses to register a path.
inductive Refusal where
  -- A literal segment starts with the mark of a wildcard.
  | wildcard
  -- The path has more parameters than the host can rename.
  | crowded
deriving DecidableEq

def Refusal.message : Refusal → String
  | .wildcard =>
    "Path segments must not start with " ++ quoted "*" ++ ". For wildcard capture, use "
      ++ quoted "\x7b*wildcard\x7d" ++ ". If you meant to literally match a segment starting with an"
      ++ " asterisk, call " ++ quoted "without_v07_checks" ++ " on the router."
  | .crowded => "Too many route parameters."
where
  quoted (code : String) : String := "\x60" ++ code ++ "\x60"

inductive Fault where
  | rejected (e : Error)
  -- The set passed all checks, but the host does not register one of its paths.
  | refused (refusal : Refusal)

-- The methods that a router can tell apart.
def knownMethods : List String :=
  ["GET", "POST", "PUT", "PATCH", "DELETE", "HEAD", "OPTIONS", "TRACE"]

def servesAll (method : String) : Bool := method = "ALL" || method = "ANY"

-- Adds an endpoint to its path. Only one may serve all other methods.
def Slot.add (slot : Slot κ) (e : Endpoint κ) : Except Error (Slot κ) :=
  if servesAll e.method then
    if slot.others.isSome then .error (.ambiguous ("ALL " ++ e.path) e.key)
    else .ok { slot with others := some e }
  else .ok { slot with methods := slot.methods ++ [e] }

-- The endpoint for a method: its own, for `HEAD` the one of `GET`, or the one for all others.
def Slot.endpoint? (slot : Slot κ) (method : String) : Option (Endpoint κ) :=
  (slot.methods.find? (·.method = method)).or
    ((if method = "HEAD" then slot.methods.find? (·.method = "GET") else none).or slot.others)

namespace Router

def empty : Router κ := { slots := [] }

/-! ### Building -/

-- Adds an endpoint to the slot of its path, which is the last one if the path is new.
def addTo : List (Slot κ) → Endpoint κ → Except Error (List (Slot κ))
  | [], e => do
    let slot ← Slot.add { path := e.path, methods := [], others := none } e
    return [slot]
  | slot :: rest, e =>
    if template slot.path = template e.path then do
      let slot ← Slot.add slot e
      return slot :: rest
    else do
      let rest ← addTo rest e
      return slot :: rest

def addEndpoint (slots : List (Slot κ)) (e : Endpoint κ) : Except Error (List (Slot κ)) :=
  if knownMethods.contains e.method || servesAll e.method then addTo slots e
  else .error (.unsupportedMethod e.method)

def isWildcard (path : String) : Bool :=
  (segments (template path)).any fun segment => segment.toList.head? = some '*'

-- The most parameters of one path: the host gives each a letter, and the last letter stays free.
def paramLimit : Nat := 25

def isCrowded (path : String) : Bool :=
  paramLimit < ((segments path).filterMap param?).length

-- Why the host refuses to register a path, if it does.
def refusal? (path : String) : Option Refusal :=
  if isWildcard path then some .wildcard
  else if isCrowded path then some .crowded
  else none

def ofEndpoints (endpoints : List (Endpoint κ)) : Except Fault (Router κ) := do
  (ensureUnique (endpoints.map Endpoint.key)).mapError .rejected
  (checkShapes endpoints).mapError .rejected
  let slots ← (endpoints.foldlM addEndpoint []).mapError .rejected
  match slots.findSome? fun slot => refusal? slot.path with
  | some refusal => .error (.refused refusal)
  | none => .ok { slots }

def ofGroup (g : Group κ) : Except Fault (Router κ) := ofEndpoints g.endpoints

/-! ### Finding the slot of a path -/

inductive Piece where
  | literal (text : String)
  | param
deriving DecidableEq

-- What a path asks of the segments of a request; the root asks for one empty segment.
def piecesOf (path : String) : List Piece :=
  match segments path with
  | [] => [.literal ""]
  | segments => segments.map fun s => if (param? s).isSome then .param else .literal s

-- The candidates that have this literal next, without it.
def afterLiteral (segment : String) (candidates : List (List Piece × α)) :
    List (List Piece × α) :=
  candidates.filterMap fun (pieces, a) =>
    match pieces with
    | .literal text :: rest => if text = segment then some (rest, a) else none
    | _ => none

def afterParam (candidates : List (List Piece × α)) : List (List Piece × α) :=
  candidates.filterMap fun (pieces, a) =>
    match pieces with
    | .param :: rest => some (rest, a)
    | _ => none

-- The candidate that matches the segments, a literal before a parameter at each of them. A
-- parameter matches an empty segment unless it is the last. Every candidate goes one of the two ways,
-- so a segment costs no more than the candidates that are left.
def search : List (List Piece × α) → List String → Option α
  | [], _ => none
  | candidates, [] => (candidates.find? (·.1.isEmpty)).map Prod.snd
  | candidates, segment :: rest =>
    match search (afterLiteral segment candidates) rest with
    | some a => some a
    | none =>
      if segment.isEmpty && rest.isEmpty then none else search (afterParam candidates) rest

-- The segments of a request path, empty ones included.
def requestSegments? (path : String) : Option (List String) :=
  match path.toList with
  | '/' :: rest => some ((Text.piecesOf '/' rest).map String.ofList)
  | _ => none

def slot? (router : Router κ) (path : String) : Option (Slot κ) := do
  let segments ← requestSegments? path
  search (router.slots.map fun slot => (piecesOf slot.path, slot)) segments

/-! ### Answering -/

-- The values of the parameters, from aligning the nonempty segments of both paths.
def paramValues (pattern path : String) : Entries Value :=
  Entries.ofList (((segments pattern).zip (segments path)).filterMap fun (expected, actual) =>
    (param? expected).map fun name => (name, .string actual))

-- A body as handlers see it: its JSON value, else its text, else null. An empty one is null.
def bodyValue (bytes : List UInt8) : Value :=
  if bytes.isEmpty then .null
  else
    match Text.decode? bytes with
    | none => .null
    | some cs => (Json.parse? cs).getD (.string (String.ofList cs))

def queryValue (query : Option String) : Value :=
  .record ((Text.formPairs (query.getD "")).map fun (name, value) => (name, .string value))

def inputsOf (e : Endpoint κ) (r : Http.Request) : Value :=
  .record
    [("method", .string r.method), ("path", .string r.uri.path),
     ("params", .object (paramValues e.path r.uri.path)), ("query", queryValue r.uri.query),
     ("body", bodyValue r.body)]

-- A response, with the handler that was called for it and what it was called with.
structure Answer (κ : Type) where
  response : Http.Response
  called : Option (κ × Value)

-- Calls the handler of an endpoint, unless the body is too large.
def dispatch (invoke : κ → Value → Except String Unit) (e : Endpoint κ) (r : Http.Request) :
    Answer κ :=
  if r.isTooLarge then { response := .bare 413, called := none }
  else
    let inputs := inputsOf e r
    let response := match invoke e.handler inputs with
      | .ok () => Http.Response.bare 204
      | .error message => .error 422 message
    { response, called := some (e.handler, inputs) }

def serve (invoke : κ → Value → Except String Unit) (router : Router κ) (r : Http.Request) :
    Answer κ :=
  match router.slot? r.uri.path with
  | none => { response := .bare 404, called := none }
  | some slot =>
    match slot.endpoint? r.method with
    | none => { response := .bare 405, called := none }
    | some e =>
      let answer := dispatch invoke e r
      { answer with response := answer.response.forMethod r.method }

end Router

end Flowgate.Route
