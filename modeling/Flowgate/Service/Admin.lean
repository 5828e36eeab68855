import Flowgate.Config
import Flowgate.Flow.Store
import Flowgate.Package.Registry
import Flowgate.Route.Router

/-!
The administrative requests: their paths and methods, and how their parameters and bodies are read.
A request for a path of this table is never passed on, whatever its method.
-/

namespace Flowgate.Service

open Http (Request Response)
open Json (Codec Value)
open Package (SearchQuery)

inductive Action where
  | health
  | listModules
  | install
  | installArchives
  | search
  | count
  | changeVersion
  | remove
  | describe
  | listFlows
  | deploy
deriving DecidableEq

def slot (path : String) (methods : List (String × Action)) : Route.Slot Action where
  path := path
  methods := methods.map fun (method, handler) => { method, path, handler }
  others := none

def adminRouter : Route.Router Action where
  slots :=
    [slot "/healthz" [("GET", .health)],
     slot "/api/modules" [("GET", .listModules), ("POST", .install)],
     slot "/api/modules/local" [("POST", .installArchives)],
     slot "/api/modules/search" [("GET", .search)],
     slot "/api/modules/count" [("GET", .count)],
     slot "/api/modules/:name" [("PUT", .changeVersion), ("DELETE", .remove)],
     slot "/api/modules/:name/description" [("GET", .describe)],
     slot "/api/flows" [("GET", .listFlows), ("PUT", .deploy)]]

/-! ### Parameters and bodies -/

-- A refusal with a text that has no fixed wording.
def refusal (status : Nat) : Response := { status, content := .notice }

-- The module that a path names, decoded.
def moduleName (r : Request) : Except Response String :=
  let raw := ((Route.Router.requestSegments? r.uri.path).getD []).getD 2 ""
  match Text.decode? (Text.percentDecode raw.toList) with
  | some cs => .ok (String.ofList cs)
  | none => .error (refusal 400)

-- The value of a JSON body. What is not declared as JSON is refused before it is read, and a text
-- that is no JSON otherwise than one of another shape.
def readBody (codec : Codec α) (r : Request) : Except Response α :=
  if !r.declaresJson then .error (refusal 415)
  else if r.isTooLarge then .error (refusal 413)
  else
    match codec.ofBytes r.body with
    | .ok a => .ok a
    | .error .malformed => .error (refusal 400)
    | .error .mismatch => .error (refusal 422)

private def single (pairs : List (String × String)) (names : List String) :
    Except Response (Option String) :=
  match pairs.filter fun (name, _) => names.contains name with
  | [] => .ok none
  | [(_, value)] => .ok (some value)
  | _ => .error (refusal 400)

private def countOf (value : Option String) : Except Response (Option Nat) :=
  match value with
  | none => .ok none
  | some text =>
    match countOfText? Json.largestCount text with
    | some n => .ok (some n)
    | none => .error (refusal 400)

def readSearch (r : Request) : Except Response SearchQuery := do
  let pairs := Text.formPairs (r.uri.query.getD "")
  let text ← single pairs ["text", "q"]
  let size ← countOf (← single pairs ["size"])
  let start ← countOf (← single pairs ["from"])
  return { text := text.getD "", size, start }

structure InstallRequest where
  name : String
  version : Option String

def installCodec : Codec InstallRequest where
  shape :=
    .record [Json.required "name" .string, Json.defaulted "version" (.optional .string)]
  decode v := do
    return { name := ← (v.field "name").string?, version := (v.field "version").string? }

def archivesCodec : Codec (List String) where
  shape := .record [Json.required "paths" (.list .string)]
  decode v := ((v.field "paths").array?.getD []).mapM Value.string?

def versionCodec : Codec String where
  shape := .record [Json.required "version" .string]
  decode v := (v.field "version").string?

def deployCodec : Codec (List Flow) where
  shape := Flows.shape (Json.required "flows")
  decode := Flows.decode

/-! ### Errors -/

def moduleErrorStatus : Package.ModuleError → Nat
  | .notFound _ => 404
  | .version _ _ => 404
  | .install _ _ => 422
  | .remove _ _ => 422
  | .index _ => 502

def moduleError (e : Package.ModuleError) : Response :=
  .error (moduleErrorStatus e) e.message

def routeError (e : Route.Error) : Response :=
  match e with
  | .conflict report =>
    .json 409
      (.object
        [("error", .string e.message),
         ("duplicates", .object (report.map fun (key, count) => (key, Value.ofNat count)))])
  | e => .error 400 e.message

end Flowgate.Service
