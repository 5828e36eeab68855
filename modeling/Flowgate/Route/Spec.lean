import Flowgate.Json.Shape
import Flowgate.Route.Error
import Flowgate.Route.Path

/-!
Route specs, as the flow editor saves them: one text (`POST /items`) or separate fields with
defaults. A spec compiles to a method and a canonical path.
-/

namespace Flowgate.Route

structure Target where
  method : String
  path : String
deriving DecidableEq

-- The text that names a route in reports.
def key (method path : String) : String := method ++ " " ++ path

def Target.key (t : Target) : String := Route.key t.method t.path

-- A target with its method in canonical form.
def Target.of (method path : String) : Target :=
  { method := Text.asciiUpper (Text.trim method), path }

inductive Spec where
  | compact (text : String)
  | structured (method endpoint : String) (params : List String)
deriving DecidableEq

namespace Spec

def defaultMethod : String := "GET"

-- The spec of separate fields. A blank method counts as absent.
def ofFields (method endpoint : Option String) (params : List String) : Spec :=
  let method := Text.trim (method.getD "")
  .structured (if method.isEmpty then defaultMethod else method) (endpoint.getD "") params

def shape : Json.Shape :=
  .record
    [Json.defaulted "apiMethod" (.optional .string),
     Json.defaulted "apiEndpoint" (.optional .string),
     Json.defaulted "$url.params" (.optional (.list .string))]

-- A text is a compact spec and an object a structured one; nothing else is a spec.
def ofValue? : Json.Value → Option Spec
  | .string text => some (.compact text)
  | .object fields => do
    let v ← shape.fit (.object fields)
    let params := ((v.field "$url.params").array?.getD []).filterMap Json.Value.string?
    return ofFields (v.field "apiMethod").string? (v.field "apiEndpoint").string? params
  | _ => none

def compile : Spec → Except Error Target
  | .compact text =>
    match Text.splitFirst ' ' (Text.trim text) with
    | none => .error (.compilation text "expected \"METHOD /path\"")
    | some (method, path) =>
      if method.isEmpty then .error (.compilation text "missing HTTP method")
      else .ok (Target.of method (canonical (Text.trim path) []))
  | .structured method endpoint params => .ok (Target.of method (canonical endpoint params))

end Spec

end Flowgate.Route
