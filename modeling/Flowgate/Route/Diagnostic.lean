import Flowgate.Route.Group
import Flowgate.Text.Quoted

/-!
Diagnostic text of groups and endpoints: each value with its kind and its fields, handlers left out.
-/

namespace Flowgate.Route

open Text (quoted)

-- A kind with its fields; the text ends in two dots when fields are left out.
def braced (kind fields : String) : String := kind ++ " \x7b " ++ fields ++ " \x7d"

def optional (text : α → String) : Option α → String
  | none => "None"
  | some a => "Some(" ++ text a ++ ")"

def bracketed (items : List String) : String := "[" ++ ", ".intercalate items ++ "]"

def Origin.diagnostic (o : Origin) : String :=
  braced "RouteOptions" ("flow: " ++ optional quoted o.flow ++ ", node: " ++ optional quoted o.node)

mutual

def Entry.diagnostic : Entry κ → String
  | .route method path _ origin =>
    braced "Method" ("path: " ++ quoted path ++ ", method: " ++ quoted method ++ ", opts: "
      ++ optional Origin.diagnostic origin ++ ", ..")
  | .group path entries =>
    braced "Router" ("path: " ++ quoted path ++ ", router: "
      ++ braced "RouterBuilder" ("routes: " ++ bracketed (diagnostics entries)))

def diagnostics : List (Entry κ) → List String
  | [] => []
  | entry :: rest => entry.diagnostic :: diagnostics rest

end

def Group.diagnostic (g : Group κ) : String :=
  braced "RouterBuilder" ("routes: " ++ bracketed (diagnostics g))

def Endpoint.diagnostic (e : Endpoint κ) : String :=
  braced "CompiledRoute" ("method: " ++ quoted e.method ++ ", path: " ++ quoted e.path ++ ", ..")

end Flowgate.Route
