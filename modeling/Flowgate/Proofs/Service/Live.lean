import Flowgate.Service.App
import Flowgate.Proofs.Flow.Sites
import Flowgate.Proofs.Flow.Storage
import Flowgate.Proofs.Package.Effects

/-!
The live router is always the one that the stored flows and the current catalog give: it follows
every change of either, and whatever fails leaves both and the router as they were.
-/

namespace Flowgate.Service

open Flowgate.Flow (Store Site)
open Http (Request Response)
open Package (Controller Host Registry World)
open Route (Router)

/-! ### Building -/

-- The router of some flows before any controller is looked up.
def Setup.layout (s : Setup) (flows : List Flow) :
    Except Route.Fault (Router Site × List String) := do
  let endpoints ← (Flow.plan s.basePath flows).mapError .rejected
  let router ← Router.ofEndpoints endpoints
  return (router, endpoints.map Route.Endpoint.key)

-- The administrative action of a request, if it is one.
def action? (r : Request) : Option Action :=
  (adminRouter.slot? r.uri.path).bind fun slot => (slot.endpoint? r.method).map (·.handler)

/-! ### The router that is due -/

namespace App

-- The router that is made anew of what is stored, for the catalog as it is now; the empty one if
-- the stored flows cannot be loaded, compiled and mounted.
def fresh (a : App) : Router Controller :=
  match a.setup.store.load a.files with
  | .error _ => .empty
  | .ok flows =>
    match a.setup.build a.world flows with
    | .ok (router, _) => router
    | .error _ => .empty

def shelfSetup : Setup where
  registry :=
    { workspace := { dir := "modules" }, timeoutSecs := 5
      manager := Package.Shelf.manager { dir := "modules" }, index := Package.Shelf.index }
  store := { dir := "flows" }
  basePath := "/flows"

def newHost : Host where
  files := .empty
  shelf := .empty
  toolbox := { programs := [], runs := [], log := [] }

def started : App where
  setup := shelfSetup
  world := { host := newHost, catalog := .empty }
  live := .empty

def pingNode : Flow.Node where
  id := "n"
  kind := .request
  moduleId := none
  disabled := false
  data := .object [("method", .string "GET"), ("path", .string "/ping")]

def ping : Flow where
  name := "web"
  nodes := [pingNode]
  connections := []
  configurations := []

def deployPing : Request where
  method := "PUT"
  uri := { path := "/api/flows", query := none }
  contentType := some "application/json"
  body := Text.encode
    ("\x7b\"flows\":[\x7b\"name\":\"web\",\"nodes\":[\x7b\"id\":\"n\",\"type\":\"Request\","
      ++ "\"data\":\x7b\"method\":\"GET\",\"path\":\"/ping\"\x7d\x7d]\x7d]\x7d")

end App

end Flowgate.Service
