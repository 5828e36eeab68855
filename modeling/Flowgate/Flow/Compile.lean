import Flowgate.Flow.Stack
import Flowgate.Json.Printer
import Flowgate.Package.Catalog
import Flowgate.Route.Duplicate
import Flowgate.Route.Group

/-!
Compilation of flows to routes. Every enabled request node gives one route, in the order of the
flows and of their nodes, below the base path. The first node whose spec is not valid is the error;
after that, keys that occur twice are.
-/

namespace Flowgate.Flow

open Json (Value)
open Package (Catalog Controller)

-- What a node's route is read from: its first saved configuration that is not empty, or else its
-- data.
def routeSource (f : Flow) (n : Node) : Value :=
  match f.configurations.find? fun c => c.nodeId = n.id && !c.configs.isEmpty with
  | some c => .object c.configs
  | none => n.data

-- The spec of a node: what its source has under `route`, or else the source itself.
def routeSpec (f : Flow) (n : Node) : Except Route.Error Route.Spec :=
  let source := routeSource f n
  if source.isNull then .ok (.ofFields none none [])
  else
    match Route.Spec.ofValue? ((source.get? "route").getD source) with
    | some spec => .ok spec
    | none =>
      .error (.compilation source.compact
        ("node '" ++ n.id ++ "' in flow '" ++ f.name
          ++ "': data did not match any variant of untagged enum RawRouteSpec"))

def Node.isRoute (n : Node) : Bool := n.kind = .request && !n.disabled

-- What the controller of a node always sees: its flow, its node, and the stack of its module.
def context (f : Flow) (n : Node) : Entries Value :=
  let stack := (n.moduleId.bind f.moduleStacks.get?).getD .empty
  Entries.ofList
    [("flow", .string f.name), ("node", .string n.id), ("configurations", stack.toJson)]

def handler (catalog : Catalog) (f : Flow) (n : Node) : Controller :=
  .bound (context f n) (catalog.resolve n.controllerRef?)

def nodeTarget (f : Flow) (n : Node) : Except Route.Error Route.Target := do
  (← routeSpec f n).compile

def routes (catalog : Catalog) (f : Flow) : Except Route.Error (Route.Group Controller) :=
  (f.nodes.filter Node.isRoute).foldlM
    (fun g n => do
      let target ← nodeTarget f n
      return g.on target.method target.path (handler catalog f n)
        (some { flow := some f.name, node := some n.id }))
    .empty

def compile (catalog : Catalog) (base : String) (flows : List Flow) :
    Except Route.Error (Route.Group Controller) := do
  let root ← flows.foldlM
    (fun root f => do return root.mount base (← routes catalog f))
    Route.Group.empty
  Route.ensureUnique root.keys
  return root

end Flowgate.Flow
