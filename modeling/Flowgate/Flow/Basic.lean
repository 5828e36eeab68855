import Flowgate.Json.Shape
import Flowgate.Package.Identity

/-!
Flows, as the visual editor draws them: nodes, the connections between them, and at most one saved
configuration for a node. A flow is read from JSON and written back with every field present.
-/

namespace Flowgate

open Json (Value Shape Codec)

namespace Flow

-- What a node does. Kinds that modules contribute are kept as they are written.
inductive NodeKind where
  -- Supplies settings to the nodes of its module.
  | configuration
  | request
  | middleware
  | response
  | debug
  | other (name : String)
deriving DecidableEq

namespace NodeKind

def ofName : String → NodeKind
  | "Configuration" => .configuration
  | "Request" => .request
  | "Middleware" => .middleware
  | "Response" => .response
  | "Debug" => .debug
  | name => .other name

def name : NodeKind → String
  | .configuration => "Configuration"
  | .request => "Request"
  | .middleware => "Middleware"
  | .response => "Response"
  | .debug => "Debug"
  | .other name => name

theorem name_ofName (s : String) : (ofName s).name = s := by
  unfold ofName
  split <;> rfl

end NodeKind

structure Node where
  id : String
  kind : NodeKind
  moduleId : Option Package.Identity
  disabled : Bool
  data : Value

structure Connection where
  source : String
  target : String

structure Configuration where
  nodeId : String
  configs : Entries Value

-- The `module.node` reference to a controller, if the node carries one.
def Node.controllerRef? (n : Node) : Option String := (n.data.get? "controller") >>= Value.string?

/-! ### JSON -/

def Node.shape : Shape :=
  .record
    [Json.required "id" .string, Json.required "type" .string,
     Json.defaulted "moduleID" (.optional .string), Json.defaulted "disabled" .bool,
     Json.defaulted "data" .any]

def Connection.shape : Shape :=
  .record [Json.required "from" .string, Json.required "to" .string]

def Configuration.shape : Shape :=
  .record [Json.required "nodeID" .string, Json.defaulted "configs" .table]

def Node.decode (v : Value) : Option Node := do
  return {
    id := ← (v.field "id").string?
    kind := .ofName (← (v.field "type").string?)
    moduleId := (v.field "moduleID").string?.map Package.Identity.mk
    disabled := (v.field "disabled").bool?.getD false
    data := v.field "data" }

def Connection.decode (v : Value) : Option Connection := do
  return { source := ← (v.field "from").string?, target := ← (v.field "to").string? }

def Configuration.decode (v : Value) : Option Configuration := do
  return { nodeId := ← (v.field "nodeID").string?, configs := (v.field "configs").object?.getD [] }

def Node.toJson (n : Node) : Value :=
  .object
    [("id", .string n.id), ("type", .string n.kind.name),
     ("moduleID", .ofString? (n.moduleId.map (·.text))), ("disabled", .bool n.disabled),
     ("data", n.data)]

def Connection.toJson (c : Connection) : Value :=
  .object [("from", .string c.source), ("to", .string c.target)]

def Configuration.toJson (c : Configuration) : Value :=
  .object [("nodeID", .string c.nodeId), ("configs", .object c.configs)]

end Flow

-- A flow. Its name is meant to be unique among the deployed flows.
structure Flow where
  name : String
  nodes : List Flow.Node
  connections : List Flow.Connection
  configurations : List Flow.Configuration

namespace Flow

def shape : Shape :=
  .record
    [Json.required "name" .string, Json.defaulted "nodes" (.list Node.shape),
     Json.defaulted "connections" (.list Connection.shape),
     Json.defaulted "configurations" (.list Configuration.shape)]

def decodeList (decode : Value → Option α) (v : Value) : Option (List α) :=
  (v.array?.getD []).mapM decode

def decode (v : Value) : Option Flow := do
  return {
    name := ← (v.field "name").string?
    nodes := ← decodeList Node.decode (v.field "nodes")
    connections := ← decodeList Connection.decode (v.field "connections")
    configurations := ← decodeList Configuration.decode (v.field "configurations") }

def codec : Codec Flow := { shape, decode }

def toJson (f : Flow) : Value :=
  .object
    [("name", .string f.name), ("nodes", .list Node.toJson f.nodes),
     ("connections", .list Connection.toJson f.connections),
     ("configurations", .list Configuration.toJson f.configurations)]

end Flow

def Flows.shape (field : Shape → Json.Field Shape) : Shape := .record [field (.list Flow.shape)]

def Flows.decode (v : Value) : Option (List Flow) :=
  ((v.field "flows").array?.getD []).mapM Flow.decode

def Flows.toJson (flows : List Flow) : Value := .object [("flows", .list Flow.toJson flows)]

end Flowgate
