import Flowgate.Flow.Compile
import Flowgate.Service.Admin

/-!
The running service: the registry of modules, the stored flows, and the live router that serves
their routes. The live router is replaced as a whole, by a deployment or after a change of modules,
and only when the new one could be built; a deployment replaces it only when the flows are stored.
-/

namespace Flowgate.Service

open Flowgate.Flow (Store)
open Http (Request Response)
open Json (Value)
open Package (Controller Host Registry World)

-- What does not change while the service runs.
structure Setup where
  registry : Registry
  store : Store
  basePath : String

-- The service of some settings: packages are managed by a program and found in a remote index.
def Setup.ofConfig (c : Config) (fetch : String → Package.Reply) : Setup where
  registry :=
    let workspace : Package.Workspace := { dir := c.modules.dir }
    { workspace
      timeoutSecs := c.modules.timeoutSecs
      manager := Package.ToolKind.manager workspace none
      index := (Package.RemoteIndex.of c.modules.indexUrl c.modules.keyword fetch).index }
  store := { dir := c.flows.dir }
  basePath := c.flows.basePath

structure App where
  setup : Setup
  world : World
  live : Route.Router Controller

inductive StartFault where
  | workspace (fault : File.Fault)
  | modules (fault : Package.WorkspaceFault)
  | flows (fault : Flow.StoreFault)
  -- The host of the router refused the stored flows.
  | aborted (refusal : Route.Refusal)

def StartFault.message : StartFault → String
  | .workspace fault => "Failed to create module workspace: " ++ fault.message
  | .modules fault => "Failed to load installed modules: " ++ fault.message
  | .flows fault => "Failed to load flows from storage: " ++ fault.message
  | .aborted refusal => refusal.message

def Setup.build (s : Setup) (w : World) (flows : List Flow) :
    Except Route.Fault (Route.Router Controller × List String) := do
  let group ← (Flow.compile w.catalog s.basePath flows).mapError .rejected
  let router ← Route.Router.ofGroup group
  return (router, group.keys)

-- Starts the service on a host: fills the catalog, and mounts the stored flows if that can be
-- done.
def Setup.start (s : Setup) (h : Host) : Except StartFault App :=
  let (restored, world) := s.registry.restore.run { host := h, catalog := .empty }
  match restored with
  | .error fault => .error (.modules fault)
  | .ok _ =>
    match s.store.load h.files with
    | .error fault => .error (.flows fault)
    | .ok flows =>
      match s.build world flows with
      | .ok (router, _) => .ok { setup := s, world, live := router }
      | .error (.rejected _) => .ok { setup := s, world, live := .empty }
      | .error (.refused refusal) => .error (.aborted refusal)

-- The host with the workspace directory made, as the first step of a start from settings.
def Setup.prepare (s : Setup) (h : Host) : Except StartFault Host :=
  match h.files.makeDirectories s.registry.workspace.dir with
  | (.error fault, _) => .error (.workspace fault)
  | (.ok (), files) => .ok { h with files }

inductive Outcome where
  | answered (r : Response)
  -- The host of the router broke the request off.
  | aborted (refusal : Route.Refusal)

structure Reply where
  outcome : Outcome
  called : Option (Controller × Value)

def Reply.of (r : Response) : Reply := { outcome := .answered r, called := none }

namespace App

def files (a : App) : File.Tree := a.world.host.files

-- Mounts the stored flows anew. The live router stays if they cannot be read, compiled or
-- mounted; the result tells why the host broke off, if it did.
def refresh (a : App) : Option Route.Refusal × App :=
  match a.setup.store.load a.files with
  | .error _ => (none, a)
  | .ok flows =>
    match a.setup.build a.world flows with
    | .ok (router, _) => (none, { a with live := router })
    | .error (.rejected _) => (none, a)
    | .error (.refused refusal) => (some refusal, a)

-- Answers after the flows were bound to the modules as they are now.
def refreshed (a : App) (r : Response) : Reply × App :=
  match a.refresh with
  | (none, a) => (.of r, a)
  | (some refusal, a) => ({ outcome := .aborted refusal, called := none }, a)

def perform (a : App) (t : Package.Job World α) : α × App :=
  ((t.run a.world).1, { a with world := (t.run a.world).2 })

-- Changes a module; a success binds the flows anew.
def change (a : App) (t : Package.Job World (Registry.Outcome α)) (ok : α → Value) :
    Reply × App :=
  match a.perform t with
  | (.ok found, a) => a.refreshed (.json 200 (ok found))
  | (.error e, a) => (.of (moduleError e), a)

def ask (a : App) (t : Package.Job World (Registry.Outcome α)) (ok : α → Value) :
    Reply × App :=
  match a.perform t with
  | (.ok found, a) => (.of (.json 200 (ok found)), a)
  | (.error e, a) => (.of (moduleError e), a)

def modulesJson (schemas : List Package.Schema) : Value :=
  .object [("modules", .list (·.toJson) schemas)]

def installArchives (a : App) (paths : List String) : Reply × App :=
  let (installed, a) := a.perform (a.setup.registry.installArchives paths)
  let response := Response.json 200 (modulesJson installed)
  if installed.isEmpty then (.of response, a) else a.refreshed response

-- Replaces all flows: builds their router, stores them, and only then serves them.
def deploy (a : App) (flows : List Flow) : Reply × App :=
  match a.setup.build a.world flows with
  | .error (.rejected e) => (.of (routeError e), a)
  | .error (.refused refusal) => ({ outcome := .aborted refusal, called := none }, a)
  | .ok (router, keys) =>
    let (saved, files) := a.setup.store.save a.files flows
    let a := { a with world := { a.world with host := { a.world.host with files } } }
    match saved with
    | .error fault => (.of (.error 500 fault.message), a)
    | .ok () =>
      (.of (.json 200 (.object [("flows", .ofNat flows.length), ("routes", .strings keys)])),
        { a with live := router })

def orRefuse (a : App) (read : Except Response β) (next : β → Reply × App) :
    Reply × App :=
  match read with
  | .error response => (.of response, a)
  | .ok b => next b

def act (a : App) (action : Action) (r : Request) : Reply × App :=
  let registry := a.setup.registry
  match action with
  | .health => (.of { status := 200, content := .plain "ok" }, a)
  | .listModules => (.of (.json 200 (modulesJson a.world.catalog.installed)), a)
  | .install =>
    a.orRefuse (readBody installCodec r) fun body =>
      a.change (registry.install body.name body.version) (·.toJson)
  | .installArchives => a.orRefuse (readBody archivesCodec r) a.installArchives
  | .search => a.orRefuse (readSearch r) fun q => a.ask (registry.search q) (·.toJson)
  | .count =>
    a.ask registry.availableCount fun n => .object [("count", .ofNat n)]
  | .changeVersion =>
    a.orRefuse (moduleName r) fun name =>
      a.orRefuse (readBody versionCodec r) fun version =>
        a.change (registry.change name version) (·.toJson)
  | .remove =>
    a.orRefuse (moduleName r) fun name =>
      a.change (registry.remove name) fun () =>
        .object [("message", .string ("Module '" ++ name ++ "' removed"))]
  | .describe =>
    a.orRefuse (moduleName r) fun name =>
      match Registry.describe a.world name with
      | .ok schema => (.of (.json 200 schema.summary), a)
      | .error e => (.of (moduleError e), a)
  | .listFlows =>
    match a.setup.store.load a.files with
    | .ok flows => (.of (.json 200 (Flows.toJson flows)), a)
    | .error fault => (.of (.error 500 fault.message), a)
  | .deploy => a.orRefuse (readBody deployCodec r) a.deploy

-- Serves a request that is not administrative.
def forward (a : App) (r : Request) : Reply :=
  let answer := a.live.serve Controller.call r
  { outcome := .answered answer.response, called := answer.called }

def Reply.forMethod (method : String) (reply : Reply) : Reply :=
  match reply.outcome with
  | .answered r => { reply with outcome := .answered (r.forMethod method) }
  | .aborted _ => reply

def handle (a : App) (r : Request) : Reply × App :=
  match adminRouter.slot? r.uri.path with
  | none => (a.forward r, a)
  | some slot =>
    match slot.endpoint? r.method with
    | none => (.of (.bare 405), a)
    | some e =>
      let (reply, a) := a.act e.handler r
      (Reply.forMethod r.method reply, a)

end App

end Flowgate.Service
