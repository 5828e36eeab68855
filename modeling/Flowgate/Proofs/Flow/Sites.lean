import Flowgate.Flow.Compile
import Flowgate.Proofs.Route.Handlers
import Flowgate.Proofs.Route.Paths
import Flowgate.Proofs.Traversal

/-!
Sites: the enabled request nodes of some flows. Compilation is one walk over the sites that does not
look at the catalog, and after it the controllers are put in.
-/

namespace Flowgate.Flow

open Package (Catalog Controller)
open Route (Endpoint Entry Target)

abbrev Site := Flow × Node

-- In the order of the flows and, within one, of its nodes.
def sites (flows : List Flow) : List Site :=
  flows.flatMap fun f => (f.nodes.filter Node.isRoute).map (f, ·)

def Site.target (site : Site) : Except Route.Error Target := nodeTarget site.1 site.2

def Site.handler (catalog : Catalog) (site : Site) : Controller :=
  Flow.handler catalog site.1 site.2

-- The endpoint of a site, with the site itself where its controller will stand.
def Site.endpoint (base : String) (site : Site) : Except Route.Error (Endpoint Site) := do
  let target ← site.target
  return { method := target.method, path := Route.join base target.path, handler := site }

-- All that a compilation decides before it looks at the catalog.
def plan (base : String) (flows : List Flow) : Except Route.Error (List (Endpoint Site)) := do
  let endpoints ← (sites flows).mapM (Site.endpoint base)
  Route.ensureUnique (endpoints.map Endpoint.key)
  return endpoints

-- What compilation adds to the group of a flow for one of its nodes.
def nodeEntry (catalog : Catalog) (f : Flow) (n : Node) : Except Route.Error (Entry Controller) := do
  let target ← nodeTarget f n
  return .route (Text.asciiUpper target.method) target.path (handler catalog f n)
    (some { flow := some f.name, node := some n.id })

theorem routes_eq (catalog : Catalog) (f : Flow) :
    routes catalog f = (f.nodes.filter Node.isRoute).mapM (nodeEntry catalog f) := by
  have step : (fun g n => do
        let target ← nodeTarget f n
        return Route.Group.on g target.method target.path (handler catalog f n)
          (some { flow := some f.name, node := some n.id }))
      = fun g n => do return g ++ [← nodeEntry catalog f n] := by
    funext g n
    unfold nodeEntry
    cases nodeTarget f n <;> rfl
  unfold routes
  rw [step, foldlM_snoc]
  cases (f.nodes.filter Node.isRoute).mapM (nodeEntry catalog f) <;> rfl

theorem asciiUpper_of_compile {spec : Route.Spec} {target : Target}
    (compiled : spec.compile = .ok target) : Text.asciiUpper target.method = target.method := by
  have upper (method path : String) :
      Text.asciiUpper (Target.of method path).method = (Target.of method path).method := by
    rw [Target.of, Text.asciiUpper_asciiUpper]
  cases spec with
  | structured method endpoint params =>
    rw [Route.Spec.compile] at compiled
    rw [← Except.ok.inj compiled, upper]
  | compact text =>
    rw [Route.Spec.compile] at compiled
    split at compiled
    · cases compiled
    · split at compiled
      · cases compiled
      · rw [← Except.ok.inj compiled, upper]

theorem asciiUpper_of_target {f : Flow} {n : Node} {target : Target}
    (found : nodeTarget f n = .ok target) : Text.asciiUpper target.method = target.method := by
  unfold nodeTarget at found
  cases spec : routeSpec f n with
  | error e => rw [spec] at found; cases found
  | ok read => rw [spec] at found; exact asciiUpper_of_compile found

-- A node fails on both sides, or it gives an entry and an endpoint for one target.
theorem nodeEntry_cases (catalog : Catalog) (base : String) (f : Flow) (n : Node) :
    (∃ e, nodeEntry catalog f n = .error e ∧ Site.endpoint base (f, n) = .error e) ∨
    (∃ target : Target, nodeEntry catalog f n = .ok (.route target.method target.path (handler catalog f n)
        (some { flow := some f.name, node := some n.id })) ∧
      Site.endpoint base (f, n) =
        .ok { method := target.method, path := Route.join base target.path, handler := (f, n) }) := by
  unfold nodeEntry Site.endpoint Site.target
  cases found : nodeTarget f n with
  | error e => exact .inl ⟨e, rfl, rfl⟩
  | ok target => exact .inr ⟨target, by rw [← asciiUpper_of_target found]; rfl, rfl⟩

-- The endpoints of a flow's group below the base path, site by site.
theorem endpoints_routes (catalog : Catalog) (base : String) (f : Flow) :
    Route.endpointsBelow (Route.join "/" base) <$> routes catalog f
      = List.map (Endpoint.map (Site.handler catalog)) <$>
          ((f.nodes.filter Node.isRoute).map (f, ·)).mapM (Site.endpoint base) := by
  rw [routes_eq]
  induction f.nodes.filter Node.isRoute with
  | nil => rfl
  | cons n nodes ih =>
    rw [List.map_cons, List.mapM_cons, List.mapM_cons]
    rcases nodeEntry_cases catalog base f n with ⟨e, entry, endpoint⟩ | ⟨target, entry, endpoint⟩
    · rw [entry, endpoint]
      rfl
    · rw [entry, endpoint]
      cases first : nodes.mapM (nodeEntry catalog f) <;>
        cases second : (nodes.map (f, ·)).mapM (Site.endpoint base) <;>
        rw [first, second] at ih
      case error.error => exact ih
      case error.ok => cases ih
      case ok.error => cases ih
      case ok.ok entries rest =>
        have rest_eq := Except.ok.inj ih
        refine congrArg Except.ok ?_
        rw [Route.endpointsBelow, Route.Entry.endpointsBelow, rest_eq, Route.join_join_root]
        rfl

-- The root group of a compilation, before it is checked.
def rootGroup (catalog : Catalog) (base : String) (flows : List Flow) :
    Except Route.Error (Route.Group Controller) :=
  flows.foldlM (fun root f => do return root.mount base (← routes catalog f)) Route.Group.empty

theorem rootGroup_eq (catalog : Catalog) (base : String) (flows : List Flow) :
    rootGroup catalog base flows = List.map (Entry.group base) <$> flows.mapM (routes catalog) := by
  have step : (fun (root : Route.Group Controller) f => do
        return root.mount base (← routes catalog f))
      = fun root f => do return root ++ [← Entry.group base <$> routes catalog f] := by
    funext root f
    cases routes catalog f <;> rfl
  unfold rootGroup
  rw [step, foldlM_snoc, ← mapM_map_ok]
  cases flows.mapM fun f => Entry.group base <$> routes catalog f <;> rfl

theorem endpointsBelow_groups (base : String) (groups : List (Route.Group κ)) :
    Route.endpointsBelow "/" (groups.map (Entry.group base))
      = (groups.map (Route.endpointsBelow (Route.join "/" base))).flatten := by
  induction groups with
  | nil => rfl
  | cons group groups ih =>
    rw [List.map_cons, Route.endpointsBelow, Route.Entry.endpointsBelow, ih]
    rfl

theorem endpoints_rootGroup (catalog : Catalog) (base : String) (flows : List Flow) :
    Route.Group.endpoints <$> rootGroup catalog base flows
      = List.map (Endpoint.map (Site.handler catalog)) <$>
          (sites flows).mapM (Site.endpoint base) := by
  have eachFlow : List.map (Route.endpointsBelow (Route.join "/" base)) <$>
        flows.mapM (routes catalog)
      = List.map (List.map (Endpoint.map (Site.handler catalog))) <$>
          flows.mapM fun f =>
            ((f.nodes.filter Node.isRoute).map (f, ·)).mapM (Site.endpoint base) := by
    rw [← mapM_map_ok, ← mapM_map_ok]
    simp only [endpoints_routes]
  rw [rootGroup_eq, sites, mapM_flatMap]
  revert eachFlow
  cases flows.mapM (routes catalog) with
  | error e =>
    cases flows.mapM fun f =>
        ((f.nodes.filter Node.isRoute).map (f, ·)).mapM (Site.endpoint base) with
    | error e' => exact fun equal => by cases equal; rfl
    | ok parts => exact fun equal => by cases equal
  | ok groups =>
    cases flows.mapM fun f =>
        ((f.nodes.filter Node.isRoute).map (f, ·)).mapM (Site.endpoint base) with
    | error e' => exact fun equal => by cases equal
    | ok parts =>
      intro equal
      refine congrArg Except.ok ?_
      show Route.endpointsBelow "/" (groups.map (Entry.group base)) = _
      rw [endpointsBelow_groups, Except.ok.inj equal, List.map_flatten]

-- Only the controllers of a compilation depend on the catalog.
theorem endpoints_compile (catalog : Catalog) (base : String) (flows : List Flow) :
    Route.Group.endpoints <$> compile catalog base flows
      = List.map (Endpoint.map (Site.handler catalog)) <$> plan base flows := by
  have whole := endpoints_rootGroup catalog base flows
  show Route.Group.endpoints <$> (rootGroup catalog base flows >>= fun root => do
    Route.ensureUnique root.keys
    return root) = _
  unfold plan
  revert whole
  cases rootGroup catalog base flows with
  | error e =>
    cases (sites flows).mapM (Site.endpoint base) with
    | error e' => exact fun equal => equal
    | ok es => exact fun equal => by cases equal
  | ok root =>
    cases (sites flows).mapM (Site.endpoint base) with
    | error e' => exact fun equal => by cases equal
    | ok es =>
      intro equal
      have endpoints := Except.ok.inj equal
      have keys : root.keys = es.map Endpoint.key := by
        rw [Route.Group.keys, endpoints, Route.keys_map]
      show Route.Group.endpoints <$> (do Route.ensureUnique root.keys; return root)
        = List.map (Endpoint.map (Site.handler catalog)) <$>
            (do Route.ensureUnique (es.map Endpoint.key); return es)
      rw [keys]
      cases Route.ensureUnique (es.map Endpoint.key) with
      | error e => rfl
      | ok _ => exact congrArg Except.ok endpoints

end Flowgate.Flow
