import Flowgate.Proofs.Flow.Sites
import Flowgate.Proofs.Route.Keys

/-!
What a compilation gives, site by site: the fault of the first site that has one, or else a conflict
if two keys are equal, or else one endpoint for each site, which calls the site's own controller.
-/

namespace Flowgate.Flow

open Json (Value)
open Package (Catalog Controller)
open Route (Endpoint Target)

-- The stack of a site's module in the site's own flow. A site without a module, or whose module
-- has none, sees two empty lists.
def Site.stack (site : Site) : Stack :=
  match site.2.moduleId with
  | none => .empty
  | some id => (site.1.moduleStacks.get? id).getD .empty

-- What the controller of a site gets for a request: these four fields and no others.
def Site.inputs (site : Site) (request : Value) : Value :=
  .object
    [("configurations", site.stack.toJson), ("flow", .string site.1.name),
     ("node", .string site.2.id), ("request", request)]

def Site.controller (catalog : Catalog) (site : Site) : Controller :=
  catalog.resolve site.2.controllerRef?

-- An endpoint that serves a site: a call of it is one call of the site's controller, with the same
-- script runs and the same result.
structure Serves (catalog : Catalog) (base : String) (site : Site) (e : Endpoint Controller) :
    Prop where
  target : ∃ t, site.target = .ok t ∧ e.method = t.method ∧ e.path = Route.join base t.path
  calls : ∀ request, e.handler.calls request
    = (site.controller catalog).calls (site.inputs request)
  result : ∀ request, e.handler.call request
    = (site.controller catalog).call (site.inputs request)

def Site.key (base : String) (target : Target) : String :=
  Route.key target.method (Route.join base target.path)

theorem boundInputs_context (site : Site) (request : Value) :
    Controller.boundInputs (context site.1 site.2) request = site.inputs request := by
  have stack : (site.2.moduleId.bind site.1.moduleStacks.get?).getD .empty = site.stack := by
    unfold Site.stack
    cases site.2.moduleId <;> rfl
  have unordered : ¬"node" < "flow" := by decide
  unfold Controller.boundInputs context Site.inputs
  rw [stack]
  simp only [Entries.ofList, Entries.insert, List.foldl]
  rw [if_neg unordered]
  rfl

theorem serves_endpoint (catalog : Catalog) (base : String) {site : Site} {e : Endpoint Site}
    (made : site.endpoint base = .ok e) :
    Serves catalog base site (e.map (Site.handler catalog)) := by
  unfold Site.endpoint at made
  cases found : site.target with
  | error fault => rw [found] at made; cases made
  | ok target =>
    rw [found] at made
    cases made
    refine ⟨⟨target, found, rfl, rfl⟩, ?_, ?_⟩
    · intro request
      show (site.controller catalog).calls (Controller.boundInputs _ request) = _
      rw [boundInputs_context]
    · intro request
      show (site.controller catalog).call (Controller.boundInputs _ request) = _
      rw [boundInputs_context]

theorem endpoint_of_target (base : String) {site : Site} {target : Target}
    (found : site.target = .ok target) : ∃ e, site.endpoint base = .ok e ∧
      e.key = Site.key base target := by
  unfold Site.endpoint
  rw [found]
  exact ⟨_, rfl, rfl⟩

theorem endpoint_of_fault (base : String) {site : Site} {fault : Route.Error}
    (failed : site.target = .error fault) : site.endpoint base = .error fault := by
  unfold Site.endpoint
  rw [failed]
  rfl

theorem compile_of_plan_error (catalog : Catalog) {base : String} {flows : List Flow}
    {fault : Route.Error} (failed : plan base flows = .error fault) :
    compile catalog base flows = .error fault := by
  have endpoints := endpoints_compile catalog base flows
  rw [failed] at endpoints
  cases compiled : compile catalog base flows with
  | error e => rw [compiled] at endpoints; cases endpoints; rfl
  | ok g => rw [compiled] at endpoints; cases endpoints

theorem compile_of_plan (catalog : Catalog) {base : String} {flows : List Flow}
    {es : List (Endpoint Site)} (planned : plan base flows = .ok es) :
    ∃ g, compile catalog base flows = .ok g ∧
      g.endpoints = es.map (Endpoint.map (Site.handler catalog)) := by
  have endpoints := endpoints_compile catalog base flows
  rw [planned] at endpoints
  cases compiled : compile catalog base flows with
  | error e => rw [compiled] at endpoints; cases endpoints
  | ok g => rw [compiled] at endpoints; exact ⟨g, rfl, Except.ok.inj endpoints⟩

theorem endpoints_of_targets (base : String) {all : List Site} {targets : List Target}
    (found : List.Forall₂ (fun site target => site.target = .ok target) all targets) :
    ∃ es, all.mapM (Site.endpoint base) = .ok es ∧
      es.map Endpoint.key = targets.map (Site.key base) := by
  induction found with
  | nil => exact ⟨[], rfl, rfl⟩
  | cons here _ ih =>
    obtain ⟨e, made, key⟩ := endpoint_of_target base here
    obtain ⟨es, rest, keys⟩ := ih
    refine ⟨e :: es, ?_, ?_⟩
    · rw [List.mapM_cons, made, rest]
      rfl
    · rw [List.map_cons, List.map_cons, key, keys]

theorem plan_of_endpoints {base : String} {flows : List Flow} {es : List (Endpoint Site)}
    (made : (sites flows).mapM (Site.endpoint base) = .ok es) :
    plan base flows = (do Route.ensureUnique (es.map Endpoint.key); return es) := by
  unfold plan
  rw [made]
  rfl

-- Every list of sites either has a first site that fails or has a target for each site, so these
-- cases are all there are.
theorem compile_sites (catalog : Catalog) (base : String) (flows : List Flow) :
    (∀ before site after fault, sites flows = before ++ site :: after →
      (∀ earlier ∈ before, ∃ target, earlier.target = .ok target) →
      site.target = .error fault → compile catalog base flows = .error fault) ∧
    ∀ targets, List.Forall₂ (fun site target => site.target = .ok target) (sites flows) targets →
      (¬(targets.map (Site.key base)).Nodup → compile catalog base flows
        = .error (.conflict (Route.duplicates (targets.map (Site.key base))))) ∧
      ((targets.map (Site.key base)).Nodup → ∃ g, compile catalog base flows = .ok g ∧
        List.Forall₂ (Serves catalog base) (sites flows) g.endpoints) := by
  refine ⟨?_, ?_⟩
  · intro before site after fault split passed failed
    apply compile_of_plan_error
    unfold plan
    rw [split, mapM_error_of_first (Site.endpoint base) _ (endpoint_of_fault base failed)]
    · rfl
    · intro earlier member
      obtain ⟨target, found⟩ := passed earlier member
      obtain ⟨e, made, _⟩ := endpoint_of_target base found
      exact ⟨e, made⟩
  · intro targets found
    obtain ⟨es, made, keys⟩ := endpoints_of_targets base found
    have planned := plan_of_endpoints made
    rw [keys] at planned
    refine ⟨?_, ?_⟩
    · intro twice
      apply compile_of_plan_error
      rw [planned, Route.ensureUnique_of_not_nodup twice]
      rfl
    · intro unique
      rw [Route.ensureUnique_of_nodup unique] at planned
      obtain ⟨g, compiled, endpoints⟩ := compile_of_plan catalog planned
      refine ⟨g, compiled, ?_⟩
      rw [endpoints, List.forall₂_map_right_iff]
      exact ((mapM_ok_iff _ _ _).mp made).imp fun _ _ one => serves_endpoint catalog base one

def compactNode (id spec : String) : Node :=
  { id, kind := .request, moduleId := none, disabled := false, data := .string spec }

def flowOf (name : String) (nodes : List Node) : Flow :=
  { name, nodes, connections := [], configurations := [] }

-- The two routes of the first flow are duplicates. They are reported when no later spec is at fault.
theorem compile_sites_twice :
    compile .empty "/api"
        [flowOf "shop" [compactNode "a" "get /items", compactNode "b" "GET items/"],
         flowOf "admin" [compactNode "c" "status"]]
      = .error (.compilation "status" "expected \"METHOD /path\"") ∧
    compile .empty "/api" [flowOf "shop" [compactNode "a" "get /items", compactNode "b" "GET items/"]]
      = .error (.conflict [("GET /api/items", 2)]) ∧
    ∃ g, compile .empty "/api" [flowOf "shop" [compactNode "a" "get /items"]] = .ok g ∧
      List.Forall₂ (Serves .empty "/api") [(flowOf "shop" [compactNode "a" "get /items"],
        compactNode "a" "get /items")] g.endpoints := by
  refine ⟨?_, ?_, ?_⟩
  · refine (compile_sites .empty "/api" _).1 [_, _] (_, compactNode "c" "status") [] _ rfl ?_ ?_
    · intro site member
      rcases List.mem_cons.mp member with rfl | member
      · exact ⟨⟨"GET", "/items"⟩, by decide +kernel⟩
      · obtain rfl := List.mem_singleton.mp member
        exact ⟨⟨"GET", "/items"⟩, by decide +kernel⟩
    · decide +kernel
  · refine ((compile_sites .empty "/api" _).2 [⟨"GET", "/items"⟩, ⟨"GET", "/items"⟩] ?_).1 ?_
    · exact .cons (by decide +kernel) (.cons (by decide +kernel) .nil)
    · decide +kernel
  · refine ((compile_sites .empty "/api" _).2 [⟨"GET", "/items"⟩] ?_).2 ?_
    · exact .cons (by decide +kernel) .nil
    · decide +kernel

end Flowgate.Flow
