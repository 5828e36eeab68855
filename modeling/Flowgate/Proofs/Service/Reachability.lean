import Flowgate.Proofs.Route.Filling
import Flowgate.Proofs.Service.Administration
import Flowgate.Proofs.Service.Deployment
import Mathlib.Data.List.TakeWhile

/-!
Reachability of deployed routes. The administrative paths come first, so a route that matches nothing
else is never reached; any other one is reached by its own path, with a number that occurs in no path
in place of its parameters.
-/

namespace Flowgate.Service

open Http (Request Response Uri)
open Package (Controller)
open Route (Endpoint Router)

/-! ### Requests for a route -/

-- The literals of the path may stand in a request target as they are.
def Raw (path : String) : Prop :=
  ∀ s ∈ Route.segments path, Route.param? s = none → ∀ c ∈ s.toList, Uri.isPathChar c = true

theorem raw_iff (path : String) :
    ((Route.segments path).all fun s =>
      (Route.param? s).isSome || s.toList.all Uri.isPathChar) ↔ Raw path := by
  simp only [Raw, List.all_eq_true, Bool.or_eq_true, Option.isSome_iff_ne_none, ne_eq,
    Decidable.or_iff_not_imp_left, not_not]

instance (path : String) : Decidable (Raw path) := decidable_of_iff _ (raw_iff path)

-- The request for the path of an endpoint with a value in place of its parameters.
def probe (value : String) (e : Endpoint κ) : Request where
  method := e.method
  uri := { path := Route.fill value e.path, query := none }
  contentType := none
  body := []

theorem isPathChar_of_isDigit {c : Char} (digit : c.isDigit = true) : Uri.isPathChar c = true := by
  have every : ∀ n < 58, 48 ≤ n → Uri.isPathChar (Char.ofNat n) = true := by decide
  have bounds : 48 ≤ c.toNat ∧ c.toNat ≤ 57 := by
    simpa [Char.isDigit, UInt32.le_iff_toNat_le] using digit
  rw [← Char.ofNat_toNat c]
  exact every c.toNat (by omega) bounds.1

theorem parse?_path {path : String} (head : path.toList.head? = some '/')
    (chars : ∀ c ∈ path.toList, Uri.isPathChar c = true)
    (short : path.utf8ByteSize ≤ Http.targetLimit) :
    Uri.parse? path = some { path, query := none } := by
  have whole : path.toList.takeWhile (· ≠ '#') = path.toList := by
    rw [List.takeWhile_eq_self_iff]
    intro c member
    have allowed := chars c member
    have barred : Uri.isPathChar '#' = false := by decide
    simp only [ne_eq, decide_not, Bool.not_eq_true', decide_eq_false_iff_not]
    rintro rfl
    simp [barred] at allowed
  have uncut : Text.cutFirst '?' path.toList = none := by
    cases cut : Text.cutFirst '?' path.toList with
    | none => rfl
    | some parts =>
      obtain ⟨before, after⟩ := parts
      have split := (Text.cutFirst_eq_some.mp cut).1
      have allowed := chars '?' (by simp [split])
      have barred : Uri.isPathChar '?' = false := by decide
      simp [barred] at allowed
  have full : path.toList ≠ [] := by
    intro empty
    simp [empty] at head
  have parsed : Uri.ofPath? path.toList = some { path, query := none } := by
    unfold Uri.ofPath?
    simp only [whole, uncut]
    simpa [full] using chars
  unfold Uri.parse?
  rw [if_neg (by omega)]
  cases read : path.toList with
  | nil => exact absurd read full
  | cons c rest =>
    rw [read] at head parsed
    cases head
    exact parsed

theorem isToken_of_known {method : String}
    (known : (Route.knownMethods.contains method || Route.servesAll method) = true) :
    Http.isToken method = true := by
  have every : ∀ m ∈ Route.knownMethods ++ ["ALL", "ANY"], Http.isToken m = true := by
    decide
  apply every
  simpa [Route.servesAll] using known

theorem head_fill (value path : String) : (Route.fill value path).toList.head? = some '/' :=
  Route.head_rooted _

-- What is sent arrives as the request for the route, unless its path is too long for a target.
theorem request_probe {e : Endpoint κ} {value : String}
    (known : (Route.knownMethods.contains e.method || Route.servesAll e.method) = true)
    (raw : Raw e.path) (allowed : ∀ c ∈ value.toList, Uri.isPathChar c = true)
    (short : (Route.fill value e.path).utf8ByteSize ≤ Http.targetLimit) :
    Request.of? e.method (Route.fill value e.path) [] [] = some (probe value e) := by
  have chars : ∀ c ∈ (Route.fill value e.path).toList, Uri.isPathChar c = true := by
    intro c member
    rcases Route.mem_fill member with rfl | inside | ⟨s, there, literal, inside⟩
    · decide
    · exact allowed c inside
    · exact raw s there literal c inside
  unfold Request.of?
  rw [isToken_of_known known, parse?_path (head_fill value e.path) chars short]
  rfl

/-! ### Routes -/

-- Some request path matches the path of the route and is not administrative.
def Open (path : String) : Prop := ∃ raw, Router.Admits path raw ∧ ¬Administrative raw

-- The segments of some endpoints' paths and of the administrative ones.
def takenSegments (es : List (Endpoint κ)) : List String :=
  (es.map (·.path) ++ adminRouter.slots.map (·.path)).flatMap Route.segments

theorem not_mem_of_fresh {es : List (Endpoint κ)} {value : String}
    (fresh : value ∉ takenSegments es) :
    (∀ e ∈ es, value ∉ Route.segments e.path) ∧
      ∀ slot ∈ adminRouter.slots, value ∉ Route.segments slot.path := by
  simp only [takenSegments, List.mem_flatMap, List.mem_append, List.mem_map, not_exists,
    not_and] at fresh
  exact ⟨fun e there => fresh _ (.inl ⟨e, there, rfl⟩),
    fun slot there => fresh _ (.inr ⟨slot, there, rfl⟩)⟩

-- An administrative path that fits an open one filled with a fresh value would fit all that it
-- does.
theorem not_administrative_fill {path value : String} (proper : Route.IsSegment value)
    (fresh : ∀ slot ∈ adminRouter.slots, value ∉ Route.segments slot.path) (free : Open path) :
    ¬Administrative (Route.fill value path) := by
  rintro ⟨slot, there, filled⟩
  obtain ⟨raw, admitted, other⟩ := free
  exact other ⟨slot, there, Router.admits_of_fill proper (fresh slot there) filled admitted⟩

namespace App

variable {a b : App} {r : Request} {flows : List Flow}

theorem called_probe {g : Route.Group Controller} (mounted : Router.ofGroup g = .ok b.live)
    {value : String} (proper : Route.IsSegment value) (fresh : value ∉ takenSegments g.endpoints)
    {e : Endpoint Controller} (there : e ∈ g.endpoints) (free : Open e.path) :
    (b.handle (probe value e)).1.called = some (e.handler, Router.inputsOf e (probe value e)) := by
  obtain ⟨own, foreign⟩ := not_mem_of_fresh fresh
  have other : ¬Administrative (probe value e).uri.path :=
    not_administrative_fill proper foreign free
  have served := (Router.built_of_ofGroup mounted).serve_fill (Route.canonical_endpoints g) proper
    own there Controller.call (r := probe value e) rfl rfl
  -- The request has no body that could be too large.
  simp only [handle_forward other, forward, served]
  rfl

-- Conversely, what is called is the handler of an open route.
theorem open_of_called {g : Route.Group Controller} (mounted : Router.ofGroup g = .ok b.live)
    {q : Request} {call : Controller × Json.Value} (called : (b.handle q).1.called = some call) :
    ∃ e ∈ g.endpoints, Open e.path ∧ call.1 = e.handler := by
  obtain ⟨other, -⟩ := of_called called
  have served : (b.live.serve Controller.call q).called = some call := by
    simpa only [handle_forward other, forward] using called
  obtain ⟨e, sent, rfl⟩ := Router.sends_of_called served
  obtain ⟨there, admitted⟩ :=
    (Router.built_of_ofGroup mounted).mem_of_sends (Route.canonical_endpoints g) sent
  exact ⟨e, there, ⟨q.uri.path, admitted, other⟩, rfl⟩

theorem status_of_readBody {codec : Json.Codec α} {response : Response}
    (failed : readBody codec r = .error response) : response.status ≠ 200 := by
  unfold readBody at failed
  split at failed
  · cases failed
    simp [refusal]
  · split at failed
    · cases failed
      simp [refusal]
    · split at failed <;> cases failed <;> simp [refusal]

theorem read_of_succeeded (asked : action? r = some .deploy) (done : (a.handle r).1.succeeded) :
    ∃ flows, readBody deployCodec r = .ok flows := by
  rw [handle_act_deploy asked] at done
  cases read : readBody deployCodec r with
  | ok flows => exact ⟨flows, rfl⟩
  | error response =>
    simp only [act, orRefuse, read, succeeded_of] at done
    exact absurd done (status_of_readBody read)

-- A deployment that succeeded serves the routes that it lists.
theorem mounted_of_succeeded (asked : action? r = some .deploy)
    (read : readBody deployCodec r = .ok flows) (done : (a.handle r).1.succeeded) :
    ∃ group, Flow.compile a.world.catalog a.setup.basePath flows = .ok group ∧
      Router.ofGroup group = .ok (a.handle r).2.live ∧
      (a.handle r).1 = .of (.json 200 (.object [("flows", .ofNat flows.length),
        ("routes", .strings (group.endpoints.map Endpoint.key))])) := by
  rw [handle_of_deploy asked read] at done ⊢
  generalize ended : a.deploy flows = result at done
  have ways := a.deployment flows
  rw [ended] at ways
  cases ways with
  | refused reply fails => exact absurd done fails
  | unsaved fault files failed =>
    rw [succeeded_of] at done
    simp [Response.error, Response.json] at done
  | done group router files compiled mounted saved => exact ⟨group, compiled, mounted, rfl⟩

-- Each listed route that may be requested as it is written and is not taken by the administrative
-- paths is reached. The number in place of its parameters is at most the count of all segments, so
-- the request is a short one unless the path itself is long.
theorem route_reached (asked : action? r = some .deploy) (done : (a.handle r).1.succeeded) :
    ∃ flows group, readBody deployCodec r = .ok flows ∧
      Flow.compile a.world.catalog a.setup.basePath flows = .ok group ∧
      (a.handle r).1 = .of (.json 200 (.object [("flows", .ofNat flows.length),
        ("routes", .strings (group.endpoints.map Endpoint.key))])) ∧
      ∀ e ∈ group.endpoints, Raw e.path → Open e.path →
        ∃ n ≤ (takenSegments group.endpoints).length,
          let q := probe n.repr e
          (q.uri.path.utf8ByteSize ≤ Http.targetLimit →
            Request.of? q.method q.uri.path [] [] = some q) ∧
          ((a.handle r).2.handle q).1.called = some (e.handler, Router.inputsOf e q) := by
  obtain ⟨flows, read⟩ := read_of_succeeded asked done
  obtain ⟨group, compiled, mounted, reply⟩ := mounted_of_succeeded asked read done
  refine ⟨flows, group, read, compiled, reply, fun e there raw free => ?_⟩
  obtain ⟨n, few, fresh⟩ := Route.exists_fresh (takenSegments group.endpoints)
  refine ⟨n, few, fun short => ?_, called_probe mounted (Route.isSegment_repr n) fresh there free⟩
  apply request_probe ((Router.built_of_ofGroup mounted).holds.known e there) raw _ short
  exact fun c member => isPathChar_of_isDigit (Route.isDigit_repr member)

-- One flow with one route, and the request that deploys it.
def routeFlow (route : String) : Flow :=
  { ping with nodes := [{ pingNode with data := .object [("route", .string route)] }] }

def deployRoute (route : String) : Request :=
  { deployPing with
    body := Text.encode
      ("\x7b\"flows\":[\x7b\"name\":\"web\",\"nodes\":[\x7b\"id\":\"n\",\"type\":\"Request\","
        ++ "\"data\":\x7b\"route\":\"" ++ route ++ "\"\x7d\x7d]\x7d]\x7d") }

def item : Flow := routeFlow "GET /items/:id"

def deployItem : Request := deployRoute "GET /items/:id"

set_option maxRecDepth 1000 in
theorem readBody_deployItem : readBody deployCodec deployItem = .ok [item] := by
  with_unfolding_all rfl

-- A route with a parameter is listed, and a request gets to it.
theorem route_reached_item :
    action? deployItem = some .deploy ∧
      (started.handle deployItem).1.succeeded ∧
      Raw "/flows/items/:id" ∧ Open "/flows/items/:id" ∧
      ∃ (e : Endpoint Controller) (n : Nat), e.path = "/flows/items/:id" ∧
        ((started.handle deployItem).2.handle (probe n.repr e)).1.called
          = some (e.handler, Router.inputsOf e (probe n.repr e)) := by
  have asked : action? deployItem = some .deploy := by decide +kernel
  have done : (started.handle deployItem).1.succeeded := by
    rw [handle_of_deploy asked readBody_deployItem]
    decide +kernel
  have raw : Raw "/flows/items/:id" := by decide +kernel
  have free : Open "/flows/items/:id" := by
    refine ⟨"/flows/items/0", ⟨["flows", "items", "0"], rfl, ?_⟩, ?_⟩
    · exact .literal (.literal (.param (.inl (by decide)) .nil))
    · exact Router.not_covers_iff.mpr rfl
  obtain ⟨flows, group, read, compiled, -, reached⟩ := route_reached asked done
  rw [readBody_deployItem] at read
  cases read
  have compiles : (Flow.compile started.world.catalog started.setup.basePath [item]).toOption.map
      (fun g => g.endpoints.map (·.path)) = some ["/flows/items/:id"] := by
    decide +kernel
  rw [compiled] at compiles
  have paths : group.endpoints.map (·.path) = ["/flows/items/:id"] := Option.some.inj compiles
  have listed : "/flows/items/:id" ∈ group.endpoints.map (·.path) := by
    rw [paths]
    exact List.mem_cons_self
  obtain ⟨e, there, path⟩ := List.mem_map.mp listed
  obtain ⟨n, -, -, called⟩ := reached e there (path ▸ raw) (path ▸ free)
  exact ⟨asked, done, raw, free, e, n, path, called⟩

/-! ### A route that is taken -/

-- Flow routes at the root, where they meet the administrative paths.
def startedAtRoot : App := { started with setup := { shelfSetup with basePath := "/" } }

def health : Flow := routeFlow "GET /healthz"

def deployHealth : Request := deployRoute "GET /healthz"

set_option maxRecDepth 1000 in
theorem readBody_deployHealth : readBody deployCodec deployHealth = .ok [health] := by
  with_unfolding_all rfl

theorem not_open_health : ¬Open "/healthz" := by
  rintro ⟨raw, admitted, other⟩
  have there : slot "/healthz" [("GET", .health)] ∈ adminRouter.slots := List.mem_cons_self
  exact other ⟨_, there, admitted⟩

-- The deployment succeeds and lists the route, and then no request gets to it or to any other.
theorem health_unreached :
    action? deployHealth = some .deploy ∧
      (startedAtRoot.handle deployHealth).1 = .of (.json 200 (.object [("flows", .ofNat 1),
        ("routes", .strings ["GET /healthz"])])) ∧
      Raw "/healthz" ∧
      ∀ q, ((startedAtRoot.handle deployHealth).2.handle q).1.called = none := by
  have asked : action? deployHealth = some .deploy := by decide +kernel
  have done : (startedAtRoot.handle deployHealth).1.succeeded := by
    rw [handle_of_deploy asked readBody_deployHealth]
    decide +kernel
  have raw : Raw "/healthz" := by decide +kernel
  obtain ⟨group, compiled, mounted, reply⟩ :=
    mounted_of_succeeded asked readBody_deployHealth done
  have routes : (Flow.compile startedAtRoot.world.catalog startedAtRoot.setup.basePath
      [health]).toOption.map (fun g => (g.endpoints.map Endpoint.key, g.endpoints.map (·.path)))
        = some (["GET /healthz"], ["/healthz"]) := by
    decide +kernel
  rw [compiled] at routes
  obtain ⟨keys, paths⟩ := Prod.mk.inj (Option.some.inj routes)
  rw [keys] at reply
  refine ⟨asked, reply, raw, fun q => ?_⟩
  cases called : ((startedAtRoot.handle deployHealth).2.handle q).1.called with
  | none => rfl
  | some call =>
    obtain ⟨e, there, free, -⟩ := open_of_called mounted called
    have path : e.path ∈ group.endpoints.map (·.path) := List.mem_map_of_mem there
    rw [paths, List.mem_singleton] at path
    rw [path] at free
    exact absurd free not_open_health

end App

end Flowgate.Service
