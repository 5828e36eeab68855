import Flowgate.Proofs.Flow.Compilation
import Flowgate.Proofs.Package.Lookup

/-!
Isolation of packages in a compilation: with catalogs that differ in one package only, some flows
give the same error, or the same routes in the same order, and the calls of those that do not refer
to the package are the same.
-/

namespace Flowgate.Flow

open Package (Catalog Controller Identity Schema)
open Route (Endpoint)

-- The package that the controller of a site is looked up in: what its reference has before its
-- last dot.
def Site.package? (site : Site) : Option String :=
  (site.2.controllerRef?.bind (Text.splitLast '.')).map Prod.fst

-- Two endpoints for one site: the same method and path, and the same calls unless the site refers
-- to the package.
structure Isolated (p : String) (site : Site) (pair : Endpoint Controller × Endpoint Controller) :
    Prop where
  method : pair.1.method = pair.2.method
  path : pair.1.path = pair.2.path
  calls : site.package? ≠ some p →
    ∀ request, pair.1.handler.calls request = pair.2.handler.calls request
  result : site.package? ≠ some p →
    ∀ request, pair.1.handler.call request = pair.2.handler.call request

section

variable {names : String → Prop} {c d : Catalog} {p : String} {base : String} {flows : List Flow}

theorem resolve_of_agree (distinct : Identity.Distinct names) (left : c.Recorded names)
    (right : d.Recorded names) (agree : Catalog.AgreeExcept p c d) {site : Site}
    (known : ∀ name, site.package? = some name → names name) (other : site.package? ≠ some p) :
    c.resolve site.2.controllerRef? = d.resolve site.2.controllerRef? := by
  unfold Site.package? at known other
  unfold Catalog.resolve
  cases parts : site.2.controllerRef?.bind (Text.splitLast '.') with
  | none => rfl
  | some pair =>
    obtain ⟨name, node⟩ := pair
    simp only [parts, Option.map_some, ne_eq, Option.some.injEq, forall_eq'] at known other
    exact Catalog.controller_of_agree distinct left right agree known other node

theorem isolated_endpoint (distinct : Identity.Distinct names) (left : c.Recorded names)
    (right : d.Recorded names) (agree : Catalog.AgreeExcept p c d) {site : Site}
    {e : Endpoint Site} (made : site.endpoint base = .ok e)
    (known : ∀ name, site.package? = some name → names name) :
    Isolated p site (e.map (Site.handler c), e.map (Site.handler d)) := by
  have first := serves_endpoint c base made
  have second := serves_endpoint d base made
  have controllers (other : site.package? ≠ some p) : site.controller c = site.controller d :=
    resolve_of_agree distinct left right agree known other
  refine ⟨rfl, rfl, ?_, ?_⟩
  · intro other request
    rw [first.calls, second.calls, controllers other]
  · intro other request
    rw [first.result, second.result, controllers other]

theorem endpoints_of_plan {es : List (Endpoint Site)} (planned : plan base flows = .ok es) :
    (sites flows).mapM (Site.endpoint base) = .ok es := by
  cases made : (sites flows).mapM (Site.endpoint base) with
  | error fault => simp [plan, made, bind, Except.bind] at planned
  | ok es' =>
    rw [plan_of_endpoints made] at planned
    cases unique : Route.ensureUnique (es'.map Endpoint.key) with
    | error fault => simp [unique, bind, Except.bind] at planned
    | ok done => simpa [unique, bind, Except.bind, pure, Except.pure] using planned

-- Every name that has a say is among the names: those of the packages in the catalogs, and those
-- the sites refer to.
theorem compile_isolated (distinct : Identity.Distinct names) (left : c.Recorded names)
    (right : d.Recorded names) (agree : Catalog.AgreeExcept p c d)
    (known : ∀ site ∈ sites flows, ∀ name, site.package? = some name → names name) :
    (∃ fault, compile c base flows = .error fault ∧ compile d base flows = .error fault) ∨
    ∃ g h, compile c base flows = .ok g ∧ compile d base flows = .ok h ∧ g.keys = h.keys ∧
      List.Forall₂ (Isolated p) (sites flows) (g.endpoints.zip h.endpoints) := by
  cases planned : plan base flows with
  | error fault =>
    exact .inl ⟨fault, compile_of_plan_error c planned, compile_of_plan_error d planned⟩
  | ok es =>
    obtain ⟨g, compiled, endpoints⟩ := compile_of_plan c planned
    obtain ⟨h, compiled', endpoints'⟩ := compile_of_plan d planned
    refine .inr ⟨g, h, compiled, compiled', ?_, ?_⟩
    · simp only [Route.Group.keys, endpoints, endpoints', Route.keys_map]
    · have made := (mapM_ok_iff _ _ _).mp (endpoints_of_plan planned)
      have both := (List.forall₂_and_left ..).mpr ⟨known, made⟩
      rw [endpoints, endpoints', List.zip_map', List.forall₂_map_right_iff]
      exact both.imp fun _ _ one => isolated_endpoint distinct left right agree one.2 one.1

end

def nodePackage (name node source : String) : Schema where
  id := .module name
  name := name
  version := "1.0.0"
  description := none
  author := none
  isLocal := false
  nodes := []
  loaded := some { package := name, nodeNames := [node], scripts := [(node, source)] }

def controlledNode (id route reference : String) : Node :=
  { id, kind := .request, moduleId := none, disabled := false
    data := .object [("controller", .string reference), ("route", .string route)] }

-- One package is installed besides another: the node that refers to the other one is left alone.
theorem compile_isolated_installed :
    let before := Catalog.empty.insert (nodePackage "web" "ping" "return 1")
    let after := before.insert (nodePackage "shop" "pay" "return 2")
    let flows := [flowOf "sales" [controlledNode "a" "POST /pay" "shop.pay",
      controlledNode "b" "GET /ping" "web.ping"]]
    Identity.Distinct (· ∈ ["shop", "web"]) ∧ before.Recorded (· ∈ ["shop", "web"]) ∧
      after.Recorded (· ∈ ["shop", "web"]) ∧ Catalog.AgreeExcept "shop" before after ∧
      (sites flows).map Site.package? = [some "shop", some "web"] ∧
      ∃ g h, compile before "/" flows = .ok g ∧ compile after "/" flows = .ok h ∧ g.keys = h.keys ∧
        List.Forall₂ (Isolated "shop") (sites flows) (g.endpoints.zip h.endpoints) := by
  intro before after flows
  have distinct : Identity.Distinct (· ∈ ["shop", "web"]) := by
    have apart : Identity.module "shop" ≠ Identity.module "web" := by decide +kernel
    intro a b known known' same
    simp only [List.mem_cons, List.not_mem_nil, or_false] at known known'
    rcases known with rfl | rfl <;> rcases known' with rfl | rfl
    · rfl
    · exact absurd same apart
    · exact absurd same.symm apart
    · rfl
  have left : before.Recorded (· ∈ ["shop", "web"]) := .insert .empty rfl (by decide)
  have right : after.Recorded (· ∈ ["shop", "web"]) := .insert left rfl (by decide)
  have agree := before.agreeExcept_insert (nodePackage "shop" "pay" "return 2")
  have packages : (sites flows).map Site.package? = [some "shop", some "web"] := by decide +kernel
  have known : ∀ site ∈ sites flows, ∀ name, site.package? = some name →
      name ∈ ["shop", "web"] := by
    intro site member name found
    have listed : site.package? ∈ (sites flows).map Site.package? := List.mem_map_of_mem member
    simpa [packages, found] using listed
  refine ⟨distinct, left, right, agree, packages, ?_⟩
  rcases compile_isolated distinct left right agree known with ⟨fault, failed, -⟩ | done
  · have works : (compile before "/" flows).isOk = true := by decide +kernel
    rw [failed] at works
    cases works
  · exact done

end Flowgate.Flow
