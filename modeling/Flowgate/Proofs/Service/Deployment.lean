import Flowgate.Proofs.Route.Search
import Flowgate.Proofs.Service.Live

/-!
Deployments: one that is answered with success has stored its flows and serves them, and any other
outcome leaves both the stored flows and every route as they were.
-/

namespace Flowgate.Service

open Flowgate.Flow (Store StoreFault)
open Http (Request Response)
open Package (Controller)
open Route (Router)

def Reply.succeeded (reply : Reply) : Bool :=
  match reply.outcome with
  | .answered response => response.status = 200
  | .aborted _ => false

theorem succeeded_of {response : Response} :
    (Reply.of response).succeeded ↔ response.status = 200 := by
  simp [Reply.succeeded, Reply.of]

theorem status_routeError (e : Route.Error) : (routeError e).status ≠ 200 := by
  cases e <;> simp [routeError, Response.json, Response.error]

/-! ### The administrative requests -/

theorem method_of_deploy {r : Request} (asked : action? r = some .deploy) : r.method ≠ "HEAD" := by
  unfold action? at asked
  intro head
  obtain ⟨slot, found, asked⟩ := Option.bind_eq_some_iff.mp asked
  have none : ∀ slot ∈ adminRouter.slots,
      (slot.endpoint? "HEAD").map (·.handler) ≠ some .deploy := by decide +kernel
  rw [head] at asked
  exact none slot (Router.admits_of_slot? found).1 asked

theorem Reply.forMethod_of_ne {method : String} (other : method ≠ "HEAD") (reply : Reply) :
    App.Reply.forMethod method reply = reply := by
  cases reply with
  | mk outcome called =>
    cases outcome with
    | answered response => simp [App.Reply.forMethod, Response.forMethod, other]
    | aborted refusal => rfl

namespace App

variable {a b : App} {r : Request} {flows : List Flow}

theorem handle_act_deploy (asked : action? r = some .deploy) : a.handle r = a.act .deploy r := by
  have method := method_of_deploy asked
  unfold action? at asked
  unfold handle
  cases found : adminRouter.slot? r.uri.path with
  | none => simp [found] at asked
  | some slot =>
    simp only [found, Option.bind_some] at asked
    cases endpoint : slot.endpoint? r.method with
    | none => simp [endpoint] at asked
    | some e =>
      have handler : e.handler = .deploy := by simpa [endpoint] using asked
      simp only [endpoint, handler, Reply.forMethod_of_ne method]

theorem handle_of_deploy (asked : action? r = some .deploy)
    (read : readBody deployCodec r = .ok flows) : a.handle r = a.deploy flows := by
  rw [handle_act_deploy asked]
  simp only [act, orRefuse, read]

def withFiles (a : App) (files : File.Tree) : App :=
  { a with world := { a.world with host := { a.world.host with files } } }

-- The ways a deployment can end.
inductive Deployment (a : App) (flows : List Flow) : Reply × App → Prop
  | refused (reply : Reply) (fails : ¬reply.succeeded) : Deployment a flows (reply, a)
  | unsaved (fault : StoreFault) (files : File.Tree)
      (failed : a.setup.store.save a.files flows = (.error fault, files)) :
      Deployment a flows (.of (.error 500 fault.message), a.withFiles files)
  | done (group : Route.Group Controller) (router : Router Controller) (files : File.Tree)
      (compiled : Flow.compile a.world.catalog a.setup.basePath flows = .ok group)
      (mounted : Router.ofGroup group = .ok router)
      (saved : a.setup.store.save a.files flows = (.ok (), files)) :
      Deployment a flows
        (.of (.json 200
          (.object [("flows", .ofNat flows.length), ("routes", .strings group.keys)])),
          { a.withFiles files with live := router })

theorem build_ok {s : Setup} {w : Package.World} {router : Router Controller} {keys : List String}
    (built : s.build w flows = .ok (router, keys)) :
    ∃ group, Flow.compile w.catalog s.basePath flows = .ok group ∧
      Router.ofGroup group = .ok router ∧ keys = group.keys := by
  unfold Setup.build at built
  cases compiled : Flow.compile w.catalog s.basePath flows with
  | error e => simp [compiled, mapError_error, bind, Except.bind] at built
  | ok group =>
    simp only [compiled, mapError_ok, bind, Except.bind] at built
    cases mounted : Router.ofGroup group with
    | error fault => simp [mounted] at built
    | ok router' =>
      simp only [mounted, pure, Except.pure, Except.ok.injEq, Prod.mk.injEq] at built
      obtain ⟨rfl, rfl⟩ := built
      exact ⟨group, rfl, mounted, rfl⟩

theorem deployment (a : App) (flows : List Flow) : Deployment a flows (a.deploy flows) := by
  unfold deploy
  split
  · apply Deployment.refused
    rw [succeeded_of]
    exact status_routeError _
  · exact .refused _ (by simp [Reply.succeeded])
  · rename_i router keys built
    obtain ⟨group, compiled, mounted, rfl⟩ := build_ok built
    cases saved : a.setup.store.save a.files flows with
    | mk outcome files =>
      cases outcome with
      | error fault => exact .unsaved fault files saved
      | ok done => exact .done group router files compiled mounted saved

end App

end Flowgate.Service
