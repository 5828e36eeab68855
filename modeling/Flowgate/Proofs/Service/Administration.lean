import Flowgate.Proofs.Route.Search
import Flowgate.Proofs.Service.Live

/-!
The administrative requests do not depend on the live router: two states that differ in nothing else
answer them alike and differ in nothing else afterwards, whatever routes the flows of either claim.
-/

namespace Flowgate.Service

open Http (Request Response)
open Package (Registry)
open Route (Router)

-- A request for such a path is never passed on to the live router, whatever its method.
def Administrative (raw : String) : Prop := adminRouter.Covers raw

namespace App

variable {a b : App}

/-! ### States that differ in the live router -/

structure SameButLive (a b : App) : Prop where
  setup : a.setup = b.setup
  world : a.world = b.world

-- The same reply, and states that differ at most in the live router.
structure Alike (x y : Reply × App) : Prop where
  reply : x.1 = y.1
  state : SameButLive x.2 y.2

theorem SameButLive.files (same : SameButLive a b) : a.files = b.files :=
  congrArg (·.host.files) same.world

theorem SameButLive.withWorld (same : SameButLive a b) (w : Package.World) :
    SameButLive { a with world := w } { b with world := w } :=
  ⟨same.setup, rfl⟩

theorem alike_of (same : SameButLive a b) (reply : Reply) : Alike (reply, a) (reply, b) :=
  ⟨rfl, same⟩

-- The router that is mounted is made of what is stored, so it is the only thing to differ.
theorem refresh_alike (same : SameButLive a b) :
    a.refresh.1 = b.refresh.1 ∧ SameButLive a.refresh.2 b.refresh.2 := by
  unfold refresh
  rw [same.setup, same.files, same.world]
  cases b.setup.store.load b.files with
  | error fault => exact ⟨rfl, same⟩
  | ok flows =>
    simp only
    cases b.setup.build b.world flows with
    | ok pair => exact ⟨rfl, rfl, rfl⟩
    | error fault => cases fault <;> exact ⟨rfl, same⟩

theorem refreshed_alike (same : SameButLive a b) (response : Response) :
    Alike (a.refreshed response) (b.refreshed response) := by
  obtain ⟨refusal, state⟩ := refresh_alike same
  unfold refreshed
  cases first : a.refresh with
  | mk outcome next =>
    cases second : b.refresh with
    | mk outcome' next' =>
      simp only [first, second] at refusal state
      subst refusal
      cases outcome with
      | none => exact alike_of state _
      | some refusal => exact alike_of state _

theorem change_alike (same : SameButLive a b) (t : Package.Job Package.World (Registry.Outcome α))
    (ok : α → Json.Value) : Alike (a.change t ok) (b.change t ok) := by
  unfold change perform
  rw [same.world]
  cases (t.run b.world).1 with
  | ok found => exact refreshed_alike (same.withWorld _) _
  | error e => exact alike_of (same.withWorld _) _

theorem ask_alike (same : SameButLive a b) (t : Package.Job Package.World (Registry.Outcome α))
    (ok : α → Json.Value) : Alike (a.ask t ok) (b.ask t ok) := by
  unfold ask perform
  rw [same.world]
  cases (t.run b.world).1 with
  | ok found => exact alike_of (same.withWorld _) _
  | error e => exact alike_of (same.withWorld _) _

theorem installArchives_alike (same : SameButLive a b) (paths : List String) :
    Alike (a.installArchives paths) (b.installArchives paths) := by
  obtain ⟨setup, world, live⟩ := a
  obtain ⟨setup', world', live'⟩ := b
  obtain ⟨rfl, rfl⟩ := same
  unfold installArchives perform
  simp only
  split
  · exact ⟨rfl, rfl, rfl⟩
  · apply refreshed_alike
    exact ⟨rfl, rfl⟩

theorem deploy_alike (same : SameButLive a b) (flows : List Flow) :
    Alike (a.deploy flows) (b.deploy flows) := by
  obtain ⟨setup, world, live⟩ := a
  obtain ⟨setup', world', live'⟩ := b
  obtain ⟨rfl, rfl⟩ := same
  unfold deploy files
  cases setup.build world flows with
  | error fault => cases fault <;> exact ⟨rfl, rfl, rfl⟩
  | ok pair =>
    simp only
    cases (setup.store.save world.host.files flows).1 <;> exact ⟨rfl, rfl, rfl⟩

theorem orRefuse_alike (same : SameButLive a b) (read : Except Response β)
    {next next' : β → Reply × App} (alike : ∀ body, Alike (next body) (next' body)) :
    Alike (a.orRefuse read next) (b.orRefuse read next') := by
  unfold orRefuse
  cases read with
  | error response => exact alike_of same _
  | ok body => exact alike body

theorem act_alike (same : SameButLive a b) (action : Action) (r : Request) :
    Alike (a.act action r) (b.act action r) := by
  unfold act
  rw [same.setup]
  cases action with
  | health => exact alike_of same _
  | listModules =>
    rw [same.world]
    exact alike_of same _
  | install => exact orRefuse_alike same _ fun body => change_alike same _ _
  | installArchives => exact orRefuse_alike same _ fun paths => installArchives_alike same paths
  | search => exact orRefuse_alike same _ fun q => ask_alike same _ _
  | count => exact ask_alike same _ _
  | changeVersion =>
    exact orRefuse_alike same _ fun name => orRefuse_alike same _ fun version =>
      change_alike same _ _
  | remove => exact orRefuse_alike same _ fun name => change_alike same _ _
  | describe =>
    refine orRefuse_alike same _ fun name => ?_
    rw [same.world]
    cases Registry.describe b.world name with
    | ok schema => exact alike_of same _
    | error e => exact alike_of same _
  | listFlows =>
    rw [same.files]
    cases b.setup.store.load b.files with
    | ok flows => exact alike_of same _
    | error fault => exact alike_of same _
  | deploy => exact orRefuse_alike same _ fun flows => deploy_alike same flows

/-! ### No handler is called -/

theorem called_refreshed (a : App) (response : Response) :
    (a.refreshed response).1.called = none := by
  unfold refreshed
  split <;> rfl

theorem called_change (a : App) (t : Package.Job Package.World (Registry.Outcome α))
    (ok : α → Json.Value) : (a.change t ok).1.called = none := by
  unfold change
  split
  · exact called_refreshed _ _
  · rfl

theorem called_ask (a : App) (t : Package.Job Package.World (Registry.Outcome α))
    (ok : α → Json.Value) : (a.ask t ok).1.called = none := by
  unfold ask
  split <;> rfl

theorem called_installArchives (a : App) (paths : List String) :
    (a.installArchives paths).1.called = none := by
  unfold installArchives
  simp only
  split
  · rfl
  · exact called_refreshed _ _

theorem called_deploy (a : App) (flows : List Flow) : (a.deploy flows).1.called = none := by
  unfold deploy
  split
  · rfl
  · rfl
  · simp only
    split <;> rfl

theorem called_orRefuse (a : App) (read : Except Response β) {next : β → Reply × App}
    (uncalled : ∀ body, (next body).1.called = none) : (a.orRefuse read next).1.called = none := by
  unfold orRefuse
  cases read with
  | error response => rfl
  | ok body => exact uncalled body

theorem called_act (a : App) (action : Action) (r : Request) :
    (a.act action r).1.called = none := by
  cases action with
  | health => rfl
  | listModules => rfl
  | install => exact a.called_orRefuse _ fun body => a.called_change _ _
  | installArchives => exact a.called_orRefuse _ a.called_installArchives
  | search => exact a.called_orRefuse _ fun q => a.called_ask _ _
  | count => exact a.called_ask _ _
  | changeVersion =>
    exact a.called_orRefuse _ fun name => a.called_orRefuse _ fun version => a.called_change _ _
  | remove => exact a.called_orRefuse _ fun name => a.called_change _ _
  | describe =>
    refine a.called_orRefuse _ fun name => ?_
    cases Registry.describe a.world name <;> rfl
  | listFlows =>
    unfold act
    cases a.setup.store.load a.files <;> rfl
  | deploy => exact a.called_orRefuse _ a.called_deploy

theorem called_forMethod (method : String) (reply : Reply) :
    (Reply.forMethod method reply).called = reply.called := by
  unfold Reply.forMethod
  split <;> rfl

theorem handle_forward {r : Request} (other : ¬Administrative r.uri.path) :
    a.handle r = (a.forward r, a) := by
  unfold handle
  rw [Router.not_covers_iff.mp other]

-- A handler is called for a path of the live router only, and for none that is administrative.
theorem of_called {r : Request} {call : Package.Controller × Json.Value}
    (called : (a.handle r).1.called = some call) :
    ¬Administrative r.uri.path ∧ a.live.Covers r.uri.path := by
  by_cases administrative : Administrative r.uri.path
  · obtain ⟨slot, found⟩ := Router.covers_iff.mp administrative
    unfold handle at called
    simp only [found] at called
    split at called
    · simp [Reply.of] at called
    · simp [called_forMethod, called_act] at called
  · refine ⟨administrative, ?_⟩
    rw [handle_forward administrative, forward, Router.serve] at called
    by_contra uncovered
    simp [Router.not_covers_iff.mp uncovered] at called

/-! ### Requests -/

theorem handle_alike (same : SameButLive a b) {r : Request}
    (administrative : Administrative r.uri.path) : Alike (a.handle r) (b.handle r) := by
  obtain ⟨slot, found⟩ := Router.covers_iff.mp administrative
  unfold handle
  simp only [found]
  cases slot.endpoint? r.method with
  | none => exact alike_of same _
  | some e =>
    obtain ⟨reply, state⟩ := act_alike same e.handler r
    simp only [reply]
    exact alike_of state _

-- The state after some requests, of any kind.
def after (a : App) (requests : List Request) : App :=
  requests.foldl (fun a r => (a.handle r).2) a

theorem after_sameButLive (same : SameButLive a b) (requests : List Request) :
    SameButLive (a.after requests) (b.after requests) := by
  induction requests generalizing a b with
  | nil => exact same
  | cons r requests ih =>
    apply ih
    by_cases administrative : Administrative r.uri.path
    · exact (handle_alike same administrative).state
    · -- What is passed on to the live router leaves the state as it is.
      simpa only [handle_forward administrative] using same

-- In particular with no requests before: then the two states themselves answer it alike.
theorem administration_alike (same : SameButLive a b) (requests : List Request) {r : Request}
    (administrative : Administrative r.uri.path) :
    ((a.after requests).handle r).1 = ((b.after requests).handle r).1 ∧
      SameButLive ((a.after requests).handle r).2 ((b.after requests).handle r).2 := by
  have alike := handle_alike (after_sameButLive same requests) administrative
  exact ⟨alike.reply, alike.state⟩

-- A live router that claims the path of the deployments, for every method.
def claimant : Router Package.Controller where
  slots :=
    [{ path := "/api/flows", methods := []
       others := some { method := "ANY", path := "/api/flows", handler := .noop } }]

-- The first deployment is answered in the same way although the live router has a route for it.
theorem administration_alike_deploy :
    SameButLive started { started with live := claimant } ∧
      Administrative deployPing.uri.path ∧ claimant.Covers deployPing.uri.path ∧
      (started.handle deployPing).1 = (({ started with live := claimant } : App).handle deployPing).1 ∧
      SameButLive (started.handle deployPing).2
        (({ started with live := claimant } : App).handle deployPing).2 := by
  have same : SameButLive started { started with live := claimant } := ⟨rfl, rfl⟩
  have administrative : Administrative deployPing.uri.path := Router.covers_iff.mpr ⟨_, rfl⟩
  have claimed : claimant.Covers deployPing.uri.path := Router.covers_iff.mpr ⟨_, rfl⟩
  exact ⟨same, administrative, claimed, administration_alike same [] administrative⟩

end App

end Flowgate.Service
