import Flowgate.Route.Spec

/-!
Route groups: routes and groups mounted under a prefix, in the order in which they were added. A
group flattens to endpoints with full paths, every route of the tree exactly once and in that order.
-/

namespace Flowgate.Route

structure Origin where
  flow : Option String
  node : Option String
deriving DecidableEq

inductive Entry (κ : Type) where
  | route (method path : String) (handler : κ) (origin : Option Origin)
  | group (path : String) (entries : List (Entry κ))

abbrev Group (κ : Type) := List (Entry κ)

-- A method and a full path with the handler that serves them.
structure Endpoint (κ : Type) where
  method : String
  path : String
  handler : κ

def Endpoint.key (e : Endpoint κ) : String := Route.key e.method e.path

namespace Group

def empty : Group κ := []

-- Adds a route at the end. Methods are upper-cased.
def on (g : Group κ) (method path : String) (handler : κ) (origin : Option Origin) : Group κ :=
  g ++ [.route (Text.asciiUpper method) path handler origin]

-- Adds a group at the end, to be served below `path`.
def mount (g : Group κ) (path : String) (inner : Group κ) : Group κ := g ++ [.group path inner]

end Group

mutual

def Entry.endpointsBelow (base : String) : Entry κ → List (Endpoint κ)
  | .route method path handler _ => [{ method, path := join base path, handler }]
  | .group path entries => endpointsBelow (join base path) entries

def endpointsBelow (base : String) : List (Entry κ) → List (Endpoint κ)
  | [] => []
  | entry :: rest => entry.endpointsBelow base ++ endpointsBelow base rest

end

def Group.endpoints (g : Group κ) : List (Endpoint κ) := endpointsBelow "/" g

def Group.keys (g : Group κ) : List String := g.endpoints.map Endpoint.key

theorem endpointsBelow_append (base : String) (es fs : List (Entry κ)) :
    endpointsBelow base (es ++ fs) = endpointsBelow base es ++ endpointsBelow base fs := by
  induction es with
  | nil => simp [endpointsBelow]
  | cons e es ih => simp [endpointsBelow, ih]

theorem Group.endpoints_mount (g inner : Group κ) (path : String) :
    (g.mount path inner).endpoints = g.endpoints ++ endpointsBelow (join "/" path) inner := by
  simp [Group.endpoints, Group.mount, endpointsBelow_append, endpointsBelow, Entry.endpointsBelow]

end Flowgate.Route
