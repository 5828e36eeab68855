import Flowgate.Proofs.Flow.Sites
import Flowgate.Proofs.Flow.Stacks

/-!
What a compilation does not look at: disabled nodes, nodes that are neither requests nor
configurations, connections, and configurations that were saved for none of the other nodes. Flows
without all of these compile to the same.
-/

namespace Flowgate.Flow

open Package (Catalog)

-- An enabled node of one of the two kinds that compilation knows.
def Node.isRelevant (n : Node) : Bool :=
  !n.disabled && (n.kind = .request || n.kind = .configuration)

-- The flow without what compilation does not look at.
def pruned (f : Flow) : Flow :=
  let nodes := f.nodes.filter Node.isRelevant
  { f with
    nodes, connections := []
    configurations := f.configurations.filter fun c => nodes.any (·.id = c.nodeId) }

theorem Node.isRelevant_of_isRoute {n : Node} (route : n.isRoute = true) : n.isRelevant = true := by
  simp [Node.isRoute] at route
  simp [Node.isRelevant, route]

theorem Node.isRelevant_of_isSource {n : Node} (source : n.isSource = true) :
    n.isRelevant = true := by
  simp [Node.isSource] at source
  simp [Node.isRelevant, source]

-- Two filters one after the other are the second one, if it is the stricter one.
theorem filter_filter_of_imp {p q : α → Bool} (stricter : ∀ a, q a = true → p a = true)
    (xs : List α) : (xs.filter p).filter q = xs.filter q := by
  rw [List.filter_filter]
  refine List.filter_congr fun a _ => ?_
  cases here : q a with
  | false => rfl
  | true => rw [stricter a here, Bool.and_self]

theorem find?_filter_of_imp {p q : α → Bool} (stricter : ∀ a, q a = true → p a = true)
    (xs : List α) : (xs.filter p).find? q = xs.find? q := by
  rw [← List.head?_filter, filter_filter_of_imp stricter, List.head?_filter]

section

variable {f : Flow} {n : Node}

theorem routeNodes_pruned (f : Flow) :
    f.pruned.nodes.filter Node.isRoute = f.nodes.filter Node.isRoute :=
  filter_filter_of_imp (fun _ => Node.isRelevant_of_isRoute) f.nodes

theorem sources_pruned (f : Flow) :
    f.pruned.nodes.filter Node.isSource = f.nodes.filter Node.isSource :=
  filter_filter_of_imp (fun _ => Node.isRelevant_of_isSource) f.nodes

-- A search for what was saved for a node that stays finds the same as before.
theorem find?_pruned {test : Configuration → Bool} (member : n ∈ f.nodes)
    (relevant : n.isRelevant = true) (own : ∀ c, test c = true → c.nodeId = n.id) :
    f.pruned.configurations.find? test = f.configurations.find? test := by
  refine find?_filter_of_imp (fun c found => ?_) f.configurations
  refine List.any_eq_true.mpr ⟨n, List.mem_filter.mpr ⟨member, relevant⟩, ?_⟩
  exact decide_eq_true (own c found).symm

theorem savedFor_pruned (member : n ∈ f.nodes) (relevant : n.isRelevant = true) :
    savedFor f.pruned.configurations n.id = savedFor f.configurations n.id := by
  rw [savedFor, find?_pruned member relevant fun c => of_decide_eq_true, savedFor]

theorem overriding_pruned (member : n ∈ f.nodes) (relevant : n.isRelevant = true) :
    overriding f.pruned.configurations n.id = overriding f.configurations n.id := by
  refine find?_pruned member relevant fun c found => ?_
  exact of_decide_eq_true (Bool.and_eq_true_iff.mp found).1

theorem routeSpec_pruned (member : n ∈ f.nodes) (relevant : n.isRelevant = true) :
    routeSpec f.pruned n = routeSpec f n := by
  have source : routeSource f.pruned n = routeSource f n := by
    rw [routeSource_eq, routeSource_eq, overriding_pruned member relevant]
  rw [routeSpec, routeSpec, source]
  rfl

theorem stackOf_pruned (f : Flow) (id : Package.Identity) :
    stackOf (f.nodes.filter Node.isSource) f.pruned.configurations id
      = stackOf (f.nodes.filter Node.isSource) f.configurations id := by
  rw [stackOf, stackOf]
  congr 1
  refine List.filterMap_congr fun n member => ?_
  obtain ⟨there, source⟩ := List.mem_filter.mp (List.mem_filter.mp member).1
  exact savedFor_pruned there (Node.isRelevant_of_isSource source)

theorem moduleStacks_pruned (f : Flow) : f.pruned.moduleStacks = f.moduleStacks := by
  simp only [moduleStacks, sources_pruned, stackOf_pruned]

theorem nodeEntry_pruned (catalog : Catalog) (member : n ∈ f.nodes)
    (relevant : n.isRelevant = true) : nodeEntry catalog f.pruned n = nodeEntry catalog f n := by
  have target : nodeTarget f.pruned n = nodeTarget f n := by
    rw [nodeTarget, nodeTarget, routeSpec_pruned member relevant]
  have same : handler catalog f.pruned n = handler catalog f n := by
    rw [handler, handler, context, context, moduleStacks_pruned]
    rfl
  rw [nodeEntry, nodeEntry, target, same]
  rfl

theorem routes_pruned (catalog : Catalog) (f : Flow) :
    routes catalog f.pruned = routes catalog f := by
  rw [routes_eq, routes_eq, routeNodes_pruned]
  refine mapM_congr fun n member => ?_
  obtain ⟨there, route⟩ := List.mem_filter.mp member
  exact nodeEntry_pruned catalog there (Node.isRelevant_of_isRoute route)

end

theorem compile_pruned (catalog : Catalog) (base : String) (flows : List Flow) :
    compile catalog base (flows.map pruned) = compile catalog base flows := by
  simp only [compile, List.foldlM_map, routes_pruned]

end Flowgate.Flow
