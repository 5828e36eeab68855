import Flowgate.Proofs.Flow.Stacks

/-!
The two look-ups of a node's saved configuration. A stack keeps what a route would be read from,
unless an empty configuration of the node comes first and one that is not empty comes later: then a
route is read from the later one, and a stack keeps none.
-/

namespace Flowgate.Flow

open Json (Value)
open Package (Identity)

section

variable {configurations : List Configuration} {nodeId : String} {c : Configuration}

-- An empty configuration is the first one of the node, and there is one that is not empty.
def Overshadowed (configurations : List Configuration) (nodeId : String) : Prop :=
  ∃ c, FirstSaved configurations nodeId c ∧ c.configs = [] ∧
    ∃ d ∈ configurations, d.nodeId = nodeId ∧ d.configs ≠ []

-- The first one, if it is not empty, is also the first one that is not empty.
theorem overriding_of_savedFor (found : savedFor configurations nodeId = some c) :
    overriding configurations nodeId = some c := by
  obtain ⟨⟨saved, before, after, split, others⟩, filled⟩ := savedFor_eq_some_iff.mp found
  refine overriding_eq_some_iff.mpr ⟨⟨saved, filled⟩, before, after, split, ?_⟩
  exact fun d member both => others d member both.1

theorem overriding_of_overshadowed (shadowed : Overshadowed configurations nodeId) :
    savedFor configurations nodeId = none ∧
      ∃ d, overriding configurations nodeId = some d ∧ d.configs ≠ [] := by
  obtain ⟨c, first, empty, d, member, saved, filled⟩ := shadowed
  refine ⟨savedFor_eq_none_iff.mpr fun c' first' => first'.unique first ▸ empty, ?_⟩
  obtain ⟨e, found⟩ := exists_first (fun c => c.nodeId = nodeId ∧ c.configs ≠ [])
    member ⟨saved, filled⟩
  exact ⟨e, overriding_eq_some_iff.mpr found, found.1.2⟩

theorem overriding_of_not_overshadowed (clear : ¬Overshadowed configurations nodeId) :
    overriding configurations nodeId = savedFor configurations nodeId := by
  cases found : savedFor configurations nodeId with
  | some c => exact overriding_of_savedFor found
  | none =>
    refine overriding_eq_none_iff.mpr fun d member saved => ?_
    by_contra filled
    obtain ⟨c, first⟩ := exists_first (·.nodeId = nodeId) member saved
    have empty := savedFor_eq_none_iff.mp found c first
    exact clear ⟨c, first, empty, d, member, saved, filled⟩

theorem overriding_eq_savedFor_iff :
    overriding configurations nodeId = savedFor configurations nodeId ↔
      ¬Overshadowed configurations nodeId := by
  refine ⟨fun same shadowed => ?_, overriding_of_not_overshadowed⟩
  obtain ⟨none, d, found, -⟩ := overriding_of_overshadowed shadowed
  rw [found, none] at same
  cases same

-- With at most one configuration for each node there is nothing to be overshadowed.
theorem not_overshadowed_of_nodup (one : (configurations.map (·.nodeId)).Nodup)
    (nodeId : String) : ¬Overshadowed configurations nodeId := by
  rintro ⟨c, first, empty, d, member, saved, filled⟩
  have same : c = d :=
    List.inj_on_of_nodup_map one first.mem member (first.1.trans saved.symm)
  exact filled (same ▸ empty)

end

theorem choices_around (configurations : List Configuration) {id : Identity} {n : Node}
    (supplies : n.Supplies id) (before after : List Node) :
    choices configurations id (before ++ n :: after)
      = choices configurations id before ++ (savedFor configurations n.id).toList
        ++ choices configurations id after := by
  unfold choices
  rw [List.filter_append, List.filter_cons, if_pos (decide_eq_true supplies),
    List.filterMap_append, List.filterMap_cons, List.append_assoc]
  cases savedFor configurations n.id <;> rfl

-- The second part says what a stack keeps for a node wherever the node stands in its flow.
theorem overriding_agrees (f : Flow) (nodeId : String) :
    (∀ n : Node, n.id = nodeId → routeSource f n
      = (overriding f.configurations nodeId).elim n.data fun c => .object c.configs) ∧
    (∀ n id before after, n.id = nodeId → n.Supplies id → f.nodes = before ++ n :: after →
      ∃ stack, f.moduleStacks.get? id = some stack ∧ stack.configurations
        = choices f.configurations id before ++ (savedFor f.configurations nodeId).toList
          ++ choices f.configurations id after) ∧
    (overriding f.configurations nodeId = savedFor f.configurations nodeId ↔
      ¬Overshadowed f.configurations nodeId) ∧
    (Overshadowed f.configurations nodeId → savedFor f.configurations nodeId = none ∧
      ∃ c, overriding f.configurations nodeId = some c ∧ c.configs ≠ []) ∧
    ((f.configurations.map (·.nodeId)).Nodup → ¬Overshadowed f.configurations nodeId) := by
  refine ⟨?_, ?_, overriding_eq_savedFor_iff, overriding_of_overshadowed,
    fun one => not_overshadowed_of_nodup one nodeId⟩
  · rintro n rfl
    exact routeSource_eq f n
  · rintro n id before after rfl supplies split
    have member : n ∈ f.nodes := by rw [split]; simp
    refine ⟨_, get?_moduleStacks member supplies, ?_⟩
    rw [configurations_stackOf, split, choices_around _ supplies]

-- A request node and a configuration node of one id.
def routed : Node where
  id := "n"
  kind := .request
  moduleId := none
  disabled := false
  data := .object [("route", .string "GET /data")]

def supplying : Node where
  id := "n"
  kind := .configuration
  moduleId := some ⟨"m"⟩
  disabled := false
  data := .null

def twofold (configurations : List Configuration) : Flow :=
  { name := "f", nodes := [routed, supplying], connections := [], configurations }

-- An empty configuration after the one that is used changes nothing.
theorem overriding_agrees_saved :
    let saved := [⟨"n", [("route", .string "GET /saved")]⟩, ⟨"n", []⟩]
    overriding saved "n" = savedFor saved "n" ∧
      routeSource (twofold saved) routed = .object [("route", .string "GET /saved")] ∧
      ∃ stack, (twofold saved).moduleStacks.get? ⟨"m"⟩ = some stack ∧
        stack.configurations.map Configuration.configs = [[("route", .string "GET /saved")]] := by
  intro saved
  obtain ⟨read, kept, agree, -⟩ := overriding_agrees (twofold saved) "n"
  have clear : ¬Overshadowed saved "n" := by
    rintro ⟨c, ⟨-, before, after, split, others⟩, empty, -⟩
    cases before with
    | nil =>
      obtain ⟨rfl, -⟩ := List.cons.inj split
      cases empty
    | cons d before =>
      obtain ⟨rfl, -⟩ := List.cons.inj split
      exact others _ List.mem_cons_self rfl
  obtain ⟨stack, found, all⟩ := kept supplying ⟨"m"⟩ [routed] [] rfl ⟨rfl, rfl, rfl⟩ rfl
  exact ⟨agree.mpr clear, read routed rfl, stack, found, by rw [all]; rfl⟩

-- The route is read from the second configuration, and the stack has none.
theorem overriding_agrees_shadowed :
    let saved := [⟨"n", []⟩, ⟨"n", [("route", .string "GET /saved")]⟩]
    overriding saved "n" ≠ savedFor saved "n" ∧
      routeSource (twofold saved) routed = .object [("route", .string "GET /saved")] ∧
      ((twofold saved).moduleStacks.get? ⟨"m"⟩).map Stack.configurations = some [] := by
  refine ⟨fun same => ?_, rfl, rfl⟩
  cases same

end Flowgate.Flow
