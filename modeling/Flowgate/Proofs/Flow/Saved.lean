import Flowgate.Flow.Compile
import Mathlib.Data.List.Basic

/-!
Saved configurations of a node. A flow may hold several for one node. A stack takes the first one and
leaves it out if it is empty; a route is read from the first one that is not empty.
-/

namespace Flowgate.Flow

open Json (Value)

-- The first of the configurations that have a property.
def First (holds : Configuration → Prop) (configurations : List Configuration)
    (c : Configuration) : Prop :=
  holds c ∧ ∃ before after, configurations = before ++ c :: after ∧ ∀ d ∈ before, ¬holds d

-- The first one that was saved for a node, whatever it holds.
abbrev FirstSaved (configurations : List Configuration) (nodeId : String) :
    Configuration → Prop :=
  First (·.nodeId = nodeId) configurations

-- The first one that was saved for a node and is not empty.
abbrev FirstFilled (configurations : List Configuration) (nodeId : String) :
    Configuration → Prop :=
  First (fun c => c.nodeId = nodeId ∧ c.configs ≠ []) configurations

theorem find?_eq_some_iff_first {holds : Configuration → Prop} {test : Configuration → Bool}
    (tests : ∀ c, test c = true ↔ holds c) {configurations : List Configuration}
    {c : Configuration} : configurations.find? test = some c ↔ First holds configurations c := by
  have fails (d : Configuration) : (!test d) = true ↔ ¬holds d := by
    rw [← tests d, Bool.not_eq_true', Bool.not_eq_true]
  simp only [List.find?_eq_some_iff_append, First, tests, fails]

theorem First.mem {holds : Configuration → Prop} {configurations : List Configuration}
    {c : Configuration} (first : First holds configurations c) : c ∈ configurations := by
  obtain ⟨-, before, after, rfl, -⟩ := first
  simp

-- Where some have the property, one of them is the first.
theorem exists_first (holds : Configuration → Prop) {configurations : List Configuration}
    {d : Configuration} (member : d ∈ configurations) (here : holds d) :
    ∃ c, First holds configurations c := by
  classical
  have found : (configurations.find? fun c => holds c).isSome = true :=
    List.find?_isSome.mpr ⟨d, member, decide_eq_true here⟩
  obtain ⟨c, there⟩ := Option.isSome_iff_exists.mp found
  exact ⟨c, (find?_eq_some_iff_first fun c => decide_eq_true_iff).mp there⟩

theorem First.unique {holds : Configuration → Prop} {configurations : List Configuration}
    {c d : Configuration} (one : First holds configurations c)
    (other : First holds configurations d) : c = d := by
  classical
  have tests (c : Configuration) : decide (holds c) = true ↔ holds c := decide_eq_true_iff
  have found := (find?_eq_some_iff_first tests).mpr one
  rw [(find?_eq_some_iff_first tests).mpr other] at found
  exact (Option.some.inj found).symm

section

variable {configurations : List Configuration} {nodeId : String} {c : Configuration}

theorem filled_iff (c : Configuration) :
    (!c.configs.isEmpty) = true ↔ c.configs ≠ [] := by
  cases c.configs <;> simp

/-! ### In a stack -/

theorem savedFor_eq_some_iff :
    savedFor configurations nodeId = some c ↔
      FirstSaved configurations nodeId c ∧ c.configs ≠ [] := by
  rw [savedFor, Option.filter_eq_some_iff, filled_iff,
    find?_eq_some_iff_first fun _ => decide_eq_true_iff]

theorem savedFor_eq_none_iff :
    savedFor configurations nodeId = none ↔
      ∀ c, FirstSaved configurations nodeId c → c.configs = [] := by
  constructor
  · intro none c first
    by_contra filled
    rw [savedFor_eq_some_iff.mpr ⟨first, filled⟩] at none
    cases none
  · intro empty
    cases found : savedFor configurations nodeId with
    | none => rfl
    | some c =>
      obtain ⟨first, filled⟩ := savedFor_eq_some_iff.mp found
      exact absurd (empty c first) filled

/-! ### For a route -/

-- The configuration that the route of a node is read from, in place of the data of the node.
def overriding (configurations : List Configuration) (nodeId : String) : Option Configuration :=
  configurations.find? fun c => c.nodeId = nodeId && !c.configs.isEmpty

theorem overriding_eq_some_iff :
    overriding configurations nodeId = some c ↔ FirstFilled configurations nodeId c := by
  refine find?_eq_some_iff_first fun c => ?_
  rw [Bool.and_eq_true, decide_eq_true_iff, filled_iff]

theorem overriding_eq_none_iff :
    overriding configurations nodeId = none ↔
      ∀ c ∈ configurations, c.nodeId = nodeId → c.configs = [] := by
  constructor
  · intro none c member saved
    by_contra filled
    obtain ⟨d, first⟩ := exists_first (fun c => c.nodeId = nodeId ∧ c.configs ≠ [])
      member ⟨saved, filled⟩
    rw [overriding_eq_some_iff.mpr first] at none
    cases none
  · intro empty
    cases found : overriding configurations nodeId with
    | none => rfl
    | some c =>
      have first := overriding_eq_some_iff.mp found
      exact absurd (empty c first.mem first.1.1) first.1.2

theorem routeSource_eq (f : Flow) (n : Node) :
    routeSource f n
      = (overriding f.configurations n.id).elim n.data fun c => .object c.configs := by
  unfold routeSource overriding
  split <;> rename_i found <;> rw [found] <;> rfl

end

end Flowgate.Flow
