import Flowgate.Proofs.File.Paths
import Mathlib.Data.List.DropRight

/-!
Where the steps of a path lead when all that they pass is there. Taken together they go up by some
levels and then down along some names, so whether they end below the place where they start is
decided by the names of the levels that they go up.
-/

namespace Flowgate.File

namespace Tree

-- The place at the end of some steps, whatever is on the way.
def resolve (p : Place) (steps : List String) : Place := steps.foldl stepFrom p

theorem resolve_append (p : Place) (first second : List String) :
    resolve p (first ++ second) = resolve (resolve p first) second :=
  List.foldl_append

theorem resolve_of_walk {t : Tree} {p goal : Place} {steps : List String}
    (done : t.walk p steps = .ok goal) : goal = resolve p steps := by
  induction steps generalizing p with
  | nil =>
    cases done
    rfl
  | cons step rest ih => exact ih (walk_step done).2.2

theorem resolve_baseSteps (p : Place) (base : String) :
    resolve p (baseSteps base) = resolve p (steps base) := by
  rcases baseSteps_cases base with same | longer
  · rw [same]
  · rw [longer, resolve_append]
    rfl

theorem resolve_join {base rest : String} (relative : isAbsolute rest = false) :
    resolve [] (steps (join base rest)) = resolve (resolve [] (steps base)) (steps rest) := by
  rw [steps_join relative, resolve_append, resolve_baseSteps]

end Tree

/-! ### Levels up and names down -/

-- What some steps come to: levels that they go up, and names that they go down from there.
structure Course where
  up : Nat
  down : Place

namespace Course

-- One level up takes back the last name, if there is one.
def step (c : Course) (step : String) : Course :=
  if step = "" ∨ step = "." then c
  else if step = ".." then
    if c.down = [] then { c with up := c.up + 1 } else { c with down := c.down.dropLast }
  else { c with down := c.down ++ [step] }

def along (steps : List String) : Course := steps.foldl step ⟨0, []⟩

def apply (c : Course) (p : Place) : Place := p.rdrop c.up ++ c.down

theorem rdrop_succ (p : Place) (n : Nat) : p.rdrop (n + 1) = (p.rdrop n).dropLast := by
  simp only [List.rdrop_eq_reverse_drop_reverse, List.dropLast_reverse, List.tail_drop]

theorem apply_step (c : Course) (p : Place) (step : String) :
    (c.step step).apply p = Tree.stepFrom (c.apply p) step := by
  unfold Course.step Tree.stepFrom
  split
  · rfl
  · split
    · split
      · rename_i none
        simp [apply, none, rdrop_succ]
      · rename_i some
        simp [apply, List.dropLast_append_of_ne_nil some]
    · simp [apply]

theorem apply_along (p : Place) (steps : List String) :
    (along steps).apply p = Tree.resolve p steps := by
  induction steps using List.reverseRecOn with
  | nil => simp [along, apply, Tree.resolve]
  | append_singleton steps step ih =>
    rw [along, Tree.resolve, List.foldl_append, List.foldl_append]
    exact (apply_step _ p step).trans (congrArg (Tree.stepFrom · step) ih)

-- What goes up comes back below its start by the names of the levels that it has left.
theorem prefix_apply_iff (c : Course) (p : Place) : p <+: c.apply p ↔ p.rtake c.up <+: c.down := by
  have parts : p.rdrop c.up ++ p.rtake c.up = p := List.take_append_drop _ p
  have same : p.rdrop c.up ++ p.rtake c.up <+: c.apply p ↔ p.rtake c.up <+: c.down :=
    List.prefix_append_right_inj (p.rdrop c.up)
  rwa [parts] at same

end Course

end Flowgate.File
