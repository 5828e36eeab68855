import Flowgate.File.Tree
import Flowgate.Proofs.Text.Pieces

/-!
The steps of paths: a joined path has those of the base, but for a slash at its end, and then those
of what is joined to it. Empty steps and dots aside, the components of a path are its steps.
-/

namespace Flowgate.File

theorem steps_of_clean {name : String} (clean : '/' ∉ name.toList) : steps name = [name] := by
  rw [steps, Text.pieces, Text.piecesOf_of_not_mem clean]
  simp

theorem steps_of_clean_append {front : String} (clean : '/' ∉ front.toList) (path : String) :
    ∃ more rest, steps (front ++ path) = (front ++ more) :: rest := by
  obtain ⟨piece, rest, -, joined⟩ := Text.piecesOf_clean_append clean path.toList
  refine ⟨String.ofList piece, rest.map String.ofList, ?_⟩
  rw [steps, Text.pieces, String.toList_append, joined, List.map_cons]
  simp

-- The steps that a join puts before what is joined.
def baseSteps (base : String) : List String :=
  if base.isEmpty then []
  else if base.toList.getLast? = some '/' then (steps base).dropLast
  else steps base

theorem steps_of_slash {base : String} (last : base.toList.getLast? = some '/') :
    ∃ front, base = front ++ "/" ∧ steps base = steps front ++ [""] := by
  obtain ⟨cs, chars⟩ := List.getLast?_eq_some_iff.mp last
  have cut : base = String.ofList cs ++ "/" := by
    apply String.toList_injective
    simp [chars]
  refine ⟨String.ofList cs, cut, ?_⟩
  have empty : Text.pieces '/' "" = [""] := by decide
  have whole := Text.pieces_append (String.ofList cs) ""
  rw [String.append_empty, ← cut, empty] at whole
  exact whole

theorem steps_join {base rest : String} (relative : isAbsolute rest = false) :
    steps (join base rest) = baseSteps base ++ steps rest := by
  unfold join baseSteps
  rw [relative, Bool.false_or]
  split
  · rfl
  · split
    · rename_i last
      obtain ⟨front, cut, ends⟩ := steps_of_slash last
      rw [ends, List.dropLast_concat, cut]
      exact Text.pieces_append front rest
    · exact Text.pieces_append base rest

-- A slash at the end of a base, or its being empty, stands for one empty step.
theorem baseSteps_cases (base : String) :
    steps base = baseSteps base ∨ steps base = baseSteps base ++ [""] := by
  unfold baseSteps
  split
  · rename_i empty
    rw [String.isEmpty_iff.mp empty]
    exact .inr (by decide)
  · split
    · rename_i last
      obtain ⟨front, -, ends⟩ := steps_of_slash last
      rw [ends, List.dropLast_concat]
      exact .inr rfl
    · exact .inl rfl

theorem isAbsolute_of_clean {name : String} (clean : '/' ∉ name.toList) :
    isAbsolute name = false := by
  rw [isAbsolute]
  cases chars : name.toList with
  | nil => decide
  | cons c cs =>
    rw [chars] at clean
    refine decide_eq_false fun same => clean ?_
    rw [Option.some.inj same]
    exact List.mem_cons_self

-- A base that ends in a name keeps all its steps.
theorem baseSteps_of_last {base last : String} {front : List String}
    (ends : steps base = front ++ [last]) (some : last ≠ "") : baseSteps base = steps base := by
  rcases baseSteps_cases base with same | longer
  · exact same.symm
  · rw [ends] at longer
    exact absurd (List.singleton_inj.mp (List.append_inj' longer rfl).2) some

/-! ### Steps that lead somewhere -/

-- The steps that are neither empty nor a dot.
def core (steps : List String) : List String := steps.filter fun s => s ≠ "" && s ≠ "."

theorem core_append (xs ys : List String) : core (xs ++ ys) = core xs ++ core ys :=
  List.filter_append _ _

theorem core_baseSteps (base : String) : core (baseSteps base) = core (steps base) := by
  rcases baseSteps_cases base with same | longer
  · rw [same]
  · rw [longer, core_append]
    exact (List.append_nil _).symm

theorem core_dropWhile (xs : List String) : core (xs.dropWhile (· = "")) = core xs := by
  induction xs with
  | nil => rfl
  | cons x xs ih =>
    by_cases empty : x = ""
    · subst empty
      exact ih
    · rw [List.dropWhile_cons_of_neg (by simpa using empty)]

theorem core_reverse (xs : List String) : core xs.reverse = (core xs).reverse :=
  List.filter_reverse

-- Empty steps at the end have no say.
theorem core_dropEmpty (xs : List String) :
    core (xs.reverse.dropWhile (· = "")).reverse = core xs := by
  rw [core_reverse, core_dropWhile, core_reverse, List.reverse_reverse]

theorem core_of_proper {xs : List String} (proper : ∀ x ∈ xs, x ≠ "" ∧ x ≠ ".") : core xs = xs := by
  rw [core, List.filter_eq_self]
  intro x member
  simpa using proper x member

-- A step that names an entry of a directory.
def Names (step : String) : Prop := step ≠ "" ∧ step ≠ "." ∧ step ≠ ".."

instance (step : String) : Decidable (Names step) := inferInstanceAs (Decidable (_ ∧ _ ∧ _))

theorem core_of_names {xs : List String} (names : ∀ x ∈ xs, Names x) : core xs = xs :=
  core_of_proper fun x member => ⟨(names x member).1, (names x member).2.1⟩

theorem components_eq (path : String) :
    ∃ head, (head = [] ∨ head = ["/"] ∨ head = ["."]) ∧
      components path = head ++ core (steps path) := by
  unfold components
  split
  · exact ⟨["/"], .inr (.inl rfl), rfl⟩
  · split
    · exact ⟨["."], .inr (.inr rfl), rfl⟩
    · exact ⟨[], .inl rfl, rfl⟩

-- Names without slashes, of which none is empty or a dot.
def Clean (xs : List String) : Prop := ∀ x ∈ xs, (x ≠ "" ∧ x ≠ ".") ∧ '/' ∉ x.toList

theorem clean_core (path : String) : Clean (core (steps path)) := by
  intro x member
  obtain ⟨there, proper⟩ := List.mem_filter.mp member
  exact ⟨by simpa using proper, Text.not_mem_pieces path x there⟩

theorem core_intercalate {xs : List String} (clean : Clean xs) :
    core (steps ("/".intercalate xs)) = xs := by
  have proper : core xs = xs := core_of_proper fun x member => (clean x member).1
  by_cases none : xs = []
  · subst none
    decide
  · rw [steps, Text.pieces_intercalate none fun x member => (clean x member).2, proper]

theorem core_slash (path : String) : core (steps ("/" ++ path)) = core (steps path) := by
  rw [steps, Text.pieces_slash]
  rfl

theorem spell_cases (xs : List String) :
    (∃ rest, xs = "/" :: rest ∧ Tree.spell xs.reverse = "/" ++ "/".intercalate rest) ∨
    (xs.head? ≠ some "/" ∧ Tree.spell xs.reverse = "/".intercalate xs) := by
  rw [Tree.spell, List.reverse_reverse]
  split
  · exact .inl ⟨_, rfl, rfl⟩
  · rename_i other
    refine .inr ⟨fun first => ?_, rfl⟩
    obtain ⟨rest, same⟩ := List.head?_eq_some_iff.mp first
    exact other rest same

theorem core_spell {head xs : List String} (starts : head = [] ∨ head = ["/"] ∨ head = ["."])
    (clean : Clean xs) : core (steps (Tree.spell (head ++ xs).reverse)) = xs := by
  rcases starts with rfl | rfl | rfl
  · rcases spell_cases xs with ⟨rest, rfl, -⟩ | ⟨-, spelled⟩
    · exact absurd (by decide) (clean "/" List.mem_cons_self).2
    · rw [List.nil_append, spelled, core_intercalate clean]
  · rcases spell_cases ("/" :: xs) with ⟨rest, same, spelled⟩ | ⟨other, -⟩
    · obtain rfl := (List.cons.inj same).2
      rw [List.singleton_append, spelled, core_slash, core_intercalate clean]
    · exact absurd rfl other
  · rcases spell_cases ("." :: xs) with ⟨rest, same, -⟩ | ⟨-, spelled⟩
    · exact absurd (List.cons.inj same).1 (by decide)
    · have whole : steps ("/".intercalate ("." :: xs)) = "." :: xs := by
        refine Text.pieces_intercalate (List.cons_ne_nil _ _) fun x member => ?_
        rcases List.mem_cons.mp member with rfl | there
        · decide
        · exact (clean x there).2
      have proper : core xs = xs := core_of_proper fun x member => (clean x member).1
      rw [List.singleton_append, spelled, whole]
      exact proper

theorem prefix_append_cases {xs ys zs : List α} (under : xs <+: ys ++ zs) :
    xs <+: ys ∨ ∃ more, xs = ys ++ more ∧ more <+: zs := by
  obtain ⟨rest, same⟩ := under
  rcases List.append_eq_append_iff.mp same with ⟨more, longer, -⟩ | ⟨more, shorter, whole⟩
  · exact .inl (longer ▸ List.prefix_append _ _)
  · exact .inr ⟨more, shorter, whole ▸ List.prefix_append _ _⟩

theorem reverse_prefix_singleton {xs : List String} {x : String} (under : xs.reverse <+: [x]) :
    xs = [] ∨ xs = [x] := by
  rcases List.prefix_cons_iff.mp under with none | ⟨rest, one, none⟩
  · exact .inl (List.reverse_eq_nil_iff.mp none)
  · rw [List.prefix_nil.mp none] at one
    exact .inr (List.reverse_eq_iff.mp one)

-- The components of a path that lead to one of the directories above it.
theorem core_spell_leads {path : String} {above : List String}
    (leads : above.reverse <+: components path) :
    core (steps (Tree.spell above)) <+: core (steps path) := by
  obtain ⟨head, starts, whole⟩ := components_eq path
  rw [whole] at leads
  rcases prefix_append_cases leads with short | ⟨more, same, under⟩
  · have none : above = [] ∨ above = ["/"] ∨ above = ["."] := by
      rcases starts with rfl | rfl | rfl
      · exact .inl (List.reverse_eq_nil_iff.mp (List.prefix_nil.mp short))
      · exact (reverse_prefix_singleton short).imp_right .inl
      · exact (reverse_prefix_singleton short).imp_right .inr
    have empty : core (steps (Tree.spell above)) = [] := by
      rcases none with rfl | rfl | rfl <;> decide
    rw [empty]
    exact List.nil_prefix
  · have clean : Clean more := fun x member => clean_core path x (under.subset member)
    have spelled := core_spell starts clean
    rw [← same, List.reverse_reverse] at spelled
    rw [spelled]
    exact under

theorem parent?_eq_spell (path : String) :
    (parent? path).getD "" = Tree.spell (components path).dropLast.reverse := by
  rw [Tree.spell, List.reverse_reverse]
  unfold parent?
  split
  · rename_i none
    rw [none]
    rfl
  · rename_i root
    rw [root]
    rfl
  · rename_i name below
    rw [below]
    rfl
  · rename_i rest root single absolute
    rw [absolute]
    cases rest with
    | nil => exact (root rfl).elim
    | cons name rest => rfl
  · rename_i relative
    split
    · rename_i rest same
      cases parts : components path with
      | nil =>
        rw [parts] at same
        cases same
      | cons first more =>
        rw [parts] at same
        cases more with
        | nil => cases same
        | cons second more =>
          obtain ⟨rfl, -⟩ := List.cons.inj same
          exact (relative _ parts).elim
    · rfl

theorem core_parent_leads (path : String) :
    core (steps ((parent? path).getD "")) <+: core (steps path) := by
  rw [parent?_eq_spell]
  refine core_spell_leads ?_
  rw [List.reverse_reverse]
  exact List.dropLast_prefix _

end Flowgate.File
