import Flowgate.Proofs.File.Paths
import Mathlib.Data.List.TakeWhile
import Mathlib.Data.String.Basic

/-!
What is there already: a path that leads to it is proper with all that it starts with, to make a
directory once more changes nothing, and a file can be written again.
-/

namespace Flowgate.File.Tree

theorem checkPath_ok {path : String} :
    checkPath path = .ok () ↔
      path.toList.any (·.toNat = 0) = false ∧ path ≠ "" ∧ path.utf8ByteSize ≤ pathLimit := by
  unfold checkPath
  split
  · simp [*]
  · split
    · rename_i empty
      simp [String.isEmpty_iff.mp empty]
    · rename_i some
      split
      · simp [*]
      · simp_all [String.isEmpty_iff]

theorem join_eq {base rest : String} (relative : isAbsolute rest = false) (some : base ≠ "") :
    ∃ more, join base rest = base ++ more := by
  unfold join
  rw [relative, Bool.false_or, if_neg (by simpa [String.isEmpty_iff] using some)]
  split
  · exact ⟨rest, rfl⟩
  · exact ⟨"/" ++ rest, String.append_assoc⟩

-- What leads to a proper path is a proper path.
theorem checkPath_base {base rest : String} (relative : isAbsolute rest = false) (some : base ≠ "")
    (checked : checkPath (join base rest) = .ok ()) : checkPath base = .ok () := by
  obtain ⟨more, whole⟩ := join_eq relative some
  rw [whole, checkPath_ok, String.toList_append, List.any_append, Bool.or_eq_false_iff,
    String.utf8ByteSize_append] at checked
  rw [checkPath_ok]
  exact ⟨checked.1.1, some, by omega⟩

theorem walk_empties {t : Tree} {p goal : Place} {empties : List String}
    (stay : ∀ x ∈ empties, x = "") (done : t.walk p empties = .ok goal) : goal = p := by
  induction empties with
  | nil =>
    cases done
    rfl
  | cons x empties ih =>
    obtain rfl := stay x List.mem_cons_self
    exact ih (fun y member => stay y (List.mem_cons_of_mem _ member)) (walk_step done).2.2

-- Without the empty steps at its end, a walk leads to the same place.
theorem walk_dropEmpty {t : Tree} {steps : List String} {goal : Place}
    (done : t.walk [] steps = .ok goal) :
    t.walk [] (steps.reverse.dropWhile (· = "")).reverse = .ok goal := by
  have parts : steps = (steps.reverse.dropWhile (· = "")).reverse
      ++ (steps.reverse.takeWhile (· = "")).reverse := by
    rw [← List.reverse_append, List.takeWhile_append_dropWhile, List.reverse_reverse]
  rw [parts, walk_append] at done
  split at done
  · cases done
  · rename_i q first
    rw [first]
    have empties : ∀ x ∈ (steps.reverse.takeWhile (· = "")).reverse, x = "" := by
      intro x member
      simpa using List.mem_takeWhile_imp (List.mem_reverse.mp member)
    rw [walk_empties empties done]

theorem makeDirectories_there {t : Tree} {path : String} {place : Place}
    (checked : path ≠ "" → checkPath path = .ok ()) (walked : t.walk [] (steps path) = .ok place)
    (here : t.at? place = some .directory) : t.makeDirectories path = (.ok (), t) := by
  unfold makeDirectories
  by_cases empty : path.isEmpty
  · rw [if_pos empty]
  · have proper := checked (by simpa [String.isEmpty_iff] using empty)
    have taken : t.makeDirectory path = .error .taken := by
      rw [makeDirectory, proper, walk_dropEmpty walked]
      simp only [bind, Except.bind, here]
    have there : t.isDirectory path = true := by
      rw [isDirectory, find_eq_ok_iff.mpr ⟨place, locate_of_walk proper walked, here⟩]
      rfl
    rw [if_neg empty, makeAfter, taken]
    simp only [makeAfter.settled, there, if_true]

theorem write_of_locate {t : Tree} {path : String} {place : Place}
    (located : t.locate path = .ok place) (free : t.at? place ≠ some .directory)
    (content : String) : t.write path content = .ok (t.set place (.text content)) := by
  rw [write, located]
  simp only [bind, Except.bind]

theorem write_there {t : Tree} {path old : String} (found : t.find path = .ok (.text old))
    (content : String) : ∃ t', t.write path content = .ok t' := by
  obtain ⟨place, located, there⟩ := find_eq_ok_iff.mp found
  exact ⟨_, write_of_locate located (by simp [there]) content⟩

theorem rename_of_locate {t : Tree} {source target content : String} {place goal : Place}
    (reads : t.read source = .ok content) (located : t.locate source = .ok place)
    (aims : t.locate target = .ok goal) (free : t.at? goal ≠ some .directory) :
    t.rename source target = .ok ((t.prune place).set goal (.text content)) := by
  rw [rename, reads, located, aims]
  simp only [bind, Except.bind]

/-! ### What is missing -/

theorem makeDirectories_new {t : Tree} {path : String} {place : Place}
    (checked : checkPath path = .ok ()) (walked : t.walk [] (steps path) = .ok place)
    (absent : t.at? place = none) : t.makeDirectories path = (.ok (), t.set place .directory) := by
  have some : path.isEmpty = false := by
    simpa [String.isEmpty_iff] using (checkPath_ok.mp checked).2.1
  have made : t.makeDirectory path = .ok (t.set place .directory) := by
    rw [makeDirectory, checked, walk_dropEmpty walked]
    simp only [bind, Except.bind, absent]
  simp only [makeDirectories, some, Bool.false_eq_true, if_false, makeAfter, made]

/-! ### The directory above -/

theorem intercalate_sublist {sep : List α} {xs ys : List (List α)} (sub : xs.Sublist ys) :
    (sep.intercalate xs).Sublist (sep.intercalate ys) := by
  induction sub with
  | slnil => exact List.Sublist.refl _
  | @cons xs ys y sub ih =>
    cases ys with
    | nil =>
      rw [List.sublist_nil.mp sub]
      exact List.nil_sublist _
    | cons z ys =>
      rw [List.intercalate_cons_cons]
      exact ih.trans (List.sublist_append_right _ _)
  | @cons_cons xs ys y sub ih =>
    cases ys with
    | nil =>
      rw [List.sublist_nil.mp sub]
    | cons z ys =>
      rw [List.intercalate_cons_cons]
      cases xs with
      | nil =>
        rw [List.intercalate_singleton, List.append_assoc]
        exact List.sublist_append_left _ _
      | cons x xs =>
        rw [List.intercalate_cons_cons]
        exact ih.append_left _

theorem parts_sublist {xs ys : List String} (sub : xs.Sublist ys) :
    ("/".intercalate xs).toList.Sublist ("/".intercalate ys).toList := by
  rw [String.toList_intercalate, String.toList_intercalate]
  exact intercalate_sublist (sub.map _)

theorem spell_sublist {path : String} {xs : List String} (sub : xs.Sublist (steps path)) :
    (spell xs.reverse).toList.Sublist path.toList := by
  rcases spell_cases xs with ⟨rest, rfl, -⟩ | ⟨-, spelled⟩
  · have among : "/" ∈ steps path := sub.subset List.mem_cons_self
    exact absurd (by decide) (Text.not_mem_pieces path "/" among)
  · have shorter := parts_sublist sub
    rw [steps, Text.intercalate_pieces] at shorter
    rwa [spelled]

-- The path of the directory above leaves parts of a path out.
theorem parent_sublist (path : String) :
    ((parent? path).getD "").toList.Sublist path.toList := by
  rw [parent?_eq_spell, components]
  split
  · rename_i absolute
    have starts : ∃ rest, path = "/" ++ rest := by
      cases chars : path.toList with
      | nil => simp [isAbsolute, chars] at absolute
      | cons c cs =>
        obtain rfl : c = '/' := by simpa [isAbsolute, chars] using absolute
        exact ⟨String.ofList cs, String.toList_injective (by simp [chars])⟩
    obtain ⟨rest, rfl⟩ := starts
    have front := core_slash rest
    rw [core] at front
    rw [front]
    rcases List.eq_nil_or_concat (core (steps rest)) with none | ⟨above, last, whole⟩
    · rw [none]
      exact List.nil_sublist _
    · rw [whole, List.concat_eq_append, ← List.cons_append, List.dropLast_concat]
      have inner : above.Sublist (steps rest) := by
        have kept : (core (steps rest)).Sublist (steps rest) := List.filter_sublist
        rw [whole, List.concat_eq_append] at kept
        exact (List.sublist_append_left above [last]).trans kept
      have shorter := parts_sublist inner
      rw [steps, Text.intercalate_pieces] at shorter
      rcases spell_cases ("/" :: above) with ⟨above', same, spelled⟩ | ⟨other, -⟩
      · obtain rfl := (List.cons.inj same).2
        rw [spelled, String.toList_append, String.toList_append]
        exact shorter.append_left _
      · exact absurd rfl other
  · split
    · rename_i dot
      obtain ⟨more, whole⟩ := List.head?_eq_some_iff.mp dot
      apply spell_sublist
      refine (List.dropLast_sublist _).trans ?_
      rw [whole, List.filter_cons_of_neg (by simp)]
      exact List.filter_sublist.cons_cons _
    · apply spell_sublist
      exact (List.dropLast_sublist _).trans List.filter_sublist

theorem checkPath_parent {path : String} (checked : checkPath path = .ok ())
    (some : (parent? path).getD "" ≠ "") : checkPath ((parent? path).getD "") = .ok () := by
  have sub := parent_sublist path
  rw [checkPath_ok] at checked ⊢
  refine ⟨?_, some, ?_⟩
  · rw [List.any_eq_false] at checked ⊢
    exact fun c member => checked.1 c (sub.subset member)
  · have shorter := String.utf8Len_le_of_sublist sub
    rw [← String.utf8ByteSize_ofList, ← String.utf8ByteSize_ofList, String.ofList_toList,
      String.ofList_toList] at shorter
    exact shorter.trans checked.2.2

-- Steps that stay where they are have no say at the root.
theorem walk_stays {t : Tree} {lead xs : List String} (stay : ∀ x ∈ lead, x = "" ∨ x = ".") :
    t.walk [] (lead ++ xs) = t.walk [] xs := by
  induction lead with
  | nil => rfl
  | cons x lead ih =>
    have here := stay x List.mem_cons_self
    have short : checkName x = .ok () := by
      rcases here with rfl | rfl <;> decide
    rw [List.cons_append, walk_cons, at?_root, short, stepFrom, if_pos here]
    exact ih fun y member => stay y (List.mem_cons_of_mem _ member)

theorem steps_spell {head xs : List String} (starts : head = [] ∨ head = ["/"] ∨ head = ["."])
    (clean : Clean xs) (some : xs ≠ []) :
    ∃ lead, (∀ x ∈ lead, x = "" ∨ x = ".") ∧ steps (spell (head ++ xs).reverse) = lead ++ xs := by
  have whole : steps ("/".intercalate xs) = xs :=
    Text.pieces_intercalate some fun x member => (clean x member).2
  rcases starts with rfl | rfl | rfl
  · rcases spell_cases xs with ⟨rest, rfl, -⟩ | ⟨-, spelled⟩
    · exact absurd (by decide) (clean "/" List.mem_cons_self).2
    · exact ⟨[], by simp, by rw [List.nil_append, spelled, whole]⟩
  · rcases spell_cases ("/" :: xs) with ⟨rest, same, spelled⟩ | ⟨other, -⟩
    · obtain rfl := (List.cons.inj same).2
      refine ⟨[""], by simp, ?_⟩
      rw [List.singleton_append, spelled, steps, Text.pieces_slash]
      exact congrArg _ whole
    · exact absurd rfl other
  · rcases spell_cases ("." :: xs) with ⟨rest, same, -⟩ | ⟨-, spelled⟩
    · exact absurd (List.cons.inj same).1 (by decide)
    · refine ⟨["."], by simp, ?_⟩
      rw [List.singleton_append, spelled]
      refine Text.pieces_intercalate (List.cons_ne_nil _ _) fun x member => ?_
      rcases List.mem_cons.mp member with rfl | there
      · decide
      · exact (clean x there).2

-- The path of the directory above leads to all but the last step.
theorem walk_parent {t : Tree} {path last : String} {front : List String}
    (parts : core (steps path) = front ++ [last]) (some : front ≠ []) :
    (parent? path).getD "" ≠ "" ∧
      t.walk [] (steps ((parent? path).getD "")) = t.walk [] front := by
  have clean : Clean front := by
    have whole := clean_core path
    rw [parts] at whole
    exact fun x member => whole x (List.mem_append_left _ member)
  obtain ⟨head, starts, split⟩ := components_eq path
  rw [parent?_eq_spell, split, parts, ← List.append_assoc, List.dropLast_concat]
  obtain ⟨lead, stay, spelled⟩ := steps_spell starts clean some
  constructor
  · intro empty
    have single : steps "" = [""] := by decide
    rw [empty, single] at spelled
    obtain ⟨x, rest, rfl⟩ := List.exists_cons_of_ne_nil some
    have among : x ∈ [""] := by
      rw [spelled]
      simp
    exact (clean x List.mem_cons_self).1.1 (List.mem_singleton.mp among)
  · rw [spelled, walk_stays stay]

end Flowgate.File.Tree
