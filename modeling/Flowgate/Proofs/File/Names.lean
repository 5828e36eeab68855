import Flowgate.Proofs.File.Steps

/-!
The name at the end of a path. Whatever is put before the name of a path, the path that it makes has
a name that ends in it.
-/

namespace Flowgate.File

theorem name?_eq_some_iff {path name : String} :
    name? path = some name ↔ (core (steps path)).getLast? = some name ∧ name ≠ ".." := by
  obtain ⟨head, starts, whole⟩ := components_eq path
  unfold name?
  rw [whole]
  by_cases none : core (steps path) = []
  · rcases starts with rfl | rfl | rfl <;> simp [none]
  · obtain ⟨last, ends⟩ := Option.ne_none_iff_exists'.mp (mt List.getLast?_eq_none_iff.mp none)
    have clean := clean_core path last (List.mem_of_getLast? ends)
    have slash : last ≠ "/" := by
      rintro rfl
      exact absurd (by decide) clean.2
    rw [List.getLast?_append_of_ne_nil _ none, ends]
    by_cases up : last = ".."
    · simpa [up] using fun same => same.symm
    · simpa [slash, clean.1.2, up] using fun same => same ▸ up

-- Names are the texts that are not made of two dots at most.
theorem names_iff {step : String} : Names step ↔ ¬step.toList <:+ "..".toList := by
  have ends : step.toList <:+ "..".toList ↔ step = ".." ∨ step = "." ∨ step = "" := by
    simp only [← String.toList_inj]
    exact List.suffix_cons_iff.trans
      (or_congr_right (List.suffix_cons_iff.trans (or_congr_right List.suffix_nil)))
  rw [ends, not_or, not_or, Names]
  tauto

theorem names_append {name : String} (names : Names name) (more : String) :
    Names (more ++ name) := by
  rw [names_iff] at names ⊢
  rw [String.toList_append]
  exact fun short => names ((List.suffix_append _ _).trans short)

theorem names_of_name? {path name : String} (named : name? path = some name) :
    Names name ∧ '/' ∉ name.toList := by
  obtain ⟨ends, up⟩ := name?_eq_some_iff.mp named
  obtain ⟨⟨some, dot⟩, clean⟩ := clean_core path name (List.mem_of_getLast? ends)
  exact ⟨⟨some, dot, up⟩, clean⟩

theorem steps_append_clean {name : String} (clean : '/' ∉ name.toList) (front : String) :
    ∃ before more, steps (front ++ name) = before ++ [more ++ name] := by
  obtain ⟨pieces, piece, -, joined⟩ := Text.piecesOf_append_clean clean front.toList
  refine ⟨pieces.map String.ofList, String.ofList piece, ?_⟩
  rw [steps, Text.pieces, String.toList_append, joined, List.map_append, List.map_singleton]
  simp

theorem name?_append {path name : String} (named : name? path = some name) (front : String) :
    ∃ more, name? (front ++ name) = some (more ++ name) := by
  obtain ⟨names, clean⟩ := names_of_name? named
  obtain ⟨before, more, joined⟩ := steps_append_clean clean front
  obtain ⟨some, dot, up⟩ := names_append names more
  refine ⟨more, name?_eq_some_iff.mpr ⟨?_, up⟩⟩
  have proper : core [more ++ name] = [more ++ name] :=
    core_of_proper fun x member => List.mem_singleton.mp member ▸ ⟨some, dot⟩
  rw [joined, core_append, proper, List.getLast?_append]
  rfl

end Flowgate.File
