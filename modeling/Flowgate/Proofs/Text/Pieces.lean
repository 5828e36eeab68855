import Flowgate.Text.Split
import Mathlib.Data.List.Infix

/-!
Pieces of a text: cutting at a separator undoes joining, so a joined text has one list of pieces, and
cutting at the first or the last separator gives the two parts around it.
-/

namespace Flowgate.Text

theorem not_mem_piecesOf (sep : Char) (cs : List Char) : ∀ piece ∈ piecesOf sep cs, sep ∉ piece := by
  induction cs with
  | nil => simp [piecesOf]
  | cons c cs ih =>
    by_cases here : c = sep
    · simpa [piecesOf, here] using ih
    · rw [piecesOf, if_neg here]
      cases rest : piecesOf sep cs with
      | nil => simpa using Ne.symm here
      | cons piece pieces =>
        rw [rest] at ih
        intro part member
        rcases List.mem_cons.mp member with rfl | there
        · have clean := ih piece List.mem_cons_self
          simpa [Ne.symm here] using clean
        · exact ih part (List.mem_cons_of_mem _ there)

theorem piecesOf_of_not_mem {sep : Char} {cs : List Char} (clean : sep ∉ cs) :
    piecesOf sep cs = [cs] := by
  induction cs with
  | nil => rfl
  | cons c cs ih =>
    obtain ⟨here, there⟩ := not_or.mp (mt List.mem_cons.mpr clean)
    rw [piecesOf, if_neg (Ne.symm here), ih there]

theorem piecesOf_append (sep : Char) (xs ys : List Char) :
    piecesOf sep (xs ++ sep :: ys) = piecesOf sep xs ++ piecesOf sep ys := by
  induction xs with
  | nil => simp [piecesOf]
  | cons c xs ih =>
    by_cases here : c = sep
    · rw [List.cons_append, piecesOf, if_pos here, piecesOf, if_pos here, ih, List.cons_append]
    · rw [List.cons_append, piecesOf, if_neg here, piecesOf, if_neg here, ih]
      cases first : piecesOf sep xs with
      | nil => exact absurd first (piecesOf_ne_nil sep xs)
      | cons piece pieces => rfl

theorem piecesOf_clean_append {sep : Char} {front : List Char} (clean : sep ∉ front)
    (cs : List Char) :
    ∃ piece rest, piecesOf sep cs = piece :: rest ∧
      piecesOf sep (front ++ cs) = (front ++ piece) :: rest := by
  induction front with
  | nil =>
    obtain ⟨piece, rest, whole⟩ := List.exists_cons_of_ne_nil (piecesOf_ne_nil sep cs)
    exact ⟨piece, rest, whole, whole⟩
  | cons c front ih =>
    obtain ⟨here, there⟩ := not_or.mp (mt List.mem_cons.mpr clean)
    obtain ⟨piece, rest, whole, joined⟩ := ih there
    refine ⟨piece, rest, whole, ?_⟩
    rw [List.cons_append, piecesOf, if_neg (Ne.symm here), joined]
    rfl

theorem piecesOf_append_clean {sep : Char} {back : List Char} (clean : sep ∉ back)
    (cs : List Char) :
    ∃ pieces piece, piecesOf sep cs = pieces ++ [piece] ∧
      piecesOf sep (cs ++ back) = pieces ++ [piece ++ back] := by
  induction cs with
  | nil => exact ⟨[], [], rfl, piecesOf_of_not_mem clean⟩
  | cons c cs ih =>
    obtain ⟨pieces, piece, whole, joined⟩ := ih
    by_cases here : c = sep
    · refine ⟨[] :: pieces, piece, ?_, ?_⟩
      · rw [piecesOf, if_pos here, whole, List.cons_append]
      · rw [List.cons_append, piecesOf, if_pos here, joined, List.cons_append]
    · rw [List.cons_append, piecesOf, if_neg here, whole, piecesOf, if_neg here, joined]
      cases pieces with
      | nil => exact ⟨[], c :: piece, rfl, rfl⟩
      | cons first pieces => exact ⟨(c :: first) :: pieces, piece, rfl, rfl⟩

theorem pieces_append (a b : String) :
    pieces '/' (a ++ "/" ++ b) = pieces '/' a ++ pieces '/' b := by
  have chars : (a ++ "/" ++ b).toList = a.toList ++ '/' :: b.toList := by simp
  rw [pieces, chars, piecesOf_append, List.map_append]
  rfl

theorem intercalate_cons_cons (sep first second : List α) (rest : List (List α)) :
    sep.intercalate (first :: second :: rest)
      = first ++ (sep ++ sep.intercalate (second :: rest)) := by
  simp [List.intercalate, List.intersperse]

theorem pieces_of_not_mem {s : String} (clean : '/' ∉ s.toList) : pieces '/' s = [s] := by
  rw [pieces, piecesOf_of_not_mem clean, List.map_singleton, String.ofList_toList]

theorem not_mem_pieces (s : String) : ∀ piece ∈ pieces '/' s, '/' ∉ piece.toList := by
  intro piece member
  obtain ⟨cs, there, rfl⟩ := List.mem_map.mp member
  rw [String.toList_ofList]
  exact not_mem_piecesOf '/' s.toList cs there

-- Cutting a joined text cuts each of its parts.
theorem pieces_joined {parts : List String} (some : parts ≠ []) :
    pieces '/' ("/".intercalate parts) = parts.flatMap (pieces '/') := by
  induction parts with
  | nil => exact absurd rfl some
  | cons first parts ih =>
    cases parts with
    | nil => simp
    | cons second rest =>
      rw [String.intercalate_cons_cons, pieces_append, ih (List.cons_ne_nil _ _)]
      rfl

theorem flatMap_pieces_eq_iff {parts : List String} :
    parts.flatMap (pieces '/') = parts ↔ ∀ part ∈ parts, '/' ∉ part.toList := by
  constructor
  · intro same part member
    rw [← same] at member
    obtain ⟨whole, -, there⟩ := List.mem_flatMap.mp member
    exact not_mem_pieces whole part there
  · intro clean
    induction parts with
    | nil => rfl
    | cons first parts ih =>
      rw [List.flatMap_cons, pieces_of_not_mem (clean first List.mem_cons_self),
        ih fun part member => clean part (List.mem_cons_of_mem _ member), List.singleton_append]

theorem pieces_intercalate {parts : List String} (some : parts ≠ [])
    (clean : ∀ part ∈ parts, '/' ∉ part.toList) : pieces '/' ("/".intercalate parts) = parts := by
  rw [pieces_joined some, flatMap_pieces_eq_iff.mpr clean]

theorem intercalate_pieces (s : String) : "/".intercalate (pieces '/' s) = s := by
  apply String.toList_injective
  have joined : ("/".intercalate (pieces '/' s)).toList
      = ['/'].intercalate ((pieces '/' s).map String.toList) := String.toList_intercalate
  rw [joined, pieces, List.map_map]
  simpa [Function.comp_def] using join_pieces '/' s.toList

theorem pieces_ne_nil (s : String) : pieces '/' s ≠ [] := by
  simpa [pieces] using piecesOf_ne_nil '/' s.toList

theorem pieces_slash (s : String) : pieces '/' ("/" ++ s) = "" :: pieces '/' s := by
  rw [pieces, String.toList_append]
  show ((piecesOf '/' ('/' :: s.toList)).map String.ofList) = _
  rw [piecesOf, if_pos rfl]
  rfl

theorem intercalate_ne_empty {parts : List String} (some : parts ≠ [])
    (full : ∀ part ∈ parts, part ≠ "") : "/".intercalate parts ≠ "" := by
  obtain ⟨first, rest, rfl⟩ := List.exists_cons_of_ne_nil some
  cases rest with
  | nil => simpa using full first List.mem_cons_self
  | cons second rest =>
    rw [String.intercalate_cons_cons]
    simp

-- Parts that are neither empty nor hold a slash can be read off what they are joined to.
theorem intercalate_inj {xs ys : List String}
    (left : ∀ x ∈ xs, x ≠ "" ∧ '/' ∉ x.toList) (right : ∀ y ∈ ys, y ≠ "" ∧ '/' ∉ y.toList)
    (same : "/".intercalate xs = "/".intercalate ys) : xs = ys := by
  have empty {zs : List String} (proper : ∀ z ∈ zs, z ≠ "" ∧ '/' ∉ z.toList)
      (joined : "/".intercalate zs = "") : zs = [] := by
    by_contra some
    exact intercalate_ne_empty some (fun z member => (proper z member).1) joined
  by_cases none : xs = []
  · subst none
    exact (empty right (by rw [← same]; rfl)).symm
  · by_cases none' : ys = []
    · subst none'
      exact empty left (by rw [same]; rfl)
    · rw [← pieces_intercalate none fun x member => (left x member).2, same,
        pieces_intercalate none' fun y member => (right y member).2]

theorem append_sep_middle {sep : Char} {a b a' b' : String} {middle : List Char}
    (front : a'.toList = a.toList ++ middle) (back : sep :: b.toList = middle ++ sep :: b'.toList) :
    (a = a' ∧ b = b') ∨ ∃ more : String,
      a'.toList = a.toList ++ sep :: more.toList ∧ b.toList = more.toList ++ sep :: b'.toList := by
  cases middle with
  | nil =>
    rw [List.append_nil] at front
    obtain ⟨-, rest⟩ := List.cons.inj back
    exact .inl ⟨(String.toList_injective front).symm, String.toList_injective rest⟩
  | cons c more =>
    obtain ⟨rfl, rest⟩ : sep = c ∧ b.toList = more ++ sep :: b'.toList := List.cons.inj back
    refine .inr ⟨String.ofList more, ?_, ?_⟩
    · rw [front, String.toList_ofList]
    · rw [rest, String.toList_ofList]

-- Two texts that are the same are cut at the same separator, or one of them at one before the
-- other's.
theorem append_sep_eq {sep : Char} {a b a' b' : String}
    (same : a.toList ++ sep :: b.toList = a'.toList ++ sep :: b'.toList) :
    (a = a' ∧ b = b') ∨
      (∃ more : String, a'.toList = a.toList ++ sep :: more.toList ∧
        b.toList = more.toList ++ sep :: b'.toList) ∨
      ∃ more : String, a.toList = a'.toList ++ sep :: more.toList ∧
        b'.toList = more.toList ++ sep :: b.toList := by
  rcases List.append_eq_append_iff.mp same with ⟨middle, front, back⟩ | ⟨middle, front, back⟩
  · exact (append_sep_middle front back).imp_right .inl
  · rcases append_sep_middle front back with ⟨rfl, rfl⟩ | longer
    · exact .inl ⟨rfl, rfl⟩
    · exact .inr (.inr longer)

-- The first separator is the one with none before it.
theorem splitFirst_eq_some {s a b : String} {sep : Char} :
    splitFirst sep s = some (a, b) ↔
      s.toList = a.toList ++ sep :: b.toList ∧ sep ∉ a.toList := by
  simp only [splitFirst, Option.map_eq_some_iff, Prod.mk.injEq]
  constructor
  · intro ⟨⟨before, after⟩, cut, front, back⟩
    rw [← front, ← back, String.toList_ofList, String.toList_ofList]
    exact cutFirst_eq_some.mp cut
  · intro found
    exact ⟨_, cutFirst_eq_some.mpr found, String.ofList_toList, String.ofList_toList⟩

theorem splitFirst_eq_none {s : String} {sep : Char} :
    splitFirst sep s = none ↔ sep ∉ s.toList := by
  constructor
  · intro none member
    obtain ⟨front, back, whole, clean⟩ := List.eq_append_cons_of_mem member
    have found : splitFirst sep s = some (String.ofList front, String.ofList back) := by
      apply splitFirst_eq_some.mpr
      rw [String.toList_ofList, String.toList_ofList]
      exact ⟨whole, clean⟩
    rw [none] at found
    cases found
  · intro clean
    cases found : splitFirst sep s with
    | none => rfl
    | some parts =>
      have whole := (splitFirst_eq_some.mp found).1
      exact absurd (by rw [whole]; simp) clean

-- The last separator is the one with none after it.
theorem splitLast_eq_some {s a b : String} {sep : Char} :
    splitLast sep s = some (a, b) ↔
      s.toList = a.toList ++ sep :: b.toList ∧ sep ∉ b.toList := by
  unfold splitLast cutLast
  simp only [Option.map_map, Option.map_eq_some_iff, Function.comp_def, Prod.mk.injEq]
  constructor
  · rintro ⟨⟨after, before⟩, cut, rfl, rfl⟩
    obtain ⟨whole, clean⟩ := cutFirst_eq_some.mp cut
    simp only [String.toList_ofList]
    refine ⟨?_, by simpa using clean⟩
    rw [← List.reverse_reverse s.toList, whole]
    simp
  · rintro ⟨whole, clean⟩
    refine ⟨(b.toList.reverse, a.toList.reverse), cutFirst_eq_some.mpr ⟨?_, ?_⟩, ?_, ?_⟩
    · rw [whole]
      simp
    · simpa using clean
    · simp
    · simp

end Flowgate.Text
