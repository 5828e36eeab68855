/-!
Cutting a text at a separator: into all its pieces, at the first separator, or at the last one.
The pieces put back together give the text (`join_pieces`).
-/

namespace Flowgate.Text

-- The pieces between separators; there is always at least one.
def piecesOf (sep : Char) : List Char → List (List Char)
  | [] => [[]]
  | c :: cs =>
    if c = sep then [] :: piecesOf sep cs
    else match piecesOf sep cs with
      | [] => [[c]]
      | piece :: rest => (c :: piece) :: rest

def pieces (sep : Char) (s : String) : List String := (piecesOf sep s.toList).map String.ofList

def cutFirst (sep : Char) : List Char → Option (List Char × List Char)
  | [] => none
  | c :: cs =>
    if c = sep then some ([], cs)
    else (cutFirst sep cs).map fun (before, after) => (c :: before, after)

def cutLast (sep : Char) (cs : List Char) : Option (List Char × List Char) :=
  (cutFirst sep cs.reverse).map fun (after, before) => (before.reverse, after.reverse)

def splitFirst (sep : Char) (s : String) : Option (String × String) :=
  (cutFirst sep s.toList).map fun (a, b) => (String.ofList a, String.ofList b)

def splitLast (sep : Char) (s : String) : Option (String × String) :=
  (cutLast sep s.toList).map fun (a, b) => (String.ofList a, String.ofList b)

def occursIn (part : List Char) : List Char → Bool
  | [] => part.isEmpty
  | c :: cs => part.isPrefixOf (c :: cs) || occursIn part cs

def contains (s part : String) : Bool := occursIn part.toList s.toList

-- The text before a character, or all of it.
def before (stop : Char) (s : String) : String := String.ofList (s.toList.takeWhile (· ≠ stop))

-- The text before its first line feed. A carriage return there belongs to the line.
def firstLine (s : String) : String := before '\n' s

theorem piecesOf_ne_nil (sep : Char) (cs : List Char) : piecesOf sep cs ≠ [] := by
  cases cs with
  | nil => simp [piecesOf]
  | cons c cs =>
    by_cases h : c = sep
    · simp [piecesOf, h]
    · simp only [piecesOf, h, if_false]
      cases piecesOf sep cs <;> simp

theorem join_pieces (sep : Char) (cs : List Char) :
    List.intercalate [sep] (piecesOf sep cs) = cs := by
  induction cs with
  | nil => simp [piecesOf, List.intercalate]
  | cons c cs ih =>
    have ne := piecesOf_ne_nil sep cs
    by_cases h : c = sep
    · simp only [piecesOf, h, if_true]
      cases hp : piecesOf sep cs with
      | nil => exact absurd hp ne
      | cons p ps =>
        rw [hp] at ih
        simp [List.intercalate, List.intersperse] at ih ⊢
        exact ih
    · simp only [piecesOf, h, if_false]
      cases hp : piecesOf sep cs with
      | nil => exact absurd hp ne
      | cons p ps =>
        rw [hp] at ih
        cases ps with
        | nil => simp [List.intercalate] at ih ⊢; exact ih
        | cons q qs => simp [List.intercalate] at ih ⊢; exact ih

theorem cutFirst_eq_some {sep : Char} {cs before after : List Char} :
    cutFirst sep cs = some (before, after) ↔ cs = before ++ sep :: after ∧ sep ∉ before := by
  induction cs generalizing before after with
  | nil => simp [cutFirst]
  | cons c cs ih =>
    by_cases h : c = sep
    · subst h
      simp only [cutFirst, if_true, Option.some.injEq, Prod.mk.injEq]
      constructor
      · rintro ⟨rfl, rfl⟩; simp
      · rintro ⟨eq, notIn⟩
        cases before with
        | nil => simpa using eq
        | cons b bs =>
          simp only [List.cons_append, List.cons.injEq] at eq
          simp [eq.1] at notIn
    · simp only [cutFirst, h, if_false, Option.map_eq_some_iff, Prod.mk.injEq]
      constructor
      · rintro ⟨⟨b, a⟩, found, rfl, rfl⟩
        obtain ⟨rfl, notIn⟩ := ih.mp found
        exact ⟨rfl, by simp [notIn, Ne.symm h]⟩
      · rintro ⟨eq, notIn⟩
        cases before with
        | nil => simp at eq; exact absurd eq.1 h
        | cons b bs =>
          simp only [List.cons_append, List.cons.injEq] at eq
          obtain ⟨rfl, rfl⟩ := eq
          exact ⟨(bs, after), ih.mpr ⟨rfl, fun m => notIn (List.mem_cons_of_mem _ m)⟩, rfl, rfl⟩

end Flowgate.Text
