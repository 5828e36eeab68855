import Flowgate.Route.Router
import Mathlib.Data.List.Forall2

/-!
The search for a path. It finds a candidate that matches exactly when there is one, and the one it
finds has a literal where any other that matches first differs from it.
-/

namespace Flowgate.Route.Router

-- The segments that a pattern matches; a parameter that is the last one takes no empty segment.
inductive Matches : List Piece → List String → Prop where
  | nil : Matches [] []
  | literal {segment : String} : Matches pieces rest →
      Matches (.literal segment :: pieces) (segment :: rest)
  | param {segment : String} : segment ≠ "" ∨ rest ≠ [] → Matches pieces rest →
      Matches (.param :: pieces) (segment :: rest)

inductive LiteralFirst : List Piece → List Piece → Prop where
  | here : LiteralFirst (.literal text :: ps) (.param :: qs)
  | later : LiteralFirst ps qs → LiteralFirst (p :: ps) (p :: qs)

theorem LiteralFirst.asymm {ps qs : List Piece} (first : LiteralFirst ps qs) :
    ¬LiteralFirst qs ps := by
  induction first with
  | here => intro back; cases back
  | later _ ih =>
    intro back
    cases back with
    | later back => exact ih back

theorem mem_afterLiteral {segment : String} {candidates : List (List Piece × α)}
    {pieces : List Piece} {a : α} :
    (pieces, a) ∈ afterLiteral segment candidates
      ↔ (.literal segment :: pieces, a) ∈ candidates := by
  unfold afterLiteral
  rw [List.mem_filterMap]
  constructor
  · rintro ⟨⟨ps, b⟩, member, kept⟩
    dsimp only at kept
    split at kept
    · rename_i text rest
      split at kept
      · rename_i same
        cases kept
        subst same
        exact member
      · cases kept
    · cases kept
  · intro member
    exact ⟨_, member, by simp⟩

theorem mem_afterParam {candidates : List (List Piece × α)} {pieces : List Piece} {a : α} :
    (pieces, a) ∈ afterParam candidates ↔ (.param :: pieces, a) ∈ candidates := by
  unfold afterParam
  rw [List.mem_filterMap]
  constructor
  · rintro ⟨⟨ps, b⟩, member, kept⟩
    dsimp only at kept
    split at kept
    · cases kept
      exact member
    · cases kept
  · intro member
    exact ⟨_, member, rfl⟩

theorem search_cons {candidates : List (List Piece × α)} {segment : String} {rest : List String} :
    search candidates (segment :: rest) =
      match search (afterLiteral segment candidates) rest with
      | some a => some a
      | none =>
        if segment.isEmpty && rest.isEmpty then none else search (afterParam candidates) rest := by
  cases candidates with
  | nil =>
    have none (segments : List String) : search ([] : List (List Piece × α)) segments = none := by
      cases segments <;> rfl
    simp [none, afterLiteral, afterParam]
  | cons first others => rfl

theorem search_nil (candidates : List (List Piece × α)) :
    search candidates [] = (candidates.find? (·.1.isEmpty)).map Prod.snd := by
  cases candidates <;> rfl

-- A candidate that matches goes one of the two ways.
theorem matches_cons {pieces : List Piece} {segment : String} {rest : List String}
    (fits : Matches pieces (segment :: rest)) :
    (∃ ps, pieces = .literal segment :: ps ∧ Matches ps rest) ∨
    (∃ ps, pieces = .param :: ps ∧ (segment.isEmpty && rest.isEmpty) = false ∧ Matches ps rest) := by
  cases fits with
  | literal fits => exact .inl ⟨_, rfl, fits⟩
  | param some fits =>
    refine .inr ⟨_, rfl, ?_, fits⟩
    rcases some with some | some <;> simp [some]

theorem search_eq_none {candidates : List (List Piece × α)} {segments : List String}
    (nothing : search candidates segments = none) {pieces : List Piece} {a : α}
    (member : (pieces, a) ∈ candidates) : ¬Matches pieces segments := by
  induction segments generalizing candidates pieces with
  | nil =>
    rintro ⟨⟩
    rw [search_nil, Option.map_eq_none_iff, List.find?_eq_none] at nothing
    exact nothing _ member rfl
  | cons segment rest ih =>
    intro fits
    rw [search_cons] at nothing
    split at nothing
    · cases nothing
    · rename_i literals
      rcases matches_cons fits with ⟨ps, rfl, onward⟩ | ⟨ps, rfl, some, onward⟩
      · exact ih literals (mem_afterLiteral.mpr member) onward
      · rw [some] at nothing
        exact ih nothing (mem_afterParam.mpr member) onward

theorem search_eq_some {candidates : List (List Piece × α)} {segments : List String} {a : α}
    (found : search candidates segments = some a) :
    ∃ ps, (ps, a) ∈ candidates ∧ Matches ps segments ∧
      ∀ qs b, (qs, b) ∈ candidates → Matches qs segments → qs = ps ∨ LiteralFirst ps qs := by
  induction segments generalizing candidates with
  | nil =>
    rw [search_nil, Option.map_eq_some_iff] at found
    obtain ⟨⟨ps, b⟩, first, rfl⟩ := found
    have empty : ps = [] := by simpa using List.find?_some first
    subst empty
    refine ⟨[], List.mem_of_find?_eq_some first, .nil, ?_⟩
    rintro qs b _ ⟨⟩
    exact .inl rfl
  | cons segment rest ih =>
    rw [search_cons] at found
    split at found
    · rename_i b literals
      cases found
      obtain ⟨ps, member, fits, best⟩ := ih literals
      refine ⟨_, mem_afterLiteral.mp member, .literal fits, ?_⟩
      intro qs c other fits'
      rcases matches_cons fits' with ⟨qs, rfl, onward⟩ | ⟨qs, rfl, _, _⟩
      · rcases best qs c (mem_afterLiteral.mpr other) onward with rfl | later
        · exact .inl rfl
        · exact .inr (.later later)
      · exact .inr .here
    · rename_i noLiteral
      split at found
      · cases found
      · rename_i some
        obtain ⟨ps, member, fits, best⟩ := ih found
        have allowed : segment ≠ "" ∨ rest ≠ [] := by
          by_contra both
          obtain ⟨rfl, rfl⟩ := not_or.mp both |>.imp not_not.mp not_not.mp
          exact some rfl
        refine ⟨_, mem_afterParam.mp member, .param allowed fits, ?_⟩
        intro qs c other fits'
        rcases matches_cons fits' with ⟨qs, rfl, onward⟩ | ⟨qs, rfl, _, onward⟩
        · exact absurd onward (search_eq_none noLiteral (mem_afterLiteral.mpr other))
        · rcases best qs c (mem_afterParam.mpr other) onward with rfl | later
          · exact .inl rfl
          · exact .inr (.later later)

/-! ### The paths of a router -/

-- The segments of the request path match the path, those that are empty included.
def Admits (path raw : String) : Prop :=
  ∃ given, requestSegments? raw = some given ∧ Matches (piecesOf path) given

-- The request path matches the path of one of the router's slots.
def Covers (router : Router κ) (raw : String) : Prop := ∃ slot ∈ router.slots, Admits slot.path raw

theorem admits_of_slot? {router : Router κ} {raw : String} {slot : Slot κ}
    (found : router.slot? raw = some slot) : slot ∈ router.slots ∧ Admits slot.path raw := by
  unfold slot? at found
  cases read : requestSegments? raw with
  | none => simp [read] at found
  | some given =>
    simp only [read, bind, Option.bind] at found
    obtain ⟨pieces, member, fits, -⟩ := search_eq_some found
    obtain ⟨other, there, same⟩ := List.mem_map.mp member
    cases same
    exact ⟨there, given, read, fits⟩

theorem covers_iff {router : Router κ} {raw : String} :
    router.Covers raw ↔ ∃ slot, router.slot? raw = some slot := by
  constructor
  · rintro ⟨slot, member, given, read, fits⟩
    have candidate := List.mem_map_of_mem (f := fun slot => (piecesOf slot.path, slot)) member
    simp only [slot?, read, bind, Option.bind]
    cases found : search (router.slots.map fun slot => (piecesOf slot.path, slot)) given with
    | none => exact absurd fits (search_eq_none found candidate)
    | some slot' => exact ⟨slot', rfl⟩
  · rintro ⟨slot, found⟩
    exact ⟨slot, admits_of_slot? found⟩

theorem not_covers_iff {router : Router κ} {raw : String} :
    ¬router.Covers raw ↔ router.slot? raw = none := by
  rw [covers_iff, not_exists, Option.eq_none_iff_forall_ne_some]

end Flowgate.Route.Router
