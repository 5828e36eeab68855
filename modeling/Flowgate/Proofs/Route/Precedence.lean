import Flowgate.Proofs.Route.Slots
import Flowgate.Proofs.Route.Search

/-!
Precedence among the paths that fit a request: a literal beats a parameter where two of them first
differ. Accepted paths are ordered by it, so one of those that fit is the best.
-/

namespace Flowgate.Route

-- A parameter takes any segment, a literal only its own.
def Takes (segment given : String) : Prop := (param? segment).isSome = true ∨ segment = given

-- A path fits a request path with as many segments, if its literals are the request's segments.
def Fits (path raw : String) : Prop :=
  raw.toList.head? = some '/' ∧ List.Forall₂ Takes (segments path) (segments raw)

-- A request path without empty segments, apart from the root.
def Plain (raw : String) : Prop :=
  raw = "/" ∨ ∀ given, Router.requestSegments? raw = some given → "" ∉ given

-- The first path is literal at the first segment where the two differ.
def Outranks (path other : String) : Prop :=
  ∃ common s t ps qs, segments path = common ++ s :: ps ∧ segments other = common ++ t :: qs ∧
    s ≠ t ∧ param? s = none

structure Best (es : List (Endpoint κ)) (raw path : String) : Prop where
  there : ∃ e ∈ es, e.path = path
  fits : Fits path raw
  outranks : ∀ e ∈ es, Fits e.path raw → e.path ≠ path → Outranks path e.path

theorem first_difference {xs ys : List String} {given : List String}
    (left : List.Forall₂ Takes xs given) (right : List.Forall₂ Takes ys given) (ne : xs ≠ ys) :
    ∃ common s t ps qs, xs = common ++ s :: ps ∧ ys = common ++ t :: qs ∧ s ≠ t := by
  induction left generalizing ys with
  | nil =>
    cases right
    exact absurd rfl ne
  | cons _ _ ih =>
    rename_i x g xs given _ _
    cases right with
    | @cons y _ ys _ _ rest =>
      by_cases same : x = y
      · subst same
        have tails : xs ≠ ys := fun equal => ne (equal ▸ rfl)
        obtain ⟨common, s, t, ps, qs, rfl, rfl, apart⟩ := ih rest tails
        exact ⟨x :: common, s, t, ps, qs, rfl, rfl, apart⟩
      · exact ⟨[], x, y, xs, ys, rfl, rfl, same⟩

theorem first_difference_unique {common common' : List String} {s s' t t' : String}
    {ps ps' qs qs' : List String} (left : common ++ s :: ps = common' ++ s' :: ps')
    (right : common ++ t :: qs = common' ++ t' :: qs') (apart : s ≠ t) (apart' : s' ≠ t') :
    s = s' ∧ t = t' := by
  induction common generalizing common' with
  | nil =>
    cases common' with
    | nil => exact ⟨(List.cons.inj left).1, (List.cons.inj right).1⟩
    | cons c common' =>
      exact absurd ((List.cons.inj left).1.trans (List.cons.inj right).1.symm) apart
  | cons c common ih =>
    cases common' with
    | nil => exact absurd ((List.cons.inj left).1.symm.trans (List.cons.inj right).1) apart'
    | cons d common' => exact ih (List.cons.inj left).2 (List.cons.inj right).2

-- At the first difference both segments take the same one, so they are not both literal.
theorem takes_first {common ps qs given : List String} {s t : String}
    (left : List.Forall₂ Takes (common ++ s :: ps) given)
    (right : List.Forall₂ Takes (common ++ t :: qs) given) : ∃ g, Takes s g ∧ Takes t g := by
  induction common generalizing given with
  | nil =>
    cases left with
    | cons here _ =>
      cases right with
      | cons there _ => exact ⟨_, here, there⟩
  | cons c common ih =>
    cases left with
    | cons _ left =>
      cases right with
      | cons _ right => exact ih left right

theorem literal_eq {s g : String} (takes : Takes s g) (plain : param? s = none) : s = g := by
  rcases takes with named | same
  · rw [plain] at named
    cases named
  · exact same

theorem Outranks.param {path other raw : String} {common ps qs : List String} {s t : String}
    (fits : Fits path raw) (fits' : Fits other raw) (here : segments path = common ++ s :: ps)
    (there : segments other = common ++ t :: qs) (apart : s ≠ t) (plain : param? s = none) :
    (param? t).isSome = true := by
  obtain ⟨g, first, second⟩ := takes_first (here ▸ fits.2) (there ▸ fits'.2)
  rcases second with named | same
  · exact named
  · exact absurd ((literal_eq first plain).trans same.symm) apart

theorem Outranks.asymm {path other raw : String} (fits : Fits path raw) (fits' : Fits other raw)
    (above : Outranks path other) : ¬Outranks other path := by
  rintro ⟨common', t', s', qs', ps', here', there', apart', plain'⟩
  obtain ⟨common, s, t, ps, qs, here, there, apart, plain⟩ := above
  have named := Outranks.param fits fits' here there apart plain
  have second := (first_difference_unique (here ▸ there') (there ▸ here') apart apart'.symm).2
  rw [second, plain'] at named
  cases named

theorem WellShaped.outranks_or {es : List (Endpoint κ)} (shaped : WellShaped es)
    (canonical : ∀ e ∈ es, Canonical e.path) {e f : Endpoint κ} (left : e ∈ es) (right : f ∈ es)
    {raw : String} (fits : Fits e.path raw) (fits' : Fits f.path raw) (ne : e.path ≠ f.path) :
    Outranks e.path f.path ∨ Outranks f.path e.path := by
  have segs : segments e.path ≠ segments f.path :=
    fun same => ne (shaped.path_of_segments canonical left right same)
  obtain ⟨common, s, t, ps, qs, here, there, apart⟩ := first_difference fits.2 fits'.2 segs
  cases first : param? s with
  | none => exact .inl ⟨common, s, t, ps, qs, here, there, apart, first⟩
  | some a =>
    cases second : param? t with
    | none => exact .inr ⟨common, t, s, qs, ps, there, here, apart.symm, second⟩
    | some b =>
      exact absurd (shaped.param_eq left right here there (first ▸ rfl) (second ▸ rfl)) apart

theorem Best.unique {es : List (Endpoint κ)} {raw path other : String} (best : Best es raw path)
    (best' : Best es raw other) : other = path := by
  by_contra ne
  obtain ⟨e, left, rfl⟩ := best.there
  obtain ⟨f, right, rfl⟩ := best'.there
  exact Outranks.asymm best.fits best'.fits (best.outranks f right best'.fits ne)
    (best'.outranks e left best.fits (Ne.symm ne))

theorem Best.of_mem {es fs : List (Endpoint κ)} (same : ∀ e, e ∈ es ↔ e ∈ fs) {raw path : String}
    (best : Best es raw path) : Best fs raw path := by
  obtain ⟨e, member, equal⟩ := best.there
  exact ⟨⟨e, (same e).mp member, equal⟩, best.fits,
    fun f there => best.outranks f ((same f).mpr there)⟩

/-! ### The search and precedence -/

namespace Router

def pieceOf (segment : String) : Piece :=
  if (param? segment).isSome then .param else .literal segment

theorem piecesOf_eq (path : String) :
    piecesOf path
      = if segments path = [] then [.literal ""] else (segments path).map pieceOf := by
  unfold piecesOf
  split
  · rename_i none
    rw [if_pos none]
  · rename_i some
    rw [if_neg some]
    rfl

theorem takes_of_matches {segs given : List String} (fits : Matches (segs.map pieceOf) given) :
    List.Forall₂ Takes segs given := by
  induction segs generalizing given with
  | nil =>
    cases fits
    exact .nil
  | cons s segs ih =>
    rw [List.map_cons, pieceOf] at fits
    by_cases named : (param? s).isSome
    · rw [if_pos named] at fits
      cases fits with
      | param _ onward => exact .cons (.inl named) (ih onward)
    · rw [if_neg named] at fits
      cases fits with
      | literal onward => exact .cons (.inr rfl) (ih onward)

theorem matches_map_iff {segs given : List String} (full : "" ∉ given) :
    Matches (segs.map pieceOf) given ↔ List.Forall₂ Takes segs given := by
  refine ⟨takes_of_matches, fun takes => ?_⟩
  induction takes with
  | nil => exact .nil
  | @cons s g segs given takes _ ih =>
    obtain ⟨some, rest⟩ := not_or.mp (mt List.mem_cons.mpr full)
    have onward := ih rest
    rw [List.map_cons, pieceOf]
    by_cases named : (param? s).isSome
    · rw [if_pos named]
      exact .param (.inl (Ne.symm some)) onward
    · rw [if_neg named]
      rcases takes with other | rfl
      · exact absurd other named
      · exact .literal onward

theorem requestSegments?_slash (rest : String) :
    requestSegments? ("/" ++ rest) = some (Text.pieces '/' rest) := by
  rw [requestSegments?, String.toList_append]
  rfl

-- The root asks for one empty segment.
theorem requestSegments?_rooted {parts : List String} (clean : ∀ p ∈ parts, '/' ∉ p.toList) :
    requestSegments? (rooted parts) = some (if parts = [] then [""] else parts) := by
  rw [rooted, requestSegments?_slash]
  by_cases none : parts = []
  · rw [if_pos none, none]
    rfl
  · rw [if_neg none, Text.pieces_intercalate none clean]

theorem eq_slash_of_head {raw : String} (head : raw.toList.head? = some '/') :
    ∃ rest, raw = "/" ++ rest := by
  cases chars : raw.toList with
  | nil => rw [chars] at head; cases head
  | cons c cs =>
    rw [chars] at head
    cases head
    refine ⟨String.ofList cs, String.toList_injective ?_⟩
    simp [chars]

theorem requestSegments?_head {raw : String} {given : List String}
    (read : requestSegments? raw = some given) : raw.toList.head? = some '/' := by
  unfold requestSegments? at read
  split at read
  · rename_i chars
    rw [chars]
    rfl
  · cases read

-- On a plain request path, what the search matches is what fits.
theorem matches_iff_fits {path raw : String} {given : List String} (plain : Plain raw)
    (read : requestSegments? raw = some given) :
    Matches (piecesOf path) given ↔ Fits path raw := by
  have head := requestSegments?_head read
  obtain ⟨rest, rfl⟩ := eq_slash_of_head head
  rw [requestSegments?_slash] at read
  cases read
  have fits : Fits path ("/" ++ rest)
      ↔ List.Forall₂ Takes (segments path) (segments ("/" ++ rest)) := by
    simp only [Fits, head, true_and]
  rw [fits, piecesOf_eq]
  rcases plain with root | full
  · have none : rest = "" := by
      have chars : "/".toList ++ rest.toList = "/".toList ++ [] := by
        rw [← String.toList_append, root, List.append_nil]
      exact String.toList_injective (List.append_cancel_left chars)
    subst none
    have pieces : Text.pieces '/' "" = [""] := by decide
    have segs : segments ("/" ++ "") = [] := by decide
    rw [pieces, segs]
    by_cases none : segments path = []
    · rw [if_pos none, none]
      exact ⟨fun _ => .nil, fun _ => .literal .nil⟩
    · rw [if_neg none]
      cases some : segments path with
      | nil => exact absurd some none
      | cons s segs =>
        constructor
        · intro fits
          rw [List.map_cons, pieceOf] at fits
          by_cases named : (param? s).isSome
          · rw [if_pos named] at fits
            cases fits with
            | param allowed _ => exact absurd allowed (by simp)
          · rw [if_neg named] at fits
            have proper := (segments_proper path s (some ▸ List.mem_cons_self)).1
            cases fits
            exact absurd rfl proper
        · rintro ⟨⟩
  · have given := full _ (requestSegments?_slash rest)
    have segs : segments ("/" ++ rest) = Text.pieces '/' rest := by
      rw [segments_slash, List.filter_eq_self]
      intro piece member
      exact decide_eq_true fun same => given (same ▸ member)
    rw [segs]
    by_cases none : segments path = []
    · rw [if_pos none, none]
      constructor
      · intro fits
        cases fits' : Text.pieces '/' rest with
        | nil => exact .nil
        | cons g gs =>
          rw [fits'] at fits given
          cases fits
          exact absurd List.mem_cons_self given
      · intro fits
        cases fits' : Text.pieces '/' rest with
        | nil => exact absurd fits' (Text.pieces_ne_nil rest)
        | cons g gs => rw [fits'] at fits; cases fits
    · rw [if_neg none, matches_map_iff given]

theorem literalFirst_of_outranks {path other raw : String} (fits : Fits path raw)
    (fits' : Fits other raw) (above : Outranks path other) :
    LiteralFirst (piecesOf path) (piecesOf other) := by
  obtain ⟨common, s, t, ps, qs, here, there, apart, plain⟩ := above
  have named := Outranks.param fits fits' here there apart plain
  rw [piecesOf_eq, piecesOf_eq, here, there, if_neg (by simp), if_neg (by simp), List.map_append,
    List.map_append, List.map_cons, List.map_cons]
  have first : pieceOf s = .literal s := by simp [pieceOf, plain]
  have second : pieceOf t = .param := by simp [pieceOf, named]
  rw [first, second]
  induction common.map pieceOf with
  | nil => exact .here
  | cons p _ ih => exact .later ih

end Router

end Flowgate.Route
