import Flowgate.Proofs.Route.Serving
import Mathlib.Data.List.Perm.Subperm

/-!
Filled paths: a path with a value in place of its parameters. If the value occurs in no path, then a
path is the best of its router for what it is filled to, and what another path fits when filled, it
fits always.
-/

namespace Flowgate.Route

open Router (Admits Matches piecesOf pieceOf requestSegments?)

variable {value path : String}

def fillSegment (value segment : String) : String :=
  if (param? segment).isSome then value else segment

def fill (value path : String) : String := rooted ((segments path).map (fillSegment value))

-- What may stand as one segment of a request path.
def IsSegment (value : String) : Prop := value ≠ "" ∧ '/' ∉ value.toList

theorem isSegment_fill (proper : IsSegment value) (path : String) :
    ∀ t ∈ (segments path).map (fillSegment value), IsSegment t := by
  intro t member
  obtain ⟨s, there, rfl⟩ := List.mem_map.mp member
  unfold fillSegment
  split
  · exact proper
  · exact segments_proper path s there

theorem segments_fill (proper : IsSegment value) (path : String) :
    segments (fill value path) = (segments path).map (fillSegment value) :=
  segments_rooted (isSegment_fill proper path)

theorem plain_fill (proper : IsSegment value) (path : String) : Plain (fill value path) := by
  have parts := isSegment_fill proper path
  by_cases none : segments path = []
  · left
    simp [fill, none, rooted]
  · right
    intro given read
    rw [fill, Router.requestSegments?_rooted fun t member => (parts t member).2,
      if_neg (by simpa using none)] at read
    obtain rfl := Option.some.inj read
    exact fun empty => (parts "" empty).1 rfl

theorem head_rooted (parts : List String) : (rooted parts).toList.head? = some '/' := by
  simp [rooted]

theorem fits_iff_fill (proper : IsSegment value) (other path : String) :
    Fits other (fill value path) ↔
      List.Forall₂ (fun s t => Takes s (fillSegment value t)) (segments other) (segments path) := by
  unfold Fits
  rw [segments_fill proper, List.forall₂_map_right_iff, fill]
  simp only [head_rooted, true_and]

theorem takes_fillSegment (value segment : String) : Takes segment (fillSegment value segment) := by
  unfold fillSegment
  split
  · exact .inl ‹_›
  · exact .inr rfl

theorem fits_fill (proper : IsSegment value) (path : String) : Fits path (fill value path) := by
  rw [fits_iff_fill proper]
  exact List.forall₂_same.mpr fun s _ => takes_fillSegment value s

-- A segment that takes the value without being the value is a parameter.
theorem takes_of_fillSegment {s t : String} (takes : Takes s (fillSegment value t))
    (other : s ≠ value) : Takes s t := by
  rcases takes with named | same
  · exact .inl named
  · unfold fillSegment at same
    split at same
    · exact absurd same other
    · exact .inr same

theorem takes_of_fits {other : String} (proper : IsSegment value) (fresh : value ∉ segments other)
    (fits : Fits other (fill value path)) :
    List.Forall₂ Takes (segments other) (segments path) := by
  have each := (List.forall₂_and_left ..).mpr
    ⟨fun s member => (ne_of_mem_of_not_mem member fresh), (fits_iff_fill proper other path).mp fits⟩
  exact each.imp fun s t both => takes_of_fillSegment both.2 both.1

/-! ### Characters -/

theorem mem_intercalate {sep c : Char} {parts : List (List Char)}
    (member : c ∈ [sep].intercalate parts) : c = sep ∨ ∃ part ∈ parts, c ∈ part := by
  induction parts with
  | nil => simp [List.intercalate] at member
  | cons first parts ih =>
    cases parts with
    | nil => exact .inr ⟨first, List.mem_cons_self, by simpa [List.intercalate] using member⟩
    | cons second rest =>
      rw [Text.intercalate_cons_cons, List.singleton_append, List.mem_append, List.mem_cons] at member
      rcases member with here | rfl | there
      · exact .inr ⟨first, List.mem_cons_self, here⟩
      · exact .inl rfl
      · rcases ih there with same | ⟨part, listed, inside⟩
        · exact .inl same
        · exact .inr ⟨part, List.mem_cons_of_mem _ listed, inside⟩

theorem mem_fill {c : Char} (member : c ∈ (fill value path).toList) :
    c = '/' ∨ c ∈ value.toList ∨ ∃ s ∈ segments path, param? s = none ∧ c ∈ s.toList := by
  have joined : (fill value path).toList
      = '/' :: ['/'].intercalate (((segments path).map (fillSegment value)).map String.toList) := by
    simp [fill, rooted, String.toList_append, String.toList_intercalate]
  rw [joined, List.mem_cons] at member
  rcases member with slash | member
  · exact .inl slash
  · rcases mem_intercalate member with slash | ⟨chars, listed, inside⟩
    · exact .inl slash
    · rw [List.map_map, List.mem_map] at listed
      obtain ⟨s, there, rfl⟩ := listed
      rw [Function.comp_apply] at inside
      cases named : param? s with
      | some name => exact .inr (.inl (by simpa [fillSegment, named] using inside))
      | none => exact .inr (.inr ⟨s, there, named, by simpa [fillSegment, named] using inside⟩)

/-! ### Values -/

theorem isDigit_repr {n : Nat} {c : Char} (member : c ∈ n.repr.toList) : c.isDigit = true := by
  rw [Nat.toList_repr] at member
  exact Nat.isDigit_of_mem_toDigits (by omega) (by omega) member

theorem isSegment_repr (n : Nat) : IsSegment n.repr :=
  ⟨Nat.repr_ne_empty, fun slash => absurd (isDigit_repr slash) (by decide)⟩

theorem repr_inj {m n : Nat} (same : m.repr = n.repr) : m = n := by
  have digits : Nat.toDigits 10 m = Nat.toDigits 10 n := by
    rw [← Nat.toList_repr, same, Nat.toList_repr]
  rw [← @Nat.ofDigitChars_ten_toDigits m, digits, Nat.ofDigitChars_ten_toDigits]

-- Some texts do not have all the numbers up to how many they are.
theorem exists_fresh (texts : List String) : ∃ n ≤ texts.length, n.repr ∉ texts := by
  by_contra every
  have all : ∀ n ≤ texts.length, n.repr ∈ texts := by simpa using every
  have apart : ((List.range (texts.length + 1)).map Nat.repr).Nodup :=
    List.nodup_range.map fun _ _ => repr_inj
  have among : (List.range (texts.length + 1)).map Nat.repr ⊆ texts := by
    intro text member
    obtain ⟨n, listed, rfl⟩ := List.mem_map.mp member
    exact all n (Nat.le_of_lt_succ (List.mem_range.mp listed))
  have fewer := (apart.subperm among).length_le
  rw [List.length_map, List.length_range] at fewer
  omega

/-! ### The best path -/

theorem forall₂_at {R : α → β → Prop} {xs xs' : List α} {ys ys' : List β} {x : α} {y : β}
    (all : List.Forall₂ R (xs ++ x :: xs') (ys ++ y :: ys')) (level : xs.length = ys.length) :
    R x y := by
  have rest := List.forall₂_drop xs.length all
  rw [List.drop_left, level, List.drop_left] at rest
  exact (List.forall₂_cons.mp rest).1

namespace Router

variable {es : List (Endpoint κ)} {router : Router κ}

theorem Built.best_fill (built : Built es router) (canonical : ∀ e ∈ es, Canonical e.path)
    (proper : IsSegment value) (fresh : ∀ e ∈ es, value ∉ segments e.path) {e : Endpoint κ}
    (there : e ∈ es) : Best es (fill value e.path) e.path := by
  have own := fits_fill proper e.path
  refine ⟨⟨e, there, rfl⟩, own, fun f member fits ne => ?_⟩
  have takes := takes_of_fits proper (fresh f member) fits
  rcases built.shaped.outranks_or canonical there member own fits (Ne.symm ne) with above | below
  · exact above
  · -- A literal of the other path takes no value of a parameter, and no literal but itself.
    obtain ⟨common, s, t, ps, qs, here, here', apart, plain⟩ := below
    rw [here, here'] at takes
    exact absurd (literal_eq (forall₂_at takes rfl) plain) apart

-- Keys are unique, so an endpoint is the one of its own path and method.
theorem Built.onPath_own (built : Built es router) {e : Endpoint κ} (there : e ∈ es) :
    onPath es e.path e.method = some e := by
  have one := built.one_of_method e.path e.method
  have found : es.find? (fun f => f.path = e.path ∧ f.method = e.method) = some e := by
    cases first : es.find? (fun f => f.path = e.path ∧ f.method = e.method) with
    | none => simpa using List.find?_eq_none.mp first e there
    | some f =>
      have same : f.path = e.path ∧ f.method = e.method := by simpa using List.find?_some first
      have member := List.mem_of_find?_eq_some first
      rw [one f member e there (decide_eq_true same) (by simp)]
  unfold onPath
  rw [found, Option.some_or]

theorem Built.serve_fill (built : Built es router) (canonical : ∀ e ∈ es, Canonical e.path)
    (proper : IsSegment value) (fresh : ∀ e ∈ es, value ∉ segments e.path) {e : Endpoint κ}
    (there : e ∈ es) (invoke : κ → Json.Value → Except String Unit) {r : Http.Request}
    (path : r.uri.path = fill value e.path) (method : r.method = e.method) :
    router.serve invoke r = prescribed invoke r (some e) := by
  have best := built.best_fill canonical proper fresh there
  have plain := plain_fill proper e.path
  rw [← path] at best plain
  rw [built.serve_eq canonical invoke plain best, method, built.onPath_own there]

/-! ### Paths that fit what another path fits -/

theorem matches_of_takes {xs ys given : List String} (wide : List.Forall₂ Takes xs ys)
    (full : "" ∉ ys) (fits : Matches (ys.map pieceOf) given) : Matches (xs.map pieceOf) given := by
  induction wide generalizing given with
  | nil => exact fits
  | @cons x y xs ys takes _ ih =>
    obtain ⟨some, rest⟩ := not_or.mp (mt List.mem_cons.mpr full)
    rw [List.map_cons] at fits ⊢
    rcases takes with named | rfl
    · rw [pieceOf, if_pos named]
      cases found : pieceOf y with
      | param =>
        rw [found] at fits
        cases fits with
        | param allowed onward => exact .param allowed (ih rest onward)
      | literal text =>
        have same : text = y := by
          unfold pieceOf at found
          split at found <;> cases found
          rfl
        rw [found] at fits
        cases fits with
        | literal onward => exact .param (.inl fun none => some (none ▸ same)) (ih rest onward)
    · generalize pieceOf x = piece at fits
      cases fits with
      | literal onward => exact .literal (ih rest onward)
      | param allowed onward => exact .param allowed (ih rest onward)

theorem admits_iff_fits {raw : String} (plain : Plain raw) : Admits path raw ↔ Fits path raw := by
  constructor
  · rintro ⟨given, read, fits⟩
    exact (matches_iff_fits plain read).mp fits
  · intro fits
    obtain ⟨rest, rfl⟩ := eq_slash_of_head fits.1
    have read := requestSegments?_slash rest
    exact ⟨_, read, (matches_iff_fits plain read).mpr fits⟩

theorem admits_fill (proper : IsSegment value) (path : String) : Admits path (fill value path) :=
  (admits_iff_fits (plain_fill proper path)).mpr (fits_fill proper path)

theorem takes_of_filled {other : String} (proper : IsSegment value)
    (fresh : value ∉ segments other) (filled : Admits other (fill value path)) :
    List.Forall₂ Takes (segments other) (segments path) :=
  takes_of_fits proper fresh ((admits_iff_fits (plain_fill proper path)).mp filled)

-- A path that fits another one filled with a value that is none of its own segments fits all that
-- the other does.
theorem admits_of_fill {other path : String} (proper : IsSegment value)
    (fresh : value ∉ segments other) (filled : Admits other (fill value path)) {raw : String}
    (admitted : Admits path raw) : Admits other raw := by
  obtain ⟨given, read, fits⟩ := admitted
  refine ⟨given, read, ?_⟩
  have takes := takes_of_filled proper fresh filled
  have empty : segments other = [] ↔ segments path = [] := by
    rw [← List.length_eq_zero_iff, ← List.length_eq_zero_iff, takes.length_eq]
  rw [piecesOf_eq] at fits ⊢
  by_cases none : segments path = []
  · rw [if_pos none] at fits
    rwa [if_pos (empty.mpr none)]
  · rw [if_neg none] at fits
    rw [if_neg (mt empty.mp none)]
    exact matches_of_takes takes (fun member => (segments_proper path "" member).1 rfl) fits

end Router

end Flowgate.Route
