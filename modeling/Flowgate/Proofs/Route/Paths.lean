import Flowgate.Proofs.Text.Ends
import Flowgate.Proofs.Text.Pieces
import Flowgate.Route.Pattern

/-!
Canonical paths and their joining. Texts joined one below the other make one path of what each of them
has inside its slashes, so joining is associative, the root is its unit, and the path of every endpoint
of a group is canonical.
-/

namespace Flowgate.Route

open Text (trimSlashes Trimmed)

/-! ### Canonical paths -/

-- One slash in front, and none at either end of what follows it.
def Canonical (path : String) : Prop := ∃ body, path = "/" ++ body ∧ Trimmed (· == '/') body.toList

theorem trimmed_slash_iff {cs : List Char} :
    Trimmed (· == '/') cs ↔ cs.head? ≠ some '/' ∧ cs.getLast? ≠ some '/' := by
  constructor
  · intro trimmed
    constructor
    · intro found
      cases trimmed.first '/' found
    · intro found
      cases trimmed.last '/' found
  · intro ⟨first, last⟩
    constructor
    · intro c found
      apply beq_eq_false_iff_ne.mpr
      intro slash
      exact first (slash ▸ found)
    · intro c found
      apply beq_eq_false_iff_ne.mpr
      intro slash
      exact last (slash ▸ found)

theorem canonical_slash_iff {body : String} :
    Canonical ("/" ++ body) ↔ Trimmed (· == '/') body.toList := by
  constructor
  · intro ⟨body', same, trimmed⟩
    have chars := congrArg String.toList same
    simp only [String.toList_append] at chars
    rwa [List.append_cancel_left chars]
  · intro trimmed
    exact ⟨body, rfl, trimmed⟩

theorem head?_intercalate {parts : List String} (full : ∀ p ∈ parts, p ≠ "") :
    ("/".intercalate parts).toList.head? = parts.head?.bind (·.toList.head?) := by
  cases parts with
  | nil => rfl
  | cons first rest =>
    cases rest with
    | nil => simp
    | cons second rest =>
      have some : first.toList ≠ [] := mt String.toList_eq_nil_iff.mp (full first List.mem_cons_self)
      rw [String.intercalate_cons_cons, String.append_assoc, String.toList_append,
        List.head?_append_of_ne_nil _ some]
      rfl

theorem getLast?_intercalate {parts : List String} (full : ∀ p ∈ parts, p ≠ "") :
    ("/".intercalate parts).toList.getLast? = parts.getLast?.bind (·.toList.getLast?) := by
  induction parts with
  | nil => rfl
  | cons first rest ih =>
    have others : ∀ p ∈ rest, p ≠ "" := fun p member => full p (List.mem_cons_of_mem _ member)
    cases rest with
    | nil => simp
    | cons second rest =>
      have some : ("/".intercalate (second :: rest)).toList ≠ [] :=
        mt String.toList_eq_nil_iff.mp (Text.intercalate_ne_empty (List.cons_ne_nil _ _) others)
      rw [String.intercalate_cons_cons, String.toList_append,
        List.getLast?_append_of_ne_nil _ some, ih others]
      rfl

-- Of all parts of a path only the first and the last can keep it from being canonical.
theorem canonical_rooted_iff {parts : List String} (full : ∀ p ∈ parts, p ≠ "") :
    Canonical (rooted parts) ↔
      (∀ p, parts.head? = some p → p.toList.head? ≠ some '/') ∧
      ∀ p, parts.getLast? = some p → p.toList.getLast? ≠ some '/' := by
  rw [rooted, canonical_slash_iff, trimmed_slash_iff, head?_intercalate full,
    getLast?_intercalate full]
  simp only [ne_eq, Option.bind_eq_some_iff, not_exists, not_and]

theorem canonical_rooted {parts : List String}
    (proper : ∀ p ∈ parts, p ≠ "" ∧ Trimmed (· == '/') p.toList) : Canonical (rooted parts) := by
  apply (canonical_rooted_iff fun p member => (proper p member).1).mpr
  constructor
  · intro p found
    exact (trimmed_slash_iff.mp (proper p (List.mem_of_head? found)).2).1
  · intro p found
    exact (trimmed_slash_iff.mp (proper p (List.mem_of_getLast? found)).2).2

/-! ### Joining -/

-- What some texts have inside their slashes. Those that have nothing there are left out.
def cores (texts : List String) : List String := (texts.map trimSlashes).filter (· ≠ "")

-- The path of some texts, each below the one before it.
def nested (texts : List String) : String := rooted (cores texts)

theorem proper_cores (texts : List String) :
    ∀ p ∈ cores texts, p ≠ "" ∧ Trimmed (· == '/') p.toList := by
  intro p member
  obtain ⟨there, some⟩ := List.mem_filter.mp member
  obtain ⟨text, -, rfl⟩ := List.mem_map.mp there
  exact ⟨of_decide_eq_true some, Text.trimSlashes_trimmed text⟩

theorem canonical_nested (texts : List String) : Canonical (nested texts) :=
  canonical_rooted (proper_cores texts)

theorem cores_append (xs ys : List String) : cores (xs ++ ys) = cores xs ++ cores ys := by
  rw [cores, List.map_append, List.filter_append]
  rfl

theorem trimSlashes_nested (texts : List String) :
    trimSlashes (nested texts) = "/".intercalate (cores texts) := by
  have trimmed := canonical_slash_iff.mp (canonical_nested texts)
  rw [nested, rooted, Text.trimSlashes_slash, Text.trimSlashes_of_trimmed trimmed]

theorem join_eq_rooted (base path : String) : join base path = rooted (cores [base] ++ cores [path]) := by
  rw [← cores_append]
  rfl

theorem cores_nested (texts : List String) :
    cores [nested texts] = if cores texts = [] then [] else ["/".intercalate (cores texts)] := by
  rw [cores, List.map_singleton, trimSlashes_nested]
  by_cases none : cores texts = []
  · rw [none]
    rfl
  · have some := Text.intercalate_ne_empty none fun p member => (proper_cores texts p member).1
    simp [none, some]

theorem join_nested (xs ys : List String) : join (nested xs) (nested ys) = nested (xs ++ ys) := by
  rw [join_eq_rooted, cores_nested, cores_nested, nested, cores_append]
  by_cases none : cores xs = []
  · by_cases none' : cores ys = [] <;> simp [none, none', rooted]
  · by_cases none' : cores ys = []
    · simp [none, none', rooted]
    · simp [none, none', rooted, String.intercalate_append_of_ne_nil]

theorem cores_nested_singleton (path : String) : cores [nested [path]] = cores [path] := by
  rw [cores_nested]
  by_cases none : trimSlashes path = "" <;> simp [cores, none]

theorem join_below (texts : List String) (path : String) :
    join (nested texts) path = nested (texts ++ [path]) := by
  rw [← join_nested, join_eq_rooted, join_eq_rooted, cores_nested_singleton]

theorem join_above (base : String) (texts : List String) :
    join base (nested texts) = nested (base :: texts) := by
  rw [← List.singleton_append, ← join_nested, join_eq_rooted, join_eq_rooted,
    cores_nested_singleton]

theorem join_eq_nested (base path : String) : join base path = nested [base, path] := rfl

theorem join_assoc (a b c : String) : join (join a b) c = join a (join b c) := by
  rw [join_eq_nested a b, join_below, join_eq_nested b c, join_above]
  rfl

theorem cores_root : cores ["/"] = [] := by
  decide

-- The root is no prefix at all.
theorem join_root (path : String) : join "/" path = nested [path] := by
  rw [join_eq_rooted, cores_root, List.nil_append, nested]

theorem join_root_right (path : String) : join path "/" = nested [path] := by
  rw [join_eq_rooted, cores_root, List.append_nil, nested]

theorem nested_of_canonical {path : String} (canonical : Canonical path) : nested [path] = path := by
  obtain ⟨body, rfl, trimmed⟩ := canonical
  have inside : trimSlashes ("/" ++ body) = body := by
    rw [Text.trimSlashes_slash, Text.trimSlashes_of_trimmed trimmed]
  by_cases none : body = ""
  · subst none
    decide
  · simp [nested, cores, inside, none, rooted]

theorem join_join_root (base path : String) : join (join "/" base) path = join base path := by
  rw [join_root, join_below]
  rfl

theorem canonical_join (base path : String) : Canonical (join base path) :=
  canonical_nested [base, path]

mutual

theorem canonical_endpoints_entry (base : String) (entry : Entry κ) :
    ∀ e ∈ entry.endpointsBelow base, Canonical e.path := by
  cases entry with
  | route method path handler origin =>
    intro e member
    rw [Entry.endpointsBelow, List.mem_singleton] at member
    subst member
    exact canonical_join base path
  | group path entries =>
    rw [Entry.endpointsBelow]
    exact canonical_endpointsBelow (join base path) entries

theorem canonical_endpointsBelow (base : String) (entries : List (Entry κ)) :
    ∀ e ∈ endpointsBelow base entries, Canonical e.path := by
  cases entries with
  | nil => simp [endpointsBelow]
  | cons entry rest =>
    intro e member
    rw [endpointsBelow] at member
    rcases List.mem_append.mp member with here | there
    · exact canonical_endpoints_entry base entry e here
    · exact canonical_endpointsBelow base rest e there

end

theorem canonical_endpoints (g : Group κ) : ∀ e ∈ g.endpoints, Canonical e.path :=
  canonical_endpointsBelow "/" g

/-! ### Segments -/

theorem segments_proper (path : String) : ∀ s ∈ segments path, s ≠ "" ∧ '/' ∉ s.toList := by
  intro s member
  obtain ⟨there, some⟩ := List.mem_filter.mp member
  exact ⟨of_decide_eq_true some, Text.not_mem_pieces path s there⟩

theorem segments_slash (body : String) :
    segments ("/" ++ body) = (Text.pieces '/' body).filter (· ≠ "") := by
  rw [segments, Text.pieces_slash]
  rfl

-- Parts that are neither empty nor hold a slash are the segments of their path.
theorem segments_rooted {parts : List String} (proper : ∀ p ∈ parts, p ≠ "" ∧ '/' ∉ p.toList) :
    segments (rooted parts) = parts := by
  rw [rooted, segments_slash]
  by_cases none : parts = []
  · rw [none]
    rfl
  · rw [Text.pieces_intercalate none fun p member => (proper p member).2, List.filter_eq_self]
    exact fun p member => decide_eq_true (proper p member).1

-- An accepted path is the path of its segments.
theorem rooted_segments {path : String} (canonical : Canonical path)
    (full : hasEmptySegment path = false) : rooted (segments path) = path := by
  obtain ⟨body, rfl, trimmed⟩ := canonical
  by_cases none : body = ""
  · subst none
    decide
  · have notRoot : "/" ++ body ≠ "/" := by
      intro same
      have := congrArg String.toList same
      exact none (by simpa [String.toList_append] using this)
    have start : Text.trimStart (· == '/') ("/" ++ body) = body := by
      rw [Text.trimStart, String.toList_append]
      show String.ofList ((('/' :: body.toList)).dropWhile _) = body
      rw [List.dropWhile_cons_of_pos rfl, Text.dropWhile_of_first trimmed.first,
        String.ofList_toList]
    have allFull : "" ∉ Text.pieces '/' body := by
      simpa [hasEmptySegment, notRoot, start] using full
    have kept : (Text.pieces '/' body).filter (· ≠ "") = Text.pieces '/' body := by
      rw [List.filter_eq_self]
      intro piece member
      exact decide_eq_true fun same => allFull (same ▸ member)
    rw [segments_slash, kept, rooted, Text.intercalate_pieces]

end Flowgate.Route
