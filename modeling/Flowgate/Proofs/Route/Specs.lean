import Flowgate.Proofs.Route.Paths
import Flowgate.Route.Spec

/-!
What specs compile to. A compact spec is the fields around its first space, and it compiles exactly
if it has one. Separate fields always compile, to a path of the pieces of the endpoint and then the
parameters. Slashes in the name of a parameter are kept: inside it they make more pieces of it, and
at the end of the last one they end the path.
-/

namespace Flowgate.Route

open Text (trim trimSlashes Trimmed pieces)

/-! ### Compact specs -/

section

variable {s m e : String}

-- A text without blanks at its ends has something before its first space.
theorem exists_solid (cut : trim s = m ++ " " ++ e) : ∃ c ∈ m.toList, Text.isBlank c = false := by
  have chars : (trim s).toList = m.toList ++ ' ' :: e.toList := by simp [cut]
  cases front : m.toList with
  | nil =>
    have blank := (Text.trim_trimmed s).first ' ' (by rw [chars, front]; rfl)
    cases blank
  | cons c rest =>
    have solid := (Text.trim_trimmed s).first c (by rw [chars, front]; rfl)
    exact ⟨c, List.mem_cons_self, solid⟩

theorem trim_method_ne_empty (cut : trim s = m ++ " " ++ e) : trim m ≠ "" := by
  obtain ⟨c, member, solid⟩ := exists_solid cut
  intro none
  have kept := Text.mem_stripEnds member solid
  have chars := congrArg String.toList none
  rw [trim, String.toList_ofList] at chars
  rw [chars] at kept
  cases kept

theorem canonical_trim (endpoint : String) (params : List String) :
    canonical (trim endpoint) params = canonical endpoint params := by
  rw [canonical, canonical, Text.trim_trim]

theorem compile_uncut (clean : ' ' ∉ (trim s).toList) :
    (Spec.compact s).compile = .error (.compilation s "expected \"METHOD /path\"") := by
  rw [Spec.compile, Text.splitFirst_eq_none.mpr clean]

theorem compile_cut (cut : trim s = m ++ " " ++ e) (first : ' ' ∉ m.toList) :
    (Spec.compact s).compile = .ok (Target.of m (canonical e [])) := by
  have found : Text.splitFirst ' ' (trim s) = some (m, e) :=
    Text.splitFirst_eq_some.mpr ⟨by simp [cut], first⟩
  have some : m.isEmpty = false := by
    obtain ⟨c, member, -⟩ := exists_solid cut
    rw [String.isEmpty_eq_false_iff]
    intro none
    rw [none] at member
    cases member
  rw [Spec.compile, found]
  simp only [some, canonical_trim]
  rfl

theorem compile_fields (given : trim m ≠ "") :
    (Spec.ofFields (some m) (some e) []).compile = .ok (Target.of m (canonical e [])) := by
  have method : (trim m).isEmpty = false := String.isEmpty_eq_false_iff.mpr given
  simp only [Spec.ofFields, Option.getD_some, method, Spec.compile, Target.of, Bool.false_eq_true,
    if_false, Text.trim_trim]

theorem exists_cut (space : ' ' ∈ (trim s).toList) :
    ∃ m e, trim s = m ++ " " ++ e ∧ ' ' ∉ m.toList := by
  obtain ⟨front, back, whole, clean⟩ := List.eq_append_cons_of_mem space
  refine ⟨String.ofList front, String.ofList back, String.toList_injective ?_, ?_⟩
  · simp [whole]
  · rwa [String.toList_ofList]

-- A compact spec is one more way to write two fields.
theorem compile_compact (s : String) :
    ((∃ fault, (Spec.compact s).compile = .error fault) ↔ ' ' ∉ (trim s).toList) ∧
    (∀ fault, (Spec.compact s).compile = .error fault →
      fault = .compilation s "expected \"METHOD /path\"") ∧
    ∀ m e, trim s = m ++ " " ++ e → ' ' ∉ m.toList →
      ∃ t, (Spec.compact s).compile = .ok t ∧
        (Spec.ofFields (some m) (some e) []).compile = .ok t ∧
        t.method ≠ "" ∧ Trimmed Text.isBlank t.method.toList ∧
        ∀ c ∈ t.method.toList, ¬('a' ≤ c ∧ c ≤ 'z') := by
  have uncut (fault : Error) (failed : (Spec.compact s).compile = .error fault) :
      ' ' ∉ (trim s).toList := by
    intro space
    obtain ⟨m, e, cut, first⟩ := exists_cut space
    rw [compile_cut cut first] at failed
    cases failed
  refine ⟨⟨?_, ?_⟩, ?_, ?_⟩
  · intro ⟨fault, failed⟩
    exact uncut fault failed
  · intro clean
    exact ⟨_, compile_uncut clean⟩
  · intro fault failed
    rw [compile_uncut (uncut fault failed)] at failed
    exact (Except.error.inj failed).symm
  · intro m e cut first
    have given := trim_method_ne_empty cut
    refine ⟨_, compile_cut cut first, compile_fields given, ?_, ?_, ?_⟩
    · exact mt Text.eq_empty_of_asciiUpper given
    · exact Text.trimmed_asciiUpper (Text.trim_trimmed m)
    · exact Text.not_lower_asciiUpper _

-- A tab belongs to the method and is trimmed from it; only a space can end it.
theorem compile_compact_tab :
    trim "\u2003get\t //a b/\n" = "get\t" ++ " " ++ "//a b/" ∧ ' ' ∉ "get\t".toList ∧
    (Spec.compact "\u2003get\t //a b/\n").compile = .ok ⟨"GET", "/a b"⟩ ∧
    (Spec.ofFields (some "get\t") (some "//a b/") []).compile = .ok ⟨"GET", "/a b"⟩ ∧
    ' ' ∉ (trim "GET\t/a ").toList ∧
    ∃ fault, (Spec.compact "GET\t/a ").compile = .error fault := by
  have cut : trim "\u2003get\t //a b/\n" = "get\t" ++ " " ++ "//a b/" := by decide +kernel
  have first : ' ' ∉ "get\t".toList := by decide
  have clean : ' ' ∉ (trim "GET\t/a ").toList := by decide +kernel
  obtain ⟨-, -, agrees⟩ := compile_compact "\u2003get\t //a b/\n"
  obtain ⟨t, compiled, fields, -⟩ := agrees _ _ cut first
  have target : (Spec.compact "\u2003get\t //a b/\n").compile = .ok ⟨"GET", "/a b"⟩ := by
    decide +kernel
  obtain rfl : t = ⟨"GET", "/a b"⟩ := Except.ok.inj (compiled.symm.trans target)
  exact ⟨cut, first, compiled, fields, clean, (compile_compact _).1.mpr clean⟩

end

/-! ### Separate fields -/

-- The name of a parameter: the authored text without the blanks around it, and then without the
-- colons in front.
def paramName (authored : String) : String := Text.trimStart (· == ':') (trim authored)

-- The names that are not blank.
def paramNames (params : List String) : List String := (params.map paramName).filter (· ≠ "")

-- What a text has between its slashes; an empty one has nothing.
def piecesIn (text : String) : List String := if text = "" then [] else pieces '/' text

-- The parts that the path of separate fields is joined from.
def partsOf (endpoint : String) (params : List String) : List String :=
  cores [trim endpoint] ++ (paramNames params).map (":" ++ ·)

theorem paramSegment?_eq (param : String) :
    paramSegment? param = if paramName param = "" then none else some (":" ++ paramName param) := by
  by_cases none : paramName param = "" <;> simp [paramName] at none <;>
    simp [paramSegment?, paramName, none]

theorem filterMap_paramSegment? (params : List String) :
    params.filterMap paramSegment? = (paramNames params).map (":" ++ ·) := by
  induction params with
  | nil => rfl
  | cons param params ih =>
    unfold paramNames at ih ⊢
    rw [List.filterMap_cons, List.map_cons, List.filter_cons, paramSegment?_eq, ih]
    by_cases none : paramName param = "" <;> simp [none]

theorem canonical_eq (endpoint : String) (params : List String) :
    canonical endpoint params = rooted (partsOf endpoint params) := by
  rw [canonical, filterMap_paramSegment?, partsOf]
  by_cases none : trimSlashes (trim endpoint) = "" <;> simp [cores, none]

section

variable {endpoint : String} {params : List String}

theorem ne_empty_of_paramNames {name : String} (member : name ∈ paramNames params) : name ≠ "" :=
  of_decide_eq_true (List.mem_filter.mp member).2

theorem full_partsOf : ∀ p ∈ partsOf endpoint params, p ≠ "" := by
  intro p member
  rcases List.mem_append.mp member with core | named
  · exact (proper_cores _ p core).1
  · obtain ⟨name, -, rfl⟩ := List.mem_map.mp named
    simp

theorem first_partsOf : ∀ p ∈ partsOf endpoint params, p.toList.head? ≠ some '/' := by
  intro p member
  rcases List.mem_append.mp member with core | named
  · exact (trimmed_slash_iff.mp (proper_cores _ p core).2).1
  · obtain ⟨name, -, rfl⟩ := List.mem_map.mp named
    simp [String.toList_append]

theorem getLast?_segment {name : String} (some : name ≠ "") :
    (":" ++ name).toList.getLast? = name.toList.getLast? := by
  rw [String.toList_append, List.getLast?_append_of_ne_nil _ (mt String.toList_eq_nil_iff.mp some)]

-- The last part is that of the last parameter, if there is one.
theorem last_partsOf :
    (∀ p, (partsOf endpoint params).getLast? = some p → p.toList.getLast? ≠ some '/') ↔
      ∀ name, (paramNames params).getLast? = some name → name.toList.getLast? ≠ some '/' := by
  rw [partsOf, List.getLast?_append, List.getLast?_map]
  cases last : (paramNames params).getLast? with
  | none =>
    have inner (p : String) (found : (cores [trim endpoint]).getLast? = some p) :
        p.toList.getLast? ≠ some '/' :=
      (trimmed_slash_iff.mp (proper_cores _ p (List.mem_of_getLast? found)).2).2
    simpa using inner
  | some name =>
    have given := ne_empty_of_paramNames (List.mem_of_getLast? last)
    simp only [Option.map_some, Option.some_or, Option.some.injEq, forall_eq',
      getLast?_segment given]

theorem canonical_iff :
    Canonical (canonical endpoint params) ↔
      ∀ name, (paramNames params).getLast? = some name → name.toList.getLast? ≠ some '/' := by
  rw [canonical_eq, canonical_rooted_iff full_partsOf, last_partsOf, and_iff_right]
  intro p found
  exact first_partsOf p (List.mem_of_head? found)

theorem piecesIn_joined {parts : List String} (full : ∀ p ∈ parts, p ≠ "") :
    piecesIn ("/".intercalate parts) = parts.flatMap (pieces '/') := by
  rw [piecesIn]
  by_cases none : parts = []
  · subst none
    rfl
  · rw [if_neg (Text.intercalate_ne_empty none full), Text.pieces_joined none]

theorem flatMap_cores (text : String) :
    (cores [text]).flatMap (pieces '/') = piecesIn (trimSlashes text) := by
  by_cases none : trimSlashes text = "" <;> simp [cores, piecesIn, none]

theorem piecesIn_partsOf :
    piecesIn ("/".intercalate (partsOf endpoint params))
      = piecesIn (trimSlashes (trim endpoint))
        ++ ((paramNames params).map (":" ++ ·)).flatMap (pieces '/') := by
  rw [piecesIn_joined full_partsOf, partsOf, List.flatMap_append, flatMap_cores]

theorem slash_mem_segment {name : String} : '/' ∈ (":" ++ name).toList ↔ '/' ∈ name.toList := by
  simp [String.toList_append]

-- The names that are parameters of the path.
def Spec.names : Spec → List String
  | .compact _ => []
  | .structured _ _ params => paramNames params

theorem canonical_compile_iff {spec : Spec} {t : Target} (compiled : spec.compile = .ok t) :
    Canonical t.path ↔
      ∀ name, spec.names.getLast? = some name → name.toList.getLast? ≠ some '/' := by
  cases spec with
  | compact text =>
    by_cases space : ' ' ∈ (trim text).toList
    · obtain ⟨m, e, cut, first⟩ := exists_cut space
      rw [compile_cut cut first] at compiled
      rw [← Except.ok.inj compiled]
      exact canonical_iff
    · rw [compile_uncut space] at compiled
      cases compiled
  | structured method endpoint params =>
    rw [← Except.ok.inj compiled]
    exact canonical_iff

-- The path of a spec is canonical if the last name does not end in a slash, so that of a compact one
-- always is. Separate fields have one slash in front, and after it the pieces of the endpoint and
-- those of the parameters, one for each if no name has a slash.
theorem compiled_paths (spec : Spec) :
    (∀ t, spec.compile = .ok t →
      (Canonical t.path ↔
        ∀ name, spec.names.getLast? = some name → name.toList.getLast? ≠ some '/')) ∧
    ∀ method endpoint params, spec = .structured method endpoint params →
      ∃ t body, spec.compile = .ok t ∧ t.path = "/" ++ body ∧ body.toList.head? ≠ some '/' ∧
        piecesIn body = piecesIn (trimSlashes (trim endpoint))
          ++ (spec.names.map (":" ++ ·)).flatMap (pieces '/') ∧
        (piecesIn body = piecesIn (trimSlashes (trim endpoint)) ++ spec.names.map (":" ++ ·) ↔
          ∀ name ∈ spec.names, '/' ∉ name.toList) := by
  constructor
  · intro t compiled
    exact canonical_compile_iff compiled
  · intro method endpoint params same
    subst same
    have path : canonical endpoint params = "/" ++ "/".intercalate (partsOf endpoint params) := by
      rw [canonical_eq, rooted]
    refine ⟨_, _, rfl, path, ?_, piecesIn_partsOf, ?_⟩
    · rw [head?_intercalate full_partsOf]
      intro slash
      obtain ⟨p, found, first⟩ := Option.bind_eq_some_iff.mp slash
      exact first_partsOf p (List.mem_of_head? found) first
    · rw [piecesIn_partsOf, Spec.names, List.append_cancel_left_eq, Text.flatMap_pieces_eq_iff]
      simp only [List.forall_mem_map, slash_mem_segment]

-- A compact spec, and one of fields with a parameter that is blank and one with a space in its name.
theorem compiled_paths_orgs :
    let compact := Spec.compact "delete //a/b//"
    let fields := Spec.structured "PUT" " /orgs//all/ " [" :org", ": ", "a b"]
    compact.compile = .ok ⟨"DELETE", "/a/b"⟩ ∧ Canonical "/a/b" ∧
    fields.compile = .ok ⟨"PUT", "/orgs//all/:org/:a b"⟩ ∧ Canonical "/orgs//all/:org/:a b" ∧
    piecesIn "orgs//all/:org/:a b" = ["orgs", "", "all", ":org", ":a b"] := by
  intro compact fields
  have target : compact.compile = .ok ⟨"DELETE", "/a/b"⟩ := by decide +kernel
  have target' : fields.compile = .ok ⟨"PUT", "/orgs//all/:org/:a b"⟩ := by decide +kernel
  have names : fields.names = ["org", "a b"] := by decide +kernel
  refine ⟨target, ?_, target', ?_, by decide +kernel⟩
  · apply ((compiled_paths compact).1 _ target).mpr
    intro name none
    cases none
  · apply ((compiled_paths fields).1 _ target').mpr
    rw [names]
    intro name last
    cases last
    decide

-- A slash at the end of the last name ends the path, and gives two pieces for one parameter.
theorem compiled_paths_slash :
    Spec.ofValue? (.object [("$url.params", .strings ["id/"])])
      = some (.structured "GET" "" ["id/"]) ∧
    (Spec.structured "GET" "" ["id/"]).compile = .ok ⟨"GET", "/:id/"⟩ ∧ ¬Canonical "/:id/" ∧
    paramNames ["id/"] = ["id/"] ∧ piecesIn ":id/" = [":id", ""] := by
  refine ⟨by decide +kernel, by decide +kernel, ?_, by decide +kernel, by decide +kernel⟩
  intro canonical
  have trimmed := canonical_slash_iff.mp (show Canonical ("/" ++ ":id/") from canonical)
  exact absurd (trimmed.last '/' rfl) (by decide)

end

end Flowgate.Route
