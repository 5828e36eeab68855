import Flowgate.Proofs.Route.Shapes

/-!
Templates of accepted paths: different paths have different templates, so grouping by template is
grouping by path.
-/

namespace Flowgate.Route

def isBrace (c : Char) : Bool := c = '\x7b' || c = '\x7d'

def doubled (c : Char) : List Char := if isBrace c then [c, c] else [c]

theorem templateSegment_literal {segment : String} (plain : param? segment = none) :
    (template.templateSegment segment).toList = segment.toList.flatMap doubled := by
  rw [template.templateSegment, plain]
  exact String.toList_ofList

theorem templateSegment_param {segment name : String} (named : param? segment = some name) :
    (template.templateSegment segment).toList = '\x7b' :: (name.toList ++ ['\x7d']) := by
  rw [template.templateSegment, named]
  show ("\x7b" ++ name ++ "\x7d").toList = _
  rw [String.toList_append, String.toList_append]
  rfl

theorem doubled_cons (c : Char) (cs : List Char) :
    ∃ rest, (c :: cs).flatMap doubled = c :: rest := by
  by_cases brace : isBrace c <;> simp [doubled, brace]

theorem flatMap_doubled_inj {xs ys : List Char} (same : xs.flatMap doubled = ys.flatMap doubled) :
    xs = ys := by
  induction xs generalizing ys with
  | nil =>
    cases ys with
    | nil => rfl
    | cons y ys =>
      obtain ⟨rest, head⟩ := doubled_cons y ys
      rw [head] at same
      cases same
  | cons x xs ih =>
    cases ys with
    | nil =>
      obtain ⟨rest, head⟩ := doubled_cons x xs
      rw [head] at same
      cases same
    | cons y ys =>
      obtain ⟨rest, head⟩ := doubled_cons x xs
      obtain ⟨rest', head'⟩ := doubled_cons y ys
      have first : x = y := by
        rw [head, head'] at same
        exact (List.cons.inj same).1
      subst first
      rw [List.flatMap_cons, List.flatMap_cons] at same
      rw [ih (List.append_cancel_left same)]

theorem isParamName_chars {name : String} (proper : isParamName name = true) :
    name.toList ≠ [] ∧ ∀ c ∈ name.toList, isBrace c = false := by
  unfold isParamName at proper
  simp only [Bool.and_eq_true, Bool.not_eq_true', List.any_eq_false] at proper
  obtain ⟨some, clean⟩ := proper
  refine ⟨by simpa using some, ?_⟩
  intro c member
  have allowed := clean c member
  by_contra brace
  have brace : isBrace c = true := by simpa using brace
  unfold isBrace at brace
  simp [brace] at allowed

-- A parameter's template starts with one brace, a literal's with none or two.
theorem templateSegment_ne {segment name other : String} (named : param? segment = some name)
    (proper : isParamName name = true) (plain : param? other = none) :
    template.templateSegment segment ≠ template.templateSegment other := by
  intro same
  obtain ⟨some, clean⟩ := isParamName_chars proper
  have chars := congrArg String.toList same
  rw [templateSegment_param named, templateSegment_literal plain] at chars
  cases text : other.toList with
  | nil => rw [text] at chars; cases chars
  | cons c cs =>
    rw [text, List.flatMap_cons, doubled] at chars
    by_cases brace : isBrace c
    · rw [if_pos brace] at chars
      obtain ⟨_, rest⟩ := List.cons.inj chars
      cases letters : name.toList with
      | nil => exact some letters
      | cons d ds =>
        rw [letters] at rest
        have equal : d = c := (List.cons.inj rest).1
        have notBrace := clean d (letters ▸ List.mem_cons_self)
        rw [equal, brace] at notBrace
        cases notBrace
    · rw [if_neg brace] at chars
      have equal : '\x7b' = c := (List.cons.inj chars).1
      exact brace (equal ▸ rfl)

theorem templateSegment_inj {s t : String}
    (left : ∀ name, param? s = some name → isParamName name = true)
    (right : ∀ name, param? t = some name → isParamName name = true)
    (same : template.templateSegment s = template.templateSegment t) : s = t := by
  cases first : param? s with
  | none =>
    cases second : param? t with
    | none =>
      have chars := congrArg String.toList same
      rw [templateSegment_literal first, templateSegment_literal second] at chars
      exact String.toList_injective (flatMap_doubled_inj chars)
    | some b => exact absurd same.symm (templateSegment_ne second (right b second) first)
  | some a =>
    cases second : param? t with
    | none => exact absurd same (templateSegment_ne first (left a first) second)
    | some b =>
      have chars := congrArg String.toList same
      rw [templateSegment_param first, templateSegment_param second] at chars
      have names := List.append_cancel_right (List.cons.inj chars).2
      rw [eq_of_param? first, eq_of_param? second, String.toList_injective names]

theorem templateSegment_proper {s : String} (some : s ≠ "") (clean : '/' ∉ s.toList) :
    template.templateSegment s ≠ "" ∧ '/' ∉ (template.templateSegment s).toList := by
  cases named : param? s with
  | none =>
    rw [templateSegment_literal named]
    refine ⟨?_, ?_⟩
    · intro empty
      have chars := congrArg String.toList empty
      rw [templateSegment_literal named] at chars
      cases text : s.toList with
      | nil => exact some (String.toList_injective text)
      | cons c cs =>
        obtain ⟨rest, head⟩ := doubled_cons c cs
        rw [text, head] at chars
        cases chars
    · intro member
      obtain ⟨c, there, slash⟩ := List.mem_flatMap.mp member
      have same : '/' = c := by
        by_cases brace : isBrace c <;> simpa [doubled, brace] using slash
      exact clean (same ▸ there)
  | some name =>
    rw [templateSegment_param named]
    refine ⟨?_, ?_⟩
    · intro empty
      have chars := congrArg String.toList empty
      rw [templateSegment_param named] at chars
      cases chars
    · rw [eq_of_param? named, String.toList_append] at clean
      have notThere : '/' ∉ name.toList := fun member => clean (List.mem_append_right _ member)
      simpa using notThere

theorem map_templateSegment_inj {xs ys : List String}
    (left : ∀ s ∈ xs, ∀ name, param? s = some name → isParamName name = true)
    (right : ∀ s ∈ ys, ∀ name, param? s = some name → isParamName name = true)
    (same : xs.map template.templateSegment = ys.map template.templateSegment) : xs = ys := by
  induction xs generalizing ys with
  | nil => exact (List.map_eq_nil_iff.mp same.symm).symm
  | cons x xs ih =>
    cases ys with
    | nil => cases same
    | cons y ys =>
      obtain ⟨here, there⟩ := List.cons.inj same
      rw [templateSegment_inj (left x List.mem_cons_self) (right y List.mem_cons_self) here,
        ih (fun s member => left s (List.mem_cons_of_mem _ member))
          (fun s member => right s (List.mem_cons_of_mem _ member)) there]

theorem WellShaped.path_of_segments {es : List (Endpoint κ)} (shaped : WellShaped es)
    (canonical : ∀ e ∈ es, Canonical e.path) {e f : Endpoint κ} (left : e ∈ es) (right : f ∈ es)
    (same : segments e.path = segments f.path) : e.path = f.path := by
  rw [← rooted_segments (canonical e left) (shaped.full e left), same,
    rooted_segments (canonical f right) (shaped.full f right)]

theorem WellShaped.path_of_template {es : List (Endpoint κ)} (shaped : WellShaped es)
    (canonical : ∀ e ∈ es, Canonical e.path) {e f : Endpoint κ} (left : e ∈ es) (right : f ∈ es)
    (same : template e.path = template f.path) : e.path = f.path := by
  have proper (g : Endpoint κ) :
      ∀ s ∈ (segments g.path).map template.templateSegment, s ≠ "" ∧ '/' ∉ s.toList := by
    intro s member
    obtain ⟨t, there, rfl⟩ := List.mem_map.mp member
    exact templateSegment_proper (segments_proper _ t there).1 (segments_proper _ t there).2
  have joined : "/".intercalate ((segments e.path).map template.templateSegment)
      = "/".intercalate ((segments f.path).map template.templateSegment) := by
    have chars := congrArg String.toList same
    rw [template, template, rooted, rooted, String.toList_append, String.toList_append] at chars
    exact String.toList_injective (List.append_cancel_left chars)
  have segs := map_templateSegment_inj
    (fun s member name named => shaped.isParamName left member named)
    (fun s member name named => shaped.isParamName right member named)
    (Text.intercalate_inj (proper e) (proper f) joined)
  exact shaped.path_of_segments canonical left right segs

end Flowgate.Route
