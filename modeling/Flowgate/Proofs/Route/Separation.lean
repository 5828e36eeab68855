import Flowgate.Proofs.Route.Acceptance
import Flowgate.Proofs.Route.Filling

/-!
Telling paths apart. In a set that passes the check of shapes a path is known by its template, by its
segments without the names of their parameters, and by the request paths that it takes. So the slots of
a router are made by path: one for each, with the endpoints of that path and no others.
-/

namespace Flowgate.Route

open Router (Admits Holds addEndpoint admits_fill takes_of_filled)

variable {es : List (Endpoint κ)}

/-! ### Shapes -/

-- What the host compares a segment by.
def shapeOf (segment : String) : Option String := (partOf segment).shape

theorem shapeOf_param {segment : String} (named : (param? segment).isSome = true) :
    shapeOf segment = none := by
  obtain ⟨name, found⟩ := Option.isSome_iff_exists.mp named
  rw [shapeOf, partOf, found]
  rfl

theorem WellShaped.path_of_shapes (shaped : WellShaped es) (canonical : ∀ e ∈ es, Canonical e.path)
    {e f : Endpoint κ} (left : e ∈ es) (right : f ∈ es)
    (same : (segments e.path).map shapeOf = (segments f.path).map shapeOf) : e.path = f.path := by
  apply shaped.path_of_segments canonical left right
  apply shaped.segments_eq left right (List.nil_append _).symm (List.nil_append _).symm
  rwa [List.map_map, List.map_map]

-- A blanked segment is what the host compares it by.
theorem shapeOf_blanked (segment : String) : shapeOf (blanked segment) = shapeOf segment := by
  unfold blanked
  split
  · rename_i named
    rw [shapeOf_param named]
    rfl
  · rfl

theorem WellShaped.path_of_blanked (shaped : WellShaped es) (canonical : ∀ e ∈ es, Canonical e.path)
    {e f : Endpoint κ} (left : e ∈ es) (right : f ∈ es)
    (same : (segments e.path).map blanked = (segments f.path).map blanked) : e.path = f.path := by
  apply shaped.path_of_shapes canonical left right
  have shapes := congrArg (List.map shapeOf) same
  simpa only [List.map_map, Function.comp_def, shapeOf_blanked] using shapes

-- Segments that take each other are two parameters or one literal.
theorem shapeOf_of_takes {s t : String} (forth : Takes s t) (back : Takes t s) :
    shapeOf s = shapeOf t := by
  rcases forth with named | rfl
  · rcases back with named' | rfl
    · rw [shapeOf_param named, shapeOf_param named']
    · rfl
  · rfl

theorem map_shapeOf_of_takes {xs ys : List String} (forth : List.Forall₂ Takes xs ys)
    (back : List.Forall₂ Takes ys xs) : xs.map shapeOf = ys.map shapeOf := by
  induction forth with
  | nil => rfl
  | cons takes _ ih =>
    obtain ⟨takes', back⟩ := List.forall₂_cons.mp back
    rw [List.map_cons, List.map_cons, shapeOf_of_takes takes takes', ih back]

/-! ### Requests -/

-- Of two paths that are filled with a value that is a segment of neither, one does not take the other.
theorem WellShaped.request_of_ne (shaped : WellShaped es) (canonical : ∀ e ∈ es, Canonical e.path)
    {e f : Endpoint κ} (left : e ∈ es) (right : f ∈ es) (ne : e.path ≠ f.path) :
    ∃ raw, ¬(Admits e.path raw ↔ Admits f.path raw) := by
  obtain ⟨n, -, fresh⟩ := exists_fresh (segments e.path ++ segments f.path)
  obtain ⟨freshLeft, freshRight⟩ := not_or.mp (mt List.mem_append.mpr fresh)
  have proper := isSegment_repr n
  by_contra same
  push Not at same
  have forth := (same _).mpr (admits_fill proper f.path)
  have back := (same _).mp (admits_fill proper e.path)
  apply ne
  apply shaped.path_of_shapes canonical left right
  exact map_shapeOf_of_takes (takes_of_filled proper freshLeft forth)
    (takes_of_filled proper freshRight back)

/-! ### Slots by path -/

-- The slots of a router are the paths of the set, each once, with the endpoints of that path.
structure ByPath (es : List (Endpoint κ)) (slots : List (Slot κ)) : Prop where
  distinct : (slots.map Slot.path).Nodup
  paths : ∀ path, path ∈ slots.map Slot.path ↔ path ∈ es.map Endpoint.path
  methods : ∀ slot ∈ slots,
    slot.methods = (es.filter fun e => e.path = slot.path).filter fun e => !servesAll e.method
  others : ∀ slot ∈ slots,
    slot.others.toList = (es.filter fun e => e.path = slot.path).filter fun e => servesAll e.method

theorem Router.Holds.byPath {slots : List (Slot κ)} (holds : Holds es slots)
    (shaped : WellShaped es) (canonical : ∀ e ∈ es, Canonical e.path) : ByPath es slots := by
  refine ⟨?_, fun path => ?_, fun slot among => ?_, fun slot among => ?_⟩
  · exact List.pairwise_map.mpr (holds.distinct.imp fun apart same => apart (congrArg template same))
  · rw [List.mem_map, List.mem_map]
    constructor
    · rintro ⟨slot, among, rfl⟩
      obtain ⟨e, there, path⟩ := (holds.slot slot among).path
      exact ⟨e, there, path.symm⟩
    · rintro ⟨e, there, rfl⟩
      obtain ⟨slot, among, same⟩ := holds.found e there
      exact ⟨slot, among, ((holds.path_eq_iff shaped canonical among there).mp same.symm).symm⟩
  · rw [(holds.slot slot among).methods, holds.here_eq shaped canonical among]
  · rw [(holds.slot slot among).others, holds.here_eq shaped canonical among]

-- A path is known by its template, its blanked segments and its requests, and has a slot of its own.
theorem paths_apart (canonical : ∀ e ∈ es, Canonical e.path) (passed : checkShapes es = .ok ()) :
    (∀ e ∈ es, ∀ f ∈ es,
      (template e.path = template f.path ↔ e.path = f.path) ∧
      ((segments e.path).map blanked = (segments f.path).map blanked → e.path = f.path) ∧
      ((∀ raw, Admits e.path raw ↔ Admits f.path raw) → e.path = f.path)) ∧
    ∀ slots, es.foldlM addEndpoint [] = .ok slots → ByPath es slots := by
  have shaped := wellShaped_of_checkShapes passed
  refine ⟨fun e left f right => ⟨⟨?_, congrArg template⟩, ?_, ?_⟩, fun slots added => ?_⟩
  · exact shaped.path_of_template canonical left right
  · exact shaped.path_of_blanked canonical left right
  · intro same
    by_contra ne
    obtain ⟨raw, apart⟩ := shaped.request_of_ne canonical left right ne
    exact apart (same raw)
  · have holds := Router.holds_foldlM Router.holds_nil added
    rw [List.nil_append] at holds
    exact holds.byPath shaped canonical

-- A parameter, and literals that are written like its template.
def braces : Group String :=
  [.route "GET" "/odd/:id" "one" none, .route "PUT" "odd/:id/" "other" none,
    .route "GET" "/odd/\x7bid\x7d" "literal" none,
    .route "GET" "/odd/\x7b\x7bid\x7d\x7d" "doubled" none]

theorem paths_apart_braces :
    (∀ e ∈ braces.endpoints, Canonical e.path) ∧ checkShapes braces.endpoints = .ok () ∧
      ∃ slots, braces.endpoints.foldlM addEndpoint [] = .ok slots ∧ ByPath braces.endpoints slots ∧
        slots.map Slot.path = ["/odd/:id", "/odd/\x7bid\x7d", "/odd/\x7b\x7bid\x7d\x7d"] := by
  have canonical := canonical_endpoints braces
  have passed : checkShapes braces.endpoints = .ok () :=
    ok_of_toOption (by decide +kernel)
  have grouped : (braces.endpoints.foldlM addEndpoint []).toOption.map (List.map Slot.path)
      = some ["/odd/:id", "/odd/\x7bid\x7d", "/odd/\x7b\x7bid\x7d\x7d"] := by
    decide +kernel
  obtain ⟨slots, added, paths⟩ := Option.map_eq_some_iff.mp grouped
  have slotsOk := ok_of_toOption added
  have byPath := (paths_apart canonical passed).2 slots slotsOk
  exact ⟨canonical, passed, slots, slotsOk, byPath, paths⟩

end Flowgate.Route
