import Flowgate.Proofs.Entries
import Flowgate.Proofs.Route.Acceptance

/-!
The parameters that a handler is given. They are read off the path and the request once the empty
segments of both are left out, so a parameter has the segment at its own place as long as no
parameter of the path stands at an empty one.
-/

namespace Flowgate.Route

open Json (Value)

-- Every parameter of the path has the text at its own place in the request, where empty segments
-- count, and nothing else has one.
structure InPlace (path raw : String) (params : Entries Value) : Prop where
  names : params.names.Perm ((Text.pieces '/' path).filterMap param?)
  values : ∀ (i : Nat) (segment name : String), (Text.pieces '/' path)[i]? = some segment →
    param? segment = some name → ∃ text, (Text.pieces '/' raw)[i]? = some text ∧
      Entries.get? params name = some (.string text)

-- No parameter of the path stands at an empty segment of the request.
def NoneBlank (path raw : String) : Prop :=
  ∀ (i : Nat) (segment : String), (Text.pieces '/' path)[i]? = some segment →
    (param? segment).isSome → (Text.pieces '/' raw)[i]? ≠ some ""

/-! ### Bindings -/

-- What the parameters among some segments are bound to by other segments, side by side.
def bindings (asked given : List String) : List (String × Value) :=
  (asked.zip given).filterMap fun (expected, actual) =>
    (param? expected).map fun name => (name, .string actual)

theorem paramValues_eq (path raw : String) :
    Router.paramValues path raw = Entries.ofList (bindings (segments path) (segments raw)) := rfl

theorem mem_bindings {asked given : List String} {name : String} {value : Value} :
    (name, value) ∈ bindings asked given ↔ ∃ (i : Nat) (segment text : String),
      asked[i]? = some segment ∧ given[i]? = some text ∧ param? segment = some name ∧
        value = .string text := by
  unfold bindings
  simp only [List.mem_filterMap, Prod.exists, Option.map_eq_some_iff, Prod.mk.injEq]
  constructor
  · rintro ⟨segment, text, member, _, named, rfl, rfl⟩
    obtain ⟨i, there⟩ := List.mem_iff_getElem?.mp member
    obtain ⟨here, here'⟩ := List.getElem?_zip_eq_some.mp there
    exact ⟨i, segment, text, here, here', named, rfl⟩
  · rintro ⟨i, segment, text, here, here', named, rfl⟩
    have there : (asked.zip given)[i]? = some (segment, text) :=
      List.getElem?_zip_eq_some.mpr ⟨here, here'⟩
    exact ⟨segment, text, List.mem_of_getElem? there, name, named, rfl, rfl⟩

theorem names_bindings (asked given : List String) :
    (bindings asked given).map Prod.fst = (asked.take given.length).filterMap param? := by
  induction asked generalizing given with
  | nil => simp [bindings]
  | cons expected asked ih =>
    cases given with
    | nil => simp [bindings]
    | cons actual given =>
      have rest := ih given
      cases named : param? expected <;> simp_all [bindings]

theorem names_bindings_nodup {asked : List String} (distinct : (asked.filterMap param?).Nodup)
    (given : List String) : ((bindings asked given).map Prod.fst).Nodup := by
  rw [names_bindings]
  exact ((List.take_sublist _ _).filterMap _).nodup distinct

-- Empty segments on both sides at once bind nothing.
theorem bindings_filter {asked given : List String}
    (level : List.Forall₂ (fun s t => s = "" ↔ t = "") asked given) :
    bindings (asked.filter (· ≠ "")) (given.filter (· ≠ "")) = bindings asked given := by
  induction level with
  | nil => rfl
  | @cons s t asked given same _ ih =>
    have onward : bindings (s :: asked) (t :: given)
        = ((param? s).map fun name => (name, Value.string t)).toList ++ bindings asked given := by
      cases named : param? s <;> simp [bindings, named]
    by_cases empty : s = ""
    · have none : param? s = none := by
        rw [empty]
        rfl
      rw [onward, none, List.filter_cons_of_neg (by simpa using empty),
        List.filter_cons_of_neg (by simpa using same.mp empty), ih]
      rfl
    · have some : t ≠ "" := mt same.mpr empty
      rw [onward, ← ih, List.filter_cons_of_pos (by simpa using empty),
        List.filter_cons_of_pos (by simpa using some)]
      cases named : param? s <;> simp [bindings, named]

-- Where all names differ, one name stands at one place.
theorem place_unique {asked : List String} (distinct : (asked.filterMap param?).Nodup)
    {i j : Nat} {s t name : String} (here : asked[i]? = some s) (there : asked[j]? = some t)
    (named : param? s = some name) (named' : param? t = some name) : i = j := by
  have apart := List.pairwise_iff_getElem.mp (List.pairwise_filterMap.mp distinct)
  obtain ⟨inside, rfl⟩ := List.getElem?_eq_some_iff.mp here
  obtain ⟨inside', rfl⟩ := List.getElem?_eq_some_iff.mp there
  rcases Nat.lt_trichotomy i j with less | same | more
  · exact absurd rfl (apart i j inside inside' less name named name named')
  · exact same
  · exact absurd rfl (apart j i inside' inside more name named' name named)

theorem get?_bindings {asked : List String} (distinct : (asked.filterMap param?).Nodup)
    (given : List String) {i : Nat} {segment name : String} (here : asked[i]? = some segment)
    (named : param? segment = some name) :
    Entries.get? (Entries.ofList (bindings asked given)) name = (given[i]?).map .string := by
  cases there : given[i]? with
  | some text =>
    apply Entries.get?_ofList (names_bindings_nodup distinct given)
    exact mem_bindings.mpr ⟨i, segment, text, here, there, named, rfl⟩
  | none =>
    cases found : Entries.get? (Entries.ofList (bindings asked given)) name with
    | none => rfl
    | some value =>
      have member := Entries.mem_of_mem_ofList (Entries.mem_of_get? found)
      obtain ⟨j, other, text, here', there', named', -⟩ := mem_bindings.mp member
      rw [place_unique distinct here here' named named', there'] at there
      cases there

/-! ### Places -/

theorem pieces_of_requestSegments? {raw : String} {given : List String}
    (read : Router.requestSegments? raw = some given) : Text.pieces '/' raw = "" :: given := by
  obtain ⟨rest, rfl⟩ := Router.eq_slash_of_head (Router.requestSegments?_head read)
  rw [Router.requestSegments?_slash] at read
  rw [Text.pieces_slash, Option.some.inj read]

-- A path that was accepted asks for its pieces, after the empty one in front.
theorem piecesOf_canonical {path : String} (canonical : Canonical path)
    (full : hasEmptySegment path = false) : ∃ asked, Text.pieces '/' path = "" :: asked ∧
      Router.piecesOf path = asked.map Router.pieceOf := by
  have clean : ∀ s ∈ segments path, '/' ∉ s.toList := fun s member => (segments_proper path s member).2
  have read := Router.requestSegments?_rooted clean
  rw [rooted_segments canonical full] at read
  refine ⟨_, pieces_of_requestSegments? read, ?_⟩
  rw [Router.piecesOf_eq]
  by_cases none : segments path = []
  · rw [if_pos none, if_pos none]
    rfl
  · rw [if_neg none, if_neg none]

theorem takes_of_admits {path raw : String} (canonical : Canonical path)
    (full : hasEmptySegment path = false) (admitted : Router.Admits path raw) :
    List.Forall₂ Takes (Text.pieces '/' path) (Text.pieces '/' raw) := by
  obtain ⟨given, read, fits⟩ := admitted
  obtain ⟨asked, pieces, same⟩ := piecesOf_canonical canonical full
  rw [same] at fits
  rw [pieces, pieces_of_requestSegments? read]
  exact .cons (.inr rfl) (Router.takes_of_matches fits)

theorem filterMap_segments (path : String) :
    (segments path).filterMap param? = (Text.pieces '/' path).filterMap param? := by
  unfold segments
  rw [List.filterMap_filter]
  apply List.filterMap_congr
  intro s _
  by_cases empty : s = ""
  · subst empty
    rfl
  · simp [empty]

theorem level_of_noneBlank {asked given : List String} (takes : List.Forall₂ Takes asked given)
    (full : ∀ (i : Nat) (segment : String), asked[i]? = some segment → (param? segment).isSome →
      given[i]? ≠ some "") :
    List.Forall₂ (fun s t => s = "" ↔ t = "") asked given := by
  induction takes with
  | nil => exact .nil
  | @cons s t asked given taken _ ih =>
    refine .cons ?_ (ih fun i segment there named => full (i + 1) segment there named)
    rcases taken with named | rfl
    · have some : t ≠ "" := fun empty => full 0 s rfl named (congrArg some empty)
      have some' : s ≠ "" := by
        rintro rfl
        cases named
      exact ⟨fun empty => absurd empty some', fun empty => absurd empty some⟩
    · exact Iff.rfl

theorem inPlace_of_noneBlank {path raw : String}
    (takes : List.Forall₂ Takes (Text.pieces '/' path) (Text.pieces '/' raw))
    (distinct : ((segments path).filterMap param?).Nodup) (full : NoneBlank path raw) :
    InPlace path raw (Router.paramValues path raw) := by
  have same : bindings (segments path) (segments raw)
      = bindings (Text.pieces '/' path) (Text.pieces '/' raw) :=
    bindings_filter (level_of_noneBlank takes full)
  rw [filterMap_segments] at distinct
  rw [paramValues_eq, same]
  refine ⟨?_, ?_⟩
  · have names := Entries.names_ofList (names_bindings_nodup distinct (Text.pieces '/' raw))
    rwa [names_bindings, ← takes.length_eq, List.take_length] at names
  · intro i segment name here named
    obtain ⟨inside, -⟩ := List.getElem?_eq_some_iff.mp here
    rw [takes.length_eq] at inside
    refine ⟨_, List.getElem?_eq_getElem inside, ?_⟩
    rw [get?_bindings distinct _ here named, List.getElem?_eq_getElem inside]
    rfl

-- No value is empty, so none is that of an empty segment.
theorem noneBlank_of_inPlace {path raw : String}
    (placed : InPlace path raw (Router.paramValues path raw)) : NoneBlank path raw := by
  intro i segment here named blank
  obtain ⟨name, named⟩ := Option.isSome_iff_exists.mp named
  obtain ⟨text, there, found⟩ := placed.values i segment name here named
  obtain rfl := Option.some.inj (blank.symm.trans there)
  have member := Entries.mem_of_mem_ofList (Entries.mem_of_get? found)
  obtain ⟨j, _, text, -, there', -, same⟩ := mem_bindings.mp member
  cases same
  exact (segments_proper raw "" (List.mem_of_getElem? there')).1 rfl

/-! ### Requests -/

namespace Router

theorem get?_inputsOf_params (e : Endpoint κ) (r : Http.Request) :
    (inputsOf e r).get? "params" = some (.object (paramValues e.path r.uri.path)) := by
  apply Entries.get?_ofList
  · simp only [List.map_cons, List.map_nil]
    decide
  · simp

theorem params_of_called {g : Group κ} {router : Router κ} (made : ofGroup g = .ok router)
    {invoke : κ → Value → Except String Unit} {r : Http.Request} {call : κ × Value}
    (called : (router.serve invoke r).called = some call) :
    ∃ e ∈ g.endpoints, router.Sends r e ∧ call.1 = e.handler ∧
      ∃ params, call.2.get? "params" = some (.object params) ∧
        (InPlace e.path r.uri.path params ↔ NoneBlank e.path r.uri.path) ∧
        ∀ (i : Nat) (segment name : String), (segments e.path)[i]? = some segment →
          param? segment = some name →
          Entries.get? params name = ((segments r.uri.path)[i]?).map .string := by
  have built := built_of_ofGroup made
  have canonical := canonical_endpoints g
  obtain ⟨e, sent, rfl⟩ := sends_of_called called
  obtain ⟨there, admitted⟩ := built.mem_of_sends canonical sent
  have distinct : ((segments e.path).filterMap param?).Nodup := by
    refine distinct_of_not_rejected (fun fault rejected => ?_) e there
    rw [ofGroup, rejected] at made
    cases made
  have takes := takes_of_admits (canonical e there) (built.shaped.full e there) admitted
  refine ⟨e, there, sent, rfl, _, get?_inputsOf_params e r, ?_, ?_⟩
  · exact ⟨noneBlank_of_inPlace, inPlace_of_noneBlank takes distinct⟩
  · intro i segment name here named
    exact get?_bindings distinct (segments r.uri.path) here named

def pair : Group String := [.route "GET" "/:a/:b" "both" none]

def requestTo (path : String) : Http.Request :=
  { method := "GET", uri := { path, query := none }, contentType := none, body := [] }

-- Any router of the pair calls its handler for a request with two segments of which the last is not
-- empty.
theorem called_pair (path : String) (calls : ((ofGroup pair).toOption.bind fun router =>
      (router.serve (fun _ _ => .ok ()) (requestTo path)).called).isSome = true) :
    ∃ router, ofGroup pair = .ok router ∧
      ∃ call, (router.serve (fun _ _ => .ok ()) (requestTo path)).called = some call := by
  obtain ⟨call, found⟩ := Option.isSome_iff_exists.mp calls
  obtain ⟨router, built, called⟩ := Option.bind_eq_some_iff.mp found
  exact ⟨router, ok_of_toOption built, call, called⟩

theorem params_of_called_pair :
    NoneBlank "/:a/:b" "/x/y" ∧ ∃ router, ofGroup pair = .ok router ∧ ∃ call params,
      (router.serve (fun _ _ => .ok ()) (requestTo "/x/y")).called = some call ∧
      call.2.get? "params" = some (.object params) ∧ InPlace "/:a/:b" "/x/y" params := by
  have full : NoneBlank "/:a/:b" "/x/y" := by
    intro i segment here named blank
    have none : "" ∉ (Text.pieces '/' "/x/y").drop 1 := by decide
    cases i with
    | zero =>
      obtain rfl : "" = segment := Option.some.inj here
      cases named
    | succ i =>
      apply none
      apply List.mem_of_getElem? (i := i)
      rw [List.getElem?_drop, Nat.add_comm, blank]
  obtain ⟨router, made, call, called⟩ := called_pair "/x/y" (by decide +kernel)
  obtain ⟨e, there, -, -, params, given, placed, -⟩ := params_of_called made called
  obtain rfl := List.mem_singleton.mp there
  exact ⟨full, router, made, call, params, called, given, placed.mpr full⟩

-- The first of two parameters is matched with an empty segment, is given the second segment, and the
-- second is given none.
theorem params_of_called_shifted :
    ∃ router, ofGroup pair = .ok router ∧ ∃ call e,
      (router.serve (fun _ _ => .ok ()) (requestTo "//x")).called = some call ∧
      router.Sends (requestTo "//x") e ∧ e.path = "/:a/:b" ∧
      call.2.get? "params" = some (.object [("a", .string "x")]) ∧
      ¬InPlace "/:a/:b" "//x" [("a", .string "x")] := by
  obtain ⟨router, made, call, called⟩ := called_pair "//x" (by decide +kernel)
  obtain ⟨e, sent, rfl⟩ := sends_of_called called
  have there := ((built_of_ofGroup made).mem_of_sends (canonical_endpoints pair) sent).1
  obtain rfl := List.mem_singleton.mp there
  refine ⟨router, made, _, _, called, sent, rfl, get?_inputsOf_params _ _, fun placed => ?_⟩
  exact noneBlank_of_inPlace placed 1 ":a" rfl rfl rfl

end Router

end Flowgate.Route
