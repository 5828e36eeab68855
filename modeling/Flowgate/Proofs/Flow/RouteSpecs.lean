import Flowgate.Proofs.Flow.Saved
import Flowgate.Proofs.Json.Records

/-!
Route specs of request nodes. A route is read from the first saved configuration that is not empty,
or else from the data of the node. An object is read by what it has under `route`: a text is the
compact spec, an object has the fields of the spec in its own place, and any other value is a fault.
Without `route` the fields are those of the object itself.
-/

namespace Flowgate.Flow

open Json (Value Shape)
open Route (Spec)

/-! ### Fields of a spec -/

-- A text that may be missing or null, and nothing else.
inductive GivesText : Option Value → Option String → Prop
  | absent : GivesText none none
  | null : GivesText (some .null) none
  | text (s : String) : GivesText (some (.string s)) (some s)

-- Texts that may be missing or null as a whole, and are none then.
inductive GivesTexts : Option Value → List String → Prop
  | absent : GivesTexts none []
  | null : GivesTexts (some .null) []
  | texts (ss : List String) : GivesTexts (some (.strings ss)) ss

-- The spec that the three fields of an object describe.
def Describes (fields : Entries Value) (spec : Spec) : Prop :=
  ∃ method endpoint params, GivesText (Entries.get? fields "apiMethod") method ∧
    GivesText (Entries.get? fields "apiEndpoint") endpoint ∧
    GivesTexts (Entries.get? fields "$url.params") params ∧ spec = .ofFields method endpoint params

-- One of the three fields has another type.
def Mistyped (fields : Entries Value) : Prop :=
  (∀ method, ¬GivesText (Entries.get? fields "apiMethod") method) ∨
    (∀ endpoint, ¬GivesText (Entries.get? fields "apiEndpoint") endpoint) ∨
    ∀ params, ¬GivesTexts (Entries.get? fields "$url.params") params

section

variable {v? w? : Option Value}

theorem givesText_of_fit (fits : (Shape.optional .string).fitGiven v? = some w?) :
    GivesText v? (w?.getD .null).string? := by
  cases v? with
  | none =>
    cases fits
    exact .absent
  | some v =>
    rw [Shape.fitGiven, Shape.fit, Shape.fit] at fits
    cases v with
    | null => cases fits; exact .null
    | string s => cases fits; exact .text s
    | _ => cases fits

theorem GivesText.fits {text : Option String} (gives : GivesText v? text) :
    ∃ w?, (Shape.optional .string).fitGiven v? = some w? := by
  cases gives with
  | absent => exact ⟨_, rfl⟩
  | null => exact ⟨_, by rw [Shape.fitGiven, Shape.fit]; rfl⟩
  | text s => exact ⟨_, by rw [Shape.fitGiven, Shape.fit, Shape.fit]; rfl⟩

theorem GivesText.eq {text : Option String} (gives : GivesText v? text) :
    text = (v?.getD .null).string? := by
  cases gives <;> rfl

-- The items of a list of texts are texts.
theorem strings_of_fit {items found : List Value}
    (fits : (items.mapM fun item => Shape.string.fit item) = some found) :
    Value.strings (found.filterMap Value.string?) = .array items := by
  induction items generalizing found with
  | nil =>
    cases fits
    rfl
  | cons item items ih =>
    rw [List.mapM_cons] at fits
    obtain ⟨first, one, fits⟩ := Option.bind_eq_some_iff.mp fits
    obtain ⟨others, rest, same⟩ := Option.bind_eq_some_iff.mp fits
    cases same
    rw [Shape.fit] at one
    cases item with
    | string s =>
      cases one
      exact congrArg (fun tail => Value.array (.string s :: tail)) (Value.array.inj (ih rest))
    | _ => cases one

theorem fit_strings (ss : List String) :
    ((ss.map Value.string).mapM fun item => Shape.string.fit item) = some (ss.map .string) := by
  induction ss with
  | nil => rfl
  | cons s ss ih =>
    rw [List.map_cons, List.mapM_cons, ih, Shape.fit]
    rfl

theorem fit_optional_array (shape : Shape) (items : List Value) :
    (Shape.optional shape).fit (.array items) = shape.fit (.array items) := by
  rw [Shape.fit]
  rfl

theorem givesTexts_of_fit (fits : (Shape.optional (.list .string)).fitGiven v? = some w?) :
    GivesTexts v? (((w?.getD .null).array?.getD []).filterMap Value.string?) := by
  cases v? with
  | none =>
    cases fits
    exact .absent
  | some v =>
    rw [Shape.fitGiven] at fits
    obtain ⟨w, fitted, rfl⟩ := Option.map_eq_some_iff.mp fits
    cases v with
    | null =>
      rw [Shape.fit] at fitted
      cases fitted
      exact .null
    | array items =>
      rw [fit_optional_array, Shape.fit] at fitted
      obtain ⟨found, each, rfl⟩ := Option.map_eq_some_iff.mp fitted
      have texts := GivesTexts.texts (found.filterMap Value.string?)
      rwa [strings_of_fit each] at texts
    | _ => simp [Value.isNull, Shape.fit] at fitted

theorem GivesTexts.fits {texts : List String} (gives : GivesTexts v? texts) :
    ∃ w?, (Shape.optional (.list .string)).fitGiven v? = some w? := by
  cases gives with
  | absent => exact ⟨_, rfl⟩
  | null => exact ⟨_, by rw [Shape.fitGiven, Shape.fit]; rfl⟩
  | texts =>
    refine ⟨some (.strings texts), ?_⟩
    rw [Shape.fitGiven, Value.strings, fit_optional_array, Shape.fit, fit_strings]
    rfl

theorem GivesTexts.eq {texts : List String} (gives : GivesTexts v? texts) :
    texts = ((v?.getD .null).array?.getD []).filterMap Value.string? := by
  cases gives with
  | absent => rfl
  | null => rfl
  | texts =>
    show texts = (texts.map Value.string).filterMap Value.string?
    rw [List.filterMap_map]
    exact (List.filterMap_some).symm

end

/-! ### Reading a spec -/

section

variable {fields : Entries Value} {spec : Spec}

-- The fields of a structured spec.
def specFields : List (Json.Field Shape) :=
  [Json.defaulted "apiMethod" (.optional .string),
   Json.defaulted "apiEndpoint" (.optional .string),
   Json.defaulted "$url.params" (.optional (.list .string))]

theorem free_specFields : ∀ f ∈ specFields, f.Free := by
  simp [specFields, Json.Field.free_defaulted]

theorem apart_specFields : (specFields.map Json.Field.name).Nodup := by
  decide

theorem ofValue?_object (fields : Entries Value) :
    Spec.ofValue? (.object fields) = (Shape.fitFields specFields fields).map fun found =>
      .ofFields ((Value.object found).field "apiMethod").string?
        ((Value.object found).field "apiEndpoint").string?
        ((((Value.object found).field "$url.params").array?.getD []).filterMap Value.string?) := by
  have fits : Spec.shape.fit (.object fields)
      = (Shape.fitFields specFields fields).map .object := by
    rw [Spec.shape, Shape.fit]
    rfl
  rw [Spec.ofValue?, fits]
  cases Shape.fitFields specFields fields <;> rfl

theorem describes_of_ofValue? (distinct : fields.names.Nodup)
    (read : Spec.ofValue? (.object fields) = some spec) : Describes fields spec := by
  rw [ofValue?_object] at read
  obtain ⟨found, fits, rfl⟩ := Option.map_eq_some_iff.mp read
  have known := (Json.get?_fitFields distinct free_specFields apart_specFields fits).1
  simp only [specFields, List.forall_mem_cons] at known
  obtain ⟨method, endpoint, params, -⟩ := known
  exact ⟨_, _, _, givesText_of_fit method, givesText_of_fit endpoint, givesTexts_of_fit params, rfl⟩

theorem Describes.unique {other : Spec} (one : Describes fields spec)
    (two : Describes fields other) : spec = other := by
  obtain ⟨method, endpoint, params, first, second, third, rfl⟩ := one
  obtain ⟨method', endpoint', params', first', second', third', rfl⟩ := two
  rw [first.eq, second.eq, third.eq, first'.eq, second'.eq, third'.eq]

theorem Describes.ofValue? (distinct : fields.names.Nodup) (described : Describes fields spec) :
    Spec.ofValue? (.object fields) = some spec := by
  have each : ∀ f ∈ specFields, ∃ v?, f.shape.fitGiven (Entries.get? fields f.name) = some v? := by
    obtain ⟨method, endpoint, params, first, second, third, -⟩ := described
    simp only [specFields, List.forall_mem_cons]
    exact ⟨first.fits, second.fits, third.fits, List.forall_mem_nil _⟩
  obtain ⟨found, fits⟩ := (Json.fitFields_iff distinct free_specFields).mpr each
  have read := ofValue?_object fields
  rw [fits, Option.map_some] at read
  rw [read, (describes_of_ofValue? distinct read).unique described]

theorem ofValue?_eq_some_iff (distinct : fields.names.Nodup) :
    Spec.ofValue? (.object fields) = some spec ↔ Describes fields spec :=
  ⟨describes_of_ofValue? distinct, Describes.ofValue? distinct⟩

theorem mistyped_iff : Mistyped fields ↔ ¬∃ spec, Describes fields spec := by
  constructor
  · rintro wrong ⟨_, method, endpoint, params, first, second, third, -⟩
    rcases wrong with wrong | wrong | wrong
    · exact wrong method first
    · exact wrong endpoint second
    · exact wrong params third
  · intro none
    by_contra right
    simp only [Mistyped, not_or, not_forall, not_not] at right
    obtain ⟨⟨method, first⟩, ⟨endpoint, second⟩, params, third⟩ := right
    exact none ⟨_, method, endpoint, params, first, second, third, rfl⟩

theorem ofValue?_eq_none_iff (distinct : fields.names.Nodup) :
    Spec.ofValue? (.object fields) = none ↔ Mistyped fields := by
  rw [mistyped_iff, Option.eq_none_iff_forall_ne_some, not_exists]
  exact forall_congr' fun spec => not_congr (ofValue?_eq_some_iff distinct)

end

/-! ### The spec of a node -/

-- The value that the route of a node is read from.
def ReadFrom (f : Flow) (n : Node) (v : Value) : Prop :=
  (∃ c, FirstFilled f.configurations n.id c ∧ v = .object c.configs) ∨
    ((∀ c ∈ f.configurations, c.nodeId = n.id → c.configs = []) ∧ v = n.data)

-- The fault of a node whose route is not described.
def undescribed (f : Flow) (n : Node) (v : Value) : Route.Error :=
  .compilation v.compact
    ("node '" ++ n.id ++ "' in flow '" ++ f.name
      ++ "': data did not match any variant of untagged enum RawRouteSpec")

-- The spec of a node is the one that the fields describe, and a fault if one of them has another
-- type.
structure Structured (f : Flow) (n : Node) (v : Value) (fields : Entries Value) : Prop where
  spec : ∀ spec, routeSpec f n = .ok spec ↔ Describes fields spec
  fault : ∀ fault, routeSpec f n = .error fault ↔ Mistyped fields ∧ fault = undescribed f n v

section

variable {f : Flow} {n : Node} {v : Value} {fields inner : Entries Value}

theorem routeSource_of_readFrom (source : ReadFrom f n v) : routeSource f n = v := by
  rw [routeSource_eq]
  rcases source with ⟨c, first, rfl⟩ | ⟨empty, rfl⟩
  · rw [overriding_eq_some_iff.mpr first]
    rfl
  · rw [overriding_eq_none_iff.mpr empty]
    rfl

-- Without a null, the spec is read from one value.
theorem routeSpec_eq (source : routeSource f n = .object fields) :
    routeSpec f n
      = (Spec.ofValue? ((Entries.get? fields "route").getD (.object fields))).elim
          (.error (undescribed f n (.object fields))) .ok := by
  rw [routeSpec, source]
  simp only [Value.isNull, Value.get?, Bool.false_eq_true, if_false]
  cases Spec.ofValue? ((Entries.get? fields "route").getD (.object fields)) <;> rfl

theorem structured_of_ofValue? (distinct : inner.names.Nodup)
    (read : routeSpec f n = (Spec.ofValue? (.object inner)).elim (.error (undescribed f n v)) .ok) :
    Structured f n v inner where
  spec spec := by
    rw [read, ← ofValue?_eq_some_iff distinct]
    cases Spec.ofValue? (.object inner) <;> simp
  fault fault := by
    rw [read, ← ofValue?_eq_none_iff distinct]
    cases Spec.ofValue? (.object inner) <;> simp [eq_comm]

theorem ofValue?_of_other {other : Value} (text : other.string? = none)
    (object : other.object? = none) : Spec.ofValue? other = none := by
  cases other with
  | string s => cases text
  | object fields => cases object
  | _ => rfl

theorem routeSpec_of_readFrom (source : ReadFrom f n v) :
    (v = .null → routeSpec f n = .ok (.structured "GET" "" [])) ∧
    ∀ fields : Entries Value, v = .object fields → fields.names.Nodup →
      (∀ text, Entries.get? fields "route" = some (.string text) →
        routeSpec f n = .ok (.compact text)) ∧
      (Entries.get? fields "route" = none → Structured f n v fields) ∧
      -- Anything else under `route` is read in the place of the object that it stands in.
      (∀ inner : Entries Value, Entries.get? fields "route" = some (.object inner) →
        inner.names.Nodup → Structured f n v inner) ∧
      ∀ other, Entries.get? fields "route" = some other → other.string? = none →
        other.object? = none → routeSpec f n = .error (undescribed f n v) := by
  have found := routeSource_of_readFrom source
  refine ⟨?_, ?_⟩
  · rintro rfl
    rw [routeSpec, found]
    rfl
  · rintro fields rfl distinct
    have read := routeSpec_eq found
    refine ⟨fun text route => ?_, fun route => ?_, fun inner route distinct' => ?_,
      fun other route noText noObject => ?_⟩
    · rw [read, route]
      rfl
    · rw [route] at read
      exact structured_of_ofValue? distinct read
    · rw [route] at read
      exact structured_of_ofValue? distinct' read
    · rw [read, route, Option.getD_some, ofValue?_of_other noText noObject]
      rfl

end

def requestWith (data : Value) : Node :=
  { id := "n", kind := .request, moduleId := none, disabled := false, data }

-- The second configuration of the node is read. It has no method, and other fields do not matter.
theorem routeSpec_of_readFrom_saved :
    let fields : Entries Value :=
      [("$url.params", .strings ["id"]), ("apiEndpoint", .string "users"), ("apiMethod", .null),
       ("note", .bool true)]
    let n := requestWith (.object [("route", .string "GET /old")])
    let f : Flow :=
      { name := "f", nodes := [n], connections := [], configurations := [⟨"n", []⟩, ⟨"n", fields⟩] }
    ReadFrom f n (.object fields) ∧ fields.names.Nodup ∧ Entries.get? fields "route" = none ∧
      Describes fields (.structured "GET" "users" ["id"]) ∧
      routeSpec f n = .ok (.structured "GET" "users" ["id"]) := by
  intro fields n f
  have source : ReadFrom f n (.object fields) := by
    refine .inl ⟨⟨"n", fields⟩, ⟨⟨rfl, List.cons_ne_nil _ _⟩, [⟨"n", []⟩], [], rfl, ?_⟩, rfl⟩
    intro c member both
    obtain rfl := List.mem_singleton.mp member
    exact both.2 rfl
  have distinct : fields.names.Nodup := by decide
  have described : Describes fields (.structured "GET" "users" ["id"]) :=
    ⟨none, some "users", ["id"], .null, .text "users", .texts ["id"], rfl⟩
  obtain ⟨-, structured, -⟩ := (routeSpec_of_readFrom source).2 fields rfl distinct
  exact ⟨source, distinct, rfl, described, ((structured rfl).spec _).mpr described⟩

-- Neither is the value under `route` a text nor has one of the fields another type.
theorem routeSpec_of_readFrom_null :
    let fields : Entries Value := [("apiEndpoint", .string "items"), ("route", .null)]
    let n := requestWith (.object fields)
    let f : Flow := { name := "f", nodes := [n], connections := [], configurations := [] }
    ReadFrom f n (.object fields) ∧ fields.names.Nodup ∧
      (∀ text, Entries.get? fields "route" ≠ some (.string text)) ∧
      Describes fields (.structured "GET" "items" []) ∧ ¬Mistyped fields ∧
      routeSpec f n = .error (undescribed f n (.object fields)) := by
  intro fields n f
  have described : Describes fields (.structured "GET" "items" []) :=
    ⟨none, some "items", [], .absent, .text "items", .absent, rfl⟩
  refine ⟨.inr ⟨fun c member => absurd member List.not_mem_nil, rfl⟩, by decide, ?_, described,
    fun wrong => mistyped_iff.mp wrong ⟨_, described⟩, rfl⟩
  intro text same
  cases same

end Flowgate.Flow
