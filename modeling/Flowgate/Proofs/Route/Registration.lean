import Flowgate.Proofs.Route.Serving

/-!
Registration: how the host of a router reads the paths that are registered with it, and what it takes.
What passes the checks of a set of routes is read as it was meant, no two paths are read alike, and no
method is there twice. So the host refuses nothing but literals that start with an asterisk and paths
with more parameters than it has letters for.
-/

namespace Flowgate.Route

/-! ### Reading -/

-- What the host reads in a segment.
inductive Part where
  | literal (text : String)
  | capture (name : String)
deriving DecidableEq

-- The literal that is written with every brace doubled.
def unescape? : List Char → Option (List Char)
  | [] => some []
  | [c] => if isBrace c then none else some [c]
  | c :: d :: cs =>
    if isBrace c then
      if d = c then (unescape? cs).map (c :: ·) else none
    else (unescape? (d :: cs)).map (c :: ·)

-- The name of the capture that a segment is.
def capture? (segment : String) : Option String :=
  match segment.toList with
  | '\x7b' :: rest =>
    if rest.getLast? = some '\x7d' && isParamName (String.ofList rest.dropLast) then
      some (String.ofList rest.dropLast)
    else none
  | _ => none

def readSegment? (segment : String) : Option Part :=
  match unescape? segment.toList with
  | some text => some (.literal (String.ofList text))
  | none => (capture? segment).map .capture

-- A path is read from its first slash on; empty segments are literals too.
def read? (path : String) : Option (List Part) :=
  (Router.requestSegments? path).bind (·.mapM readSegment?)

def Part.isCapture : Part → Bool
  | .literal _ => false
  | .capture _ => true

-- The part without its name: the host compares paths by these.
def Part.shape : Part → Option String
  | .literal text => some text
  | .capture _ => none

-- What the host asks of the slots that are registered with it.
structure Registrable (slots : List (Slot κ)) : Prop where
  read : ∀ slot ∈ slots, ∃ parts, read? (template slot.path) = some parts ∧
    (parts.filter Part.isCapture).length ≤ 25
  unmarked : ∀ slot ∈ slots, ∀ segments, Router.requestSegments? (template slot.path) = some segments →
    ∀ s ∈ segments, s.toList.head? ≠ some ':' ∧ s.toList.head? ≠ some '*'
  apart : slots.Pairwise fun a b =>
    (read? (template a.path)).map (·.map Part.shape) ≠ (read? (template b.path)).map (·.map Part.shape)
  methods : ∀ slot ∈ slots, (slot.methods.map (·.method)).Nodup ∧
    ∀ e ∈ slot.methods, e.method ∈ knownMethods

/-! ### Written segments -/

theorem unescape?_cons {c : Char} (plain : isBrace c = false) (cs : List Char) :
    unescape? (c :: cs) = (unescape? cs).map (c :: ·) := by
  cases cs with
  | nil => simp [unescape?, plain]
  | cons d cs => simp [unescape?, plain]

theorem unescape?_doubled (cs : List Char) : unescape? (cs.flatMap doubled) = some cs := by
  induction cs with
  | nil => rfl
  | cons c cs ih =>
    rw [List.flatMap_cons, doubled]
    by_cases brace : isBrace c
    · simp [unescape?, brace, ih]
    · rw [if_neg brace, List.singleton_append, unescape?_cons (by simpa using brace), ih]
      rfl

theorem readSegment?_literal {segment : String} (plain : param? segment = none) :
    readSegment? (template.templateSegment segment) = some (.literal segment) := by
  rw [readSegment?, templateSegment_literal plain, unescape?_doubled]
  simp only [String.ofList_toList]

-- A capture is no literal: its first brace stands alone.
theorem readSegment?_param {segment name : String} (named : param? segment = some name)
    (proper : isParamName name = true) :
    readSegment? (template.templateSegment segment) = some (.capture name) := by
  obtain ⟨some, clean⟩ := isParamName_chars proper
  have single : unescape? ('\x7b' :: (name.toList ++ ['\x7d'])) = none := by
    cases chars : name.toList with
    | nil => exact absurd chars some
    | cons c cs =>
      have notBrace := clean c (by simp [chars])
      have apart : c ≠ '\x7b' := by
        rintro rfl
        cases notBrace
      have brace : isBrace '\x7b' = true := rfl
      rw [List.cons_append, unescape?, if_pos brace, if_neg apart]
  have captured : capture? (template.templateSegment segment) = .some name := by
    rw [capture?, templateSegment_param named]
    simp [proper]
  rw [readSegment?, templateSegment_param named, single, captured]
  rfl

-- What the host is meant to read in a segment.
def partOf (segment : String) : Part :=
  match param? segment with
  | some name => .capture name
  | none => .literal segment

theorem readSegment?_template {segment : String}
    (proper : ∀ name, param? segment = some name → isParamName name = true) :
    readSegment? (template.templateSegment segment) = some (partOf segment) := by
  unfold partOf
  cases named : param? segment with
  | none => exact readSegment?_literal named
  | some name => exact readSegment?_param named (proper name named)

/-! ### Written paths -/

theorem templateSegments_proper (path : String) :
    ∀ t ∈ (segments path).map template.templateSegment, t ≠ "" ∧ '/' ∉ t.toList := by
  intro t member
  obtain ⟨s, there, rfl⟩ := List.mem_map.mp member
  exact templateSegment_proper (segments_proper path s there).1 (segments_proper path s there).2

-- The segments of a template; the root has one empty segment.
theorem requestSegments?_template (path : String) :
    Router.requestSegments? (template path)
      = some (if segments path = [] then [""] else (segments path).map template.templateSegment) := by
  have proper := templateSegments_proper path
  rw [template, Router.requestSegments?_rooted fun t member => (proper t member).2]
  simp only [List.map_eq_nil_iff]

theorem mapM_readSegment? {xs : List String}
    (proper : ∀ s ∈ xs, ∀ name, param? s = some name → isParamName name = true) :
    (xs.map template.templateSegment).mapM readSegment? = some (xs.map partOf) := by
  induction xs with
  | nil => rfl
  | cons x xs ih =>
    rw [List.map_cons, List.mapM_cons, readSegment?_template (proper x List.mem_cons_self),
      ih fun s member => proper s (List.mem_cons_of_mem _ member)]
    rfl

theorem read?_template {path : String}
    (proper : ∀ s ∈ segments path, ∀ name, param? s = some name → isParamName name = true) :
    read? (template path)
      = some (if segments path = [] then [.literal ""] else (segments path).map partOf) := by
  rw [read?, requestSegments?_template]
  by_cases none : segments path = []
  · rw [if_pos none, if_pos none]
    rfl
  · rw [if_neg none, if_neg none]
    exact mapM_readSegment? proper

example : read? (template "/users/:id/a\x7bb")
    = some [.literal "users", .capture "id", .literal "a\x7bb"] := by
  decide +kernel

/-! ### Marks -/

theorem head?_templateSegment (segment : String) (c : Char) (other : c ≠ '\x7b') :
    (template.templateSegment segment).toList.head? = some c ↔
      param? segment = none ∧ segment.toList.head? = some c := by
  cases named : param? segment with
  | some name => simp [templateSegment_param named, other.symm]
  | none =>
    rw [templateSegment_literal named]
    cases segment.toList with
    | nil => simp
    | cons d cs =>
      obtain ⟨rest, head⟩ := doubled_cons d cs
      simp [head]

theorem param?_of_colon {segment : String} (colon : segment.toList.head? = some ':') :
    param? segment ≠ none := by
  unfold param?
  cases chars : segment.toList with
  | nil =>
    simp [chars] at colon
  | cons c cs =>
    rw [chars] at colon
    cases colon
    simp

-- What the checks of a set of routes do not look at.
def Overlooked (path : String) : Prop :=
  (∃ s ∈ segments path, s.toList.head? = some '*') ∨ 25 < ((segments path).filterMap param?).length

theorem segments_template (path : String) :
    segments (template path) = (segments path).map template.templateSegment :=
  segments_rooted (templateSegments_proper path)

namespace Router

theorem overlooked_of_refusal? {path : String} {refusal : Refusal}
    (refused : refusal? path = some refusal) : Overlooked path := by
  unfold refusal? at refused
  split at refused
  · rename_i wild
    rw [isWildcard, segments_template, List.any_map] at wild
    obtain ⟨s, there, star⟩ := List.any_eq_true.mp wild
    have head := (head?_templateSegment s '*' (by decide)).mp (of_decide_eq_true star)
    exact .inl ⟨s, there, head.2⟩
  · split at refused
    · rename_i crowded
      exact .inr (of_decide_eq_true crowded)
    · cases refused

theorem head?_of_refusal? {path : String} (free : refusal? path = none) :
    ∀ s ∈ segments path, (template.templateSegment s).toList.head? ≠ some '*' := by
  intro s there star
  have wild : isWildcard path = true := by
    rw [isWildcard, segments_template, List.any_map, List.any_eq_true]
    exact ⟨s, there, decide_eq_true star⟩
  simp [refusal?, wild] at free

theorem length_of_refusal? {path : String} (free : refusal? path = none) :
    ((segments path).filterMap param?).length ≤ 25 := by
  by_contra more
  have crowded : isCrowded path = true := decide_eq_true (Nat.lt_of_not_le more)
  rw [refusal?, if_pos crowded] at free
  split at free <;> cases free

end Router

/-! ### Slots -/

theorem length_captures (xs : List String) :
    ((xs.map partOf).filter Part.isCapture).length = (xs.filterMap param?).length := by
  induction xs with
  | nil => rfl
  | cons x xs ih =>
    rw [List.map_cons, List.filterMap_cons, partOf]
    cases param? x with
    | none => exact ih
    | some name => exact congrArg Nat.succ ih

-- The induction is on what is left of two paths that agree so far.
theorem WellShaped.segments_eq {es : List (Endpoint κ)} (shaped : WellShaped es) {e f : Endpoint κ}
    (left : e ∈ es) (right : f ∈ es) {common xs ys : List String}
    (here : segments e.path = common ++ xs) (there : segments f.path = common ++ ys)
    (same : (xs.map partOf).map Part.shape = (ys.map partOf).map Part.shape) :
    segments e.path = segments f.path := by
  induction xs generalizing common ys with
  | nil =>
    cases ys with
    | nil => rw [here, there]
    | cons y ys => cases same
  | cons x xs ih =>
    cases ys with
    | nil => cases same
    | cons y ys =>
      obtain ⟨first, rest⟩ := List.cons.inj same
      have equal : x = y := by
        unfold partOf at first
        cases named : param? x with
        | none =>
          cases named' : param? y with
          | none =>
            rw [named, named'] at first
            exact Option.some.inj first
          | some name =>
            rw [named, named'] at first
            cases first
        | some name =>
          cases named' : param? y with
          | none =>
            rw [named, named'] at first
            cases first
          | some name' =>
            exact shaped.param_eq left right here there (named ▸ rfl) (named' ▸ rfl)
      subst equal
      have here' : segments e.path = (common ++ [x]) ++ xs := by simpa using here
      exact ih here' (by simpa using there) rest

theorem shape_ne_empty {path s : String} (member : s ∈ segments path) :
    (partOf s).shape ≠ some "" := by
  unfold partOf
  cases param? s with
  | some name => exact fun same => by cases same
  | none => exact fun same => (segments_proper path s member).1 (Option.some.inj same)

theorem shapes_ne_root {path : String} :
    ((segments path).map partOf).map Part.shape ≠ [some ""] := by
  intro same
  rw [List.map_map] at same
  have among : some "" ∈ (segments path).map (Part.shape ∘ partOf) := by
    rw [same]
    exact List.mem_singleton_self _
  obtain ⟨s, member, empty⟩ := List.mem_map.mp among
  exact shape_ne_empty member empty

-- Paths that the host reads alike, up to the names of captures, are registered under one template.
theorem WellShaped.template_eq {es : List (Endpoint κ)} (shaped : WellShaped es) {e f : Endpoint κ}
    (left : e ∈ es) (right : f ∈ es)
    (same : (read? (template e.path)).map (·.map Part.shape)
      = (read? (template f.path)).map (·.map Part.shape)) : template e.path = template f.path := by
  rw [read?_template fun s there name named => shaped.isParamName left there named,
    read?_template fun s there name named => shaped.isParamName right there named] at same
  have shapes := Option.some.inj same
  suffices segs : segments e.path = segments f.path by rw [template, template, segs]
  by_cases none : segments e.path = []
  · by_cases none' : segments f.path = []
    · rw [none, none']
    · rw [if_pos none, if_neg none'] at shapes
      exact absurd shapes.symm shapes_ne_root
  · by_cases none' : segments f.path = []
    · rw [if_neg none, if_pos none'] at shapes
      exact absurd shapes shapes_ne_root
    · rw [if_neg none, if_neg none'] at shapes
      exact shaped.segments_eq left right (List.nil_append _).symm (List.nil_append _).symm shapes

namespace Router

variable {es : List (Endpoint κ)} {router : Router κ}

theorem Built.methods_nodup (built : Built es router) (canonical : ∀ e ∈ es, Canonical e.path)
    {slot : Slot κ} (member : slot ∈ router.slots) :
    (slot.methods.map (·.method)).Nodup ∧ ∀ e ∈ slot.methods, e.method ∈ knownMethods := by
  have methods := (built.holds.slot slot member).methods
  rw [built.here_eq canonical member] at methods
  have parts (e : Endpoint κ) (there : e ∈ slot.methods) :
      (e ∈ es ∧ e.path = slot.path) ∧ servesAll e.method = false := by
    rw [methods, List.mem_filter, List.mem_filter] at there
    exact ⟨⟨there.1.1, of_decide_eq_true there.1.2⟩, by simpa using there.2⟩
  constructor
  · apply List.Nodup.map_on
    · intro a left b right same
      obtain ⟨⟨inEs, path⟩, -⟩ := parts a left
      obtain ⟨⟨inEs', path'⟩, -⟩ := parts b right
      exact built.one_of_method slot.path a.method a inEs b inEs' (decide_eq_true ⟨path, rfl⟩)
        (decide_eq_true ⟨path', same.symm⟩)
    · rw [methods]
      exact ((List.Nodup.of_map _ built.unique).filter _).filter _
  · intro e there
    obtain ⟨⟨inEs, -⟩, own⟩ := parts e there
    have known := built.holds.known e inEs
    rw [own, Bool.or_false] at known
    exact List.contains_iff_mem.mp known

theorem Built.registrable (built : Built es router) (canonical : ∀ e ∈ es, Canonical e.path)
    (free : ∀ slot ∈ router.slots, refusal? slot.path = none) : Registrable router.slots := by
  have proper {slot : Slot κ} (member : slot ∈ router.slots) :
      ∀ s ∈ segments slot.path, ∀ name, param? s = some name → isParamName name = true := by
    obtain ⟨e, there, path⟩ := (built.holds.slot slot member).path
    rw [path]
    exact fun s among name named => built.shaped.isParamName there among named
  refine ⟨?_, ?_, ?_, fun slot member => built.methods_nodup canonical member⟩
  · intro slot member
    refine ⟨_, read?_template (proper member), ?_⟩
    split
    · exact Nat.zero_le 25
    · rw [length_captures]
      exact length_of_refusal? (free slot member)
  · intro slot member segs cut s there
    rw [requestSegments?_template] at cut
    obtain rfl := Option.some.inj cut
    split at there
    · rw [List.mem_singleton.mp there]
      decide
    · obtain ⟨t, among, rfl⟩ := List.mem_map.mp there
      refine ⟨fun colon => ?_, head?_of_refusal? (free slot member) t among⟩
      obtain ⟨plain, head⟩ := (head?_templateSegment t ':' (by decide)).mp colon
      exact param?_of_colon head plain
  · refine built.holds.distinct.imp_of_mem fun {a b} left right distinct same => distinct ?_
    obtain ⟨e, there, path⟩ := (built.holds.slot a left).path
    obtain ⟨f, there', path'⟩ := (built.holds.slot b right).path
    rw [path, path'] at same ⊢
    exact built.shaped.template_eq there there' same

-- Building fails a check, gives what the host takes, or stops at a path that the checks overlook.
theorem ofGroup_outcome (g : Group κ) :
    (∃ e, ofGroup g = .error (.rejected e)) ∨
    (∃ router, ofGroup g = .ok router ∧ Registrable router.slots) ∨
    ∃ refusal, ofGroup g = .error (.refused refusal) ∧ ∃ e ∈ g.endpoints, Overlooked e.path := by
  rcases ofEndpoints_cases g.endpoints with rejected | ⟨slots, built, outcome⟩
  · exact .inl rejected
  · cases found : slots.findSome? fun slot => refusal? slot.path with
    | none =>
      rw [found] at outcome
      exact .inr (.inl ⟨_, outcome, built.registrable (canonical_endpoints g)
        (List.findSome?_eq_none_iff.mp found)⟩)
    | some refusal =>
      rw [found] at outcome
      obtain ⟨slot, member, refused⟩ := List.exists_of_findSome?_eq_some found
      obtain ⟨e, there, path⟩ := (built.holds.slot slot member).path
      rw [path] at refused
      exact .inr (.inr ⟨refusal, outcome, e, there, overlooked_of_refusal? refused⟩)

-- The old way to write a path that takes the rest of every request.
def starred : Group String := [.route "GET" "/a/*all" "rest" none]

theorem refused_starred : ofGroup starred = .error (.refused .wildcard) := by
  rfl

end Router

end Flowgate.Route
