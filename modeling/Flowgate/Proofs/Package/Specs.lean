import Flowgate.Package.Registry
import Flowgate.Proofs.Entries
import Flowgate.Proofs.File.Steps
import Flowgate.Proofs.Text.Pieces

/-!
Specs of packages: the name of a package has a marker at its start at most, so the last marker of a
spec cuts off the version, and what the shelf gives for a spec is the package that was asked for.
-/

namespace Flowgate.Package

open File (Names steps)

/-! ### Names -/

-- A part of a name: it holds neither a slash nor a marker.
def Plain (part : String) : Prop := '/' ∉ part.toList ∧ '@' ∉ part.toList

instance (part : String) : Decidable (Plain part) := inferInstanceAs (Decidable (_ ∧ _))

-- The names that packages may have: `name`, or `@scope/name`.
inductive PackageName : String → Prop
  | bare {name : String} (plain : Plain name) (names : Names name) : PackageName name
  | inScope {scope name : String} (plainScope : Plain scope) (plain : Plain name)
      (names : Names name) : PackageName ("@" ++ scope ++ "/" ++ name)

theorem not_mem_scope {scope : String} (plain : Plain scope) : '/' ∉ ("@" ++ scope).toList := by
  rw [String.toList_append, List.mem_append, not_or]
  exact ⟨by decide, plain.1⟩

theorem names_scope (scope : String) : Names ("@" ++ scope) := by
  have first : ("@" ++ scope).toList.head? = some '@' := by simp
  refine ⟨?_, ?_, ?_⟩
  all_goals
    intro same
    rw [same] at first
    exact absurd first (by decide)

theorem steps_scoped {scope : String} (plain : Plain scope) (rest : String) :
    steps ("@" ++ scope ++ "/" ++ rest) = ("@" ++ scope) :: steps rest := by
  rw [steps, Text.pieces_append]
  exact congrArg (· ++ steps rest) (File.steps_of_clean (not_mem_scope plain))

namespace PackageName

variable {name : String}

theorem names_steps (package : PackageName name) : ∀ x ∈ steps name, Names x := by
  cases package with
  | bare plain names =>
    rw [File.steps_of_clean plain.1]
    simpa using names
  | inScope plainScope plain names =>
    rw [steps_scoped plainScope, File.steps_of_clean plain.1]
    simpa using ⟨names_scope _, names⟩

theorem ne_empty (package : PackageName name) : name ≠ "" := by
  rintro rfl
  have single : steps "" = [""] := by decide
  have named := package.names_steps ""
  rw [single] at named
  exact (named List.mem_cons_self).1 rfl

-- The marker of a scope is the only one.
theorem not_mem_tail (package : PackageName name) : '@' ∉ name.toList.tail := by
  cases package with
  | bare plain names => exact fun member => plain.2 (List.mem_of_mem_tail member)
  | @inScope scope name plainScope plain names =>
    have tail : ("@" ++ scope ++ "/" ++ name).toList.tail = scope.toList ++ '/' :: name.toList := by
      simp
    rw [tail]
    intro member
    rcases List.mem_append.mp member with inside | after
    · exact plainScope.2 inside
    · rcases List.mem_cons.mp after with slash | inside
      · exact absurd slash (by decide)
      · exact plain.2 inside

theorem relative (package : PackageName name) : File.isAbsolute name = false := by
  cases package with
  | bare plain names => exact File.isAbsolute_of_clean plain.1
  | inScope plainScope plain names => simp [File.isAbsolute]

theorem relative_append (package : PackageName name) (rest : String) :
    File.isAbsolute (name ++ rest) = false := by
  have relative := package.relative
  unfold File.isAbsolute at relative ⊢
  rw [String.toList_append]
  cases chars : name.toList with
  | nil => exact absurd (String.toList_eq_nil_iff.mp chars) package.ne_empty
  | cons c cs =>
    rw [chars] at relative
    exact relative

theorem ne_scope {part scope : String} (plain : Plain part) : part ≠ "@" ++ scope := by
  rintro rfl
  exact plain.2 (by simp)

-- No package lies below another one.
theorem eq_of_prefix {other : String} (package : PackageName name) (package' : PackageName other)
    (under : steps name <+: steps other) : name = other := by
  suffices same : steps name = steps other by
    have joined := congrArg "/".intercalate same
    rwa [steps, steps, Text.intercalate_pieces, Text.intercalate_pieces] at joined
  cases package with
  | bare plain names =>
    rw [File.steps_of_clean plain.1] at under ⊢
    cases package' with
    | bare plain' names' =>
      rw [File.steps_of_clean plain'.1] at under ⊢
      exact under.eq_of_length rfl
    | inScope plainScope' plain' names' =>
      rw [steps_scoped plainScope'] at under
      exact absurd (List.cons_prefix_cons.mp under).1 (ne_scope plain)
  | inScope plainScope plain names =>
    rw [steps_scoped plainScope, File.steps_of_clean plain.1] at under ⊢
    cases package' with
    | bare plain' names' =>
      rw [File.steps_of_clean plain'.1] at under
      exact absurd under.length_le (by simp)
    | inScope plainScope' plain' names' =>
      rw [steps_scoped plainScope', File.steps_of_clean plain'.1] at under ⊢
      exact under.eq_of_length rfl

end PackageName

-- A name that is not taken for a name and a version.
def Unversioned (name : String) : Prop := name ≠ "" ∧ '@' ∉ name.toList.tail

theorem PackageName.unversioned {name : String} (package : PackageName name) : Unversioned name :=
  ⟨package.ne_empty, package.not_mem_tail⟩

/-! ### Ways that lead to no package -/

-- No package lies on the way, and none lies behind it.
def Foreign (way : List String) : Prop :=
  ∀ name, PackageName name → ¬way <+: steps name ∧ ¬steps name <+: way

theorem foreign_single {x : String} (marked : '@' ∈ x.toList) (other : ∀ scope, x ≠ "@" ++ scope) :
    Foreign [x] := by
  intro name package
  cases package with
  | bare plain names =>
    rw [File.steps_of_clean plain.1]
    have apart : x ≠ name := fun same => plain.2 (same ▸ marked)
    exact ⟨fun under => apart (List.cons_prefix_cons.mp under).1,
      fun under => apart (List.cons_prefix_cons.mp under).1.symm⟩
  | inScope plainScope plain names =>
    rw [steps_scoped plainScope]
    exact ⟨fun under => other _ (List.cons_prefix_cons.mp under).1,
      fun under => other _ (List.cons_prefix_cons.mp under).1.symm⟩

theorem foreign_inScope (scope : String) {x : String} (marked : '@' ∈ x.toList) :
    Foreign ["@" ++ scope, x] := by
  intro name package
  cases package with
  | bare plain names =>
    rw [File.steps_of_clean plain.1]
    exact ⟨fun under => absurd under.length_le (by simp),
      fun under => PackageName.ne_scope plain (List.cons_prefix_cons.mp under).1⟩
  | @inScope _ name plainScope plain names =>
    rw [steps_scoped plainScope, File.steps_of_clean plain.1]
    have apart : x ≠ name := fun same => plain.2 (same ▸ marked)
    refine ⟨fun under => ?_, fun under => ?_⟩
    · exact apart (List.cons_prefix_cons.mp (List.cons_prefix_cons.mp under).2).1
    · exact apart (List.cons_prefix_cons.mp (List.cons_prefix_cons.mp under).2).1.symm

theorem names_of_marker {x : String} (marked : '@' ∈ x.toList) : Names x := by
  refine ⟨?_, ?_, ?_⟩
  all_goals
    rintro rfl
    exact absurd marked (by decide)

-- A name with a version behind it is cut at the slashes of the version, and the piece that holds
-- the marker belongs to no package.
theorem foreign_of_version {name : String} (package : PackageName name) (version : String) :
    ∃ way last rest, steps (name ++ "@" ++ version) = way ++ [last] ++ rest ∧
      Foreign (way ++ [last]) ∧ ∀ x ∈ way ++ [last], Names x := by
  have cut {part : String} (plain : Plain part) :
      ∃ more rest, steps (part ++ "@" ++ version) = (part ++ "@" ++ more) :: rest := by
    have clean : '/' ∉ (part ++ "@").toList := by
      rw [String.toList_append, List.mem_append, not_or]
      exact ⟨plain.1, by decide⟩
    exact File.steps_of_clean_append clean version
  have marked (part more : String) : '@' ∈ (part ++ "@" ++ more).toList := by simp
  cases package with
  | bare plain names =>
    obtain ⟨more, rest, whole⟩ := cut plain
    refine ⟨[], name ++ "@" ++ more, rest, whole, foreign_single (marked _ _) fun scope same => ?_, ?_⟩
    · have first := congrArg (fun s => s.toList.head?) same
      cases chars : name.toList with
      | nil => exact names.1 (String.toList_eq_nil_iff.mp chars)
      | cons c cs =>
        simp only [String.toList_append, chars, List.cons_append, List.head?_cons] at first
        have here : c = '@' := Option.some.inj first
        exact plain.2 (by rw [chars, here]; exact List.mem_cons_self)
    · simpa using names_of_marker (marked name more)
  | @inScope scope name plainScope plain names =>
    obtain ⟨more, rest, whole⟩ := cut plain
    refine ⟨["@" ++ scope], name ++ "@" ++ more, rest, ?_, foreign_inScope scope (marked _ _), ?_⟩
    · have split : "@" ++ scope ++ "/" ++ name ++ "@" ++ version
          = "@" ++ scope ++ "/" ++ (name ++ "@" ++ version) := by
        simp only [String.append_assoc]
      rw [split, steps_scoped plainScope, whole]
      rfl
    · intro x member
      rcases List.mem_append.mp member with inScope | last
      · rw [List.mem_singleton.mp inScope]
        exact names_scope scope
      · rw [List.mem_singleton.mp last]
        exact names_of_marker (marked _ _)

/-! ### What is on the shelf -/

-- Packages that were published and archives that were stored, each in the order in which that was
-- done, and the pauses of the calls.
structure Stock where
  published : List Item
  archives : List (String × Item)
  delay : Option Nat

namespace Stock

def shelf (s : Stock) : Shelf :=
  s.archives.foldl (fun shelf a => shelf.archive a.1 a.2)
    (s.published.foldl Shelf.publish { Shelf.empty with delay := s.delay })

def items (s : Stock) : List Item := s.published ++ s.archives.map Prod.snd

-- The version of a package that was published last.
def latest? (s : Stock) (name : String) : Option Item :=
  (s.published.filter (·.name = name)).getLast?

def version? (s : Stock) (name version : String) : Option Item :=
  s.published.find? fun p => p.name = name && p.version = version

-- What an installation asks for; an empty version is none.
def wanted? (s : Stock) (name : String) (version : Option String) : Option Item :=
  match version with
  | some version => if version.isEmpty then s.latest? name else s.version? name version
  | none => s.latest? name

-- The package of an archive, the one stored last under its path.
def archive? (s : Stock) (path : String) : Option Item :=
  (s.archives.reverse.find? fun a => File.components a.1 = File.components path).map Prod.snd

-- Names as packages have them, and nodes whose scripts lie in one directory.
structure WellNamed (s : Stock) : Prop where
  packages : ∀ p ∈ s.items, PackageName p.name
  nodes : ∀ p ∈ s.items, ∀ n ∈ p.nodes, '/' ∉ n.name.toList

theorem published_archives (archives : List (String × Item)) (shelf : Shelf) :
    (archives.foldl (fun shelf a => shelf.archive a.1 a.2) shelf).published = shelf.published := by
  induction archives generalizing shelf with
  | nil => rfl
  | cons a archives ih => exact ih _

theorem archives_published (published : List Item) (shelf : Shelf) :
    (published.foldl Shelf.publish shelf).archives = shelf.archives := by
  induction published generalizing shelf with
  | nil => rfl
  | cons p published ih => exact ih _

theorem versions_published (published : List Item) (shelf : Shelf) (name : String) :
    (Entries.get? (published.foldl Shelf.publish shelf).published name).getD []
      = (Entries.get? shelf.published name).getD [] ++ published.filter (·.name = name) := by
  induction published generalizing shelf with
  | nil => exact (List.append_nil _).symm
  | cons p published ih =>
    rw [List.foldl_cons, ih, Shelf.publish, Entries.get?_insert]
    by_cases same : p.name = name
    · subst same
      rw [if_pos rfl, List.filter_cons_of_pos (by simp), Option.getD_some, List.append_assoc,
        List.singleton_append]
    · rw [if_neg same, List.filter_cons_of_neg (by simpa using same)]

theorem versions_eq (s : Stock) (name : String) :
    (Entries.get? s.shelf.published name).getD [] = s.published.filter (·.name = name) := by
  rw [shelf, published_archives, versions_published]
  rfl

theorem find?_archive (shelf : Shelf) (path : String) (p : Item) (key : List String) :
    (shelf.archive path p).archives.find? (·.1 = key)
      = if File.components path = key then some (key, p) else shelf.archives.find? (·.1 = key) := by
  rw [Shelf.archive, List.find?_append, List.find?_filter]
  by_cases same : File.components path = key
  · subst same
    have none : shelf.archives.find? (fun a =>
        decide (decide (a.1 ≠ File.components path) = true ∧
          decide (a.1 = File.components path) = true)) = .none := by
      rw [List.find?_eq_none]
      simp
    rw [if_pos rfl, none]
    simp
  · rw [if_neg same]
    have kept : (fun a : List String × Item =>
        decide (decide (a.1 ≠ File.components path) = true ∧ decide (a.1 = key) = true))
        = fun a => decide (a.1 = key) := by
      funext a
      by_cases here : a.1 = key
      · simp [here, Ne.symm same]
      · simp [here]
    rw [kept]
    simp [same]

theorem find?_archives (archives : List (String × Item)) (shelf : Shelf) (key : List String) :
    ((archives.foldl (fun shelf a => shelf.archive a.1 a.2) shelf).archives.find? (·.1 = key)).map
        Prod.snd
      = ((archives.reverse.find? fun a => File.components a.1 = key).map Prod.snd).or
        ((shelf.archives.find? (·.1 = key)).map Prod.snd) := by
  induction archives generalizing shelf with
  | nil => rfl
  | cons a archives ih =>
    rw [List.foldl_cons, ih, List.reverse_cons, List.find?_append, find?_archive]
    cases archives.reverse.find? fun a => File.components a.1 = key with
    | some later => rfl
    | none =>
      by_cases same : File.components a.1 = key
      · simp [same]
      · simp [same]

theorem archive?_of_findArchive {s : Stock} {path : String} {p : Item}
    (done : s.shelf.findArchive path = .ok p) : s.archive? path = some p := by
  have found := find?_archives s.archives (s.published.foldl Shelf.publish
    { Shelf.empty with delay := s.delay }) (File.components path)
  rw [archives_published] at found
  unfold Shelf.findArchive at done
  split at done
  · rename_i key q there
    cases done
    have there' := congrArg (Option.map Prod.snd) there
    rw [shelf, found] at there'
    simpa [archive?, Shelf.empty] using there'
  · cases done

theorem mem_of_archive? {s : Stock} {path : String} {p : Item} (found : s.archive? path = some p) :
    p ∈ s.items := by
  obtain ⟨a, there, rfl⟩ := Option.map_eq_some_iff.mp found
  have among : a ∈ s.archives := List.mem_reverse.mp (List.mem_of_find?_eq_some there)
  exact List.mem_append_right _ (List.mem_map_of_mem among)

theorem mem_of_version? {s : Stock} {name version : String} {p : Item}
    (found : s.version? name version = some p) :
    p ∈ s.items ∧ p.name = name ∧ p.version = version := by
  have fits := List.find?_some found
  simp only [Bool.and_eq_true, decide_eq_true_eq] at fits
  exact ⟨List.mem_append_left _ (List.mem_of_find?_eq_some found), fits⟩

theorem mem_of_latest? {s : Stock} {name : String} {p : Item} (found : s.latest? name = some p) :
    p ∈ s.items ∧ p.name = name := by
  obtain ⟨there, same⟩ := List.mem_filter.mp (List.mem_of_getLast? found)
  exact ⟨List.mem_append_left _ there, of_decide_eq_true same⟩

/-! ### What a spec asks for -/

theorem splitSpec_cases (spec : String) :
    Shelf.splitSpec spec = (spec, none) ∨
    ∃ name version, Shelf.splitSpec spec = (name, some version) ∧ '@' ∉ version.toList ∧
      spec.toList = name.toList ++ '@' :: version.toList := by
  unfold Shelf.splitSpec
  cases cut : Text.splitLast '@' spec with
  | none => exact .inl rfl
  | some parts =>
    obtain ⟨name, version⟩ := parts
    obtain ⟨whole, clean⟩ := Text.splitLast_eq_some.mp cut
    by_cases empty : name.isEmpty
    · exact .inl (if_pos empty)
    · exact .inr ⟨name, version, if_neg empty, clean, whole⟩

-- The name in a spec is that of the package that it gives.
theorem resolve_cases {s : Stock} {spec : String} {p : Item} (done : s.shelf.resolve spec = .ok p) :
    (spec = p.name ∧ s.latest? p.name = some p) ∨
    ∃ version, spec.toList = p.name.toList ++ '@' :: version.toList ∧ '@' ∉ version.toList ∧
      s.version? p.name version = some p := by
  have listed {name : String} {versions : List Item}
      (found : Entries.get? s.shelf.published name = some versions) :
      versions = s.published.filter (·.name = name) := by
    have whole := s.versions_eq name
    rwa [found, Option.getD_some] at whole
  unfold Shelf.resolve at done
  rcases splitSpec_cases spec with split | ⟨name, version, split, clean, whole⟩
  · simp only [split] at done
    cases found : Entries.get? s.shelf.published spec with
    | none => rw [found] at done; cases done
    | some versions =>
      rw [found] at done
      cases last : versions.getLast? with
      | none => simp only [last] at done; cases done
      | some q =>
        simp only [last] at done
        cases done
        have latest : s.latest? spec = some p := by rw [latest?, ← listed found, last]
        obtain ⟨-, rfl⟩ := mem_of_latest? latest
        exact .inl ⟨rfl, latest⟩
  · simp only [split] at done
    cases found : Entries.get? s.shelf.published name with
    | none => rw [found] at done; cases done
    | some versions =>
      rw [found] at done
      cases first : versions.find? (·.version = version) with
      | none => simp only [first] at done; cases done
      | some q =>
        simp only [first] at done
        cases done
        have here : s.version? name version = some p := by
          rw [version?, ← first, listed found, List.find?_filter]
          simp
        obtain ⟨-, rfl, -⟩ := mem_of_version? here
        exact .inr ⟨version, whole, clean, here⟩

theorem mem_of_resolve {s : Stock} {spec : String} {p : Item}
    (done : s.shelf.resolve spec = .ok p) : p ∈ s.items := by
  rcases resolve_cases done with ⟨-, latest⟩ | ⟨version, -, -, here⟩
  · exact (mem_of_latest? latest).1
  · exact (mem_of_version? here).1

theorem eq_empty_of_marker {name front : String} {rest : List Char} (package : PackageName name)
    (split : name.toList = front.toList ++ '@' :: rest) : front = "" := by
  cases chars : front.toList with
  | nil => exact String.toList_eq_nil_iff.mp chars
  | cons c cs =>
    refine absurd ?_ package.not_mem_tail
    rw [split, chars]
    simp

-- A name that is not the one of the package has a marker of its own.
theorem of_version {s : Stock} (named : s.WellNamed) {name version : String} {p : Item}
    (done : s.shelf.resolve (name ++ "@" ++ version) = .ok p) :
    (name = p.name ∧ s.version? name version = some p) ∨ name = "" := by
  have package := named.packages p (mem_of_resolve done)
  have chars : (name ++ "@" ++ version).toList = name.toList ++ '@' :: version.toList := by simp
  rcases resolve_cases done with ⟨same, -⟩ | ⟨version', whole, clean, here⟩
  · exact .inr (eq_empty_of_marker package (same ▸ chars))
  · rw [chars] at whole
    rcases List.append_eq_append_iff.mp whole with ⟨more, longer, rest⟩ | ⟨more, shorter, rest⟩
    · cases more with
      | nil =>
        rw [List.append_nil] at longer
        obtain rfl := String.toList_injective longer
        obtain rfl := String.toList_injective (List.cons.inj rest).2
        exact .inl ⟨rfl, here⟩
      | cons c cs =>
        obtain ⟨rfl, -⟩ := List.cons.inj rest
        exact .inr (eq_empty_of_marker package longer)
    · cases more with
      | nil =>
        rw [List.append_nil] at shorter
        obtain rfl := String.toList_injective shorter
        obtain rfl := String.toList_injective (List.cons.inj rest).2
        exact .inl ⟨rfl, here⟩
      | cons c cs =>
        obtain ⟨-, tail⟩ := List.cons.inj rest
        exact absurd (by rw [tail]; simp) clean

theorem of_installSpec {s : Stock} (named : s.WellNamed) {name : String} {version : Option String}
    {p : Item} (done : s.shelf.resolve (Registry.installSpec name version) = .ok p) :
    (name = p.name ∧ s.wanted? name version = some p) ∨ name = "" ∨
      ∃ version, name = p.name ++ "@" ++ version := by
  have plain (done : s.shelf.resolve name = .ok p) :
      (name = p.name ∧ s.latest? name = some p) ∨ ∃ version, name = p.name ++ "@" ++ version := by
    rcases resolve_cases done with ⟨same, latest⟩ | ⟨version, whole, -, -⟩
    · exact .inl ⟨same, same ▸ latest⟩
    · exact .inr ⟨version, String.toList_injective (by simp [whole])⟩
  unfold Registry.installSpec at done
  unfold wanted?
  cases version with
  | none => exact (plain done).imp_right .inr
  | some version =>
    by_cases empty : version.isEmpty
    · simp only [empty, if_true] at done ⊢
      exact (plain done).imp_right .inr
    · simp only [empty, Bool.false_eq_true, if_false] at done ⊢
      exact (of_version named done).imp_right .inl

theorem name_of_installSpec {s : Stock} (named : s.WellNamed) {name : String}
    (unversioned : Unversioned name) {version : Option String} {p : Item}
    (done : s.shelf.resolve (Registry.installSpec name version) = .ok p) : name = p.name := by
  have package := named.packages p (mem_of_resolve done)
  rcases of_installSpec named done with ⟨same, -⟩ | empty | ⟨version', rfl⟩
  · exact same
  · exact absurd empty unversioned.1
  · refine absurd ?_ unversioned.2
    cases chars : p.name.toList with
    | nil => exact absurd (String.toList_eq_nil_iff.mp chars) package.ne_empty
    | cons c cs => simp [chars]

-- What has versions on the shelf is a package.
theorem package_of_versions {s : Stock} (named : s.WellNamed) {name version : String}
    (known : version ∈ s.shelf.versions name) : PackageName name := by
  obtain ⟨p, there, -⟩ := List.mem_map.mp known
  rw [s.versions_eq] at there
  obtain ⟨published, same⟩ := List.mem_filter.mp there
  have package := named.packages p (List.mem_append_left _ published)
  rwa [of_decide_eq_true same] at package

theorem name_of_version {s : Stock} (named : s.WellNamed) {name version : String}
    (package : PackageName name) {p : Item}
    (done : s.shelf.resolve (name ++ "@" ++ version) = .ok p) : name = p.name := by
  rcases of_version named done with ⟨same, -⟩ | empty
  · exact same
  · exact absurd empty package.ne_empty

end Stock

end Flowgate.Package
