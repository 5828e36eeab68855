import Flowgate.Package.Registry
import Flowgate.Proofs.Package.Lookup
import Mathlib.Data.List.Induction
import Mathlib.Data.List.Nodup

/-!
Histories of a catalog. Whatever is added, updated and removed, one by one or in batches, the names and
the identities of the catalog say the same; and what the identity of a name finds is the schema that
was given last for the name, unless the name was removed after that.
-/

namespace Flowgate.Package

-- Made from the manifest of a package.
def Schema.Built (s : Schema) : Prop :=
  ∃ manifest isLocal loaded, s = .ofManifest manifest isLocal loaded

theorem Schema.Built.own {s : Schema} (built : s.Built) : s.id = .module s.name := by
  obtain ⟨manifest, isLocal, loaded, rfl⟩ := built
  rfl

theorem Identity.distinct_of_nodup {known : List String}
    (apart : (known.map Identity.module).Nodup) : Identity.Distinct (· ∈ known) :=
  fun _ _ here there same => List.inj_on_of_nodup_map apart here there same

theorem Identity.distinct_pair {a b : String} (apart : Identity.module a ≠ Identity.module b) :
    Identity.Distinct (· ∈ [a, b]) :=
  distinct_of_nodup (by simpa using apart)

namespace Catalog

variable {names : String → Prop} {c : Catalog} {name : String} {s : Schema}

/-! ### Changes -/

inductive Change where
  | add (s : Schema)
  | addAll (schemas : List Schema)
  | update (s : Schema)
  | remove (name : String)

namespace Change

-- The schemas that a change gives, in their order.
def schemas : Change → List Schema
  | .add s => [s]
  | .addAll schemas => schemas
  | .update s => [s]
  | .remove _ => []

-- The schema that it gives for a name; of several in one batch the last one counts.
def given? (change : Change) (name : String) : Option Schema :=
  (change.schemas.filter (·.name = name)).getLast?

-- It neither gives a schema for the name nor removes the name.
def Spares (change : Change) (name : String) : Prop :=
  change ≠ .remove name ∧ ∀ s ∈ change.schemas, s.name ≠ name

end Change

def after (c : Catalog) : Change → Catalog
  | .add s => c.insertAll [s]
  | .addAll schemas => c.insertAll schemas
  | .update s => c.insert s
  | .remove name => c.erase name

def ofChanges (changes : List Change) : Catalog := changes.foldl after .empty

-- The schema is the last one that was given for the name, and the name was not removed after that.
def LastGiven (changes : List Change) (name : String) (s : Schema) : Prop :=
  ∃ before change later, changes = before ++ change :: later ∧ change.given? name = some s ∧
    ∀ other ∈ later, other.Spares name

theorem ofChanges_snoc (changes : List Change) (change : Change) :
    ofChanges (changes ++ [change]) = (ofChanges changes).after change := by
  simp only [ofChanges, List.foldl_append, List.foldl_cons, List.foldl_nil]

theorem Change.cases_for (change : Change) (name : String) :
    change = .remove name ∨ (∃ s, change.given? name = some s) ∨ change.Spares name := by
  by_cases removed : change = .remove name
  · exact .inl removed
  · cases found : change.given? name with
    | some s => exact .inr (.inl ⟨s, rfl⟩)
    | none =>
      have none : change.schemas.filter (·.name = name) = [] := List.getLast?_eq_none_iff.mp found
      refine .inr (.inr ⟨removed, fun s member same => ?_⟩)
      have kept : s ∈ change.schemas.filter (·.name = name) :=
        List.mem_filter.mpr ⟨member, decide_eq_true same⟩
      simp [none] at kept

theorem Change.given?_of_spares {change : Change} (spares : change.Spares name) :
    change.given? name = none := by
  have none : change.schemas.filter (·.name = name) = [] := by
    simpa [List.filter_eq_nil_iff] using spares.2
  simp [given?, none]

/-! ### One change -/

theorem module?_insertAll (c : Catalog) (schemas : List Schema) (name : String) :
    (c.insertAll schemas).module? name
      = ((schemas.filter (·.name = name)).getLast?).or (c.module? name) := by
  induction schemas generalizing c with
  | nil => simp [insertAll]
  | cons s schemas ih =>
    have step := (ih (c.insert s)).trans (congrArg _ (module?_insert c s name))
    refine step.trans ?_
    by_cases same : s.name = name
    · simp only [same, if_true, List.filter_cons, decide_true, List.getLast?_cons]
      cases (schemas.filter (·.name = name)).getLast? <;> rfl
    · simp [same]

-- A batch of one is an update.
theorem module?_after_given {change : Change} (given : change.given? name = some s) :
    (c.after change).module? name = some s := by
  have batch (schemas : List Schema) (last : (schemas.filter (·.name = name)).getLast? = some s) :
      (c.insertAll schemas).module? name = some s := by
    simp [module?_insertAll, last]
  cases change with
  | add t => exact batch [t] given
  | addAll schemas => exact batch schemas given
  | update t => exact batch [t] given
  | remove other => cases given

theorem module?_after_spares {change : Change} (spares : change.Spares name) :
    (c.after change).module? name = c.module? name := by
  have none := Change.given?_of_spares spares
  have batch (schemas : List Schema) (last : (schemas.filter (·.name = name)).getLast? = .none) :
      (c.insertAll schemas).module? name = c.module? name := by
    simp [module?_insertAll, last]
  cases change with
  | add t => exact batch [t] none
  | addAll schemas => exact batch schemas none
  | update t => exact batch [t] none
  | remove other =>
    have apart : other ≠ name := fun same => spares.1 (congrArg Change.remove same)
    simp [after, module?_erase, apart]

/-! ### Histories -/

theorem lastGiven_snoc {changes : List Change} {change : Change} :
    LastGiven (changes ++ [change]) name s ↔
      change.given? name = some s ∨ (change.Spares name ∧ LastGiven changes name s) := by
  constructor
  · rintro ⟨before, given, later, split, found, spared⟩
    rcases List.eq_nil_or_concat later with rfl | ⟨later, last, rfl⟩
    · obtain ⟨-, same⟩ := List.append_inj' split rfl
      obtain rfl := (List.cons.inj same).1
      exact .inl found
    · have parts : changes ++ [change] = (before ++ given :: later) ++ [last] := by
        simpa [List.concat_eq_append] using split
      obtain ⟨rfl, same⟩ := List.append_inj' parts rfl
      obtain rfl := (List.cons.inj same).1
      refine .inr ⟨spared _ (by simp), before, given, later, rfl, found, ?_⟩
      exact fun other member => spared other (by simp [member])
  · rintro (found | ⟨spares, before, given, later, rfl, found, spared⟩)
    · exact ⟨changes, change, [], rfl, found, by simp⟩
    · refine ⟨before, given, later ++ [change], by simp, found, fun other member => ?_⟩
      rcases List.mem_append.mp member with there | last
      · exact spared other there
      · rwa [List.mem_singleton.mp last]

-- The induction is on the history from its end.
theorem module?_ofChanges {changes : List Change} :
    (ofChanges changes).module? name = some s ↔ LastGiven changes name s := by
  induction changes using List.reverseRecOn with
  | nil =>
    constructor
    · intro found
      cases found
    · rintro ⟨before, change, later, split, -⟩
      simp at split
  | append_singleton changes change ih =>
    rw [ofChanges_snoc, lastGiven_snoc, ← ih]
    rcases change.cases_for name with rfl | ⟨t, given⟩ | spares
    · have gone : ((ofChanges changes).after (.remove name)).module? name = none := by
        simp [after, module?_erase]
      have unspared : ¬(Change.remove name).Spares name := fun spares => spares.1 rfl
      simp [gone, unspared, Change.given?, Change.schemas]
    · have unspared : ¬change.Spares name := by
        intro spares
        simp [Change.given?_of_spares spares] at given
      simp [module?_after_given given, given, unspared]
    · simp [module?_after_spares spares, Change.given?_of_spares spares, spares]

theorem Recorded.after (recorded : c.Recorded names) {change : Change}
    (given : ∀ s ∈ change.schemas, s.Built ∧ names s.name) : (c.after change).Recorded names := by
  have batch (schemas : List Schema) (given : ∀ s ∈ schemas, s.Built ∧ names s.name) :
      (c.insertAll schemas).Recorded names := by
    apply recorded.insertAll
    · exact fun s member => (given s member).1.own
    · exact fun s member => (given s member).2
  cases change with
  | add s => exact batch [s] given
  | addAll schemas => exact batch schemas given
  | update s => exact batch [s] given
  | remove name => exact recorded.erase name

theorem recorded_ofChanges {changes : List Change}
    (given : ∀ change ∈ changes, ∀ s ∈ change.schemas, s.Built ∧ names s.name) :
    (ofChanges changes).Recorded names := by
  induction changes using List.reverseRecOn with
  | nil => exact .empty
  | append_singleton changes change ih =>
    rw [ofChanges_snoc]
    apply Recorded.after
    · exact ih fun other member => given other (List.mem_append_left _ member)
    · exact given change (by simp)

/-! ### Consistency -/

def Holds (c : Catalog) (name : String) : Prop := ∃ s, c.module? name = some s

-- Names and identities say the same.
structure Consistent (c : Catalog) : Prop where
  named : ∀ name s, c.module? name = some s → s.name = name
  -- An identity that is listed belongs to one name of the catalog and leads to it.
  led : ∀ key name, Entries.get? c.byId key = some name →
    c.Holds name ∧ (Identity.module name).text = key ∧
      ∀ other, c.Holds other → (Identity.module other).text = key → other = name
  listed : ∀ name, c.Holds name → Entries.get? c.byId (Identity.module name).text = some name

theorem Recorded.consistent (distinct : Identity.Distinct names) (recorded : c.Recorded names) :
    c.Consistent := by
  have indexed := recorded.indexed distinct
  have held {name : String} {s : Schema} (there : c.module? name = some s) :
      s.name = name ∧ s.id = .module name := by
    obtain ⟨rfl, own, -⟩ := indexed.named name s there
    exact ⟨rfl, own⟩
  have listed (name : String) (holds : c.Holds name) :
      Entries.get? c.byId (Identity.module name).text = some name := by
    obtain ⟨s, there⟩ := holds
    exact (indexed.exact _ name).mpr ⟨s, there, congrArg Identity.text (held there).2⟩
  refine ⟨fun name s there => (held there).1, fun key name found => ?_, listed⟩
  obtain ⟨s, there, own⟩ := (indexed.exact key name).mp found
  rw [(held there).2] at own
  refine ⟨⟨s, there⟩, own, fun other holds same => ?_⟩
  have back := listed other holds
  rw [same, found] at back
  exact (Option.some.inj back).symm

theorem Recorded.sorted (recorded : c.Recorded names) : Entries.Sorted c.modules := by
  induction recorded with
  | empty => exact .nil
  | insert _ own among ih => exact Entries.sorted_insert ih _ _
  | erase _ name ih =>
    rw [erase_modules]
    exact Entries.sorted_change ih _ _

theorem mem_installed (consistent : c.Consistent) (sorted : Entries.Sorted c.modules) :
    s ∈ c.installed ↔ c.module? s.name = some s := by
  constructor
  · intro member
    obtain ⟨⟨name, t⟩, there, same⟩ := List.mem_map.mp member
    have found : c.module? name = some s := Entries.get?_of_mem sorted (same ▸ there)
    rwa [consistent.named name s found]
  · intro found
    exact List.mem_map.mpr ⟨_, Entries.mem_of_get? found, rfl⟩

theorem installed_ascending (consistent : c.Consistent) (sorted : Entries.Sorted c.modules) :
    (c.installed.map (·.name)).Pairwise (· < ·) := by
  have names : c.installed.map (·.name) = c.modules.map Prod.fst := by
    rw [installed, List.map_map]
    refine List.map_congr_left fun pair member => ?_
    exact consistent.named pair.1 pair.2 (Entries.get?_of_mem sorted member)
  rw [names, List.pairwise_map]
  exact sorted

theorem catalog_of_history (distinct : Identity.Distinct names) {changes : List Change}
    (given : ∀ change ∈ changes, ∀ s ∈ change.schemas, s.Built ∧ names s.name) :
    (ofChanges changes).Consistent ∧
      (∀ host name, names name → ∀ s,
        Registry.schemaOf { host, catalog := ofChanges changes } (.module name) = .ok s ↔
          LastGiven changes name s) ∧
      ((ofChanges changes).installed.map (·.name)).Pairwise (· < ·) ∧
      ∀ s, s ∈ (ofChanges changes).installed ↔ LastGiven changes s.name s := by
  have recorded := recorded_ofChanges given
  have consistent := recorded.consistent distinct
  refine ⟨consistent, fun host name known s => ?_,
    installed_ascending consistent recorded.sorted, fun s => ?_⟩
  · rw [← module?_ofChanges, ← find?_module distinct recorded known, Registry.schemaOf]
    cases (ofChanges changes).find? (.module name) <;> simp
  · rw [mem_installed consistent recorded.sorted, module?_ofChanges]

def sketch (name version : String) : Schema :=
  .ofManifest { name, version, description := none, author := .null, nodes := none } false none

-- A batch that names a package twice, a package that comes back, and one that does not.
def sketches : List Change :=
  [.addAll [sketch "a" "1", sketch "b" "1", sketch "a" "2"], .remove "a", .update (sketch "b" "2"),
    .add (sketch "a" "3"), .remove "b", .remove "c"]

theorem catalog_of_sketches :
    Identity.Distinct (· ∈ ["a", "b"]) ∧
      (∀ change ∈ sketches, ∀ s ∈ change.schemas, s.Built ∧ s.name ∈ ["a", "b"]) ∧
      (ofChanges sketches).Consistent ∧ (ofChanges sketches).installed = [sketch "a" "3"] ∧
      ∀ host s, (Registry.schemaOf { host, catalog := ofChanges sketches } (.module "a") = .ok s ↔
          LastGiven sketches "a" s) ∧
        (Registry.schemaOf { host, catalog := ofChanges sketches } (.module "b") = .ok s ↔
          LastGiven sketches "b" s) := by
  have distinct : Identity.Distinct (· ∈ ["a", "b"]) := Identity.distinct_pair (by decide +kernel)
  have built (name version : String) : (sketch name version).Built := ⟨_, _, _, rfl⟩
  have given : ∀ change ∈ sketches, ∀ s ∈ change.schemas, s.Built ∧ s.name ∈ ["a", "b"] := by
    intro change member s there
    have schemas : s ∈ sketches.flatMap Change.schemas := List.mem_flatMap.mpr ⟨change, member, there⟩
    simp only [sketches, List.flatMap_cons, List.flatMap_nil, Change.schemas, List.nil_append,
      List.cons_append, List.mem_cons, List.not_mem_nil, or_false] at schemas
    rcases schemas with rfl | rfl | rfl | rfl | rfl <;>
      exact ⟨built _ _, by simp [sketch, Schema.ofManifest]⟩
  obtain ⟨consistent, found, -, -⟩ := catalog_of_history distinct given
  refine ⟨distinct, given, consistent, rfl, fun host s => ⟨?_, ?_⟩⟩
  · exact found host "a" (by simp) s
  · exact found host "b" (by simp) s

end Catalog

end Flowgate.Package
