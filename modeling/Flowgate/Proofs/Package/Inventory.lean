import Flowgate.Proofs.Json.Codecs
import Flowgate.Proofs.Package.Adoption
import Flowgate.Proofs.Package.History

/-!
The catalog that a registry starts with. A package is loaded by the name that the workspace lists it
by, and recorded under the name that it gives itself. So the catalog is what the workspace lists exactly
if each package calls itself as it is listed; of several that call themselves alike only the one listed
last is there, while all of them are counted.
-/

namespace Flowgate.Package

open File (Tree)

/-! ### The packages that are listed -/

namespace Workspace

variable {w : Workspace} {files : Tree} {deps : Entries String}

-- There is no dependency manifest, or one that can be read.
def Readable (w : Workspace) (files : Tree) : Prop :=
  files.isThere w.manifestPath = true →
    ∃ text v, files.read w.manifestPath = .ok text ∧ Json.parse? text.toList = some v

theorem readable_iff : w.Readable files ↔ ∃ deps, w.dependencies files = .ok deps := by
  unfold Readable dependencies
  cases files.isThere w.manifestPath with
  | false => simp
  | true =>
    cases files.read w.manifestPath with
    | error fault => simp
    | ok text => cases parsed : Json.parse? text.toList <;> simp [parsed]

theorem sorted_dependenciesOf {depth : Nat} {manifest : Json.Value}
    (readable : Json.Readable depth manifest) : Entries.Sorted (dependenciesOf manifest) := by
  unfold dependenciesOf
  cases listed : manifest.field "dependencies" with
  | object fields =>
    refine List.pairwise_map.mpr ?_
    cases readable with
    | object _ inner =>
      rw [Json.Value.field, Json.Value.get?] at listed
      cases here : Entries.get? _ "dependencies" with
      | none =>
        rw [here] at listed
        cases listed
      | some v =>
        rw [here] at listed
        cases listed
        cases inner _ (Entries.mem_of_get? here) with
        | object sorted => exact sorted
    | _ => cases listed
  | _ => exact .nil

theorem sorted_dependencies (listed : w.dependencies files = .ok deps) : Entries.Sorted deps := by
  unfold dependencies at listed
  split at listed
  · cases listed
    exact .nil
  · split at listed
    · cases listed
    · split at listed
      · cases listed
      · rename_i manifest parsed
        cases listed
        exact sorted_dependenciesOf (Json.readable_of_parse? parsed)

end Workspace

/-! ### The packages that load -/

namespace Registry

variable {r : Registry} {files : Tree} {deps : Entries String} {name : String} {s : Schema}

-- A listed package loads, with the mark of its source.
def Loads (r : Registry) (files : Tree) (deps : Entries String) (name : String) (s : Schema) : Prop :=
  ∃ source, Entries.get? deps name = some source ∧
    r.loadSchema files name (isFile source) = .ok s

theorem Loads.marked (loads : r.Loads files deps name s) {source : String}
    (listed : Entries.get? deps name = some source) : s.isLocal = isFile source := by
  obtain ⟨source', listed', loaded⟩ := loads
  rw [listed] at listed'
  cases listed'
  obtain ⟨found, -, rfl⟩ := schema_of_loadSchema loaded
  rfl

-- The listed packages that load, by the names that they are listed by.
def found (r : Registry) (files : Tree) (deps : Entries String) : Entries Schema :=
  deps.filterMap fun (name, source) =>
    (r.loadSchema files name (isFile source)).toOption.map (Prod.mk name)

theorem mem_found_iff (sorted : Entries.Sorted deps) :
    (name, s) ∈ r.found files deps ↔ r.Loads files deps name s := by
  constructor
  · intro member
    obtain ⟨⟨_, source⟩, listed, loaded⟩ := List.mem_filterMap.mp member
    obtain ⟨_, loaded, same⟩ := Option.map_eq_some_iff.mp loaded
    cases same
    exact ⟨source, Entries.get?_of_mem sorted listed, ok_of_toOption loaded⟩
  · rintro ⟨source, listed, loaded⟩
    refine List.mem_filterMap.mpr ⟨(name, source), Entries.mem_of_get? listed, ?_⟩
    simp only [loaded]
    rfl

theorem sorted_found (sorted : Entries.Sorted deps) : Entries.Sorted (r.found files deps) := by
  refine List.Pairwise.filterMap _ ?_ sorted
  intro a b less x first y second
  obtain ⟨_, -, rfl⟩ := Option.map_eq_some_iff.mp first
  obtain ⟨_, -, rfl⟩ := Option.map_eq_some_iff.mp second
  exact less

theorem listedSchemas_eq :
    r.listedSchemas files = (r.workspace.dependencies files).map fun deps =>
      (r.found files deps).map Prod.snd := by
  unfold listedSchemas found
  cases r.workspace.dependencies files with
  | error fault => rfl
  | ok deps =>
    refine congrArg Except.ok ?_
    dsimp only
    rw [List.map_filterMap]
    congr 1
    funext pair
    simp [isFile, Option.map_map, Function.comp_def]

/-! ### The catalog at the start -/

-- The catalog that was filled with the packages that load, and how many were counted.
structure Inventory (r : Registry) (files : Tree) (deps : Entries String) (count : Nat)
    (c : Catalog) : Prop where
  -- Of those that call themselves alike, the one that is listed last.
  recorded : ∀ name s, c.module? name = some s ↔ ∃ listed, r.Loads files deps listed s ∧
    s.name = name ∧ ∀ other t, r.Loads files deps other t → t.name = name → other ≤ listed
  marked : ∀ name s source, r.Loads files deps name s → Entries.get? deps name = some source →
    s.isLocal = isFile source
  counted : ∃ names : List String, names.Nodup ∧ count = names.length ∧
    ∀ name, name ∈ names ↔ ∃ s, r.Loads files deps name s
  distinct : c.modules.length = count ↔ ∀ a b s t, r.Loads files deps a s → r.Loads files deps b t →
    s.name = t.name → a = b

theorem module?_insertAll_sorted {es : Entries Schema} (sorted : Entries.Sorted es) :
    (Catalog.empty.insertAll (es.map Prod.snd)).module? name = some s ↔
      ∃ listed, (listed, s) ∈ es ∧ s.name = name ∧
        ∀ other t, (other, t) ∈ es → t.name = name → other ≤ listed := by
  have sorted' : Entries.Sorted (es.filter fun pair => pair.2.name = name) := sorted.filter _
  have last : (Catalog.empty.insertAll (es.map Prod.snd)).module? name
      = ((es.filter fun pair => pair.2.name = name).getLast?).map Prod.snd := by
    rw [Catalog.module?_insertAll, List.filter_map, List.getLast?_map]
    exact Option.or_none
  rw [last, Option.map_eq_some_iff]
  constructor
  · rintro ⟨⟨listed, _⟩, ends, rfl⟩
    obtain ⟨member, top⟩ := (Entries.getLast?_iff sorted').mp ends
    obtain ⟨there, own⟩ := List.mem_filter.mp member
    refine ⟨listed, there, of_decide_eq_true own, fun other t among alike => ?_⟩
    exact top (other, t) (List.mem_filter.mpr ⟨among, decide_eq_true alike⟩)
  · rintro ⟨listed, there, own, top⟩
    refine ⟨(listed, s), (Entries.getLast?_iff sorted').mpr ⟨?_, fun pair member => ?_⟩, rfl⟩
    · exact List.mem_filter.mpr ⟨there, decide_eq_true own⟩
    · obtain ⟨among, alike⟩ := List.mem_filter.mp member
      exact top pair.1 pair.2 among (of_decide_eq_true alike)

-- Nothing is lost exactly if no two of the schemas have one name.
theorem length_insertAll_iff {es : Entries Schema} (sorted : Entries.Sorted es) :
    (Catalog.empty.insertAll (es.map Prod.snd)).modules.length = es.length ↔
      ∀ a b s t, (a, s) ∈ es → (b, t) ∈ es → s.name = t.name → a = b := by
  have pairs : (Catalog.empty.insertAll (es.map Prod.snd)).modules
      = Entries.ofList (es.map fun pair => (pair.2.name, pair.2)) := by
    rw [Catalog.insertAll_modules, List.map_map]
    rfl
  have nodup : es.Nodup := (Entries.nodup_names sorted).of_map
  have lengths := Entries.length_ofList_iff (es.map fun pair => (pair.2.name, pair.2))
  rw [List.length_map, List.map_map, List.nodup_map_iff_inj_on nodup] at lengths
  rw [pairs, lengths]
  constructor
  · intro apart a b s t first second alike
    exact (Prod.mk.inj (apart (a, s) first (b, t) second alike)).1
  · rintro apart ⟨a, s⟩ first ⟨b, t⟩ second alike
    obtain rfl := apart a b s t first second alike
    have same := (Entries.get?_of_mem sorted first).symm.trans (Entries.get?_of_mem sorted second)
    rw [Option.some.inj same]

theorem inventory (sorted : Entries.Sorted deps) :
    Inventory r files deps (r.found files deps).length
      (Catalog.empty.insertAll ((r.found files deps).map Prod.snd)) := by
  have loads {name : String} {s : Schema} :
      (name, s) ∈ r.found files deps ↔ r.Loads files deps name s := mem_found_iff sorted
  have sorted' : Entries.Sorted (r.found files deps) := sorted_found sorted
  refine ⟨fun name s => ?_, fun _ _ _ loads listed => loads.marked listed, ?_, ?_⟩
  · simp only [module?_insertAll_sorted sorted', loads]
  · refine ⟨(r.found files deps).names, Entries.nodup_names sorted', by simp [Entries.names], ?_⟩
    intro name
    simp [Entries.names, loads]
  · simp only [length_insertAll_iff sorted', loads]

-- The catalog is what is listed and loads exactly if each package calls itself as it is listed.
theorem Inventory.faithful_iff {count : Nat} {c : Catalog} (inventory : Inventory r files deps count c) :
    (∀ name s, c.module? name = some s ↔ r.Loads files deps name s) ↔
      ∀ name s, r.Loads files deps name s → s.name = name := by
  constructor
  · intro faithful name s loads
    obtain ⟨-, -, own, -⟩ := (inventory.recorded name s).mp ((faithful name s).mpr loads)
    exact own
  · intro own name s
    rw [inventory.recorded]
    constructor
    · rintro ⟨listed, loads, rfl, -⟩
      rwa [own listed s loads]
    · intro loads
      refine ⟨name, loads, own name s loads, fun other t loads' alike => ?_⟩
      obtain rfl := (own other t loads').symm.trans alike
      exact String.le_refl _

theorem restore_inventory (r : Registry) (host : Host) :
    (r.workspace.Readable host.files → ∃ deps count catalog,
      r.workspace.dependencies host.files = .ok deps ∧
      r.restore.run { host, catalog := .empty } = (.ok count, { host, catalog }) ∧
      Inventory r host.files deps count catalog ∧
      ((∀ name s, catalog.module? name = some s ↔ r.Loads host.files deps name s) ↔
        ∀ name s, r.Loads host.files deps name s → s.name = name)) ∧
    (¬r.workspace.Readable host.files → ∃ fault,
      r.restore.run { host, catalog := .empty } = (.error fault, { host, catalog := .empty })) := by
  rw [Workspace.readable_iff]
  unfold restore
  simp only [Task.run, listedSchemas_eq]
  cases listed : r.workspace.dependencies host.files with
  | error fault =>
    refine ⟨?_, fun _ => ⟨fault, rfl⟩⟩
    rintro ⟨deps, listed⟩
    cases listed
  | ok deps =>
    have filled : Inventory r host.files deps _ _ := inventory (Workspace.sorted_dependencies listed)
    refine ⟨fun _ => ⟨deps, _, _, rfl, ?_, filled, filled.faithful_iff⟩,
      fun unread => absurd ⟨deps, rfl⟩ unread⟩
    rw [← List.length_map Prod.snd]
    rfl

/-! ### Two workspaces -/

-- The manifest of a package of one node.
def packageText (name version : String) : String :=
  "\x7b\"name\":\"" ++ name ++ "\",\"version\":\"" ++ version
    ++ "\",\"ecoflow\":\x7b\"nodes\":[\x7b\"name\":\"n\",\"type\":\"Request\"\x7d]\x7d\x7d"

-- A workspace `m` that lists packages with their sources, and the manifest of each.
def stocked (packages : List (String × String × String)) : Host :=
  let deps := packages.map fun (name, source, _) => "\"" ++ name ++ "\":\"" ++ source ++ "\""
  let manifest := "\x7b\"dependencies\":\x7b" ++ ",".intercalate deps ++ "\x7d\x7d"
  let dirs := packages.flatMap fun (name, _, text) =>
    [(["m", "node_modules", name], .directory),
      (["m", "node_modules", name, "package.json"], .text text)]
  { releases.world.host with
    files := { nodes := [(["m"], .directory), (["m", "package.json"], .text manifest),
      (["m", "node_modules"], .directory)] ++ dirs } }

-- The manifest of the second package is empty.
def halfStocked : Host :=
  stocked [("a", "^1.0.0", packageText "a" "1.0.0"), ("b", "file:b.tgz", "")]

theorem restore_inventory_halfStocked :
    let r := ofShelf { dir := "m" } 5
    ∃ deps count catalog, r.workspace.dependencies halfStocked.files = .ok deps ∧
      r.restore.run { host := halfStocked, catalog := .empty }
        = (.ok count, { host := halfStocked, catalog }) ∧
      Inventory r halfStocked.files deps count catalog ∧
      (∀ name s, catalog.module? name = some s ↔ r.Loads halfStocked.files deps name s) ∧
      (∃ s, catalog.module? "a" = some s) ∧ catalog.module? "b" = none := by
  intro r
  have ran : (r.workspace.dependencies halfStocked.files).toOption.map (fun deps =>
      (r.found halfStocked.files deps).map fun pair => (pair.1, pair.2.name)) = some [("a", "a")] := by
    decide +kernel
  obtain ⟨deps, listed, found⟩ := Option.map_eq_some_iff.mp ran
  have listed := ok_of_toOption listed
  have sorted := Workspace.sorted_dependencies listed
  have only (name : String) (s : Schema) (loads : r.Loads halfStocked.files deps name s) :
      name = "a" ∧ s.name = "a" := by
    have member := List.mem_map_of_mem (f := fun pair => (pair.1, pair.2.name))
      ((mem_found_iff sorted).mpr loads)
    rw [found] at member
    exact Prod.mk.inj (List.mem_singleton.mp member)
  obtain ⟨⟨_, s⟩, member, same⟩ := List.map_eq_singleton_iff.mp found
  obtain ⟨deps', count, catalog, listed', ran, filled, faithful⟩ :=
    (restore_inventory r halfStocked).1 (Workspace.readable_iff.mpr ⟨deps, listed⟩)
  obtain rfl := Except.ok.inj (listed.symm.trans listed')
  have recorded := faithful.mpr fun name s loads =>
    (only name s loads).2.trans (only name s loads).1.symm
  refine ⟨deps, count, catalog, listed, ran, filled, recorded, ⟨s, ?_⟩, ?_⟩
  · rw [recorded, ← mem_found_iff sorted, member]
    exact List.mem_singleton.mpr (Prod.ext (Prod.mk.inj same).1.symm rfl)
  · rw [Option.eq_none_iff_forall_ne_some]
    intro s there
    exact absurd (only "b" s ((recorded "b" s).mp there)).1 (by decide)

-- Both packages call themselves by the name of the first.
def alike : Host :=
  stocked [("a", "^1.0.0", packageText "a" "1.0.0"), ("b", "file:b.tgz", packageText "a" "2.0.0")]

theorem alike_lost :
    let r := ofShelf { dir := "m" } 5
    let ran := r.restore.run { host := alike, catalog := .empty }
    ∃ deps, r.workspace.dependencies alike.files = .ok deps ∧
      (∃ s, r.Loads alike.files deps "a" s ∧ s.version = "1.0.0") ∧
      (∃ s, r.Loads alike.files deps "b" s) ∧
      ran.1 = .ok 2 ∧ ran.2.catalog.modules.length = 1 ∧
      (∃ s, ran.2.catalog.module? "a" = some s ∧ s.version = "2.0.0") ∧
      ran.2.catalog.module? "b" = none := by
  intro r ran
  have listing : (r.workspace.dependencies alike.files).toOption.map (fun deps =>
        (r.found alike.files deps).map fun pair => (pair.1, pair.2.version))
      = some [("a", "1.0.0"), ("b", "2.0.0")] := by
    decide +kernel
  have filling : (ran.1.toOption, ran.2.catalog.modules.map fun pair => (pair.1, pair.2.version))
      = (some 2, [("a", "2.0.0")]) := by
    decide +kernel
  obtain ⟨deps, listed, found⟩ := Option.map_eq_some_iff.mp listing
  have listed := ok_of_toOption listed
  have loads (name version : String)
      (member : (name, version) ∈ [("a", "1.0.0"), ("b", "2.0.0")]) :
      ∃ s, r.Loads alike.files deps name s ∧ s.version = version := by
    rw [← found] at member
    obtain ⟨⟨_, s⟩, there, same⟩ := List.mem_map.mp member
    obtain ⟨rfl, rfl⟩ := Prod.mk.inj same
    exact ⟨s, (mem_found_iff (Workspace.sorted_dependencies listed)).mp there, rfl⟩
  obtain ⟨counted, recorded⟩ := Prod.mk.inj filling
  obtain ⟨⟨_, s⟩, modules, same⟩ := List.map_eq_singleton_iff.mp recorded
  obtain ⟨rfl, version⟩ := Prod.mk.inj same
  refine ⟨deps, listed, loads "a" "1.0.0" (by simp), ?_, ok_of_toOption counted, ?_,
    ⟨s, ?_, version⟩, ?_⟩
  · obtain ⟨s, there, -⟩ := loads "b" "2.0.0" (by simp)
    exact ⟨s, there⟩
  · rw [modules]
    rfl
  · rw [Catalog.module?, modules]
    rfl
  · rw [Catalog.module?, modules]
    rfl

end Registry

end Flowgate.Package
