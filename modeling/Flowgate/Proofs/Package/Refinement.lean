import Flowgate.Proofs.Package.Indexing
import Flowgate.Proofs.Package.Standing
import Flowgate.Proofs.Traversal

/-!
A registry over the shelf refines a map from names to installed packages: every call that succeeds
does to the files and to the catalog what it says about the map, and what it leaves in the files is
enough for a new registry to fill its catalog with the same modules.
-/

namespace Flowgate.Package

open File (Place Tree)

-- The registry of a workspace that takes its packages from the shelf.
def Registry.ofShelf (w : Workspace) (timeoutSecs : Nat) : Registry where
  workspace := w
  timeoutSecs := timeoutSecs
  manager := Shelf.manager w
  index := Shelf.index

/-! ### Calls -/

inductive Call where
  | install (name : String) (version : Option String)
  | installArchives (paths : List String)
  | change (name version : String)
  | remove (name : String)

-- The state after an operation that succeeded.
def Registry.settled {α : Type} : Registry.Outcome α × World → Option World
  | (.ok _, w) => some w
  | (.error _, _) => none

-- The state after a call that succeeded, for a batch of archives all of them.
def Registry.perform (r : Registry) (w : World) : Call → Option World
  | .install name version => settled ((r.install name version).run w)
  | .installArchives paths =>
    let (schemas, w) := (r.installArchives paths).run w
    if schemas.length = paths.length then some w else none
  | .change name version => settled ((r.change name version).run w)
  | .remove name => settled ((r.remove name).run w)

theorem Identity.eq_of_text {a b : Identity} (same : a.text = b.text) : a = b := by
  cases a
  cases b
  exact congrArg Identity.mk same

namespace Stock

-- What the package of an archive does to the installed packages.
def archived (s : Stock) (m : Entries Installed) (path : String) : Option (Entries Installed) :=
  (s.archive? path).map fun p => Entries.insert p.name { item := p, archive := some path } m

-- What a call does to the installed packages, unless what it asks for is not on the shelf.
def effect (s : Stock) (m : Entries Installed) : Call → Option (Entries Installed)
  | .install name version =>
    (s.wanted? name version).map fun p => Entries.insert name { item := p, archive := none } m
  | .installArchives paths => paths.foldlM s.archived m
  | .change name version =>
    (s.version? name version).map fun p => Entries.insert name { item := p, archive := none } m
  | .remove name => some (Entries.erase name m)

-- The identities of the packages tell their names apart.
def Distinct (s : Stock) : Prop :=
  ∀ p ∈ s.items, ∀ q ∈ s.items, Identity.module p.name = Identity.module q.name → p.name = q.name

-- The schema is of a package on the shelf.
def Describes (s : Stock) (schema : Schema) : Prop :=
  ∃ p ∈ s.items, schema.name = p.name ∧ schema.id = .module p.name

theorem apart_describes {s : Stock} (distinct : s.Distinct) : Catalog.Apart s.Describes := by
  rintro a b ⟨p, among, named, own⟩ ⟨q, among', named', own'⟩
  rw [own, own', named, named']
  constructor
  · exact fun same => distinct p among q among' (Identity.eq_of_text same)
  · intro same
    rw [same]

end Stock

/-! ### What is kept -/

-- Files, shelf and catalog say what is installed.
structure Represents (w : Workspace) (s : Stock) (top : Place) (world : World)
    (m : Entries Installed) : Prop where
  standing : Standing w top world.host.files m
  shelf : world.host.shelf = s.shelf
  loadable : ∀ name i, Entries.get? m name = some i → i.item ∈ s.items ∧ i.item.nodes ≠ []
  modules : world.catalog.modules = Entries.mapValues Installed.schema m
  indexed : s.Distinct → world.catalog.Indexed s.Describes

section

variable {w : Workspace} {s : Stock} {top : Place} {world next : World} {m : Entries Installed}
  {secs : Nat} {name : String}

theorem Represents.contains (rep : Represents w s top world m) (name : String) :
    Entries.contains world.catalog.modules name = Entries.contains m name := by
  rw [rep.modules, Entries.contains, Entries.get?_mapValues, Option.isSome_map]
  rfl

theorem load_of_loadSchema {t : Tree} {isLocal : Bool} {schema : Schema}
    (done : (Registry.ofShelf w secs).loadSchema t name isLocal = .ok schema) :
    ∃ found, load t (w.packageDir name) = .ok found := by
  unfold Registry.loadSchema at done
  split at done
  · cases done
  · exact ⟨_, ‹_›⟩

theorem loadSchema_of_stored {i : Installed} {t : Tree} (stored : i.item.Stored w t)
    (isLocal : Bool) {schema : Schema}
    (done : (Registry.ofShelf w secs).loadSchema t i.item.name isLocal = .ok schema) :
    i.item.nodes ≠ [] ∧ schema = .ofManifest i.item.declared isLocal (some i.item.loaded) := by
  have loaded := Item.load_of_stored stored
  unfold Registry.loadSchema at done
  have dir : (Registry.ofShelf w secs).workspace.packageDir i.item.name
      = w.packageDir i.item.name := rfl
  rw [dir, loaded] at done
  by_cases none : i.item.nodes = []
  · rw [if_pos (by rw [none]; rfl)] at done
    cases done
  · rw [if_neg (by simpa using none)] at done
    cases done
    exact ⟨none, rfl⟩

-- A package that was put into the workspace and then loaded is recorded as what it is.
theorem Represents.record (rep : Represents w s top world m) (named : s.WellNamed) {i : Installed}
    (among : i.item ∈ s.items) {files : Tree}
    (puts : Shelf.Puts w i.item i.source world.host.files files)
    (records : (Registry.ofShelf w secs).Records i.item.name i.isLocal
      { world.host with files } world next) :
    Represents w s top next (Entries.change m i.item.name (some i)) := by
  have standing := rep.standing.put (named.packages _ among) (named.nodes _ among) puts
  have here : Entries.get? (Entries.change m i.item.name (some i)) i.item.name = some i := by
    rw [Entries.get?_change, if_pos rfl]
  obtain ⟨schema, loaded, rfl⟩ := records
  obtain ⟨some, rfl⟩ := loadSchema_of_stored (standing.stored _ i here).2.2 i.isLocal loaded
  refine ⟨standing, rep.shelf, ?_, ?_, fun distinct => ?_⟩
  · intro other j there
    rcases Entries.get?_change_cases there with ⟨-, new⟩ | ⟨-, old⟩
    · cases new
      exact ⟨among, some⟩
    · exact rep.loadable other j old
  · rw [Entries.mapValues_change, ← rep.modules]
    rfl
  · exact Catalog.indexed_insert (s.apart_describes distinct) (rep.indexed distinct)
      ⟨i.item, among, rfl, rfl⟩

/-! ### Each call -/

theorem Represents.install (rep : Represents w s top world m) (named : s.WellNamed)
    {version : Option String} {schema : Schema}
    (done : ((Registry.ofShelf w secs).install name version).run world = (.ok schema, next)) :
    ∃ p, s.wanted? name version = some p ∧
      Represents w s top next (Entries.insert name { item := p, archive := none } m) := by
  obtain ⟨host, added, records⟩ := Registry.run_install done
  obtain ⟨p, files, resolved, puts, rfl⟩ := Shelf.run_add added
  rw [rep.shelf] at resolved
  have among := Stock.mem_of_resolve resolved
  have standing := rep.standing.put (i := { item := p, archive := none }) (named.packages p among)
    (named.nodes p among) puts
  rcases Stock.of_installSpec named resolved with ⟨rfl, wanted⟩ | rfl | ⟨version', rfl⟩
  · exact ⟨p, wanted, rep.record named (i := { item := p, archive := none }) among puts records⟩
  · obtain ⟨_, loaded, -⟩ := records
    obtain ⟨found, loaded⟩ := load_of_loadSchema loaded
    exact absurd loaded (not_load_empty standing.aims standing.tame found)
  · obtain ⟨_, loaded, -⟩ := records
    obtain ⟨found, loaded⟩ := load_of_loadSchema loaded
    exact absurd loaded
      (not_load_version standing.aims standing.tame (named.packages p among) version' found)

theorem Represents.change (rep : Represents w s top world m) (named : s.WellNamed)
    {version : String} {schema : Schema}
    (done : ((Registry.ofShelf w secs).change name version).run world = (.ok schema, next)) :
    ∃ p, s.version? name version = some p ∧
      Represents w s top next (Entries.insert name { item := p, archive := none } m) := by
  obtain ⟨versions, asked, host, listed, known, added, records⟩ := Registry.run_change done
  obtain ⟨known', rfl⟩ := Prod.mk.inj listed
  obtain rfl := Except.ok.inj known'
  obtain ⟨p, files, resolved, puts, rfl⟩ := Shelf.run_add added
  rw [rep.shelf] at resolved known
  have among := Stock.mem_of_resolve resolved
  rcases Stock.of_version named resolved with ⟨rfl, found⟩ | rfl
  · exact ⟨p, found, rep.record named (i := { item := p, archive := none }) among puts records⟩
  · exact absurd rfl (Stock.package_of_versions named known).ne_empty

theorem Represents.archived (rep : Represents w s top world m) (named : s.WellNamed)
    {path : String} (done : (Registry.ofShelf w secs).archived world path = some next) :
    ∃ m', s.archived m path = some m' ∧ Represents w s top next m' := by
  unfold Registry.archived at done
  split at done
  · rename_i schema last run
    cases done
    obtain ⟨_, host, added, records⟩ := Registry.run_installArchive run
    obtain ⟨p, files, found, rfl, puts, rfl⟩ := Shelf.run_addArchive added
    rw [rep.shelf] at found
    have stored := Stock.archive?_of_findArchive found
    refine ⟨_, by rw [Stock.archived, stored]; rfl, ?_⟩
    exact rep.record named (i := { item := p, archive := some path }) (Stock.mem_of_archive? stored)
      puts records
  · cases done

theorem Represents.installArchives (rep : Represents w s top world m) (named : s.WellNamed)
    {paths : List String} (done : paths.foldlM (Registry.ofShelf w secs).archived world = some next) :
    ∃ m', paths.foldlM s.archived m = some m' ∧ Represents w s top next m' := by
  have each : ∀ world m path next, Represents w s top world m →
      (Registry.ofShelf w secs).archived world path = some next →
      ∃ m', s.archived m path = some m' ∧ Represents w s top next m' :=
    fun _ _ _ _ rep done => rep.archived named done
  exact foldlM_refines each rep done

-- The manifest lists the modules with their sources.
theorem Represents.dependencies (rep : Represents w s top world m) :
    w.dependencies world.host.files = .ok (Entries.mapValues Installed.source m) :=
  Workspace.dependencies_of_listed rep.standing.aims
    (Entries.sorted_mapValues rep.standing.sorted _) rep.standing.listed

theorem Represents.remove (rep : Represents w s top world m)
    (done : ((Registry.ofShelf w secs).remove name).run world = (.ok (), next)) :
    Represents w s top next (Entries.change m name none) := by
  obtain ⟨deps, listed, removed⟩ := Registry.run_remove done
  have sources : (Registry.ofShelf w secs).workspace.dependencies world.host.files = _ :=
    rep.dependencies
  rw [sources] at listed
  obtain rfl := Except.ok.inj listed
  have known : Entries.contains (Entries.mapValues Installed.source m) name
      = Entries.contains m name := by
    rw [Entries.contains, Entries.get?_mapValues, Option.isSome_map]
    rfl
  rcases removed with ⟨there, host, removed, rfl⟩ | ⟨absent, sameHost, sameCatalog⟩
  · obtain ⟨i, found⟩ := Option.isSome_iff_exists.mp (known.symm.trans there)
    obtain ⟨-, package, -⟩ := rep.standing.stored name i found
    obtain ⟨cleared, files, taken, sets, rfl⟩ := Shelf.run_remove removed
    refine ⟨rep.standing.remove package taken sets, rep.shelf, ?_, ?_, fun distinct => ?_⟩
    · intro other j there
      rcases Entries.get?_change_cases there with ⟨-, new⟩ | ⟨-, old⟩
      · cases new
      · exact rep.loadable other j old
    · rw [Catalog.erase_modules, rep.modules, Entries.mapValues_change]
      rfl
    · exact Catalog.indexed_erase (s.apart_describes distinct) (rep.indexed distinct) name
  · -- Neither listed nor recorded, so there was nothing to remove.
    rw [known] at absent
    have none : Entries.get? m name = none := Option.not_isSome_iff_eq_none.mp (by
      rw [Bool.not_eq_true]
      exact absent)
    rw [if_neg (by rw [rep.contains, absent]; exact Bool.false_ne_true)] at sameCatalog
    rw [Entries.change_absent none]
    cases next
    cases sameHost
    cases sameCatalog
    exact rep

/-! ### Runs -/

theorem Represents.perform (rep : Represents w s top world m) (named : s.WellNamed) {call : Call}
    (done : (Registry.ofShelf w secs).perform world call = some next) :
    ∃ m', s.effect m call = some m' ∧ Represents w s top next m' := by
  have settles {α : Type} {run : Registry.Outcome α × World}
      (done : Registry.settled run = some next) : ∃ a, run = (.ok a, next) := by
    obtain ⟨result, last⟩ := run
    cases result with
    | ok a =>
      cases done
      exact ⟨a, rfl⟩
    | error e => cases done
  cases call with
  | install name version =>
    obtain ⟨schema, done⟩ := settles done
    obtain ⟨p, wanted, rep⟩ := rep.install named done
    exact ⟨_, by rw [Stock.effect, wanted]; rfl, rep⟩
  | installArchives paths =>
    simp only [Registry.perform] at done
    split at done
    · rename_i all
      have run := Registry.run_installArchives all
      cases done
      exact rep.installArchives named run
    · cases done
  | change name version =>
    obtain ⟨schema, done⟩ := settles done
    obtain ⟨p, found, rep⟩ := rep.change named done
    exact ⟨_, by rw [Stock.effect, found]; rfl, rep⟩
  | remove name =>
    obtain ⟨⟨⟩, done⟩ := settles done
    exact ⟨_, rfl, rep.remove done⟩

/-! ### A new registry -/

theorem Represents.loadSchema (rep : Represents w s top world m) {i : Installed}
    (there : Entries.get? m name = some i) :
    (Registry.ofShelf w secs).loadSchema world.host.files name i.isLocal = .ok i.schema := by
  have workspace : (Registry.ofShelf w secs).workspace = w := rfl
  have loaded := rep.standing.load there (rep.loadable name i there).2
  unfold Registry.loadSchema
  rw [workspace, loaded]
  simp only
  rfl

theorem Represents.listedSchemas (rep : Represents w s top world m) :
    (Registry.ofShelf w secs).listedSchemas world.host.files
      = .ok (m.map fun pair => pair.2.schema) := by
  have sources : (Registry.ofShelf w secs).workspace.dependencies world.host.files = _ :=
    rep.dependencies
  have each : (Entries.mapValues Installed.source m).filterMap (fun pair =>
      ((Registry.ofShelf w secs).loadSchema world.host.files pair.1
        ("file:".toList.isPrefixOf pair.2.toList)).toOption)
      = m.map fun pair => pair.2.schema := by
    rw [Entries.mapValues, List.filterMap_map, ← List.filterMap_eq_map]
    refine List.filterMap_congr fun pair member => ?_
    have there := Entries.get?_of_mem rep.standing.sorted member
    rw [Function.comp_apply, pair.2.isLocal_source, rep.loadSchema there]
    rfl
  rw [Registry.listedSchemas, sources, ← each]
  rfl

-- What is listed is loaded under its own name, in the order of the names.
theorem Represents.restore (rep : Represents w s top world m) (secs : Nat) {fresh : World}
    (files : fresh.host.files = world.host.files) (empty : fresh.catalog = .empty) :
    ∃ restored, (Registry.ofShelf w secs).restore.run fresh = (.ok m.length, restored) ∧
      restored.catalog.modules = world.catalog.modules ∧
      (s.Distinct → restored.catalog = world.catalog) := by
  have listed : (Registry.ofShelf w secs).listedSchemas world.host.files = _ := rep.listedSchemas
  have keyed : (m.map fun pair => pair.2.schema).map (fun schema => (schema.name, schema))
      = Entries.mapValues Installed.schema m := by
    rw [List.map_map, Entries.mapValues]
    refine List.map_congr_left fun pair member => ?_
    have there := Entries.get?_of_mem rep.standing.sorted member
    exact congrArg (·, pair.2.schema) (rep.standing.stored _ _ there).1
  have modules : (fresh.catalog.insertAll (m.map fun pair => pair.2.schema)).modules
      = world.catalog.modules := by
    rw [Catalog.insertAll_modules, keyed, empty, rep.modules]
    exact Entries.foldl_insert_sorted (List.nil_append _ ▸ Entries.sorted_mapValues rep.standing.sorted _)
  refine ⟨{ fresh with catalog := fresh.catalog.insertAll (m.map fun pair => pair.2.schema) }, ?_,
    modules, fun distinct => ?_⟩
  · rw [Registry.restore, Task.run, files, listed]
    exact congrArg (fun n => (Except.ok n, _)) (List.length_map _)
  · have indexed : (fresh.catalog.insertAll (m.map fun pair => pair.2.schema)).Indexed
        s.Describes := by
      refine Catalog.indexed_insertAll (s.apart_describes distinct) ?_ fun schema member => ?_
      · rw [empty]
        exact Catalog.indexed_empty _
      · obtain ⟨pair, among, rfl⟩ := List.mem_map.mp member
        have there := Entries.get?_of_mem rep.standing.sorted among
        exact ⟨pair.2.item, (rep.loadable _ _ there).1, rfl, rfl⟩
    exact indexed.ext (rep.indexed distinct) modules

theorem represents_vacant {start : World} (vacant : w.Vacant start.host.files)
    (shelf : start.host.shelf = s.shelf) (empty : start.catalog = .empty) :
    ∃ top, Represents w s top start [] := by
  obtain ⟨top, standing⟩ := standing_of_vacant vacant
  refine ⟨top, standing, shelf, fun _ _ there => (by cases there), ?_, fun _ => ?_⟩
  · rw [empty]
    rfl
  · rw [empty]
    exact Catalog.indexed_empty _

theorem Stock.installed_of_run (named : s.WellNamed) {start last : World} {calls : List Call}
    (vacant : w.Vacant start.host.files) (shelf : start.host.shelf = s.shelf)
    (empty : start.catalog = .empty)
    (done : calls.foldlM (Registry.ofShelf w secs).perform start = some last) :
    ∃ m, calls.foldlM s.effect [] = some m ∧
      last.catalog.modules = Entries.mapValues Installed.schema m ∧
      w.dependencies last.host.files = .ok (Entries.mapValues Installed.source m) ∧
      ∀ secs' fresh, fresh.host.files = last.host.files → fresh.catalog = .empty →
        ∃ restored, (Registry.ofShelf w secs').restore.run fresh = (.ok m.length, restored) ∧
          restored.catalog.modules = last.catalog.modules ∧
          (s.Distinct → restored.catalog = last.catalog) := by
  obtain ⟨top, rep⟩ := represents_vacant vacant shelf empty
  have each : ∀ world m call next, Represents w s top world m →
      (Registry.ofShelf w secs).perform world call = some next →
      ∃ m', s.effect m call = some m' ∧ Represents w s top next m' :=
    fun _ _ _ _ rep done => rep.perform named done
  obtain ⟨m, effects, rep⟩ := foldlM_refines each rep done
  refine ⟨m, effects, rep.modules, ?_, fun secs' fresh files empty => rep.restore secs' files empty⟩
  exact Workspace.dependencies_of_listed rep.standing.aims
    (Entries.sorted_mapValues rep.standing.sorted _) rep.standing.listed

end

def probe : Item where
  name := "a"
  version := "1"
  nodes := [{ name := "n", kind := "Request", script := none }]

def probeStock : Stock where
  published := [probe]
  archives := []
  delay := none

def probeWorld : World where
  host :=
    { files := .empty, shelf := probeStock.shelf
      toolbox := { programs := [], runs := [], log := [] } }
  catalog := .empty

theorem wellNamed_probe : probeStock.WellNamed where
  packages p member := by
    obtain rfl := List.mem_singleton.mp member
    exact .bare (by decide) (by decide)
  nodes p member n there := by
    obtain rfl := List.mem_singleton.mp member
    obtain rfl := List.mem_singleton.mp there
    decide

theorem vacant_empty : Workspace.Vacant { dir := "m" } .empty := by
  refine ⟨["m"], .inr ⟨by decide, by decide⟩, fun p under _ => ?_⟩
  obtain ⟨rest, rfl⟩ := under
  rfl

-- The first installation in a directory that is still missing.
theorem Stock.installed_of_run_probe :
    ∃ last, [Call.install "a" none].foldlM (Registry.ofShelf { dir := "m" } 5).perform probeWorld
        = some last ∧
      last.catalog.modules = [("a", Installed.schema { item := probe, archive := none })] ∧
      Workspace.dependencies { dir := "m" } last.host.files = .ok [("a", "^1")] := by
  have succeeds : ([Call.install "a" none].foldlM (Registry.ofShelf { dir := "m" } 5).perform
      probeWorld).isSome = true := by decide +kernel
  obtain ⟨last, done⟩ := Option.isSome_iff_exists.mp succeeds
  obtain ⟨m, effects, modules, listed, -⟩ :=
    Stock.installed_of_run wellNamed_probe vacant_empty rfl rfl done
  have installed : m = [("a", { item := probe, archive := none })] :=
    Option.some.inj (effects.symm.trans rfl)
  subst installed
  exact ⟨last, done, modules, listed⟩

end Flowgate.Package
