import Flowgate.Proofs.File.Regions
import Flowgate.Proofs.File.Resolution
import Flowgate.Proofs.Package.Scripts

/-!
Where the scripts of a package lie. Loading reads the manifest of a directory and what the entries
have as the paths of their scripts, and nothing else. A path is taken as it is written: a relative one
leaves the package if it goes up further than it comes back by the same names, and an absolute one
leads wherever it says.
-/

namespace Flowgate.Package

open File (Place Tree Course)

variable {files files' : Tree} {dir : String} {manifest : Manifest} {loaded : Loaded}

/-! ### What loading reads -/

-- The manifest, and the scripts that it declares.
def readPaths (dir : String) (m : Manifest) : List String :=
  File.join dir "package.json" :: m.declaredNodes.filterMap (scriptPath? dir)

theorem readScripts_congr {nodes : List NodeEntry}
    (same : ∀ path ∈ nodes.filterMap (scriptPath? dir), files'.read path = files.read path) :
    readScripts files' dir nodes = readScripts files dir nodes := by
  apply List.foldl_ext
  intro scripts n member
  cases declared : scriptPath? dir n with
  | none => rfl
  | some path =>
    dsimp only
    rw [same path (List.mem_filterMap.mpr ⟨n, member, declared⟩)]

theorem load_congr (done : load files dir = .ok (manifest, loaded))
    (same : ∀ path ∈ readPaths dir manifest, files'.read path = files.read path) :
    load files' dir = .ok (manifest, loaded) := by
  obtain ⟨read, rfl⟩ := load_eq_ok_iff.mp done
  obtain ⟨first, rest⟩ := List.forall_mem_cons.mp same
  rw [load_eq_ok_iff, readManifest_congr first, readScripts_congr rest]
  exact ⟨read, rfl⟩

-- A script that is read: the path that an entry has for it, and the file that this leads to.
structure ReadsScript (files : Tree) (dir : String) (m : Manifest) (node path : String)
    (place : Place) (source : String) : Prop where
  declared : ∃ n ∈ m.declaredNodes, n.name = node ∧ n.controller = some path
  located : files.locate (File.join dir path) = .ok place
  there : files.at? place = some (.text source)

theorem readsScript_of_read {n : NodeEntry} {path source : String}
    (member : n ∈ manifest.declaredNodes) (declared : n.controller = some path)
    (read : files.read (File.join dir path) = .ok source) :
    ∃ place, ReadsScript files dir manifest n.name path place source := by
  obtain ⟨place, located, there⟩ := Tree.find_eq_ok_iff.mp (Tree.read_eq_ok_iff.mp read)
  exact ⟨place, ⟨n, member, rfl, declared⟩, located, there⟩

theorem readsScript_of_loaded (done : load files dir = .ok (manifest, loaded)) {node source : String}
    (held : Entries.get? loaded.scripts node = some source) :
    ∃ path place, ReadsScript files dir manifest node path place source := by
  obtain ⟨-, rfl⟩ := load_eq_ok_iff.mp done
  rw [get?_readScripts] at held
  obtain ⟨n, member, text⟩ := List.mem_filterMap.mp (List.mem_of_getLast? held)
  obtain ⟨among, here⟩ := List.mem_filter.mp member
  obtain ⟨path, declared, read⟩ := scriptText?_eq_some_iff.mp text
  obtain ⟨rest, written, rfl⟩ := Option.map_eq_some_iff.mp declared
  obtain ⟨place, reads⟩ := readsScript_of_read among written read
  exact ⟨rest, place, of_decide_eq_true here ▸ reads⟩

/-! ### Inside and outside -/

-- The place of a package.
def home (dir : String) : Place := Tree.resolve [] (File.steps dir)

-- The path stays in the package, or comes back to it.
def Confined (dir path : String) : Prop :=
  if File.isAbsolute path then home dir <+: Tree.resolve [] (File.steps path)
  else (home dir).rtake (Course.along (File.steps path)).up <+: (Course.along (File.steps path)).down

instance (dir path : String) : Decidable (Confined dir path) :=
  inferInstanceAs (Decidable (ite _ _ _))

theorem confined_of_down {path : String} (relative : File.isAbsolute path = false)
    (down : (Course.along (File.steps path)).up = 0) : Confined dir path := by
  rw [Confined, if_neg (by simp [relative]), down]
  simp [List.rtake_zero]

theorem home_prefix_iff (dir path : String) :
    home dir <+: Tree.resolve [] (File.steps (File.join dir path)) ↔ Confined dir path := by
  unfold Confined
  split
  · rename_i absolute
    rw [File.join, absolute]
    rfl
  · rename_i relative
    rw [Tree.resolve_join (Bool.eq_false_iff.mpr relative), ← Course.prefix_apply_iff,
      Course.apply_along]
    rfl

theorem home_of_readManifest (read : readManifest files dir = .ok manifest) :
    files.at? (home dir) = some .directory := by
  have manifests : ∃ text, files.read (File.join dir "package.json") = .ok text := by
    cases held : files.read (File.join dir "package.json") with
    | error fault => simp [readManifest, held] at read
    | ok text => exact ⟨text, rfl⟩
  obtain ⟨text, held⟩ := manifests
  obtain ⟨place, located, -⟩ := Tree.find_eq_ok_iff.mp (Tree.read_eq_ok_iff.mp held)
  have walked := (Tree.locate_ok located).2
  have one : File.steps "package.json" = ["package.json"] := by decide
  rw [File.steps_join (by decide), one] at walked
  obtain ⟨q, first, directory, -⟩ := Tree.walk_snoc_ok (by decide) walked
  rwa [Tree.resolve_of_walk first, Tree.resolve_baseSteps] at directory

theorem below_home_iff (read : readManifest files dir = .ok manifest) {node path source : String}
    {place : Place} (script : ReadsScript files dir manifest node path place source) :
    Tree.Below (home dir) place ↔ Confined dir path := by
  have goal := Tree.resolve_of_walk (Tree.locate_ok script.located).2
  rw [← home_prefix_iff, ← goal, Tree.Below, and_iff_left_iff_imp]
  rintro - rfl
  have directory := home_of_readManifest read
  rw [script.there] at directory
  cases directory

theorem scripts_of_load (done : load files dir = .ok (manifest, loaded)) :
    (∀ files' : Tree, (∀ path ∈ readPaths dir manifest, files'.read path = files.read path) →
      load files' dir = .ok (manifest, loaded)) ∧
    (∀ node source, Entries.get? loaded.scripts node = some source →
      ∃ path place, ReadsScript files dir manifest node path place source) ∧
    ∀ node path place source, ReadsScript files dir manifest node path place source →
      (Tree.Below (home dir) place ↔ Confined dir path) := by
  obtain ⟨read, -⟩ := load_eq_ok_iff.mp done
  exact ⟨fun files' => load_congr done, fun node source => readsScript_of_loaded done,
    fun node path place source => below_home_iff read⟩

/-! ### Up and back, and up only -/

-- The only script of a package of one node.
theorem readsScript_single (done : load files dir = .ok (manifest, loaded)) {node path source : String}
    (single : manifest.declaredNodes.map (·.controller) = [some path])
    (held : Entries.get? loaded.scripts node = some source) :
    ReadsScript files dir manifest node path
      (Tree.resolve [] (File.steps (File.join dir path))) source := by
  obtain ⟨path', place, script⟩ := readsScript_of_loaded done held
  obtain ⟨n, member, -, declared⟩ := script.declared
  have listed : some path' ∈ [some path] := by
    rw [← single, ← declared]
    exact List.mem_map_of_mem member
  obtain rfl := Option.some.inj (List.mem_singleton.mp listed)
  rw [← Tree.resolve_of_walk (Tree.locate_ok script.located).2]
  exact script

-- The path of the script leaves the package and comes back.
def returning : Tree := shipped [("n", "../pkg/a.lua")] [("a.lua", "return 1")]

theorem scripts_of_load_returning :
    ∃ manifest loaded, load returning "pkg" = .ok (manifest, loaded) ∧
      ReadsScript returning "pkg" manifest "n" "../pkg/a.lua" ["pkg", "a.lua"] "return 1" ∧
      Tree.Below (home "pkg") ["pkg", "a.lua"] := by
  have ran : (load returning "pkg").toOption.map (fun (manifest, loaded) =>
      (manifest.declaredNodes.map (·.controller), Entries.get? loaded.scripts "n"))
      = some ([some "../pkg/a.lua"], some "return 1") := by
    decide +kernel
  obtain ⟨⟨manifest, loaded⟩, found, rest⟩ := Option.map_eq_some_iff.mp ran
  obtain ⟨single, held⟩ := Prod.mk.inj rest
  have done := ok_of_toOption found
  have script := readsScript_single done single held
  exact ⟨manifest, loaded, done, script,
    ((scripts_of_load done).2.2 _ _ _ _ script).mpr (by decide)⟩

-- The script lies next to the package.
def leaving : Tree :=
  (shipped [("n", "../outside.lua")] []).set ["outside.lua"] (.text "error('boom')")

theorem leaving_outside :
    ∃ manifest loaded, load leaving "pkg" = .ok (manifest, loaded) ∧
      ReadsScript leaving "pkg" manifest "n" "../outside.lua" ["outside.lua"] "error('boom')" ∧
      ¬Tree.Below (home "pkg") ["outside.lua"] := by
  have ran : (load leaving "pkg").toOption.map (fun (manifest, loaded) =>
      (manifest.declaredNodes.map (·.controller), Entries.get? loaded.scripts "n"))
      = some ([some "../outside.lua"], some "error('boom')") := by
    decide +kernel
  obtain ⟨⟨manifest, loaded⟩, found, rest⟩ := Option.map_eq_some_iff.mp ran
  obtain ⟨single, held⟩ := Prod.mk.inj rest
  have done := ok_of_toOption found
  exact ⟨manifest, loaded, done, readsScript_single done single held,
    fun below => absurd below.1 (by decide)⟩

end Flowgate.Package
