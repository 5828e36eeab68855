import Flowgate.Proofs.File.Regions
import Flowgate.Proofs.Package.Manifests
import Flowgate.Proofs.Package.Specs

/-!
Packages in a workspace: each has a place of its own below the directory of the workspace. What is
installed there can be loaded, and stays so whatever is done at the places of others.
-/

namespace Flowgate.Package

open File (Names Place Tree Fault baseSteps core isAbsolute join steps)
open File.Tree (Aims Below Touched)

/-! ### Paths -/

-- Where a package lies in the directory of a workspace.
def way (name : String) : List String := "node_modules" :: steps name

def scriptFile (name : String) : String := "nodes/" ++ name ++ ".lua"

-- The manifest of a workspace lies apart from its packages.
theorem manifest_apart (top : Place) (xs ys : List String) :
    ¬top ++ "package.json" :: xs <+: top ++ "node_modules" :: ys := by
  intro under
  have inside := (List.prefix_append_right_inj top).mp under
  exact absurd (List.cons_prefix_cons.mp inside).1 (by decide)

theorem packages_apart (top : Place) (xs ys : List String) :
    ¬top ++ "node_modules" :: ys <+: top ++ "package.json" :: xs := by
  intro under
  have inside := (List.prefix_append_right_inj top).mp under
  exact absurd (List.cons_prefix_cons.mp inside).1 (by decide)

theorem steps_nodeModules (w : Workspace) :
    steps (join w.dir "node_modules") = baseSteps w.dir ++ ["node_modules"] := by
  rw [File.steps_join (by decide), File.steps_of_clean (by decide)]

theorem steps_packageDir (w : Workspace) {name : String} (relative : isAbsolute name = false) :
    steps (w.packageDir name) = baseSteps w.dir ++ way name := by
  have base : baseSteps (join w.dir "node_modules") = baseSteps w.dir ++ ["node_modules"] := by
    rw [File.baseSteps_of_last (steps_nodeModules w) (by decide), steps_nodeModules]
  rw [Workspace.packageDir, directory, File.steps_join relative, base, List.append_assoc]
  rfl

theorem names_way {name : String} (package : PackageName name) : ∀ x ∈ way name, Names x := by
  intro x member
  rcases List.mem_cons.mp member with rfl | there
  · decide
  · exact package.names_steps x there

theorem names_inPackage {name path : String} (package : PackageName name)
    (names : ∀ x ∈ steps path, Names x) : ∀ x ∈ way name ++ steps path, Names x := by
  intro x member
  rcases List.mem_append.mp member with inWay | inPath
  · exact names_way package x inWay
  · exact names x inPath

-- The path of a package ends in a name.
theorem packageDir_ends (w : Workspace) {name : String} (package : PackageName name) :
    ∃ front last, steps (w.packageDir name) = front ++ [last] ∧ Names last := by
  obtain ⟨front, last, ends⟩ := (List.eq_nil_or_concat (way name)).resolve_left (List.cons_ne_nil _ _)
  rw [List.concat_eq_append] at ends
  refine ⟨baseSteps w.dir ++ front, last, ?_, names_way package last (by simp [ends])⟩
  rw [steps_packageDir w package.relative, ends, List.append_assoc]

theorem steps_inPackage (w : Workspace) {name rest : String} (package : PackageName name)
    (relative : isAbsolute rest = false) :
    steps (join (w.packageDir name) rest) = baseSteps w.dir ++ (way name ++ steps rest) := by
  obtain ⟨front, last, ends, names⟩ := packageDir_ends w package
  rw [File.steps_join relative, File.baseSteps_of_last ends names.1,
    steps_packageDir w package.relative, List.append_assoc]

theorem relative_manifest : isAbsolute "package.json" = false := by decide

theorem steps_manifest : steps "package.json" = ["package.json"] := by decide

theorem names_manifest : ∀ x ∈ steps "package.json", Names x := by decide

theorem clean_lua {name : String} (clean : '/' ∉ name.toList) : '/' ∉ (name ++ ".lua").toList := by
  rw [String.toList_append, List.mem_append, not_or]
  exact ⟨clean, by decide⟩

theorem steps_scriptFile {name : String} (clean : '/' ∉ name.toList) :
    steps (scriptFile name) = ["nodes", name ++ ".lua"] := by
  have split : scriptFile name = "nodes" ++ "/" ++ (name ++ ".lua") := by
    apply String.toList_injective
    simp [scriptFile]
  have nodes : Text.pieces '/' "nodes" = ["nodes"] := by decide
  rw [split, steps, Text.pieces_append, nodes]
  exact congrArg ("nodes" :: ·) (File.steps_of_clean (clean_lua clean))

theorem names_lua (name : String) : Names (name ++ ".lua") := by
  have long : 4 ≤ (name ++ ".lua").toList.length := by
    rw [String.toList_append, List.length_append]
    exact Nat.le_add_left 4 _
  refine ⟨?_, ?_, ?_⟩
  all_goals
    intro same
    rw [same] at long
    exact absurd long (by decide)

theorem names_scriptFile {name : String} (clean : '/' ∉ name.toList) :
    ∀ x ∈ steps (scriptFile name), Names x := by
  rw [steps_scriptFile clean]
  intro x member
  rcases List.mem_cons.mp member with rfl | last
  · decide
  · rw [List.mem_singleton.mp last]
    exact names_lua name

theorem relative_scriptFile (name : String) : isAbsolute (scriptFile name) = false := by
  simp [isAbsolute, scriptFile]

/-! ### Files of a package -/

section Files

variable {w : Workspace} {t t' : Tree} {top : Place} {name : String}

theorem below_way (top : Place) (name : String) : Below top (top ++ way name) := by
  refine ⟨List.prefix_append _ _, fun same => ?_⟩
  exact List.cons_ne_nil _ _ (List.append_right_eq_self.mp same)

-- A file of a package, by the path in it.
def fileOf (w : Workspace) (name path : String) : String := join (w.packageDir name) path

theorem find_of_touched (touched : Touched (top ++ xs) t t') (some : xs ≠ [])
    (aims : t.Aims (baseSteps w.dir) top) (package : PackageName name) {path : String}
    (relative : isAbsolute path = false) (names : ∀ x ∈ steps path, Names x)
    (apart : ¬xs <+: way name ++ steps path) {node : File.Node}
    (found : t.find (fileOf w name path) = .ok node) :
    t'.find (fileOf w name path) = .ok node := by
  have below : Below top (top ++ xs) := by
    refine ⟨List.prefix_append _ _, fun same => some ?_⟩
    exact List.append_right_eq_self.mp same
  refine touched.find below aims (steps_inPackage w package relative)
    (names_inPackage package names) (by simp [way]) ?_ found
  exact fun under => apart ((List.prefix_append_right_inj top).mp under)

theorem core_fileOf (package : PackageName name) {path : String}
    (relative : isAbsolute path = false) (names : ∀ x ∈ steps path, Names x) :
    core (steps (fileOf w name path)) = core (baseSteps w.dir) ++ (way name ++ steps path) := by
  rw [fileOf, steps_inPackage w package relative, File.core_append,
    File.core_of_names (names_inPackage package names)]

theorem packageDir_leads (w : Workspace) (package : PackageName name) {path : String}
    (relative : isAbsolute path = false) (names : ∀ x ∈ steps path, Names x) :
    core (steps (w.packageDir name)) <+: core (steps (fileOf w name path)) := by
  rw [core_fileOf package relative names, steps_packageDir w package.relative, File.core_append,
    File.core_of_names (names_way package), ← List.append_assoc]
  exact List.prefix_append _ _

-- A file of a package after it was written with the directories that lead to it.
structure Written (w : Workspace) (name path content : String) (top : Place) (t t' : Tree) :
    Prop where
  touched : Touched (top ++ way name) t t'
  found : t'.find (fileOf w name path) = .ok (.text content)
  others : ∀ other node, isAbsolute other = false → (∀ x ∈ steps other, Names x) →
    ¬steps path <+: steps other → t.find (fileOf w name other) = .ok node →
    t'.find (fileOf w name other) = .ok node

theorem written (aims : t.Aims (baseSteps w.dir) top) (package : PackageName name)
    {path content : String} (relative : isAbsolute path = false)
    (names : ∀ x ∈ steps path, Names x) {dir : String} {made : Tree}
    (leads : core (steps dir) <+: core (steps (fileOf w name path)))
    (dirs : t.makeDirectories dir = (.ok (), made))
    (done : made.write (fileOf w name path) content = .ok t') :
    Written w name path content top t t' := by
  have named := names_inPackage package names
  have within : top ++ way name <+: top ++ (way name ++ steps path) := by
    rw [← List.append_assoc]
    exact List.prefix_append _ _
  have grown := (File.Tree.along_makeDirectories t dir).grown
  rw [core_fileOf package relative names] at leads
  have first := aims.touched_makeDirectories named leads (.inl within)
  rw [dirs] at grown first
  have aims' := first.aims (below_way top name) aims
  have along := steps_inPackage w package relative
  refine ⟨first.trans (aims'.touched_write along named within done), File.Tree.find_write done, ?_⟩
  intro other node relative' names' apart found
  refine find_of_touched (aims'.touched_write along named (List.prefix_refl _) done) (by simp [way])
    aims' package relative' names' ?_ (grown.find found)
  exact fun under => apart ((List.prefix_append_right_inj _).mp under)

-- The scripts of some nodes can be read in a package.
def Scripts (w : Workspace) (name : String) (t : Tree) (scripts : Entries String) : Prop :=
  ∀ node source, Entries.get? scripts node = some source →
    '/' ∉ node.toList ∧ t.find (fileOf w name (scriptFile node)) = .ok (.text source)

theorem scripts_written {scripts : Entries String} (held : Scripts w name t scripts)
    {node source : String} (clean : '/' ∉ node.toList)
    (written : Written w name (scriptFile node) source top t t') :
    Scripts w name t' (Entries.insert node source scripts) := by
  intro other content there
  rw [Entries.get?_insert] at there
  by_cases same : node = other
  · subst same
    rw [if_pos rfl] at there
    cases there
    exact ⟨clean, written.found⟩
  · rw [if_neg same] at there
    obtain ⟨clean', found⟩ := held other content there
    refine ⟨clean', written.others _ _ (relative_scriptFile other) (names_scriptFile clean') ?_ found⟩
    rw [steps_scriptFile clean, steps_scriptFile clean']
    intro under
    have files := (List.cons_prefix_cons.mp (List.cons_prefix_cons.mp under).2).1
    refine same (String.toList_injective ?_)
    have chars := congrArg String.toList files
    rw [String.toList_append, String.toList_append] at chars
    exact List.append_cancel_right chars

section Open

-- What is written has no say in how the list of files is taken apart.
attribute [local irreducible] Tree.write

theorem writeFiles_nil (root : String) (t : Tree) : Item.writeFiles root [] t = (.ok (), t) := rfl

theorem writeFiles_cons (root path content : String) (rest : List (String × String)) (t : Tree) :
    Item.writeFiles root ((path, content) :: rest) t
      = match t.makeDirectories ((File.parent? (join root path)).getD "") with
        | (.error fault, t) => (.error fault, t)
        | (.ok (), t) =>
          match t.write (join root path) content with
          | .error fault => (.error fault, t)
          | .ok t => Item.writeFiles root rest t := by
  rfl

end Open

-- The induction is on the files that are left; what was written before them stays.
theorem writeFiles_ok (aims : t.Aims (baseSteps w.dir) top) (package : PackageName name)
    {pairs : List (String × String)} (clean : ∀ pair ∈ pairs, '/' ∉ pair.1.toList)
    {scripts : Entries String} (held : Scripts w name t scripts) {manifest : String}
    (found : t.find (fileOf w name "package.json") = .ok (.text manifest))
    (done : Item.writeFiles (w.packageDir name)
      (pairs.map fun pair => (scriptFile pair.1, pair.2)) t = (.ok (), t')) :
    Touched (top ++ way name) t t' ∧
      t'.find (fileOf w name "package.json") = .ok (.text manifest) ∧
      Scripts w name t' (pairs.foldl (fun es pair => Entries.insert pair.1 pair.2 es) scripts) := by
  induction pairs generalizing t scripts with
  | nil =>
    rw [List.map_nil, writeFiles_nil] at done
    obtain rfl := (Prod.mk.inj done).2
    exact ⟨.refl _ _, found, held⟩
  | cons pair pairs ih =>
    obtain ⟨node, source⟩ := pair
    have here := clean _ List.mem_cons_self
    rw [List.map_cons, writeFiles_cons] at done
    split at done
    · cases done
    · rename_i made dirs
      split at done
      · cases done
      · rename_i next done'
        have file := written aims package (relative_scriptFile node) (names_scriptFile here)
          (File.core_parent_leads _) dirs done'
        have manifest' := file.others "package.json" _ relative_manifest names_manifest
          (by simp [steps_scriptFile here, steps_manifest]) found
        obtain ⟨touched, manifest'', held'⟩ := ih (file.touched.aims (below_way top name) aims)
          (fun pair member => clean pair (List.mem_cons_of_mem _ member))
          (scripts_written held here file) manifest' done
        exact ⟨file.touched.trans touched, manifest'', held'⟩

theorem removed_eq (aims : t.Aims (baseSteps w.dir) top) (package : PackageName name)
    (done : t.removeDirectory (w.packageDir name) = (.ok (), t')) :
    t' = (t.clear (top ++ way name)).prune (top ++ way name) := by
  obtain ⟨front, last, ends, names⟩ := packageDir_ends w package
  obtain ⟨place, located, -, cleared⟩ := File.Tree.removeDirectory_ok ends names done
  obtain ⟨rfl, -⟩ := aims.locate (steps_packageDir w package.relative) (names_way package) located
  exact cleared

theorem touched_way (t : Tree) (top : Place) (name : String) :
    Touched (top ++ way name) t ((t.clear (top ++ way name)).prune (top ++ way name)) :=
  File.Tree.touched_removed t (by simp [way])

-- A manifest of a package lies in a directory, where the path of the workspace leads.
theorem walks_of_manifest {name : String} {node : File.Node} (aims : t.Aims (baseSteps w.dir) top)
    (package : PackageName name) (found : t.find (fileOf w name "package.json") = .ok node) :
    t.walk [] (baseSteps w.dir) = .ok top ∧ t.walk top (way name) = .ok (top ++ way name) ∧
      t.at? (top ++ way name) = some .directory := by
  obtain ⟨goal, located, -⟩ := File.Tree.find_eq_ok_iff.mp found
  obtain ⟨-, first, second⟩ := aims.locate (steps_inPackage w package relative_manifest)
    (names_inPackage package names_manifest) located
  rw [steps_manifest] at second
  obtain ⟨q, walked, here, -⟩ := File.Tree.walk_snoc_ok (by decide) second
  obtain rfl := File.Tree.walk_names (names_way package) walked
  exact ⟨first, walked, here⟩

end Files

namespace Item

-- The nodes with a script, and what it says.
def scriptPairs (p : Item) : List (String × String) :=
  p.nodes.filterMap fun n => n.script.map fun source => (n.name, source)

-- The script of each node that has one; of several the last.
def scripts (p : Item) : Entries String := Entries.ofList p.scriptPairs

theorem files_eq (p : Item) :
    p.files = p.scriptPairs.map fun pair => (scriptFile pair.1, pair.2) := by
  rw [files, scriptPairs, List.map_filterMap]
  congr 1
  funext n
  rw [Option.map_map]
  rfl

-- The package lies in the workspace with its manifest and its scripts.
structure Stored (p : Item) (w : Workspace) (t : Tree) : Prop where
  manifest : t.find (fileOf w p.name "package.json") = .ok (.text p.manifest.pretty)
  scripts : Scripts w p.name t p.scripts

variable {p : Item} {w : Workspace} {t t' : Tree} {top : Place}

theorem clean_scriptPairs (clean : ∀ n ∈ p.nodes, '/' ∉ n.name.toList) :
    ∀ pair ∈ p.scriptPairs, '/' ∉ pair.1.toList := by
  intro pair member
  obtain ⟨n, there, scripted⟩ := List.mem_filterMap.mp member
  obtain ⟨source, -, rfl⟩ := Option.map_eq_some_iff.mp scripted
  exact clean n there

theorem writeFresh_ok (aims : t.Aims (baseSteps w.dir) top) (package : PackageName p.name)
    (clean : ∀ n ∈ p.nodes, '/' ∉ n.name.toList)
    (done : p.writeFresh (w.packageDir p.name) t = (.ok (), t')) :
    Touched (top ++ way p.name) t t' ∧ p.Stored w t' := by
  unfold writeFresh at done
  split at done
  · cases done
  · rename_i made dirs
    split at done
    · cases done
    · rename_i next done'
      have file := written aims package relative_manifest names_manifest
        (packageDir_leads w package relative_manifest names_manifest) dirs done'
      rw [files_eq] at done
      have blank : Scripts w p.name next [] := fun _ _ none => by cases none
      obtain ⟨touched, manifest, scripts⟩ := writeFiles_ok (file.touched.aims (below_way _ _) aims)
        package (clean_scriptPairs clean) blank file.found done
      exact ⟨file.touched.trans touched, manifest, scripts⟩

theorem writeTo_ok (aims : t.Aims (baseSteps w.dir) top) (package : PackageName p.name)
    (clean : ∀ n ∈ p.nodes, '/' ∉ n.name.toList) (done : p.writeTo w t = (.ok (), t')) :
    Touched (top ++ way p.name) t t' ∧ p.Stored w t' := by
  unfold writeTo at done
  simp only at done
  split at done
  · split at done
    · cases done
    · rename_i emptied removed
      obtain rfl := removed_eq aims package removed
      have touched := touched_way t top p.name
      obtain ⟨touched', stored⟩ := writeFresh_ok (touched.aims (below_way _ _) aims) package clean done
      exact ⟨touched.trans touched', stored⟩
  · exact writeFresh_ok aims package clean done

theorem Stored.kept (stored : p.Stored w t) (touched : Touched (top ++ xs) t t') (some : xs ≠ [])
    (aims : t.Aims (baseSteps w.dir) top) (package : PackageName p.name)
    (apart : ∀ rest, ¬xs <+: way p.name ++ rest) : p.Stored w t' where
  manifest := find_of_touched touched some aims package relative_manifest names_manifest (apart _)
    stored.manifest
  scripts node source there := by
    obtain ⟨clean, found⟩ := stored.scripts node source there
    exact ⟨clean, find_of_touched touched some aims package (relative_scriptFile node)
      (names_scriptFile clean) (apart _) found⟩

-- A package that is stored is where the path of its workspace leads.
structure Settled (p : Item) (w : Workspace) (top : Place) (t : Tree) : Prop where
  base : t.walk [] (baseSteps w.dir) = .ok top
  onward : t.walk top (way p.name) = .ok (top ++ way p.name)
  here : t.at? (top ++ way p.name) = some .directory

theorem Stored.settled (stored : p.Stored w t) (aims : t.Aims (baseSteps w.dir) top)
    (package : PackageName p.name) : p.Settled w top t := by
  obtain ⟨first, walked, here⟩ := walks_of_manifest aims package stored.manifest
  exact ⟨first, walked, here⟩

/-! ### Loading -/

-- What is loaded of the package.
def loaded (p : Item) : Loaded where
  package := p.name
  nodeNames := p.nodes.map (·.name)
  scripts := p.scripts

theorem declaredNodes_eq (p : Item) : p.declared.declaredNodes = p.nodes.map ItemNode.entry := by
  unfold declared Manifest.declaredNodes
  cases p.nodes with
  | nil => rfl
  | cons n nodes => rfl

theorem script_of_node {n : ItemNode} (member : n ∈ p.nodes) {source : String}
    (scripted : n.script = some source) : ∃ last, Entries.get? p.scripts n.name = some last := by
  have among : (n.name, source) ∈ p.scriptPairs :=
    List.mem_filterMap.mpr ⟨n, member, by rw [scripted]; rfl⟩
  have known : Entries.contains p.scripts n.name = true := by
    rw [scripts, Entries.contains_ofList, List.any_eq_true]
    exact ⟨_, among, by simp⟩
  exact Option.isSome_iff_exists.mp known

-- Every node of one name reads the same file, so each of them gives the script that counts.
theorem readScripts_eq (stored : p.Stored w t) {nodes : List ItemNode}
    (among : ∀ n ∈ nodes, n ∈ p.nodes) (es : Entries String) :
    (nodes.map ItemNode.entry).foldl
        (fun scripts n =>
          match scriptPath? (w.packageDir p.name) n with
          | none => scripts
          | some path =>
            match t.read path with
            | .ok source => Entries.insert n.name source scripts
            | .error _ => scripts)
        es
      = (nodes.filterMap fun n => n.script.map fun source => (n.name, source)).foldl
        (fun es pair => Entries.insert pair.1 ((Entries.get? p.scripts pair.1).getD "") es) es := by
  induction nodes generalizing es with
  | nil => rfl
  | cons n nodes ih =>
    have rest := ih fun m member => among m (List.mem_cons_of_mem _ member)
    cases scripted : n.script with
    | none =>
      have none : scriptPath? (w.packageDir p.name) n.entry = none := by
        rw [scriptPath?, ItemNode.entry, scripted]
        rfl
      rw [List.map_cons, List.foldl_cons, none, List.filterMap_cons_none (by rw [scripted]; rfl)]
      exact rest es
    | some source =>
      have path : scriptPath? (w.packageDir p.name) n.entry
          = some (fileOf w p.name (scriptFile n.name)) := by
        rw [scriptPath?, ItemNode.entry, scripted]
        rfl
      obtain ⟨last, there⟩ := script_of_node (among n List.mem_cons_self) scripted
      have read := File.Tree.read_eq_ok_iff.mpr (stored.scripts n.name last there).2
      rw [List.map_cons, List.foldl_cons, path, List.filterMap_cons_some (b := (n.name, source))
        (by rw [scripted]; rfl), List.foldl_cons]
      simp only [read, there]
      exact rest _

theorem readScripts_ok (stored : p.Stored w t) :
    readScripts t (w.packageDir p.name) (p.nodes.map ItemNode.entry) = p.scripts :=
  (readScripts_eq stored (fun _ member => member) []).trans (Entries.foldl_settled p.scriptPairs "")

theorem load_of_stored (stored : p.Stored w t) :
    load t (w.packageDir p.name)
      = if p.nodes.isEmpty then .error (.noNodes p.name) else .ok (p.declared, p.loaded) := by
  have read : t.read (join (w.packageDir p.name) "package.json") = .ok p.manifest.pretty :=
    File.Tree.read_eq_ok_iff.mpr stored.manifest
  have names : (p.nodes.map ItemNode.entry).map (·.name) = p.nodes.map (·.name) := by
    rw [List.map_map]
    rfl
  unfold load readManifest
  simp only [read, ofText?_manifest, declaredNodes_eq, List.isEmpty_map]
  cases p.nodes.isEmpty with
  | true => rfl
  | false =>
    simp only [Bool.false_eq_true, if_false, bind, Except.bind]
    rw [declaredNodes_eq, names, readScripts_ok stored]
    rfl

end Item

end Flowgate.Package
