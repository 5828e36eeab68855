import Flowgate.Proofs.Package.Contents

/-!
Packages that are put back. The paths of a package that lies in the workspace are proper, so its files
can be written again wherever another version of it lies, and it is then there as it was.
-/

namespace Flowgate.Package

open File (Names Node Place Tree baseSteps core isAbsolute join steps)
open File.Tree (Aims Touched)

variable {w : Workspace} {t t₀ : Tree} {top : Place} {name : String}

theorem checkName_nodes : File.Tree.checkName "nodes" = .ok () := by decide

-- What the scripts of a package can be written into.
structure Tidy (held : Place → Option Node) : Prop where
  root : held [] = some .directory
  nodes : ∀ node, held ["nodes"] = some node → node = .directory
  files : ∀ file, held ["nodes", file] ≠ some .directory

theorem tidy_manifestOnly (p : Item) : Tidy p.manifestOnly where
  root := rfl
  nodes node there := by simp [Item.manifestOnly] at there
  files file there := by simp [Item.manifestOnly] at there

theorem Tidy.withScript {held : Place → Option Node} (tidy : Tidy held) (pair : String × String) :
    Tidy (withScript held pair) where
  root := withScript_root tidy.root pair
  nodes node there := by simpa [Package.withScript, eq_comm] using there
  files file there := by
    by_cases same : file = pair.1 ++ ".lua"
    · simp [Package.withScript, same] at there
    · simp [Package.withScript, same] at there
      exact tidy.files file there

/-! ### Files -/

-- A package whose path leads somewhere is where its directory is.
theorem locate_packageDir (aims₀ : t₀.Aims (baseSteps w.dir) top) (package : PackageName name)
    {goal : Place} (located₀ : t₀.locate (w.packageDir name) = .ok goal)
    (aims : t.Aims (baseSteps w.dir) top) (reached : t.Reached (top ++ way name)) :
    t.locate (w.packageDir name) = .ok (top ++ way name) :=
  aims₀.locate_reached aims (steps_packageDir w package.relative) (names_way package)
    (List.cons_ne_nil _ _) located₀ reached

theorem locate_inPackage (aims₀ : t₀.Aims (baseSteps w.dir) top) (package : PackageName name)
    {path : String} (relative : isAbsolute path = false) (names : ∀ x ∈ steps path, Names x)
    {goal : Place} (located₀ : t₀.locate (fileOf w name path) = .ok goal)
    (aims : t.Aims (baseSteps w.dir) top) (reached : t.Reached (top ++ (way name ++ steps path))) :
    t.locate (fileOf w name path) = .ok (top ++ (way name ++ steps path)) :=
  aims₀.locate_reached aims (steps_inPackage w package relative) (names_inPackage package names)
    (by simp [way]) located₀ reached

-- The directory of the scripts is there, or it can be made in the one of the package.
theorem scripts_directory (aims₀ : t₀.Aims (baseSteps w.dir) top) (package : PackageName name)
    {root goal : Place} (root₀ : t₀.locate (w.packageDir name) = .ok root) {node : String}
    (clean : '/' ∉ node.toList)
    (located₀ : t₀.locate (fileOf w name (scriptFile node)) = .ok goal)
    (aims : t.Aims (baseSteps w.dir) top) (sound : t.Sound) {held : Place → Option Node}
    (holds : Holds top name t held) (tidy : Tidy held) :
    ∃ made, t.makeDirectories ((File.parent? (fileOf w name (scriptFile node))).getD "")
        = (.ok (), made) ∧
      made.at? (top ++ way name ++ ["nodes"]) = some .directory ∧
      made.at? (top ++ way name ++ ["nodes", node ++ ".lua"]) ≠ some .directory := by
  have here : t.at? (top ++ way name) = some .directory := by
    have held := holds []
    rwa [List.append_nil, tidy.root] at held
  have located := locate_packageDir aims₀ package root₀ aims (sound _ _ here)
  have front : t.walk [] (core (baseSteps w.dir) ++ way name ++ ["nodes"])
      = .ok (top ++ way name ++ ["nodes"]) := by
    have walked := File.Tree.walk_core (File.Tree.locate_ok located).2
    rw [steps_packageDir w package.relative, File.core_append,
      File.core_of_names (names_way package)] at walked
    rw [File.Tree.walk_snoc walked (by decide), here, checkName_nodes]
  have parts : core (steps (fileOf w name (scriptFile node)))
      = core (baseSteps w.dir) ++ way name ++ ["nodes"] ++ [node ++ ".lua"] := by
    rw [core_fileOf package (relative_scriptFile node) (names_scriptFile clean),
      steps_scriptFile clean]
    simp
  obtain ⟨proper, same⟩ := File.Tree.walk_parent (t := t) parts (by simp)
  have checked := File.Tree.checkPath_parent (File.Tree.locate_ok located₀).1 proper
  rw [front] at same
  have free : t.at? (top ++ way name ++ ["nodes", node ++ ".lua"]) ≠ some .directory := by
    rw [holds]
    exact tidy.files _
  cases there : t.at? (top ++ way name ++ ["nodes"]) with
  | none =>
    have below : top ++ way name ++ ["nodes"] ≠ [] := by simp
    refine ⟨_, File.Tree.makeDirectories_new checked same there, ?_, ?_⟩
    · rw [File.Tree.at?_set t below, if_pos rfl]
    · rw [File.Tree.at?_set t below, if_neg (by simp)]
      exact free
  | some node' =>
    have directory : node' = .directory := by
      rw [holds] at there
      exact tidy.nodes node' there
    subst directory
    exact ⟨t, File.Tree.makeDirectories_there (fun _ => checked) same there, there, free⟩

theorem script_completes (aims₀ : t₀.Aims (baseSteps w.dir) top) (package : PackageName name)
    {root goal : Place} (root₀ : t₀.locate (w.packageDir name) = .ok root) {node : String}
    (clean : '/' ∉ node.toList)
    (located₀ : t₀.locate (fileOf w name (scriptFile node)) = .ok goal)
    (aims : t.Aims (baseSteps w.dir) top) (sound : t.Sound) {held : Place → Option Node}
    (holds : Holds top name t held) (tidy : Tidy held) (source : String) :
    ∃ made t', t.makeDirectories ((File.parent? (fileOf w name (scriptFile node))).getD "")
        = (.ok (), made) ∧
      made.write (fileOf w name (scriptFile node)) source = .ok t' := by
  obtain ⟨made, dirs, there, free⟩ :=
    scripts_directory aims₀ package root₀ clean located₀ aims sound holds tidy
  have reworked := reworked_directories aims package (relative_scriptFile node)
    (names_scriptFile clean) (File.core_parent_leads (fileOf w name (scriptFile node)))
  rw [dirs] at reworked
  have solid := (reworked.sound sound _ _ there).solid there
  have place : top ++ (way name ++ steps (scriptFile node))
      = top ++ way name ++ ["nodes"] ++ [node ++ ".lua"] := by
    rw [steps_scriptFile clean]
    simp
  have located := locate_inPackage aims₀ package (relative_scriptFile node) (names_scriptFile clean)
    located₀ (reworked.aims aims) (by rw [place]; exact solid.append _)
  refine ⟨made, _, dirs, File.Tree.write_of_locate located ?_ source⟩
  rw [place, List.append_assoc]
  exact free

-- The induction is on the scripts that are left.
theorem writeFiles_completes (aims₀ : t₀.Aims (baseSteps w.dir) top) (package : PackageName name)
    {root : Place} (root₀ : t₀.locate (w.packageDir name) = .ok root)
    {pairs : List (String × String)} (clean : ∀ pair ∈ pairs, '/' ∉ pair.1.toList)
    (located₀ : ∀ pair ∈ pairs, ∃ goal, t₀.locate (fileOf w name (scriptFile pair.1)) = .ok goal)
    (aims : t.Aims (baseSteps w.dir) top) (sound : t.Sound) {held : Place → Option Node}
    (holds : Holds top name t held) (tidy : Tidy held) :
    ∃ t', Item.writeFiles (w.packageDir name)
      (pairs.map fun pair => (scriptFile pair.1, pair.2)) t = (.ok (), t') := by
  induction pairs generalizing t held with
  | nil => exact ⟨t, writeFiles_nil _ _⟩
  | cons pair pairs ih =>
    have here := clean _ List.mem_cons_self
    obtain ⟨goal, found⟩ := located₀ _ List.mem_cons_self
    obtain ⟨made, next, dirs, wrote⟩ :=
      script_completes aims₀ package root₀ here found aims sound holds tidy pair.2
    have reworked := reworked_directories aims package (relative_scriptFile pair.1)
      (names_scriptFile here) (File.core_parent_leads (fileOf w name (scriptFile pair.1)))
    rw [dirs] at reworked
    have file := reworked.trans (reworked_write (reworked.aims aims) package
      (relative_scriptFile pair.1) (names_scriptFile here) wrote)
    obtain ⟨last, rest⟩ := ih (fun pair member => clean pair (List.mem_cons_of_mem _ member))
      (fun pair member => located₀ pair (List.mem_cons_of_mem _ member)) (file.aims aims)
      (file.sound sound) (holds_script aims package holds tidy.root here dirs wrote)
      (tidy.withScript pair)
    rw [fileOf] at dirs wrote
    refine ⟨last, ?_⟩
    rw [List.map_cons, writeFiles_cons, dirs]
    simp only [wrote, rest]

namespace Item

variable {p q : Item}

-- The directory of a package was just made: its manifest can be written there.
theorem manifest_completes (aims₀ : t₀.Aims (baseSteps w.dir) top) (package : PackageName p.name)
    (stored₀ : p.Stored w t₀) (aims : t.Aims (baseSteps w.dir) top) (sound : t.Sound)
    (holds : Holds top p.name t fun rest => if rest = [] then some .directory else none) :
    ∃ t', t.write (join (w.packageDir p.name) "package.json") p.manifest.pretty = .ok t' ∧
      Holds top p.name t' p.manifestOnly := by
  obtain ⟨goal, manifest₀, -⟩ := File.Tree.find_eq_ok_iff.mp stored₀.manifest
  have here : t.at? (top ++ way p.name) = some .directory := by
    have held := holds []
    rwa [List.append_nil] at held
  have place : top ++ (way p.name ++ steps "package.json")
      = top ++ way p.name ++ ["package.json"] := by
    rw [steps_manifest, List.append_assoc]
  have located := locate_inPackage aims₀ package relative_manifest names_manifest manifest₀ aims
    (by rw [place]; exact ((sound _ _ here).solid here).append _)
  have free : t.at? (top ++ (way p.name ++ steps "package.json")) ≠ some .directory := by
    rw [place, holds]
    simp
  have wrote := File.Tree.write_of_locate located free p.manifest.pretty
  refine ⟨_, wrote, fun rest => ?_⟩
  rw [(at?_written aims package relative_manifest names_manifest wrote rest).1, steps_manifest,
    holds rest, manifestOnly]
  by_cases first : rest = []
  · simp [first]
  · simp [first]

theorem writeFresh_completes (aims₀ : t₀.Aims (baseSteps w.dir) top) (package : PackageName p.name)
    (clean : ∀ n ∈ p.nodes, '/' ∉ n.name.toList) (stored₀ : p.Stored w t₀)
    (aims : t.Aims (baseSteps w.dir) top) (sound : t.Sound) (reached : t.Reached (top ++ way p.name))
    (empty : Holds top p.name t fun _ => none) :
    ∃ t', p.writeFresh (w.packageDir p.name) t = (.ok (), t') := by
  have root₀ := stored₀.located aims₀ package
  have located := locate_packageDir aims₀ package root₀ aims reached
  have absent : t.at? (top ++ way p.name) = none := by
    have nothing := empty []
    rwa [List.append_nil] at nothing
  have below : top ++ way p.name ≠ [] := by simp [way]
  have dirs := File.Tree.makeDirectories_new (File.Tree.locate_ok located).1
    (File.Tree.locate_ok located).2 absent
  have reworked := reworked_directories aims package relative_manifest names_manifest
    (packageDir_leads w package relative_manifest names_manifest)
  have holds : Holds top p.name (t.set (top ++ way p.name) .directory)
      fun rest => if rest = [] then some .directory else none := by
    intro rest
    rw [File.Tree.at?_set t below, empty rest]
    simp only [List.append_right_eq_self]
  rw [dirs] at reworked
  obtain ⟨next, wrote, holds'⟩ := manifest_completes aims₀ package stored₀ (reworked.aims aims)
    (reworked.sound sound) holds
  have manifest := reworked.trans
    (reworked_write (reworked.aims aims) package relative_manifest names_manifest wrote)
  have scripts₀ : ∀ pair ∈ p.scriptPairs,
      ∃ goal, t₀.locate (fileOf w p.name (scriptFile pair.1)) = .ok goal := by
    intro pair member
    have known : Entries.contains p.scripts pair.1 = true := by
      rw [scripts, Entries.contains_ofList, List.any_eq_true]
      exact ⟨pair, member, by simp⟩
    obtain ⟨source, there⟩ := Option.isSome_iff_exists.mp known
    obtain ⟨goal, found, -⟩ := File.Tree.find_eq_ok_iff.mp (stored₀.scripts _ source there).2
    exact ⟨goal, found⟩
  obtain ⟨last, rest⟩ := writeFiles_completes aims₀ package root₀ (clean_scriptPairs clean) scripts₀
    (manifest.aims aims) (manifest.sound sound) holds' (tidy_manifestOnly p)
  refine ⟨last, ?_⟩
  rw [writeFresh, dirs]
  simp only [wrote, files_eq, rest]

-- What lies in the workspace under the same name gives way.
theorem writeTo_completes (aims₀ : t₀.Aims (baseSteps w.dir) top) (package : PackageName p.name)
    (clean : ∀ n ∈ p.nodes, '/' ∉ n.name.toList) (stored₀ : p.Stored w t₀)
    (aims : t.Aims (baseSteps w.dir) top) (sound : t.Sound) (same : q.name = p.name)
    (stored : q.Stored w t) : ∃ t', p.writeTo w t = (.ok (), t') := by
  have package' : PackageName q.name := same ▸ package
  have located := stored.located aims package'
  have here := (stored.settled aims package').here
  rw [same] at located here
  obtain ⟨front, last, ends, names⟩ := packageDir_ends w package
  have removed := File.Tree.removeDirectory_there (File.Tree.last_step ends names.1) names located here
  have there : t.isThere (w.packageDir p.name) = true :=
    Workspace.isThere_iff.mpr ⟨_, File.Tree.find_eq_ok_iff.mpr ⟨_, located, here⟩⟩
  have below : top ++ way p.name ≠ [] := by simp [way]
  have reached : ((t.clear (top ++ way p.name)).prune (top ++ way p.name)).Reached
      (top ++ way p.name) := by
    intro place under apart
    rw [File.Tree.at?_removed t below, if_neg]
    · exact sound _ _ here place under apart
    · exact fun inside => apart (under.eq_of_length_le inside.length_le)
  obtain ⟨last, written⟩ := writeFresh_completes aims₀ package clean stored₀
    ((touched_way t top p.name).aims (below_way top p.name) aims)
    (File.Tree.sound_removed sound below) reached fun rest => by
      rw [File.Tree.at?_removed t below, if_pos (List.prefix_append _ _)]
  refine ⟨last, ?_⟩
  rw [writeTo]
  simp only [there, if_true, removed, written]

end Item

/-! ### Packages -/

-- An item lies in the workspace as it was written, and nothing else lies in its directory.
structure Item.Kept (p : Item) (w : Workspace) (t : Tree) : Prop where
  stored : p.Stored w t
  exact : t.inside (w.packageDir p.name) = p.content

section

variable {deps : Entries String} {p q : Item} {h : Host} {spec source : String}

theorem Holds.inside {held : Place → Option Node} (holds : Holds top name t held)
    (located : t.locate (w.packageDir name) = .ok (top ++ way name)) :
    t.inside (w.packageDir name) = held := by
  funext rest
  rw [File.Tree.inside, located]
  exact holds rest

theorem Grounded.kept (grounded : Grounded w top t deps) {t' : Tree} (package : PackageName p.name)
    (clean : ∀ n ∈ p.nodes, '/' ∉ n.name.toList) (puts : Shelf.Puts w p source t t') :
    p.Kept w t' := by
  obtain ⟨grounded', stored, -⟩ := grounded.puts package clean puts
  suffices holds : Holds top p.name t' p.content from
    ⟨stored, holds.inside (stored.located grounded'.aims package)⟩
  intro rest
  obtain ⟨placed, wrote, sets⟩ := puts
  have reworked := reworked_writeTo grounded.aims package clean
  rw [wrote] at reworked
  obtain ⟨-, -, touched⟩ := (grounded.reworked package reworked).sets (fun _ => package) sets
  have below : top ++ way p.name <+: top ++ way p.name ++ rest := List.prefix_append _ _
  rw [at?_of_manifest touched below]
  exact Item.holds_writeTo grounded.aims grounded.sound package clean wrote rest

-- A package that lay in the workspace can be put there again in place of another version.
theorem Grounded.add_completes (grounded : Grounded w top h.files deps) {t₀ : Tree}
    (aims₀ : t₀.Aims (baseSteps w.dir) top) (package : PackageName p.name)
    (clean : ∀ n ∈ p.nodes, '/' ∉ n.name.toList) (stored₀ : p.Stored w t₀) (same : q.name = p.name)
    (stored : q.Stored w h.files)
    (found : h.files.find w.manifestPath = .ok (.text (Workspace.manifestOf deps).pretty))
    (resolved : h.shelf.resolve spec = .ok p) :
    ∃ files, (Shelf.add w spec).run h = (.ok (), { h with files }) ∧
      Shelf.Puts w p ("^" ++ p.version) h.files files := by
  obtain ⟨placed, wrote⟩ :=
    Item.writeTo_completes aims₀ package clean stored₀ grounded.aims grounded.sound same stored
  have reworked := reworked_writeTo grounded.aims package clean
  rw [wrote] at reworked
  obtain ⟨files, sets, ran⟩ := Grounded.setDependency_completes (h := { h with files := placed })
    (grounded.reworked package reworked) (find_manifest reworked.touched grounded.aims found) p.name
    (some ("^" ++ p.version))
  refine ⟨files, ?_, placed, wrote, sets⟩
  have looked : (Shelf.find (·.resolve spec)).run h = (.ok p, h) := by
    show (Except.mapError _ (h.shelf.resolve spec), h) = _
    rw [resolved]
    rfl
  have put : (onFiles fun t => ((p.writeTo w t).1.mapError ManagerFault.file, (p.writeTo w t).2)).run h
      = (.ok (), { h with files := placed }) := by
    rw [run_onFiles, wrote]
    rfl
  rw [Shelf.add, Shelf.run_pause, run_andThen_ok looked, Shelf.put, run_andThen_ok put, ran]

end

end Flowgate.Package
