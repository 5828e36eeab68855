import Flowgate.Proofs.File.Soundness
import Flowgate.Proofs.Package.Standing

/-!
Workspaces in order: the manifest lists packages by their names, and nothing lies among them that
belongs to none. Work on one package keeps the order at every point where it can fail, and it leaves
the other packages alone.
-/

namespace Flowgate.Package

open File (Names Place Tree baseSteps core isAbsolute join steps)
open File.Tree (Aims Below Touched)

variable {w : Workspace} {top : Place} {t t' : Tree} {name : String}

/-! ### Work at the place of a package -/

-- What was done at the place of a package, whether it was finished or not.
structure Reworked (top : Place) (name : String) (t t' : Tree) : Prop where
  touched : Touched (top ++ way name) t t'
  sound : t.Sound → t'.Sound
  unblocked : Unblocked top name t → Unblocked top name t'

theorem Reworked.refl (top : Place) (name : String) (t : Tree) : Reworked top name t t :=
  ⟨.refl _ _, id, id⟩

theorem Reworked.trans {t'' : Tree} (first : Reworked top name t t')
    (second : Reworked top name t' t'') : Reworked top name t t'' :=
  ⟨first.touched.trans second.touched, second.sound ∘ first.sound,
    second.unblocked ∘ first.unblocked⟩

theorem Reworked.aims (reworked : Reworked top name t t') (aims : t.Aims (baseSteps w.dir) top) :
    t'.Aims (baseSteps w.dir) top :=
  reworked.touched.aims (below_way top name) aims

section

variable {path content : String}

theorem way_under (top : Place) (name : String) (rest : List String) :
    top ++ way name <+: top ++ (way name ++ rest) := by
  rw [← List.append_assoc]
  exact List.prefix_append _ _

theorem reworked_directories (aims : t.Aims (baseSteps w.dir) top) (package : PackageName name)
    (relative : isAbsolute path = false) (names : ∀ x ∈ steps path, Names x) {dir : String}
    (leads : core (steps dir) <+: core (steps (fileOf w name path))) :
    Reworked top name t (t.makeDirectories dir).2 where
  touched := by
    rw [core_fileOf package relative names] at leads
    exact aims.touched_makeDirectories (names_inPackage package names) leads
      (.inl (way_under top name _))
  sound sound := File.Tree.sound_makeDirectories sound dir
  unblocked unblocked node there := by
    rcases (File.Tree.along_makeDirectories t dir).grown (top ++ way name) with same | ⟨-, made⟩
    · rw [same] at there
      exact unblocked node there
    · rw [made] at there
      exact (Option.some.inj there).symm

theorem reworked_write (aims : t.Aims (baseSteps w.dir) top) (package : PackageName name)
    (relative : isAbsolute path = false) (names : ∀ x ∈ steps path, Names x)
    (done : t.write (fileOf w name path) content = .ok t') : Reworked top name t t' where
  touched := aims.touched_write (steps_inPackage w package relative) (names_inPackage package names)
    (way_under top name _) done
  sound sound := File.Tree.sound_write sound done
  unblocked unblocked node there := by
    obtain ⟨place, located, other, rfl⟩ := File.Tree.write_ok done
    obtain ⟨rfl, -⟩ := aims.locate (steps_inPackage w package relative)
      (names_inPackage package names) located
    have apart : top ++ way name ≠ top ++ (way name ++ steps path) := by
      intro same
      rw [← List.append_assoc] at same
      exact Text.pieces_ne_nil path (List.append_right_eq_self.mp same.symm)
    rw [File.Tree.at?_set _ (File.Tree.ne_nil_of_at? other), if_neg apart] at there
    exact unblocked node there

-- The induction is on the files that are left, and every fault ends it with what is done by then.
theorem reworked_writeFiles (aims : t.Aims (baseSteps w.dir) top) (package : PackageName name)
    {pairs : List (String × String)} (clean : ∀ pair ∈ pairs, '/' ∉ pair.1.toList) :
    Reworked top name t (Item.writeFiles (w.packageDir name)
      (pairs.map fun pair => (scriptFile pair.1, pair.2)) t).2 := by
  induction pairs generalizing t with
  | nil => exact .refl _ _ _
  | cons pair pairs ih =>
    obtain ⟨node, source⟩ := pair
    have here := clean _ List.mem_cons_self
    have dirs := reworked_directories aims package (relative_scriptFile node)
      (names_scriptFile here) (File.core_parent_leads (fileOf w name (scriptFile node)))
    rw [fileOf] at dirs
    rw [List.map_cons, writeFiles_cons]
    dsimp only
    split
    · rename_i made
      rw [made] at dirs
      exact dirs
    · rename_i made
      rw [made] at dirs
      split
      · exact dirs
      · rename_i next wrote
        have file := dirs.trans (reworked_write (dirs.aims aims) package (relative_scriptFile node)
          (names_scriptFile here) wrote)
        exact file.trans (ih (file.aims aims) fun pair member =>
          clean pair (List.mem_cons_of_mem _ member))

theorem reworked_writeFresh {p : Item} (aims : t.Aims (baseSteps w.dir) top)
    (package : PackageName p.name) (clean : ∀ n ∈ p.nodes, '/' ∉ n.name.toList) :
    Reworked top p.name t (p.writeFresh (w.packageDir p.name) t).2 := by
  have dirs := reworked_directories aims package relative_manifest names_manifest
    (packageDir_leads w package relative_manifest names_manifest)
  unfold Item.writeFresh
  split
  · rename_i made
    rw [made] at dirs
    exact dirs
  · rename_i made
    rw [made] at dirs
    split
    · exact dirs
    · rename_i next wrote
      have manifest := dirs.trans
        (reworked_write (dirs.aims aims) package relative_manifest names_manifest wrote)
      rw [Item.files_eq]
      exact manifest.trans (reworked_writeFiles (manifest.aims aims) package
        (Item.clean_scriptPairs clean))

theorem reworked_removeDirectory (aims : t.Aims (baseSteps w.dir) top) (package : PackageName name) :
    Reworked top name t (t.removeDirectory (w.packageDir name)).2 := by
  obtain ⟨front, last, ends, names⟩ := packageDir_ends w package
  rcases t.removeDirectory_cases (File.Tree.last_step ends names.1) names with
    ⟨fault, failed⟩ | ⟨place, located, -, removed⟩
  · rw [failed]
    exact .refl _ _ _
  · obtain ⟨rfl, -⟩ := aims.locate (steps_packageDir w package.relative) (names_way package) located
    rw [removed]
    refine ⟨touched_way t top name, fun sound => File.Tree.sound_removed sound (by simp [way]), ?_⟩
    intro _ node there
    rw [File.Tree.at?_removed t (by simp [way]), if_pos (List.prefix_refl _)] at there
    cases there

theorem reworked_writeTo {p : Item} (aims : t.Aims (baseSteps w.dir) top)
    (package : PackageName p.name) (clean : ∀ n ∈ p.nodes, '/' ∉ n.name.toList) :
    Reworked top p.name t (p.writeTo w t).2 := by
  have removed := reworked_removeDirectory aims package
  unfold Item.writeTo
  simp only
  split
  · split
    · rename_i result
      rw [result] at removed
      exact removed
    · rename_i result
      rw [result] at removed
      exact removed.trans (reworked_writeFresh (removed.aims aims) package clean)
  · exact reworked_writeFresh aims package clean

theorem reworked_removePackage (aims : t.Aims (baseSteps w.dir) top) (package : PackageName name) :
    Reworked top name t (Shelf.removePackage w name t).2 := by
  have removed := reworked_removeDirectory aims package
  unfold Shelf.removePackage
  simp only
  split
  · split
    · rename_i result
      rw [result] at removed
      exact removed
    · rename_i result
      rw [result] at removed
      exact removed
  · exact .refl _ _ _

end

/-! ### Order -/

structure Grounded (w : Workspace) (top : Place) (t : Tree) (deps : Entries String) : Prop where
  aims : t.Aims (baseSteps w.dir) top
  sound : t.Sound
  sorted : Entries.Sorted deps
  listed : w.Listed t top deps
  packages : ∀ name source, Entries.get? deps name = some source → PackageName name
  tame : Tame top t

-- The packages of a kind keep their files and their sources.
structure Spares (top : Place) (kind : String → Prop) (t : Tree) (deps : Entries String) (t' : Tree)
    (deps' : Entries String) : Prop where
  files : ∀ other, PackageName other → kind other → ∀ p, top ++ way other <+: p →
    t'.at? p = t.at? p
  listed : ∀ other, kind other → Entries.get? deps' other = Entries.get? deps other

variable {kind : String → Prop} {deps deps' : Entries String}

theorem Grounded.dependencies (grounded : Grounded w top t deps) : w.dependencies t = .ok deps :=
  Workspace.dependencies_of_listed grounded.aims grounded.sorted grounded.listed

theorem Spares.refl (top : Place) (kind : String → Prop) (t : Tree) (deps : Entries String) :
    Spares top kind t deps t deps :=
  ⟨fun _ _ _ _ _ => rfl, fun _ _ => rfl⟩

theorem Spares.trans {t'' : Tree} {deps'' : Entries String} (first : Spares top kind t deps t' deps')
    (second : Spares top kind t' deps' t'' deps'') : Spares top kind t deps t'' deps'' where
  files other package spared p under := by
    rw [second.files other package spared p under, first.files other package spared p under]
  listed other spared := by rw [second.listed other spared, first.listed other spared]

theorem Tame.unblocked (tame : Tame top t) (package : PackageName name) : Unblocked top name t := by
  intro node there
  obtain ⟨other, package', ⟨-, directory⟩ | ⟨under, apart⟩⟩ := tame _ _ there
  · exact directory
  · exact absurd (congrArg steps (package'.eq_of_prefix package under)).symm apart

theorem spares_of_way (touched : Touched (top ++ way name) t t') (package : PackageName name)
    (others : ∀ other, kind other → other ≠ name) : Spares top kind t deps t' deps where
  files other package' spared p under := by
    have apart := others other spared
    obtain ⟨rest, rfl⟩ := under
    rw [List.append_assoc]
    apply touched.at?_apart
    · intro inside
      exact apart_way package package' apart.symm rest
        ((List.prefix_append_right_inj top).mp inside)
    · intro above
      have higher := (List.prefix_append _ rest).trans ((List.prefix_append_right_inj top).mp above)
      exact apart_way package' package apart [] (by rwa [List.append_nil])
  listed _ _ := rfl

theorem Grounded.reworked (grounded : Grounded w top t deps) (package : PackageName name)
    (reworked : Reworked top name t t') : Grounded w top t' deps where
  aims := reworked.aims grounded.aims
  sound := reworked.sound grounded.sound
  sorted := grounded.sorted
  listed := listed_of_way grounded.listed grounded.aims reworked.touched
  packages := grounded.packages
  tame := tame_of_way grounded.tame package reworked.touched
    (reworked.unblocked (grounded.tame.unblocked package))

/-! ### Work on the manifest -/

theorem at?_of_manifest (touched : Touched (top ++ ["package.json"]) t t') {p : Place}
    (under : top ++ way name <+: p) : t'.at? p = t.at? p := by
  obtain ⟨rest, rfl⟩ := under
  rw [List.append_assoc]
  exact touched.at?_apart (manifest_apart top [] _) (packages_apart top [] _)

theorem spares_of_manifest (touched : Touched (top ++ ["package.json"]) t t')
    (listed : ∀ other, kind other → Entries.get? deps' other = Entries.get? deps other) :
    Spares top kind t deps t' deps' where
  files _ _ _ _ under := at?_of_manifest touched under
  listed := listed

theorem Grounded.relisted (grounded : Grounded w top t deps)
    (touched : Touched (top ++ ["package.json"]) t t') (sound : t'.Sound)
    (sorted : Entries.Sorted deps') (listed : w.Listed t' top deps')
    (packages : ∀ name source, Entries.get? deps' name = some source → PackageName name) :
    Grounded w top t' deps' where
  aims := touched.aims (Workspace.below_manifest top) grounded.aims
  sound := sound
  sorted := sorted
  listed := listed
  packages := packages
  tame := tame_of_manifest grounded.tame touched

theorem sound_ensure (sound : t.Sound) (w : Workspace) : (w.ensure t).2.Sound := by
  have dirs := File.Tree.sound_makeDirectories sound w.dir
  unfold Workspace.ensure
  split
  · rename_i made
    rw [made] at dirs
    exact dirs
  · rename_i made
    rw [made] at dirs
    split
    · exact dirs
    · split
      · exact dirs
      · exact File.Tree.sound_write dirs ‹_›

theorem readManifest_snd (w : Workspace) (t : Tree) :
    (Shelf.readManifest w t).2 = (w.ensure t).2 := by
  unfold Shelf.readManifest
  split
  · simp [*]
  · rename_i ensured
    simp only [ensured]
    split
    · rfl
    · split <;> rfl

theorem Grounded.readManifest (grounded : Grounded w top t deps) (kind : String → Prop) :
    Grounded w top (Shelf.readManifest w t).2 deps ∧
      Spares top kind t deps (Shelf.readManifest w t).2 deps := by
  obtain ⟨touched, listed⟩ := Workspace.listed_ensure grounded.aims grounded.listed
  rw [readManifest_snd]
  exact ⟨grounded.relisted touched (sound_ensure grounded.sound w) grounded.sorted listed
    grounded.packages, spares_of_manifest touched fun _ _ => rfl⟩

-- What was read is the manifest of what is listed.
theorem Grounded.manifest_eq {manifest : Json.Value}
    (opened : Shelf.readManifest w t = (.ok manifest, t')) (grounded : Grounded w top t' deps) :
    manifest = Workspace.manifestOf deps := by
  unfold Shelf.readManifest at opened
  split at opened
  · cases opened
  · split at opened
    · cases opened
    · rename_i text read
      split at opened
      · cases opened
      · rename_i parsed
        cases opened
        have found := File.Tree.read_eq_ok_iff.mp read
        rcases grounded.listed with listed | ⟨-, absent⟩
        · rw [found] at listed
          cases listed
          rw [Workspace.parse?_manifestOf grounded.sorted] at parsed
          exact (Option.some.inj parsed).symm
        · exact absurd found (Workspace.find_of_absent grounded.aims absent _)

theorem Grounded.packages_change (grounded : Grounded w top t deps) {source : Option String}
    (package : source.isSome → PackageName name) :
    ∀ other found, Entries.get? (Entries.change deps name source) other = some found →
      PackageName other := by
  intro other found there
  rcases Entries.get?_change_cases there with ⟨rfl, rfl⟩ | ⟨-, old⟩
  · exact package rfl
  · exact grounded.packages other found old

theorem Grounded.writeManifest (grounded : Grounded w top t deps) {source : Option String}
    (package : source.isSome → PackageName name) (others : ∀ other, kind other → other ≠ name) :
    ∃ deps', Grounded w top
        (Shelf.writeManifest w (Shelf.withDependency (Workspace.manifestOf deps) name source) t).2
        deps' ∧
      Spares top kind t deps
        (Shelf.writeManifest w (Shelf.withDependency (Workspace.manifestOf deps) name source) t).2
        deps' := by
  rw [Workspace.withDependency_manifestOf]
  unfold Shelf.writeManifest
  simp only
  split
  · exact ⟨deps, grounded, .refl _ _ _ _⟩
  · rename_i next wrote
    have touched := Workspace.touched_manifest grounded.aims wrote
    refine ⟨Entries.change deps name source, ?_, ?_⟩
    · exact grounded.relisted touched (File.Tree.sound_write grounded.sound wrote)
        (Entries.sorted_change grounded.sorted _ _) (.inl (File.Tree.find_write wrote))
        (grounded.packages_change package)
    · apply spares_of_manifest touched
      intro other spared
      rw [Entries.get?_change, if_neg (others other spared).symm]

theorem Grounded.sets (grounded : Grounded w top t deps) {source : Option String}
    (package : source.isSome → PackageName name) (sets : Shelf.Sets w name source t t') :
    Grounded w top t' (Entries.change deps name source) ∧
      t'.find w.manifestPath
        = .ok (.text (Workspace.manifestOf (Entries.change deps name source)).pretty) ∧
      Touched (top ++ ["package.json"]) t t' := by
  obtain ⟨manifest, read, opened, closed⟩ := sets
  obtain ⟨touched, found⟩ := Workspace.set_ok grounded.aims grounded.sorted grounded.listed opened closed
  obtain ⟨v, -, wrote⟩ := Workspace.writeManifest_ok closed
  have read' : read.Sound := by
    have ensured := sound_ensure grounded.sound w
    rwa [← readManifest_snd, opened] at ensured
  exact ⟨grounded.relisted touched (File.Tree.sound_write read' wrote)
    (Entries.sorted_change grounded.sorted _ _) (.inl found) (grounded.packages_change package),
    found, touched⟩

-- A package that was put into the workspace lies there and is listed.
theorem Grounded.puts (grounded : Grounded w top t deps) {p : Item} {source : String}
    (package : PackageName p.name) (clean : ∀ n ∈ p.nodes, '/' ∉ n.name.toList)
    (puts : Shelf.Puts w p source t t') :
    Grounded w top t' (Entries.change deps p.name (some source)) ∧ p.Stored w t' ∧
      t'.find w.manifestPath
        = .ok (.text (Workspace.manifestOf (Entries.change deps p.name (some source))).pretty) := by
  obtain ⟨placed, wrote, sets⟩ := puts
  obtain ⟨-, stored⟩ := Item.writeTo_ok grounded.aims package clean wrote
  have reworked := reworked_writeTo grounded.aims package clean
  rw [wrote] at reworked
  have grounded' := grounded.reworked package reworked
  obtain ⟨grounded'', found, touched⟩ := grounded'.sets (fun _ => package) sets
  exact ⟨grounded'', stored.kept touched (by simp) grounded'.aims package
    (manifest_apart_way p.name), found⟩

-- A package that was taken out of the workspace is not listed.
theorem Grounded.takes (grounded : Grounded w top t deps) (package : PackageName name)
    {cleared : Tree} (taken : Shelf.removePackage w name t = (.ok (), cleared))
    (sets : Shelf.Sets w name none cleared t') :
    Grounded w top t' (Entries.change deps name none) ∧
      Touched (top ++ ["package.json"]) cleared t' := by
  have reworked := reworked_removePackage grounded.aims package
  rw [taken] at reworked
  obtain ⟨grounded', -, relisted⟩ := (grounded.reworked package reworked).sets
    (fun impossible => absurd impossible (by simp)) sets
  exact ⟨grounded', relisted⟩

/-! ### Names that no package has -/

-- What can be asked to be removed: a package, or a name that the shelf took for one.
def Askable (name : String) : Prop :=
  name = "" ∨ PackageName name ∨ ∃ front version, PackageName front ∧ name = front ++ "@" ++ version

-- To remove the nameless package takes all of them away.
theorem Grounded.removePackage_empty (grounded : Grounded w top t deps) :
    Grounded w top (Shelf.removePackage w "" t).2 deps := by
  have single : steps "" = [""] := by decide
  have whole : steps (w.packageDir "") = baseSteps w.dir ++ ["node_modules"] ++ [""] := by
    rw [steps_packageDir w (by decide), way, single, List.append_assoc]
    rfl
  have last : ((steps (w.packageDir "")).filter (· ≠ "")).getLast? = some "node_modules" := by
    rw [whole, List.filter_append, List.filter_append]
    simp
  unfold Shelf.removePackage
  simp only
  split
  · rcases t.removeDirectory_cases last (by decide) with ⟨fault, failed⟩ | ⟨place, located, -, removed⟩
    · rw [failed]
      exact grounded
    · have walked := File.Tree.walk_core (File.Tree.locate_ok located).2
      have parts : core (steps (w.packageDir "")) = core (baseSteps w.dir) ++ ["node_modules"] := by
        rw [whole, List.append_assoc, File.core_append]
        rfl
      rw [parts] at walked
      obtain ⟨q, first, -, rfl⟩ := File.Tree.walk_base (by decide) walked
      obtain rfl := grounded.aims.ends first
      have below : q ++ ["node_modules"] ≠ [] := by simp
      have touched := File.Tree.touched_removed t below
      rw [removed]
      refine ⟨touched.aims ⟨List.prefix_append _ _, by simp⟩ grounded.aims,
        File.Tree.sound_removed grounded.sound below, grounded.sorted,
        listed_of_touched grounded.listed grounded.aims touched, grounded.packages, ?_⟩
      intro p node there
      rw [File.Tree.at?_removed t below, if_pos] at there
      · cases there
      · exact ⟨p, by simp⟩
  · exact grounded

theorem Grounded.removePackage_version (grounded : Grounded w top t deps) (package : PackageName name)
    (version : String) : (Shelf.removePackage w (name ++ "@" ++ version) t).2 = t := by
  unfold Shelf.removePackage
  simp only [not_there_version grounded.aims grounded.tame package version]
  rfl

theorem Grounded.removePackage (grounded : Grounded w top t deps) (askable : Askable name) :
    Grounded w top (Shelf.removePackage w name t).2 deps := by
  rcases askable with rfl | package | ⟨front, version, package, rfl⟩
  · exact grounded.removePackage_empty
  · exact grounded.reworked package (reworked_removePackage grounded.aims package)
  · rw [grounded.removePackage_version package version]
    exact grounded

end Flowgate.Package
