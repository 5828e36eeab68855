import Flowgate.Proofs.Package.Calls
import Flowgate.Proofs.Package.Listing

/-!
The files of a workspace in step with the packages that are installed in it: each lies at its place
and is listed with its source, and nothing else lies where a package could be loaded from. Putting a
package there and taking one away keep the two in step.
-/

namespace Flowgate.Package

open File (Names Place Tree baseSteps core isAbsolute join steps)
open File.Tree (Aims Below Touched)

-- A package that is installed, from the index or from the archive of a path.
structure Installed where
  item : Item
  archive : Option String

namespace Installed

def isLocal (i : Installed) : Bool := i.archive.isSome

def source (i : Installed) : String :=
  match i.archive with
  | some path => "file:" ++ path
  | none => "^" ++ i.item.version

-- What the catalog records of it.
def schema (i : Installed) : Schema := .ofManifest i.item.declared i.isLocal (some i.item.loaded)

theorem isLocal_source (i : Installed) :
    "file:".toList.isPrefixOf i.source.toList = i.isLocal := by
  unfold source isLocal
  cases i.archive with
  | some path => simp
  | none =>
    simp only [String.toList_append, Option.isSome_none]
    rfl

end Installed

-- What lies among the packages belongs to one, or leads to its place.
def Tame (top : Place) (t : Tree) : Prop :=
  ∀ q node, t.at? (top ++ "node_modules" :: q) = some node → ∃ name, PackageName name ∧
    ((q <+: steps name ∧ node = .directory) ∨ (steps name <+: q ∧ q ≠ steps name))

structure Standing (w : Workspace) (top : Place) (t : Tree) (m : Entries Installed) : Prop where
  aims : t.Aims (baseSteps w.dir) top
  sorted : Entries.Sorted m
  listed : w.Listed t top (Entries.mapValues Installed.source m)
  stored : ∀ name i, Entries.get? m name = some i →
    i.item.name = name ∧ PackageName name ∧ i.item.Stored w t
  tame : Tame top t

/-! ### Places apart -/

theorem apart_way {name other : String} (package : PackageName name) (package' : PackageName other)
    (apart : name ≠ other) (rest : List String) : ¬way name <+: way other ++ rest := by
  intro under
  have inside : steps name <+: steps other ++ rest := (List.cons_prefix_cons.mp under).2
  rcases List.prefix_or_prefix_of_prefix inside (List.prefix_append _ _) with below | above
  · exact apart (package.eq_of_prefix package' below)
  · exact apart (package'.eq_of_prefix package above).symm

theorem manifest_apart_way (name : String) (rest : List String) :
    ¬["package.json"] <+: way name ++ rest :=
  manifest_apart [] [] (steps name ++ rest)

section

variable {w : Workspace} {top : Place} {t t' : Tree} {m : Entries Installed} {name : String}

theorem tame_of_manifest (tame : Tame top t) (touched : Touched (top ++ ["package.json"]) t t') :
    Tame top t' := by
  intro q node there
  rcases touched.made _ node there with old | under | ⟨above, -⟩
  · exact tame q node old
  · exact absurd under (manifest_apart top [] q)
  · exact absurd above (packages_apart top [] q)

-- At the place of a package there can only be a directory.
def Unblocked (top : Place) (name : String) (t : Tree) : Prop :=
  ∀ node, t.at? (top ++ way name) = some node → node = .directory

theorem tame_of_way (tame : Tame top t) (package : PackageName name)
    (touched : Touched (top ++ way name) t t') (unblocked : Unblocked top name t') :
    Tame top t' := by
  intro q node there
  rcases touched.made _ node there with old | under | ⟨above, directory⟩
  · exact tame q node old
  · have inside := (List.prefix_append_right_inj top).mp under
    have inside' : steps name <+: q := (List.cons_prefix_cons.mp inside).2
    refine ⟨name, package, ?_⟩
    by_cases same : q = steps name
    · rw [same] at there ⊢
      exact .inl ⟨List.prefix_refl _, unblocked node there⟩
    · exact .inr ⟨inside', same⟩
  · have inside := (List.prefix_append_right_inj top).mp above
    exact ⟨name, package, .inl ⟨(List.cons_prefix_cons.mp inside).2, directory⟩⟩

theorem tame_of_removed (tame : Tame top t) (name : String) :
    Tame top ((t.clear (top ++ way name)).prune (top ++ way name)) := by
  intro q node there
  rw [File.Tree.at?_removed t (by simp [way])] at there
  by_cases under : top ++ way name <+: top ++ "node_modules" :: q
  · rw [if_pos under] at there
    cases there
  · rw [if_neg under] at there
    exact tame q node there

-- The manifest does not lie where packages do.
theorem find_manifest {xs : List String} (touched : Touched (top ++ "node_modules" :: xs) t t')
    (aims : t.Aims (baseSteps w.dir) top) {node : File.Node}
    (found : t.find w.manifestPath = .ok node) : t'.find w.manifestPath = .ok node := by
  have below : Below top (top ++ "node_modules" :: xs) := by
    refine ⟨List.prefix_append _ _, fun same => ?_⟩
    exact List.cons_ne_nil _ _ (List.append_right_eq_self.mp same)
  exact touched.find below aims w.steps_manifestPath (by decide) (by simp)
    (packages_apart top [] xs) found

theorem listed_of_touched {deps : Entries String} (listed : w.Listed t top deps)
    (aims : t.Aims (baseSteps w.dir) top) {xs : List String}
    (touched : Touched (top ++ "node_modules" :: xs) t t') : w.Listed t' top deps := by
  refine listed.imp (find_manifest touched aims) fun ⟨empty, absent⟩ => ⟨empty, ?_⟩
  rw [touched.at?_apart (packages_apart top [] xs) (manifest_apart top [] xs), absent]

theorem listed_of_way {deps : Entries String} (listed : w.Listed t top deps)
    (aims : t.Aims (baseSteps w.dir) top) (touched : Touched (top ++ way name) t t') :
    w.Listed t' top deps :=
  listed_of_touched listed aims touched

/-! ### Changes -/

-- What was done at the place of a package is followed by an entry for it in the manifest.
theorem Standing.change (standing : Standing w top t m) (package : PackageName name)
    {placed : Tree} (touched : Touched (top ++ way name) t placed) (tame : Tame top placed)
    {new : Option Installed}
    (put : ∀ i, new = some i → i.item.name = name ∧ i.item.Stored w placed)
    (sets : Shelf.Sets w name (new.map Installed.source) placed t') :
    Standing w top t' (Entries.change m name new) := by
  have aims := touched.aims (below_way top name) standing.aims
  have listed := listed_of_way standing.listed standing.aims touched
  obtain ⟨manifest, read, opened, closed⟩ := sets
  obtain ⟨touched', found⟩ := Workspace.set_ok aims (Entries.sorted_mapValues standing.sorted _)
    listed opened closed
  refine ⟨touched'.aims (Workspace.below_manifest top) aims, Entries.sorted_change standing.sorted _ _,
    ?_, ?_, tame_of_manifest tame touched'⟩
  · rw [Entries.mapValues_change]
    exact .inl found
  · intro other i there
    suffices stored : i.item.name = other ∧ PackageName other ∧ i.item.Stored w placed by
      obtain ⟨rfl, package', stored⟩ := stored
      exact ⟨rfl, package', stored.kept touched' (by simp) aims package'
        (manifest_apart_way i.item.name)⟩
    rcases Entries.get?_change_cases there with ⟨rfl, new⟩ | ⟨apart, old⟩
    · obtain ⟨named, stored⟩ := put i new
      exact ⟨named, package, stored⟩
    · obtain ⟨rfl, package', stored⟩ := standing.stored other i old
      exact ⟨rfl, package', stored.kept touched (by simp [way]) standing.aims package'
        (apart_way package package' apart)⟩

theorem Standing.put (standing : Standing w top t m) {i : Installed}
    (package : PackageName i.item.name) (clean : ∀ n ∈ i.item.nodes, '/' ∉ n.name.toList)
    (puts : Shelf.Puts w i.item i.source t t') :
    Standing w top t' (Entries.change m i.item.name (some i)) := by
  obtain ⟨placed, wrote, sets⟩ := puts
  obtain ⟨touched, stored⟩ := Item.writeTo_ok standing.aims package clean wrote
  have aims := touched.aims (below_way top i.item.name) standing.aims
  have settled := (stored.settled aims package).here
  have unblocked : Unblocked top i.item.name placed := fun node there =>
    Option.some.inj (there.symm.trans settled)
  refine standing.change package touched (tame_of_way standing.tame package touched unblocked) ?_ sets
  intro j same
  cases same
  exact ⟨rfl, stored⟩

theorem Standing.remove (standing : Standing w top t m) (package : PackageName name)
    {cleared : Tree} (removed : Shelf.removePackage w name t = (.ok (), cleared))
    (sets : Shelf.Sets w name none cleared t') :
    Standing w top t' (Entries.change m name none) := by
  have done : Touched (top ++ way name) t cleared ∧ Tame top cleared := by
    unfold Shelf.removePackage at removed
    simp only at removed
    split at removed
    · split at removed
      · cases removed
      · rename_i emptied gone
        cases removed
        obtain rfl := removed_eq standing.aims package gone
        exact ⟨touched_way t top name, tame_of_removed standing.tame name⟩
    · cases removed
      exact ⟨.refl _ _, standing.tame⟩
  exact standing.change package done.1 done.2 (fun _ impossible => by cases impossible) sets

/-! ### Loading -/

theorem Standing.load (standing : Standing w top t m) {i : Installed}
    (there : Entries.get? m name = some i) (some : i.item.nodes ≠ []) :
    load t (w.packageDir name) = .ok (i.item.declared, i.item.loaded) := by
  obtain ⟨rfl, -, stored⟩ := standing.stored name i there
  rw [Item.load_of_stored stored, if_neg (by simpa using some)]

theorem find_of_load {dir : String} {found : Manifest × Loaded} (done : load t dir = .ok found) :
    ∃ text, t.find (File.join dir "package.json") = .ok (.text text) := by
  unfold Package.load readManifest at done
  simp only at done
  split at done
  · cases done
  · rename_i text read
    exact ⟨text, File.Tree.read_eq_ok_iff.mp read⟩

theorem walk_of_load {dir : String} {found : Manifest × Loaded} (done : load t dir = .ok found) :
    ∃ goal text, t.walk [] (core (steps dir) ++ ["package.json"]) = .ok goal ∧
      t.at? goal = some (.text text) := by
  obtain ⟨text, read⟩ := find_of_load done
  obtain ⟨goal, located, there⟩ := File.Tree.find_eq_ok_iff.mp read
  have walked := File.Tree.walk_core (File.Tree.locate_ok located).2
  rw [File.steps_join relative_manifest, File.core_append, File.core_baseSteps] at walked
  exact ⟨goal, text, walked, there⟩

-- The path of a package passes the directory of the workspace.
theorem walk_from_top (aims : t.Aims (baseSteps w.dir) top) (relative : isAbsolute name = false)
    {rest : List String} {goal : Place}
    (walked : t.walk [] (core (steps (w.packageDir name)) ++ rest) = .ok goal) :
    t.walk top ("node_modules" :: core (steps name) ++ rest) = .ok goal := by
  have above : core (way name) = "node_modules" :: core (steps name) := rfl
  rw [steps_packageDir w relative, File.core_append, List.append_assoc, File.Tree.walk_append,
    above] at walked
  split at walked
  · cases walked
  · rename_i q first
    obtain rfl := aims.ends first
    exact walked

theorem not_load_empty (aims : t.Aims (baseSteps w.dir) top) (tame : Tame top t)
    (found : Manifest × Loaded) : Package.load t (w.packageDir "") ≠ .ok found := by
  intro done
  obtain ⟨goal, text, walked, there⟩ := walk_of_load done
  have single : "node_modules" :: core (steps "") ++ ["package.json"]
      = ["node_modules", "package.json"] := by decide
  have reached := walk_from_top aims (by decide) walked
  rw [single] at reached
  obtain rfl := File.Tree.walk_names (by decide) reached
  obtain ⟨other, package, ⟨-, directory⟩ | ⟨under, apart⟩⟩ := tame _ _ there
  · cases directory
  · refine apart (List.IsPrefix.eq_of_length_le under ?_).symm
    exact List.length_pos_iff.mpr (Text.pieces_ne_nil other)

-- A name with a version behind it leads to no package, so there is nothing where it leads.
theorem version_absent (aims : t.Aims (baseSteps w.dir) top) (tame : Tame top t)
    (package : PackageName name) {version : String} {rest : List String} {goal : Place}
    (walked : t.walk [] (core (steps (w.packageDir (name ++ "@" ++ version))) ++ rest) = .ok goal) :
    t.at? goal = none := by
  obtain ⟨front, last, more, whole, foreign, names⟩ := foreign_of_version package version
  have relative : isAbsolute (name ++ "@" ++ version) = false := by
    rw [String.append_assoc]
    exact package.relative_append _
  have vacant : t.at? (top ++ "node_modules" :: (front ++ [last])) = none := by
    cases there : t.at? (top ++ "node_modules" :: (front ++ [last])) with
    | none => rfl
    | some node =>
      obtain ⟨other, package', ⟨under, -⟩ | ⟨under, -⟩⟩ := tame _ _ there
      · exact absurd under (foreign other package').1
      · exact absurd under (foreign other package').2
  have named : ∀ x ∈ "node_modules" :: (front ++ [last]), Names x := by
    intro x member
    rcases List.mem_cons.mp member with rfl | there
    · decide
    · exact names x there
  have reached := walk_from_top aims relative walked
  rw [whole, File.core_append, File.core_of_names names, ← List.cons_append,
    List.append_assoc] at reached
  by_cases ends : core more ++ rest = []
  · rw [ends, List.append_nil] at reached
    rw [File.Tree.walk_names named reached, vacant]
  · have passed := File.Tree.walk_through named ends reached
    rw [vacant] at passed
    cases passed

theorem not_load_version (aims : t.Aims (baseSteps w.dir) top) (tame : Tame top t)
    (package : PackageName name) (version : String) (found : Manifest × Loaded) :
    Package.load t (w.packageDir (name ++ "@" ++ version)) ≠ .ok found := by
  intro done
  obtain ⟨goal, text, walked, there⟩ := walk_of_load done
  rw [version_absent aims tame package walked] at there
  cases there

theorem not_there_version (aims : t.Aims (baseSteps w.dir) top) (tame : Tame top t)
    (package : PackageName name) (version : String) :
    t.isThere (w.packageDir (name ++ "@" ++ version)) = false := by
  rw [Bool.eq_false_iff]
  intro there
  obtain ⟨node, found⟩ := Workspace.isThere_iff.mp there
  obtain ⟨goal, located, here⟩ := File.Tree.find_eq_ok_iff.mp found
  have walked := File.Tree.walk_core (File.Tree.locate_ok located).2
  rw [← List.append_nil (core _)] at walked
  rw [version_absent aims tame package walked] at here
  cases here

end

/-! ### Empty workspaces -/

-- Nothing lies in the directory of the workspace, which may be missing.
def Workspace.Vacant (w : Workspace) (t : Tree) : Prop :=
  ∃ place,
    ((t.walk [] (steps w.dir) = .ok place ∧ t.at? place = some .directory) ∨
      (".." ∉ steps w.dir ∧ place = core (steps w.dir))) ∧
    ∀ p, place <+: p → p ≠ place → t.at? p = none

theorem standing_of_vacant {w : Workspace} {t : Tree} (vacant : w.Vacant t) :
    ∃ top, Standing w top t [] := by
  obtain ⟨place, leads, empty⟩ := vacant
  have none (x : String) (xs : List String) : t.at? (place ++ x :: xs) = .none := by
    refine empty _ (List.prefix_append _ _) fun same => ?_
    exact List.cons_ne_nil _ _ (List.append_right_eq_self.mp same)
  refine ⟨place, ?_, .nil, .inr ⟨rfl, none _ _⟩, fun _ _ there => (by cases there), ?_⟩
  · rcases leads with ⟨walked, here⟩ | ⟨down, rfl⟩
    · have kept : t.Keeps (t.clear place) := by
        intro p solid
        have there := solid p (List.prefix_refl p)
        refine File.Tree.clear_at?_directory.mpr ⟨there, fun ⟨under, other⟩ => ?_⟩
        rw [empty p under other] at there
        cases there
      refine .inl ⟨kept.walk (File.Tree.reached_root _) ?_, here⟩
      rcases File.baseSteps_cases w.dir with same | longer
      · rw [← same]
        exact walked
      · rw [longer, File.Tree.walk_append] at walked
        split at walked
        · cases walked
        · rename_i q first
          exact first.trans (File.Tree.walk_step walked).2.2
    · refine .inr ⟨fun member => down ?_, (File.core_baseSteps w.dir).symm⟩
      rcases File.baseSteps_cases w.dir with same | longer
      · rw [same]
        exact member
      · rw [longer]
        exact List.mem_append_left _ member
  · intro q node there
    rw [none] at there
    cases there

end Flowgate.Package
