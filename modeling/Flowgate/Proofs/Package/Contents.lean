import Flowgate.Proofs.Package.Rollback

/-!
What lies in the directory of a package. A package that was written replaces all that was there, so its
directory holds its manifest and its scripts and nothing else.
-/

namespace Flowgate.Package

open File (Names Node Place Tree baseSteps core isAbsolute join steps)
open File.Tree (Aims Touched)

/-! ### Contents -/

-- The files of a package with one script more.
def withScript (held : Place → Option Node) (pair : String × String) (rest : Place) : Option Node :=
  if rest = ["nodes"] then some .directory
  else if rest = ["nodes", pair.1 ++ ".lua"] then some (.text pair.2)
  else held rest

namespace Item

def manifestOnly (p : Item) (rest : Place) : Option Node :=
  if rest = [] then some .directory
  else if rest = ["package.json"] then some (.text p.manifest.pretty)
  else none

-- What a package consists of, by the places in its directory.
def content (p : Item) : Place → Option Node := p.scriptPairs.foldl withScript p.manifestOnly

end Item

variable {w : Workspace} {t t' made : Tree} {top : Place} {name : String}

-- What is at the place of a package and below it.
def Holds (top : Place) (name : String) (t : Tree) (held : Place → Option Node) : Prop :=
  ∀ rest, t.at? (top ++ way name ++ rest) = held rest

theorem withScript_root {held : Place → Option Node} (root : held [] = some .directory)
    (pair : String × String) : withScript held pair [] = some .directory := by
  simp [withScript, root]

/-! ### One file -/

theorem prefix_single {xs : List α} {a : α} (under : xs <+: [a]) : xs = [] ∨ xs = [a] := by
  rcases List.prefix_cons_iff.mp under with none | ⟨more, rfl, rest⟩
  · exact .inl none
  · rw [List.prefix_nil.mp rest]
    exact .inr rfl

theorem prefix_pair {xs : List α} {a b : α} (under : xs <+: [a, b]) :
    xs = [] ∨ xs = [a] ∨ xs = [a, b] := by
  rcases List.prefix_cons_iff.mp under with none | ⟨more, rfl, rest⟩
  · exact .inl none
  · rcases prefix_single rest with rfl | rfl
    · exact .inr (.inl rfl)
    · exact .inr (.inr rfl)

theorem at?_eq_of_grown {steps : List String} (along : t.GrownAlong steps made) {p : Place}
    (old : ∀ node, made.at? p = some node → t.at? p = some node) : made.at? p = t.at? p := by
  cases there : made.at? p with
  | some node => exact (old node there).symm
  | none =>
    cases before : t.at? p with
    | none => rfl
    | some node =>
      have kept := along.grown.at?_some before
      rw [there] at kept
      cases kept

-- Directories that are made for a file of a package lie on the way to it.
theorem at?_made (aims : t.Aims (baseSteps w.dir) top) (package : PackageName name) {path dir : String}
    (relative : isAbsolute path = false) (names : ∀ x ∈ steps path, Names x)
    (leads : core (steps dir) <+: core (steps (fileOf w name path)))
    (dirs : t.makeDirectories dir = (.ok (), made)) {rest : List String}
    (off : t.at? (top ++ way name ++ rest) = some .directory ∨ ¬rest <+: steps path) :
    made.at? (top ++ way name ++ rest) = t.at? (top ++ way name ++ rest) := by
  have along := File.Tree.along_makeDirectories t dir
  rw [dirs] at along
  rcases off with there | off
  · rw [there, along.grown.at?_some there]
  · apply at?_eq_of_grown along
    intro node found
    rw [core_fileOf package relative names] at leads
    have grown : t.GrownAlong (core (baseSteps w.dir) ++ (way name ++ steps path)) made := by
      apply along.mono
      exact leads
    rcases aims.onWay (names_inPackage package names) (List.prefix_refl _) grown found with
      old | ⟨onWay, -⟩
    · exact old
    · rw [← List.append_assoc] at onWay
      exact absurd ((List.prefix_append_right_inj _).mp onWay) off

-- A file that was written lies in directories.
theorem at?_written (aims : made.Aims (baseSteps w.dir) top) (package : PackageName name)
    {path content : String} (relative : isAbsolute path = false) (names : ∀ x ∈ steps path, Names x)
    (done : made.write (fileOf w name path) content = .ok t') (rest : List String) :
    t'.at? (top ++ way name ++ rest)
        = (if rest = steps path then some (.text content) else made.at? (top ++ way name ++ rest)) ∧
      (rest <+: steps path → rest ≠ steps path →
        made.at? (top ++ way name ++ rest) = some .directory) := by
  obtain ⟨goal, located, other, rfl⟩ := File.Tree.write_ok done
  obtain ⟨rfl, -, walked⟩ := aims.locate (steps_inPackage w package relative)
    (names_inPackage package names) located
  constructor
  · rw [File.Tree.at?_set _ (File.Tree.ne_nil_of_at? other), ← List.append_assoc]
    simp only [List.append_cancel_left_eq]
  · rintro ⟨more, whole⟩ short
    have some : more ≠ [] := by
      rintro rfl
      exact short (by rw [← whole, List.append_nil])
    rw [← whole, ← List.append_assoc] at walked
    have through : made.at? (top ++ (way name ++ rest)) = .some .directory := by
      refine File.Tree.walk_through (fun x member => ?_) some walked
      rcases List.mem_append.mp member with inWay | inPath
      · exact names_way package x inWay
      · exact names x (whole ▸ List.mem_append_left _ inPath)
    rwa [← List.append_assoc] at through

theorem holds_script {held : Place → Option Node} (aims : t.Aims (baseSteps w.dir) top)
    (package : PackageName name) (holds : Holds top name t held) (root : held [] = some .directory)
    {pair : String × String} (clean : '/' ∉ pair.1.toList)
    (dirs : t.makeDirectories ((File.parent? (fileOf w name (scriptFile pair.1))).getD "")
      = (.ok (), made))
    (done : made.write (fileOf w name (scriptFile pair.1)) pair.2 = .ok t') :
    Holds top name t' (withScript held pair) := by
  intro rest
  have split := steps_scriptFile clean
  have leads := File.core_parent_leads (fileOf w name (scriptFile pair.1))
  have relative := relative_scriptFile pair.1
  have names := names_scriptFile clean
  have aims' : made.Aims (baseSteps w.dir) top := by
    have along := File.Tree.along_makeDirectories t
      ((File.parent? (fileOf w name (scriptFile pair.1))).getD "")
    rw [dirs] at along
    exact aims.keeps fun p _ there => along.grown.at?_some there
  obtain ⟨written, passed⟩ := at?_written aims' package relative names done rest
  rw [split] at written passed
  rw [written, withScript]
  by_cases last : rest = ["nodes", pair.1 ++ ".lua"]
  · rw [if_pos last, if_pos last, if_neg]
    rw [last]
    simp
  · rw [if_neg last, if_neg last]
    by_cases middle : rest = ["nodes"]
    · rw [if_pos middle]
      apply passed
      · rw [middle]
        exact ⟨[pair.1 ++ ".lua"], rfl⟩
      · exact last
    · rw [if_neg middle, ← holds rest]
      apply at?_made aims package relative names leads dirs
      rw [split]
      by_cases first : rest = []
      · refine .inl ?_
        rw [holds rest, first, root]
      · refine .inr fun under => ?_
        rcases prefix_pair under with none | one | whole
        · exact first none
        · exact middle one
        · exact last whole

/-! ### A package -/

-- The induction is on the files that are left.
theorem holds_writeFiles {held : Place → Option Node} (aims : t.Aims (baseSteps w.dir) top)
    (package : PackageName name) (holds : Holds top name t held) (root : held [] = some .directory)
    {pairs : List (String × String)} (clean : ∀ pair ∈ pairs, '/' ∉ pair.1.toList)
    (done : Item.writeFiles (w.packageDir name)
      (pairs.map fun pair => (scriptFile pair.1, pair.2)) t = (.ok (), t')) :
    Holds top name t' (pairs.foldl withScript held) := by
  induction pairs generalizing t held with
  | nil =>
    rw [List.map_nil, writeFiles_nil] at done
    obtain rfl := (Prod.mk.inj done).2
    exact holds
  | cons pair pairs ih =>
    have here := clean _ List.mem_cons_self
    have reworked := reworked_directories aims package (relative_scriptFile pair.1)
      (names_scriptFile here) (File.core_parent_leads (fileOf w name (scriptFile pair.1)))
    rw [List.map_cons, writeFiles_cons] at done
    split at done
    · cases done
    · rename_i made dirs
      split at done
      · cases done
      · rename_i next done'
        have dirs' := dirs
        rw [← fileOf] at dirs'
        rw [dirs'] at reworked
        have written := reworked_write (reworked.aims aims) package (relative_scriptFile pair.1)
          (names_scriptFile here) done'
        apply ih (written.aims (reworked.aims aims))
        · exact holds_script aims package holds root here dirs' done'
        · exact withScript_root root pair
        · exact fun pair member => clean pair (List.mem_cons_of_mem _ member)
        · exact done

namespace Item

variable {p : Item}

theorem holds_writeFresh (aims : t.Aims (baseSteps w.dir) top) (package : PackageName p.name)
    (clean : ∀ n ∈ p.nodes, '/' ∉ n.name.toList) (empty : Holds top p.name t fun _ => none)
    (done : p.writeFresh (w.packageDir p.name) t = (.ok (), t')) : Holds top p.name t' p.content := by
  have leads := packageDir_leads w package relative_manifest names_manifest
  have reworked := reworked_directories aims package relative_manifest names_manifest leads
  unfold writeFresh at done
  split at done
  · cases done
  · rename_i made dirs
    rw [dirs] at reworked
    split at done
    · cases done
    · rename_i next done'
      have written := reworked_write (reworked.aims aims) package relative_manifest names_manifest done'
      rw [files_eq] at done
      refine holds_writeFiles (written.aims (reworked.aims aims)) package ?_ rfl
        (clean_scriptPairs clean) done
      intro rest
      obtain ⟨set, passed⟩ := at?_written (reworked.aims aims) package relative_manifest
        names_manifest done' rest
      rw [steps_manifest] at set passed
      rw [set, manifestOnly]
      by_cases first : rest = []
      · subst first
        rw [if_neg (by simp), if_pos rfl]
        exact passed List.nil_prefix (by simp)
      · rw [if_neg first]
        by_cases last : rest = ["package.json"]
        · rw [if_pos last, if_pos last]
        · rw [if_neg last, if_neg last]
          refine (at?_made aims package relative_manifest names_manifest leads dirs
            (.inr fun under => ?_)).trans (empty rest)
          rw [steps_manifest] at under
          rcases prefix_single under with none | whole
          · exact first none
          · exact last whole

-- Where a path leads nowhere, nothing lies at its place, if it leads there at all.
theorem holds_nothing (aims : t.Aims (baseSteps w.dir) top) (sound : t.Sound)
    (package : PackageName name) {other : Tree} (aims' : other.Aims (baseSteps w.dir) top)
    {goal : Place} (located : other.locate (w.packageDir name) = .ok goal)
    (absent : t.isThere (w.packageDir name) = false) : Holds top name t fun _ => none := by
  intro rest
  cases found : t.at? (top ++ way name ++ rest) with
  | none => rfl
  | some node =>
    have reached : t.Reached (top ++ way name) := by
      intro q under apart
      apply sound _ node found q (under.trans (List.prefix_append _ _))
      rintro rfl
      exact apart (under.eq_of_length_le (by simp))
    have there : ∃ node, t.at? (top ++ way name) = some node := by
      by_cases last : rest = []
      · subst last
        rw [List.append_nil] at found
        exact ⟨node, found⟩
      · refine ⟨.directory, sound _ node found _ (List.prefix_append _ _) fun same => last ?_⟩
        exact List.append_right_eq_self.mp same.symm
    obtain ⟨node', here⟩ := there
    have leads := aims'.locate_reached aims (steps_packageDir w package.relative) (names_way package)
      (List.cons_ne_nil _ _) located reached
    rw [Workspace.isThere_iff.mpr ⟨node', File.Tree.find_eq_ok_iff.mpr ⟨_, leads, here⟩⟩] at absent
    cases absent

theorem holds_writeTo (aims : t.Aims (baseSteps w.dir) top) (sound : t.Sound)
    (package : PackageName p.name) (clean : ∀ n ∈ p.nodes, '/' ∉ n.name.toList)
    (done : p.writeTo w t = (.ok (), t')) : Holds top p.name t' p.content := by
  have finished := done
  unfold writeTo at done
  simp only at done
  split at done
  · split at done
    · cases done
    · rename_i emptied removed
      obtain rfl := removed_eq aims package removed
      have aims' := (touched_way t top p.name).aims (below_way top p.name) aims
      refine holds_writeFresh aims' package clean (fun rest => ?_) done
      rw [File.Tree.at?_removed t (by simp [way]), if_pos (List.prefix_append _ _)]
  · rename_i absent
    obtain ⟨touched, stored⟩ := writeTo_ok aims package clean finished
    have aims' := touched.aims (below_way top p.name) aims
    refine holds_writeFresh aims package clean ?_ done
    exact holds_nothing aims sound package aims' (stored.located aims' package) (by simpa using absent)

end Item

end Flowgate.Package
