import Flowgate.Proofs.Package.Placement

/-!
The dependency manifest of a workspace: it lists packages with their sources, none as long as it is
missing, and what a package manager changes in it is the entry of one package.
-/

namespace Flowgate.Package.Workspace

open File (Names Place Tree baseSteps core join steps)
open File.Tree (Aims Below Touched)

variable {w : Workspace} {t t' : Tree} {top : Place} {deps : Entries String}

theorem steps_manifestPath (w : Workspace) :
    steps w.manifestPath = baseSteps w.dir ++ ["package.json"] := by
  rw [manifestPath, File.steps_join relative_manifest, steps_manifest]

-- The manifest lists the packages; a missing one lists none.
def Listed (w : Workspace) (t : Tree) (top : Place) (deps : Entries String) : Prop :=
  t.find w.manifestPath = .ok (.text (manifestOf deps).pretty) ∨
  (deps = [] ∧ t.at? (top ++ ["package.json"]) = none)

theorem below_manifest (top : Place) : Below top (top ++ ["package.json"]) := by
  refine ⟨List.prefix_append _ _, fun same => ?_⟩
  exact List.cons_ne_nil _ _ (List.append_right_eq_self.mp same)

theorem find_of_absent (aims : t.Aims (baseSteps w.dir) top)
    (absent : t.at? (top ++ ["package.json"]) = none) (node : File.Node) :
    t.find w.manifestPath ≠ .ok node := by
  intro found
  obtain ⟨goal, located, there⟩ := File.Tree.find_eq_ok_iff.mp found
  obtain ⟨rfl, -, -⟩ := aims.locate w.steps_manifestPath (by decide) located
  rw [absent] at there
  cases there

theorem isThere_iff {path : String} : t.isThere path = true ↔ ∃ node, t.find path = .ok node := by
  unfold Tree.isThere
  cases t.find path with
  | error fault => simp [Except.toOption]
  | ok node => simp [Except.toOption]

theorem dependencies_of_listed (aims : t.Aims (baseSteps w.dir) top)
    (sorted : Entries.Sorted deps) (listed : w.Listed t top deps) :
    w.dependencies t = .ok deps := by
  unfold dependencies
  rcases listed with found | ⟨rfl, absent⟩
  · have there : t.isThere w.manifestPath = true := isThere_iff.mpr ⟨_, found⟩
    simp only [there, File.Tree.read_eq_ok_iff.mpr found, parse?_manifestOf sorted,
      dependenciesOf_manifestOf]
    rfl
  · have missing : t.isThere w.manifestPath = false := by
      rw [Bool.eq_false_iff]
      intro there
      obtain ⟨node, found⟩ := isThere_iff.mp there
      exact find_of_absent aims absent node found
    rw [missing]
    rfl

-- Making the directory of the workspace makes no manifest.
theorem listed_makeDirectories (aims : t.Aims (baseSteps w.dir) top) (listed : w.Listed t top deps) :
    Touched (top ++ ["package.json"]) t (t.makeDirectories w.dir).2 ∧
      w.Listed (t.makeDirectories w.dir).2 top deps := by
  have grown := File.Tree.along_makeDirectories t w.dir
  have above : core (steps w.dir) <+: core (baseSteps w.dir) ++ [] := by
    rw [File.core_baseSteps]
    exact List.prefix_append _ _
  have within : core (steps w.dir) <+: core (baseSteps w.dir) ++ ["package.json"] :=
    above.trans ((List.prefix_append_right_inj _).mpr List.nil_prefix)
  refine ⟨aims.touched_makeDirectories (by decide) within (.inl (List.prefix_refl _)), ?_⟩
  rcases listed with found | ⟨empty, absent⟩
  · exact .inl (grown.grown.find found)
  · refine .inr ⟨empty, ?_⟩
    cases new : (t.makeDirectories w.dir).2.at? (top ++ ["package.json"]) with
    | none => rfl
    | some node =>
      rcases aims.onWay (by decide) above grown new with old | ⟨onWay, -⟩
      · rw [absent] at old
        cases old
      · rw [List.append_nil] at onWay
        exact absurd onWay.length_le (by simp)

theorem touched_manifest (aims : t.Aims (baseSteps w.dir) top) {content : String}
    (wrote : t.write w.manifestPath content = .ok t') :
    Touched (top ++ ["package.json"]) t t' :=
  aims.touched_write w.steps_manifestPath (by decide) (List.prefix_refl _) wrote

-- A manifest is made only where nothing is listed.
theorem find_fresh (listed : w.Listed t top deps) (missing : ¬t.isThere w.manifestPath = true)
    (wrote : t.write w.manifestPath freshManifest.pretty = .ok t') :
    t'.find w.manifestPath = .ok (.text (manifestOf deps).pretty) := by
  rw [File.Tree.find_write wrote]
  rcases listed with found | ⟨rfl, -⟩
  · exact absurd (isThere_iff.mpr ⟨_, found⟩) missing
  · rw [freshManifest_eq]

theorem listed_ensure (aims : t.Aims (baseSteps w.dir) top) (listed : w.Listed t top deps) :
    Touched (top ++ ["package.json"]) t (w.ensure t).2 ∧ w.Listed (w.ensure t).2 top deps := by
  obtain ⟨touched, listed'⟩ := listed_makeDirectories aims listed
  have aims' := touched.aims (below_manifest top) aims
  unfold ensure
  split
  · rename_i dirs
    rw [dirs] at touched listed'
    exact ⟨touched, listed'⟩
  · rename_i made dirs
    rw [dirs] at touched listed' aims'
    split
    · exact ⟨touched, listed'⟩
    · rename_i missing
      split
      · exact ⟨touched, listed'⟩
      · rename_i next wrote
        exact ⟨touched.trans (touched_manifest aims' wrote), .inl (find_fresh listed' missing wrote)⟩

theorem ensure_ok (aims : t.Aims (baseSteps w.dir) top) (listed : w.Listed t top deps)
    (done : w.ensure t = (.ok (), t')) :
    Touched (top ++ ["package.json"]) t t' ∧
      t'.find w.manifestPath = .ok (.text (manifestOf deps).pretty) := by
  obtain ⟨touched, listed'⟩ := listed_ensure aims listed
  rw [done] at touched listed'
  refine ⟨touched, listed'.resolve_right fun ⟨_, absent⟩ => ?_⟩
  have aims' := touched.aims (below_manifest top) aims
  have there : ∃ node, t'.find w.manifestPath = .ok node := by
    unfold ensure at done
    split at done
    · cases done
    · split at done
      · cases done
        exact isThere_iff.mp ‹_›
      · split at done
        · cases done
        · cases done
          exact ⟨_, File.Tree.find_write ‹_›⟩
  obtain ⟨node, found⟩ := there
  exact find_of_absent aims' absent node found

theorem writeManifest_ok {manifest : Attempt Json.Value}
    (closed : Shelf.writeManifest w manifest t = (.ok (), t')) :
    ∃ v, manifest = .ok v ∧ t.write w.manifestPath v.pretty = .ok t' := by
  unfold Shelf.writeManifest at closed
  split at closed
  · cases closed
  · split at closed
    · cases closed
    · cases closed
      exact ⟨_, rfl, ‹_›⟩

theorem set_ok {manifest : Json.Value} {name : String} {source : Option String} {read : Tree}
    (aims : t.Aims (baseSteps w.dir) top) (sorted : Entries.Sorted deps)
    (listed : w.Listed t top deps) (opened : Shelf.readManifest w t = (.ok manifest, read))
    (closed : Shelf.writeManifest w (Shelf.withDependency manifest name source) read
      = (.ok (), t')) :
    Touched (top ++ ["package.json"]) t t' ∧
      t'.find w.manifestPath = .ok (.text (manifestOf (Entries.change deps name source)).pretty) := by
  unfold Shelf.readManifest at opened
  split at opened
  · cases opened
  · rename_i ready ensured
    obtain ⟨touched, found⟩ := ensure_ok aims listed ensured
    rw [File.Tree.read_eq_ok_iff.mpr found] at opened
    simp only [parse?_manifestOf sorted] at opened
    cases opened
    rw [withDependency_manifestOf] at closed
    obtain ⟨v, same, wrote⟩ := writeManifest_ok closed
    cases same
    have aims' := touched.aims (below_manifest top) aims
    exact ⟨touched.trans (touched_manifest aims' wrote), File.Tree.find_write wrote⟩

end Flowgate.Package.Workspace
