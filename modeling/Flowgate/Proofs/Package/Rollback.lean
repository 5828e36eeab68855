import Flowgate.Proofs.File.Presence
import Flowgate.Proofs.Package.Frame

/-!
What a failed installation leaves behind: nothing, if the package was not there before, no call of the
package manager is stopped for its time, and what the shelf has can be written. A package without
nodes is added and then taken away again, so one that was there before is lost.
-/

namespace Flowgate.Package

open File (Names Place Tree baseSteps core steps)
open File.Tree (Touched)

variable {w : Workspace} {top : Place} {t t' : Tree} {deps : Entries String} {name : String}
  {h h' : Host}

/-! ### Removals that are completed -/

-- Where there is a manifest, there is a directory for it.
theorem ensure_there {node : File.Node} (aims : t.Aims (baseSteps w.dir) top)
    (found : t.find w.manifestPath = .ok node) : w.ensure t = (.ok (), t) := by
  obtain ⟨goal, located, -⟩ := File.Tree.find_eq_ok_iff.mp found
  obtain ⟨rfl, first, second⟩ := aims.locate w.steps_manifestPath (by decide) located
  have here := (File.Tree.walk_step second).1
  have walked : t.walk [] (steps w.dir) = .ok top := by
    rcases File.baseSteps_cases w.dir with same | longer
    · rw [same, first]
    · rw [longer, File.Tree.walk_append, first]
      simp only [File.Tree.walk_cons, here]
      rfl
  have checked : w.dir ≠ "" → File.Tree.checkPath w.dir = .ok () := fun some =>
    File.Tree.checkPath_base relative_manifest some (File.Tree.locate_ok located).1
  have there : t.isThere w.manifestPath = true := Workspace.isThere_iff.mpr ⟨node, found⟩
  rw [Workspace.ensure, File.Tree.makeDirectories_there checked walked here]
  simp only [there, if_true]

theorem Grounded.setDependency_completes (grounded : Grounded w top h.files deps)
    (found : h.files.find w.manifestPath = .ok (.text (Workspace.manifestOf deps).pretty))
    (name : String) (source : Option String) :
    ∃ files, Shelf.Sets w name source h.files files ∧
      (Shelf.setDependency w name source).run h = (.ok (), { h with files }) := by
  have read : Shelf.readManifest w h.files = (.ok (Workspace.manifestOf deps), h.files) := by
    rw [Shelf.readManifest, ensure_there grounded.aims found]
    simp only [File.Tree.read_eq_ok_iff.mpr found, Workspace.parse?_manifestOf grounded.sorted]
  obtain ⟨files, wrote⟩ := File.Tree.write_there found
    (Workspace.manifestOf (Entries.change deps name source)).pretty
  have written : Shelf.writeManifest w
      (Shelf.withDependency (Workspace.manifestOf deps) name source) h.files = (.ok (), files) := by
    rw [Workspace.withDependency_manifestOf, Shelf.writeManifest]
    simp only [wrote]
  have opened : (onFiles (Shelf.readManifest w)).run h = (.ok (Workspace.manifestOf deps), h) := by
    rw [run_onFiles, read]
  refine ⟨files, ⟨_, _, read, written⟩, ?_⟩
  rw [Shelf.setDependency, run_andThen_ok opened, Shelf.run_pause, run_onFiles, written]

theorem packageDir_ne_empty (w : Workspace) (package : PackageName name) : w.packageDir name ≠ "" := by
  intro empty
  have whole := steps_packageDir w package.relative
  have single : steps "" = [""] := by decide
  rw [empty, single] at whole
  have among : "node_modules" ∈ [""] := by
    rw [whole]
    simp [way]
  exact absurd among (by decide)

-- The path of a package that lies in the workspace leads to its place.
theorem locate_of_manifest {node : File.Node} (aims : t.Aims (baseSteps w.dir) top)
    (package : PackageName name) (found : t.find (fileOf w name "package.json") = .ok node) :
    t.locate (w.packageDir name) = .ok (top ++ way name) := by
  obtain ⟨goal, located, -⟩ := File.Tree.find_eq_ok_iff.mp found
  have checked := File.Tree.checkPath_base relative_manifest (packageDir_ne_empty w package)
    (File.Tree.locate_ok located).1
  obtain ⟨base, onward, -⟩ := walks_of_manifest aims package found
  refine File.Tree.locate_of_walk checked ?_
  rw [steps_packageDir w package.relative, File.Tree.walk_append, base]
  exact onward

theorem Item.Stored.located {p : Item} (stored : p.Stored w t) (aims : t.Aims (baseSteps w.dir) top)
    (package : PackageName p.name) : t.locate (w.packageDir p.name) = .ok (top ++ way p.name) :=
  locate_of_manifest aims package stored.manifest

theorem Item.Stored.removePackage {p : Item} (stored : p.Stored w t)
    (aims : t.Aims (baseSteps w.dir) top) (package : PackageName p.name) :
    Shelf.removePackage w p.name t
      = (.ok (), (t.clear (top ++ way p.name)).prune (top ++ way p.name)) := by
  have located := stored.located aims package
  have here := (stored.settled aims package).here
  obtain ⟨front, last, ends, names⟩ := packageDir_ends w package
  have removed := File.Tree.removeDirectory_there (File.Tree.last_step ends names.1) names located here
  have there : t.isThere (w.packageDir p.name) = true :=
    Workspace.isThere_iff.mpr ⟨_, File.Tree.find_eq_ok_iff.mpr ⟨_, located, here⟩⟩
  unfold Shelf.removePackage
  simp only [there, if_true, removed]

-- Nothing is left at the place of a package that was removed, and it is not listed.
theorem Grounded.remove_completes (grounded : Grounded w top h.files deps) {p : Item}
    (package : PackageName p.name) (stored : p.Stored w h.files)
    (found : h.files.find w.manifestPath = .ok (.text (Workspace.manifestOf deps).pretty)) :
    ∃ files, (Shelf.remove w p.name).run h = (.ok (), { h with files }) ∧
      Grounded w top files (Entries.change deps p.name none) ∧
      ∀ q, top ++ way p.name <+: q → files.at? q = none := by
  have removed := stored.removePackage grounded.aims package
  have touched := touched_way h.files top p.name
  have absent := File.Tree.at?_removed h.files (show top ++ way p.name ≠ [] by simp [way])
  generalize (h.files.clear (top ++ way p.name)).prune (top ++ way p.name) = cleared
    at removed touched absent
  have reworked := reworked_removePackage grounded.aims package
  rw [removed] at reworked
  have grounded' := grounded.reworked package reworked
  obtain ⟨files, sets, ran⟩ := Grounded.setDependency_completes (h := { h with files := cleared })
    grounded' (find_manifest touched grounded.aims found) p.name none
  obtain ⟨grounded'', -, relisted⟩ :=
    grounded'.sets (fun impossible => absurd impossible (by simp)) sets
  refine ⟨files, ?_, grounded'', ?_⟩
  · have emptied : (onFiles (Shelf.removePackage w p.name)).run h
        = (.ok (), { h with files := cleared }) := by
      rw [run_onFiles, removed]
    rw [Shelf.remove, Shelf.run_pause, run_andThen_ok emptied, ran]
  · intro q under
    rw [at?_of_manifest relisted under, absent, if_pos under]

/-! ### Installations that fail -/

-- A package that is not listed, and nothing lies at its place.
structure Missing (w : Workspace) (name : String) (t : Tree) : Prop where
  unlisted : w.source? t name = none
  nothing : t.inside (w.packageDir name) = fun _ => none

-- The catalog, the dependencies and the files of all packages are as they were.
structure Traceless (w : Workspace) (a b : World) : Prop where
  catalog : b.catalog = a.catalog
  listed : w.dependencies b.host.files = w.dependencies a.host.files
  files : ∀ name, PackageName name →
    b.host.files.inside (w.packageDir name) = a.host.files.inside (w.packageDir name)

variable {s : Stock} {secs : Nat} {a b world : World}

theorem Traceless.refl (w : Workspace) (a : World) : Traceless w a a :=
  ⟨rfl, rfl, fun _ _ => rfl⟩

theorem Grounded.missing (grounded : Grounded w top t deps) (package : PackageName name)
    (unlisted : Entries.get? deps name = none)
    (gone : ∀ q, top ++ way name <+: q → t.at? q = none) : Missing w name t where
  unlisted := by rw [grounded.source?, unlisted]
  nothing := by
    funext rest
    cases found : t.inside (w.packageDir name) rest with
    | none => rfl
    | some node =>
      have there := (File.Tree.inside_eq_some grounded.aims (steps_packageDir w package.relative)
        (names_way package) found).2
      rw [gone _ (List.prefix_append _ _)] at there
      cases there

-- What is missing before and after has left no trace in between.
theorem traceless_of_missing (orderly : Orderly w top a) (shift : Shift w top (· ≠ name) a b)
    (catalog : b.catalog = a.catalog) (before : Missing w name a.host.files)
    (after : Missing w name b.host.files) : Traceless w a b := by
  obtain ⟨deps, grounded⟩ := orderly.grounded
  obtain ⟨deps', grounded', spares⟩ := shift.host.moved deps grounded
  refine ⟨catalog, ?_, fun other package => ?_⟩
  · have same : deps' = deps := by
      apply Entries.ext grounded'.sorted grounded.sorted
      intro key
      by_cases here : key = name
      · rw [here, ← grounded.source?, ← grounded'.source?, before.unlisted, after.unlisted]
      · exact spares.listed key here
    rw [grounded.dependencies, grounded'.dependencies, same]
  · by_cases here : other = name
    · rw [here, before.nothing, after.nothing]
    · exact grounded.inside_congr grounded' package (spares.files other package here)

namespace Registry

-- A package that was put into the workspace and cannot be loaded is missing in the end.
theorem settle_missing (grounded : Grounded w top world.host.files deps) (named : s.WellNamed)
    {p : Item} (among : p ∈ s.items) {source : String} {files : Tree}
    (puts : Shelf.Puts w p source world.host.files files)
    (unhurried : (ofShelf w secs).Unhurried world.host) {isLocal : Bool} {e : ModuleError}
    {next : World}
    (failed : (ofShelf w secs).settle p.name isLocal ((ofShelf w secs).removal p.name)
      { world with host := { world.host with files } } = (.error e, next)) :
    next.catalog = world.catalog ∧ Missing w p.name next.host.files := by
  have package := named.packages p among
  obtain ⟨grounded', stored, found⟩ := grounded.puts package (named.nodes p among) puts
  obtain ⟨files', ran, grounded'', gone⟩ := Grounded.remove_completes
    (h := { world.host with files }) grounded' package stored found
  have inTime : (ofShelf w secs).removal p.name { world.host with files }
      = ((Shelf.remove w p.name).run { world.host with files }).2 :=
    congrArg Prod.snd (Unhurried.call (h := { world.host with files }) unhurried
      (Shelf.time_remove w p.name { world.host with files }))
  unfold settle at failed
  split at failed
  · cases failed
  · cases failed
    rw [inTime, ran]
    refine ⟨rfl, grounded''.missing package ?_ gone⟩
    rw [Entries.get?_change, if_pos rfl]

theorem settle_traceless (orderly : Orderly w top world) (named : s.WellNamed) {p : Item}
    (among : p ∈ s.items) {source : String} {files : Tree}
    (puts : Shelf.Puts w p source world.host.files files)
    (unhurried : (ofShelf w secs).Unhurried world.host) (missing : Missing w p.name world.host.files)
    {isLocal : Bool} {outcome : Outcome Schema × World}
    (settled : (ofShelf w secs).settle p.name isLocal ((ofShelf w secs).removal p.name)
      { world with host := { world.host with files } } = outcome)
    (shift : Shift w top (· ≠ p.name) world outcome.2) {e : ModuleError}
    (failed : outcome.1 = .error e) : Traceless w world outcome.2 := by
  obtain ⟨result, next⟩ := outcome
  obtain rfl : result = .error e := failed
  obtain ⟨deps, grounded⟩ := orderly.grounded
  obtain ⟨catalog, after⟩ := settle_missing grounded named among puts unhurried settled
  exact traceless_of_missing orderly shift catalog missing after

theorem install_traceless (orderly : Orderly w top world)
    (unhurried : (ofShelf w secs).Unhurried world.host) (unversioned : Unversioned name)
    (missing : Missing w name world.host.files) {version : Option String}
    (writes : ∀ p, world.host.shelf.resolve (installSpec name version) = .ok p →
      ((Shelf.add w (installSpec name version)).run world.host).1 = .ok ())
    {e : ModuleError} (failed : (((ofShelf w secs).install name version).run world).1 = .error e) :
    Traceless w world (((ofShelf w secs).install name version).run world).2 := by
  obtain ⟨s, named, shelf⟩ := orderly.stocked
  obtain ⟨deps, grounded⟩ := orderly.grounded
  have shift : Shift w top (· ≠ name) world (((ofShelf w secs).install name version).run world).2 :=
    shift_install grounded named shelf unversioned version
  have inTime : (ofShelf w secs).call ("installing '" ++ installSpec name version ++ "'")
      ((ofShelf w secs).manager.add (installSpec name version)) world.host
      = (Shelf.add w (installSpec name version)).run world.host :=
    unhurried.call (Shelf.time_add w (installSpec name version) world.host)
  generalize ran : ((ofShelf w secs).install name version).run world = outcome at failed shift ⊢
  rw [install_run, adding, inTime] at ran
  cases resolved : world.host.shelf.resolve (installSpec name version) with
  | error fault =>
    rw [Shelf.add, Shelf.run_pause, Shelf.run_find_error resolved] at ran
    rw [← ran]
    exact .refl w world
  | ok p =>
    have added : (Shelf.add w (installSpec name version)).run world.host = (.ok (), _) :=
      Prod.ext (writes p resolved) rfl
    obtain ⟨p, files, resolved, puts, host⟩ := Shelf.run_add added
    rw [shelf] at resolved
    obtain rfl := Stock.name_of_installSpec named unversioned resolved
    rw [added, host] at ran
    exact settle_traceless orderly named (Stock.mem_of_resolve resolved) puts unhurried missing ran
      shift failed

theorem installArchive_traceless (orderly : Orderly w top world)
    (unhurried : (ofShelf w secs).Unhurried world.host) {path : String}
    (missing : ∀ p, world.host.shelf.findArchive path = .ok p → Missing w p.name world.host.files)
    (writes : ∀ p, world.host.shelf.findArchive path = .ok p →
      ((Shelf.addArchive w path).run world.host).1 = .ok p.name)
    {e : ModuleError} (failed : (((ofShelf w secs).installArchive path).run world).1 = .error e) :
    Traceless w world (((ofShelf w secs).installArchive path).run world).2 := by
  obtain ⟨s, named, shelf⟩ := orderly.stocked
  obtain ⟨deps, grounded⟩ := orderly.grounded
  have inTime : (ofShelf w secs).call ("installing '" ++ path ++ "'")
      ((ofShelf w secs).manager.addArchive path) world.host
      = (Shelf.addArchive w path).run world.host :=
    unhurried.call (Shelf.time_addArchive w path world.host)
  have shift {kind : String → Prop} (others : ∀ p, s.archive? path = some p → ¬kind p.name) :
      Shift w top kind world (((ofShelf w secs).installArchive path).run world).2 :=
    shift_installArchive grounded named shelf path others
  generalize ran : ((ofShelf w secs).installArchive path).run world = outcome at failed shift ⊢
  rw [installArchive_run, inTime] at ran
  cases found : world.host.shelf.findArchive path with
  | error fault =>
    rw [Shelf.addArchive, Shelf.run_pause, Shelf.run_find_error found] at ran
    rw [← ran]
    exact .refl w world
  | ok p =>
    have stored := Stock.archive?_of_findArchive (shelf ▸ found)
    have added : (Shelf.addArchive w path).run world.host = (.ok p.name, _) :=
      Prod.ext (writes p found) rfl
    obtain ⟨p', files, found', -, puts, host⟩ := Shelf.run_addArchive added
    rw [found] at found'
    cases found'
    rw [added, host] at ran
    refine settle_traceless orderly named (Stock.mem_of_archive? stored) puts unhurried
      (missing p found) ran (shift fun other same => ?_) failed
    rw [stored] at same
    rw [not_not, Option.some.inj same]

theorem no_trace (reached : Reached w world) (unhurried : (ofShelf w secs).Unhurried world.host) :
    (∀ name version e, Unversioned name → Missing w name world.host.files →
      (∀ p, world.host.shelf.resolve (installSpec name version) = .ok p →
        ((Shelf.add w (installSpec name version)).run world.host).1 = .ok ()) →
      (((ofShelf w secs).install name version).run world).1 = .error e →
      Traceless w world (((ofShelf w secs).install name version).run world).2) ∧
    ∀ path e, (∀ p, world.host.shelf.findArchive path = .ok p →
        Missing w p.name world.host.files ∧
          ((Shelf.addArchive w path).run world.host).1 = .ok p.name) →
      (((ofShelf w secs).installArchive path).run world).1 = .error e →
      Traceless w world (((ofShelf w secs).installArchive path).run world).2 := by
  obtain ⟨top, orderly⟩ := reached.orderly
  refine ⟨fun name version e unversioned missing writes failed => ?_, fun path e fits failed => ?_⟩
  · exact install_traceless orderly unhurried unversioned missing writes failed
  · exact installArchive_traceless orderly unhurried (fun p found => (fits p found).1)
      (fun p found => (fits p found).2) failed

end Registry

/-! ### A version without nodes -/

def blank (name version : String) : Item where
  name := name
  version := version
  nodes := []

def drafts : Stock where
  published := [release "a" "1.0.0", blank "a" "2.0.0"]
  archives := [("b.tgz", blank "b" "1.0.0")]
  delay := none

theorem wellNamed_drafts : drafts.WellNamed where
  packages p member :=
    .bare ((by decide : ∀ p ∈ drafts.items, Plain p.name) p member)
      ((by decide : ∀ p ∈ drafts.items, File.Names p.name) p member)
  nodes := by decide

namespace Registry

theorem missing_draft : Missing { dir := "m" } "a" drafts.world.host.files ∧
    Missing { dir := "m" } "b" drafts.world.host.files :=
  ⟨⟨rfl, by funext rest; rfl⟩, ⟨rfl, by funext rest; rfl⟩⟩

theorem no_trace_draft :
    Reached { dir := "m" } drafts.world ∧ (ofShelf { dir := "m" } 5).Unhurried drafts.world.host ∧
      Traceless { dir := "m" } drafts.world
        (((ofShelf { dir := "m" } 5).install "a" none).run drafts.world).2 ∧
      Traceless { dir := "m" } drafts.world
        (((ofShelf { dir := "m" } 5).installArchive "b.tgz").run drafts.world).2 := by
  have unhurried : (ofShelf { dir := "m" } 5).Unhurried drafts.world.host :=
    (by decide : (0 : Nat) ≤ 5000)
  have ran :
      (((Shelf.add { dir := "m" } "a").run drafts.world.host).1.toOption,
        ((Shelf.addArchive { dir := "m" } "b.tgz").run drafts.world.host).1.toOption,
        (((ofShelf { dir := "m" } 5).install "a" none).run drafts.world).1.isOk,
        (((ofShelf { dir := "m" } 5).installArchive "b.tgz").run drafts.world).1.isOk)
      = (some (), some "b", false, false) := by
    decide +kernel
  obtain ⟨added, stored, failed, failed'⟩ := by simpa only [Prod.mk.injEq] using ran
  obtain ⟨e, failed⟩ := exists_error failed
  obtain ⟨e', failed'⟩ := exists_error failed'
  obtain ⟨install, installArchive⟩ := no_trace wellNamed_drafts.reached unhurried
  refine ⟨wellNamed_drafts.reached, unhurried, ?_, ?_⟩
  · exact install "a" none e ⟨by decide, by decide⟩ missing_draft.1
      (fun _ _ => ok_of_toOption added) failed
  · refine installArchive "b.tgz" e' (fun p found => ?_) failed'
    cases found
    exact ⟨missing_draft.2, ok_of_toOption stored⟩

def withDraft : World := (ofShelf { dir := "m" } 5).after drafts.world (.install "a" (some "1.0.0"))

-- A version that cannot be loaded takes the place of another one, and both are gone.
theorem trace_of_update :
    Reached { dir := "m" } withDraft ∧
      (∃ e, (((ofShelf { dir := "m" } 5).install "a" none).run withDraft).1 = .error e) ∧
      ¬Traceless { dir := "m" } withDraft
        (((ofShelf { dir := "m" } 5).install "a" none).run withDraft).2 := by
  have ran :
      (Workspace.source? { dir := "m" } withDraft.host.files "a",
        (((ofShelf { dir := "m" } 5).install "a" none).run withDraft).1.isOk,
        Workspace.source? { dir := "m" }
          (((ofShelf { dir := "m" } 5).install "a" none).run withDraft).2.host.files "a")
      = (some "^1.0.0", false, none) := by
    decide +kernel
  obtain ⟨before, rest⟩ := Prod.mk.inj ran
  obtain ⟨failed, after⟩ := Prod.mk.inj rest
  refine ⟨.call wellNamed_drafts.reached 5 _, exists_error failed, fun traceless => ?_⟩
  rw [Workspace.source?, traceless.listed] at after
  rw [Workspace.source?, after] at before
  cases before

end Registry

end Flowgate.Package
