import Flowgate.Proofs.Package.Runs

/-!
The states that a registry over the shelf can reach, whether its operations succeed, fail or are
stopped: in each of them the workspace is in order, and the index of the catalog goes by the names.
-/

namespace Flowgate.Package

open File (Place Tree)
open Flowgate.Task (Moves)

variable {w : Workspace} {top : Place} {kind : String → Prop} {world : World} {secs : Nat}
  {name : String} {s : Stock}

/-! ### What an operation can change -/

-- The workspace stays in order, packages of a kind are left alone, and what is recorded is not one.
structure Shift (w : Workspace) (top : Place) (kind : String → Prop) (a b : World) : Prop where
  host : Step w top kind a.host b.host
  catalog : b.catalog = a.catalog ∨
    ∃ s, s.id = .module s.name ∧ ¬kind s.name ∧ b.catalog = a.catalog.insert s

theorem shift_of_host {host : Host} (step : Step w top kind world.host host) :
    Shift w top kind world { world with host } := ⟨step, .inl rfl⟩

theorem Shift.after {host : Host} {next : World} (step : Step w top kind world.host host)
    (shift : Shift w top kind { world with host } next) : Shift w top kind world next :=
  ⟨step.trans shift.host, shift.catalog⟩

namespace Registry

theorem id_of_loadSchema {r : Registry} {files : Tree} {isLocal : Bool} {schema : Schema}
    (done : r.loadSchema files name isLocal = .ok schema) : schema.id = .module schema.name := by
  unfold loadSchema at done
  split at done
  · cases done
  · cases done
    rfl

-- Whether a call is stopped or not, it moves along.
theorem step_call (r : Registry) (what : String) {t : Job Host (Attempt α)} {h : Host}
    (moves : Moves (Step w top kind) t h) : Step w top kind h (r.call what t h).2 :=
  moves.within _ _

theorem run_of_call {r : Registry} {what : String} {t : Job Host (Attempt α)} {h h' : Host} {a : α}
    (done : r.call what t h = (.ok a, h')) : t.run h = (.ok a, h') :=
  run_within_ok (fun _ same => by cases same) done

theorem shift_settle (r : Registry) {isLocal : Bool} {giveUp : Host → Host}
    (gives : Step w top kind world.host (giveUp world.host))
    (loads : ∀ schema, r.loadSchema world.host.files name isLocal = .ok schema → ¬kind schema.name) :
    Shift w top kind world (r.settle name isLocal giveUp world).2 := by
  unfold settle
  split
  · rename_i schema loaded
    exact ⟨.refl _, .inr ⟨schema, id_of_loadSchema loaded, loads schema loaded, rfl⟩⟩
  · exact shift_of_host gives

theorem shift_adding {spec : String} {next : World → Outcome Schema × World}
    (adds : Moves (Step w top kind) (Shelf.add w spec) world.host)
    (continues : ∀ host, (Shelf.add w spec).run world.host = (.ok (), host) →
      Shift w top kind { world with host } (next { world with host }).2) :
    Shift w top kind world ((ofShelf w secs).adding name spec next world).2 := by
  have step := step_call (ofShelf w secs) ("installing '" ++ spec ++ "'") adds
  unfold adding
  have manager : (ofShelf w secs).manager.add spec = Shelf.add w spec := rfl
  rw [manager]
  cases called : (ofShelf w secs).call ("installing '" ++ spec ++ "'") (Shelf.add w spec) world.host with
  | mk result host =>
    rw [called] at step
    cases result with
    | error fault => exact shift_of_host step
    | ok done => exact .after step (continues host (run_of_call called))

theorem step_removal {h : Host} (moves : Moves (Step w top kind) (Shelf.remove w name) h) :
    Step w top kind h ((ofShelf w secs).removal name h) :=
  step_call (ofShelf w secs) _ moves

end Registry

/-! ### Each operation -/

theorem Stock.askable_of_installSpec (named : s.WellNamed) {version : Option String} {p : Item}
    (done : s.shelf.resolve (Registry.installSpec name version) = .ok p) : Askable name := by
  have package := named.packages p (Stock.mem_of_resolve done)
  rcases Stock.of_installSpec named done with ⟨rfl, -⟩ | empty | ⟨version', whole⟩
  · exact .inr (.inl package)
  · exact .inl empty
  · exact .inr (.inr ⟨p.name, version', package, whole⟩)

namespace Registry

variable {deps : Entries String}

-- What is loaded of a package that was just put into the workspace has its name.
theorem name_of_loadSchema (grounded : Grounded w top world.host.files deps) (named : s.WellNamed)
    {p : Item} (among : p ∈ s.items) {source : String} {files : Tree}
    (puts : Shelf.Puts w p source world.host.files files) {isLocal : Bool} {schema : Schema}
    (loaded : (ofShelf w secs).loadSchema files p.name isLocal = .ok schema) :
    schema.name = p.name := by
  obtain ⟨-, stored, -⟩ := grounded.puts (named.packages p among) (named.nodes p among) puts
  obtain ⟨-, rfl⟩ := loadSchema_of_stored (i := { item := p, archive := none }) stored isLocal loaded
  rfl

theorem shift_install_any (named : s.WellNamed) (shelf : world.host.shelf = s.shelf)
    (version : Option String) :
    Shift w top (fun _ => False) world (((ofShelf w secs).install name version).run world).2 := by
  rw [install_run]
  refine shift_adding (Shelf.moves_add named shelf fun _ _ _ impossible => impossible.elim) ?_
  intro host added
  obtain ⟨p, files, resolved, -, rfl⟩ := Shelf.run_add added
  rw [shelf] at resolved
  have askable := Stock.askable_of_installSpec named resolved
  exact shift_settle _ (step_removal (Shelf.moves_remove_askable askable)) fun _ _ => id

theorem shift_install (grounded : Grounded w top world.host.files deps) (named : s.WellNamed)
    (shelf : world.host.shelf = s.shelf) (unversioned : Unversioned name) (version : Option String) :
    Shift w top (· ≠ name) world (((ofShelf w secs).install name version).run world).2 := by
  rw [install_run]
  refine shift_adding (Shelf.moves_add named shelf fun p resolved other apart => ?_) ?_
  · rwa [← Stock.name_of_installSpec named unversioned resolved]
  · intro host added
    obtain ⟨p, files, resolved, puts, rfl⟩ := Shelf.run_add added
    rw [shelf] at resolved
    obtain rfl := Stock.name_of_installSpec named unversioned resolved
    have among := Stock.mem_of_resolve resolved
    refine shift_settle _ (step_removal (Shelf.moves_remove (named.packages p among) fun _ => id)) ?_
    intro schema loaded
    rw [not_not]
    exact name_of_loadSchema grounded named among puts loaded

theorem shift_change (grounded : Grounded w top world.host.files deps) (named : s.WellNamed)
    (shelf : world.host.shelf = s.shelf) (version : String) :
    Shift w top (· ≠ name) world (((ofShelf w secs).change name version).run world).2 := by
  rw [change_run]
  split
  · rename_i known
    rw [shelf] at known
    have package := Stock.package_of_versions named known
    have adds (version : String) {h : Host} (same : h.shelf = s.shelf) :
        Moves (Step w top (· ≠ name)) (Shelf.add w (name ++ "@" ++ version)) h := by
      refine Shelf.moves_add named same fun p resolved other apart => ?_
      rwa [← Stock.name_of_version named package resolved]
    refine shift_adding (adds version shelf) fun host added => ?_
    obtain ⟨p, files, resolved, puts, rfl⟩ := Shelf.run_add added
    rw [shelf] at resolved
    obtain rfl := Stock.name_of_version named package resolved
    refine shift_settle _ ?_ fun schema loaded => ?_
    · unfold retreat
      split
      · exact step_removal (Shelf.moves_remove package fun _ => id)
      · exact step_call (ofShelf w secs) _ (adds _ shelf)
    · rw [not_not]
      exact name_of_loadSchema grounded named (Stock.mem_of_resolve resolved) puts loaded
  · exact shift_of_host (.refl _)

theorem shift_installArchive (grounded : Grounded w top world.host.files deps) (named : s.WellNamed)
    (shelf : world.host.shelf = s.shelf) (path : String)
    (others : ∀ p, s.archive? path = some p → ¬kind p.name) :
    Shift w top kind world (((ofShelf w secs).installArchive path).run world).2 := by
  have apart {p : Item} (found : s.archive? path = some p) (other : String) (spared : kind other) :
      other ≠ p.name := by
    rintro rfl
    exact others p found spared
  have moves : Moves (Step w top kind) (Shelf.addArchive w path) world.host :=
    Shelf.moves_addArchive named shelf fun _ found => apart found
  have step := step_call (ofShelf w secs) ("installing '" ++ path ++ "'") moves
  have manager : (ofShelf w secs).manager.addArchive path = Shelf.addArchive w path := rfl
  rw [installArchive_run, manager]
  cases called : (ofShelf w secs).call ("installing '" ++ path ++ "'") (Shelf.addArchive w path)
    world.host with
  | mk result host =>
    rw [called] at step
    cases result with
    | error fault => exact shift_of_host step
    | ok name =>
      refine .after step ?_
      obtain ⟨p, files, found, rfl, puts, rfl⟩ := Shelf.run_addArchive (run_of_call called)
      rw [shelf] at found
      have stored := Stock.archive?_of_findArchive found
      have among := Stock.mem_of_archive? stored
      refine shift_settle _ (step_removal
        (Shelf.moves_remove (named.packages p among) (apart stored))) fun schema loaded => ?_
      rw [name_of_loadSchema grounded named among puts loaded]
      exact others p stored

-- Whether the package was listed or not, after its removal it is not.
theorem remove_ok (grounded : Grounded w top world.host.files deps) {secs : Nat} {name : String}
    {next : World} (done : ((ofShelf w secs).remove name).run world = (.ok (), next)) :
    next.host.shelf = world.host.shelf ∧ next.catalog = world.catalog.erase name ∧
      Grounded w top next.host.files (Entries.change deps name none) := by
  obtain ⟨deps', listed, ways⟩ := run_remove done
  obtain rfl : deps = deps' := Except.ok.inj (grounded.dependencies.symm.trans listed)
  rcases ways with ⟨there, host, removed, rfl⟩ | ⟨missing, same, catalog⟩
  · obtain ⟨source, found⟩ := Option.isSome_iff_exists.mp there
    obtain ⟨cleared, files, taken, sets, rfl⟩ := Shelf.run_remove removed
    exact ⟨rfl, rfl, (grounded.takes (grounded.packages name source found) taken sets).1⟩
  · have unlisted : Entries.get? deps name = none := by
      rw [← Option.isNone_iff_eq_none, ← Option.not_isSome]
      exact congrArg not missing
    rw [Entries.change_absent unlisted, same]
    refine ⟨rfl, ?_, grounded⟩
    rw [catalog]
    split
    · rfl
    · rename_i unknown
      exact (Catalog.erase_absent (Option.not_isSome_iff_eq_none.mp unknown)).symm

-- A package that is listed has a proper name, so its removal is about it only.
theorem remove_effect (grounded : Grounded w top world.host.files deps) (secs : Nat) (name : String) :
    Step w top (· ≠ name) world.host (((ofShelf w secs).remove name).run world).2.host ∧
      ((((ofShelf w secs).remove name).run world).2.catalog = world.catalog ∨
        (((ofShelf w secs).remove name).run world).2.catalog = world.catalog.erase name) := by
  have listed : (ofShelf w secs).workspace.dependencies world.host.files = .ok deps :=
    grounded.dependencies
  rw [remove_run, listed]
  dsimp only
  split
  · rename_i there
    obtain ⟨source, found⟩ := Option.isSome_iff_exists.mp there
    have moves : Moves (Step w top (· ≠ name)) (Shelf.remove w name) world.host :=
      Shelf.moves_remove (grounded.packages name source found) fun _ => id
    have step := step_call (ofShelf w secs) ("removing '" ++ name ++ "'") moves
    have manager : (ofShelf w secs).manager.remove name = Shelf.remove w name := rfl
    rw [manager]
    split
    · rename_i called
      rw [called] at step
      exact ⟨step, .inl rfl⟩
    · rename_i called
      rw [called] at step
      exact ⟨step, .inr rfl⟩
  · split
    · exact ⟨.refl _, .inr rfl⟩
    · exact ⟨.refl _, .inl rfl⟩

theorem id_of_listedSchemas {r : Registry} {files : Tree} {schemas : List Schema}
    (done : r.listedSchemas files = .ok schemas) : ∀ s ∈ schemas, s.id = .module s.name := by
  intro schema member
  unfold listedSchemas at done
  cases deps : r.workspace.dependencies files with
  | error fault => simp [deps, bind, Except.bind] at done
  | ok deps' =>
    simp only [deps, bind, Except.bind, pure, Except.pure, Except.ok.injEq] at done
    rw [← done] at member
    obtain ⟨⟨name, source⟩, -, loaded⟩ := List.mem_filterMap.mp member
    dsimp only at loaded
    cases found : r.loadSchema files name ("file:".toList.isPrefixOf source.toList) with
    | error e =>
      rw [found] at loaded
      cases loaded
    | ok schema' =>
      rw [found] at loaded
      cases loaded
      exact id_of_loadSchema found

-- The state after a call, whatever came of it.
def after (r : Registry) (world : World) : Call → World
  | .install name version => ((r.install name version).run world).2
  | .installArchives paths => ((r.installArchives paths).run world).2
  | .change name version => ((r.change name version).run world).2
  | .remove name => ((r.remove name).run world).2

end Registry

/-! ### Order -/

structure Orderly (w : Workspace) (top : Place) (world : World) : Prop where
  stocked : ∃ s : Stock, s.WellNamed ∧ world.host.shelf = s.shelf
  grounded : ∃ deps, Grounded w top world.host.files deps
  keyed : world.catalog.Keyed

namespace Orderly

variable {next : World}

theorem step (orderly : Orderly w top world) (step : Step w top kind world.host next.host)
    (keyed : next.catalog.Keyed) : Orderly w top next where
  stocked := by
    obtain ⟨s, named, shelf⟩ := orderly.stocked
    exact ⟨s, named, step.shelf.trans shelf⟩
  grounded := by
    obtain ⟨deps, grounded⟩ := orderly.grounded
    obtain ⟨deps', grounded', -⟩ := step.moved deps grounded
    exact ⟨deps', grounded'⟩
  keyed := keyed

theorem shift (orderly : Orderly w top world) (shift : Shift w top kind world next) :
    Orderly w top next := by
  apply orderly.step shift.host
  rcases shift.catalog with same | ⟨schema, own, -, inserted⟩
  · rw [same]
    exact orderly.keyed
  · rw [inserted]
    exact Catalog.keyed_insert orderly.keyed own

theorem installArchives (orderly : Orderly w top world) (secs : Nat) (paths : List String) :
    Orderly w top (((Registry.ofShelf w secs).installArchives paths).run world).2 := by
  induction paths generalizing world with
  | nil => exact orderly
  | cons path paths ih =>
    obtain ⟨s, named, shelf⟩ := orderly.stocked
    obtain ⟨deps, grounded⟩ := orderly.grounded
    have shift : Shift w top (fun _ => False) world
        (((Registry.ofShelf w secs).installArchive path).run world).2 :=
      Registry.shift_installArchive grounded named shelf path fun _ _ => id
    have first := orderly.shift shift
    rw [Registry.installArchives, Task.run_bind, Task.run_bind]
    split
    · exact ih first
    · exact ih first

theorem after (orderly : Orderly w top world) (secs : Nat) (c : Call) :
    Orderly w top ((Registry.ofShelf w secs).after world c) := by
  obtain ⟨s, named, shelf⟩ := orderly.stocked
  obtain ⟨deps, grounded⟩ := orderly.grounded
  cases c with
  | install name version => exact orderly.shift (Registry.shift_install_any named shelf version)
  | installArchives paths => exact orderly.installArchives secs paths
  | change name version => exact orderly.shift (Registry.shift_change grounded named shelf version)
  | remove name =>
    obtain ⟨step, catalog⟩ := Registry.remove_effect grounded secs name
    apply orderly.step step
    show Catalog.Keyed (((Registry.ofShelf w secs).remove name).run world).2.catalog
    rcases catalog with same | erased
    · rw [same]
      exact orderly.keyed
    · rw [erased]
      exact Catalog.keyed_erase orderly.keyed name

-- A new registry in the same workspace.
theorem restart (orderly : Orderly w top world) (secs : Nat) :
    Orderly w top ((Registry.ofShelf w secs).restore.run { world with catalog := .empty }).2 := by
  have host := (Registry.ofShelf w secs).restore_host { world with catalog := .empty }
  have unmoved : Step w top (fun _ => True) world.host
      ((Registry.ofShelf w secs).restore.run { world with catalog := .empty }).2.host := by
    rw [host]
    exact .refl _
  apply orderly.step unmoved
  unfold Registry.restore
  simp only [Task.run]
  cases listed : (Registry.ofShelf w secs).listedSchemas world.host.files with
  | error fault => exact Catalog.keyed_empty
  | ok schemas =>
    exact Catalog.keyed_insertAll Catalog.keyed_empty (Registry.id_of_listedSchemas listed)

end Orderly

-- The states of registries in one workspace, from an empty directory on: calls may succeed, fail or
-- be stopped, registries may be started anew, and other packages may be put on the shelf.
inductive Reached (w : Workspace) : World → Prop
  | start {world : World} (s : Stock) (named : s.WellNamed) (shelf : world.host.shelf = s.shelf)
      (sound : world.host.files.Sound) (vacant : w.Vacant world.host.files)
      (empty : world.catalog = .empty) : Reached w world
  | call {world : World} (reached : Reached w world) (secs : Nat) (c : Call) :
      Reached w ((Registry.ofShelf w secs).after world c)
  | restart {world : World} (reached : Reached w world) (secs : Nat) :
      Reached w ((Registry.ofShelf w secs).restore.run { world with catalog := .empty }).2
  | restock {world : World} (reached : Reached w world) (s : Stock) (named : s.WellNamed) :
      Reached w { world with host := { world.host with shelf := s.shelf } }

theorem Reached.orderly (reached : Reached w world) : ∃ top, Orderly w top world := by
  induction reached with
  | start s named shelf sound vacant empty =>
    obtain ⟨top, standing⟩ := standing_of_vacant vacant
    refine ⟨top, ⟨s, named, shelf⟩, ⟨[], ?_⟩, ?_⟩
    · exact ⟨standing.aims, sound, .nil, standing.listed, fun _ _ there => (by cases there),
        standing.tame⟩
    · rw [empty]
      exact Catalog.keyed_empty
  | call reached secs c ih =>
    obtain ⟨top, orderly⟩ := ih
    exact ⟨top, orderly.after secs c⟩
  | restart reached secs ih =>
    obtain ⟨top, orderly⟩ := ih
    exact ⟨top, orderly.restart secs⟩
  | restock reached s named ih =>
    obtain ⟨top, orderly⟩ := ih
    exact ⟨top, ⟨s, named, rfl⟩, orderly.grounded, orderly.keyed⟩

end Flowgate.Package
