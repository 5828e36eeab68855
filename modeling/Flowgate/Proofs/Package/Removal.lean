import Flowgate.Proofs.Package.Backing
import Flowgate.Proofs.Package.Recording
import Flowgate.Proofs.Package.Rollback

/-!
Removals. Where packages have proper names, one that was removed is gone from the catalog and from
the manifest of the workspace, all others are where they were, and to remove it again does nothing.
So what the installation of a new package added, its removal takes away. The removal of a name that
leads out of the directory of the packages can take the manifest along.
-/

namespace Flowgate.Package

open File (Place Tree)

variable {w : Workspace} {top : Place} {world next : World} {secs : Nat} {name : String}

/-! ### States -/

-- The states of registries in one workspace, where modules may also be given to the catalog without
-- a package: from an empty directory on, calls may succeed, fail or be stopped, registries may be
-- started anew, and other packages may be put on the shelf, all of them with proper names.
inductive Attained (w : Workspace) : World → Prop
  | reached {world : World} (reached : Reached w world) : Attained w world
  | given {world : World} (attained : Attained w world) (schemas : List Schema)
      (built : ∀ s ∈ schemas, s.Built) :
      Attained w { world with catalog := world.catalog.insertAll schemas }
  | call {world : World} (attained : Attained w world) (secs : Nat) (c : Call) :
      Attained w ((Registry.ofShelf w secs).after world c)
  | restart {world : World} (attained : Attained w world) (secs : Nat) :
      Attained w ((Registry.ofShelf w secs).restore.run { world with catalog := .empty }).2
  | restock {world : World} (attained : Attained w world) (s : Stock) (named : s.WellNamed) :
      Attained w { world with host := { world.host with shelf := s.shelf } }

theorem Reached.made (reached : Reached w world) : world.catalog.Made := by
  induction reached with
  | start s named shelf sound vacant empty =>
    rw [empty]
    exact Catalog.made_empty
  | call reached secs c ih => exact Registry.made_after _ ih c
  | restart reached secs ih => exact Registry.made_restore _ Catalog.made_empty
  | restock reached s named ih => exact ih

theorem Attained.orderly (attained : Attained w world) : ∃ top, Orderly w top world := by
  induction attained with
  | reached reached => exact reached.orderly
  | given attained schemas built ih =>
    obtain ⟨top, orderly⟩ := ih
    exact ⟨top, orderly.stocked, orderly.grounded,
      Catalog.keyed_insertAll orderly.keyed fun s member => (built s member).own⟩
  | call attained secs c ih =>
    obtain ⟨top, orderly⟩ := ih
    exact ⟨top, orderly.after secs c⟩
  | restart attained secs ih =>
    obtain ⟨top, orderly⟩ := ih
    exact ⟨top, orderly.restart secs⟩
  | restock attained s named ih =>
    obtain ⟨top, orderly⟩ := ih
    exact ⟨top, ⟨s, named, rfl⟩, orderly.grounded, orderly.keyed⟩

theorem Attained.made (attained : Attained w world) : world.catalog.Made := by
  induction attained with
  | reached reached => exact reached.made
  | given attained schemas built ih => exact ih.insertAll fun s member => (built s member).own
  | call attained secs c ih => exact Registry.made_after _ ih c
  | restart attained secs ih => exact Registry.made_restore _ Catalog.made_empty
  | restock attained s named ih => exact ih

theorem Attained.backed (attained : Attained w world) : world.catalog.Backed := by
  obtain ⟨known, recorded⟩ := attained.made
  exact recorded.backed

theorem free_of_names {c : Catalog}
    (apart : ∀ other ∈ c.modules.names,
      Identity.module other = Identity.module name → other = name) : c.Free name := by
  rintro other ⟨s, there⟩
  exact apart other (List.mem_map_of_mem (f := Prod.fst) (Entries.mem_of_get? there))

/-! ### Removals that succeed -/

-- The package is gone, and all others are where they were.
structure Removed (w : Workspace) (name : String) (a b : World) : Prop where
  unknown : b.catalog.module? name = none
  idle : ∀ node, b.catalog.controller name node = .noop
  others : ∀ other, other ≠ name → b.catalog.module? other = a.catalog.module? other
  found : ∀ other, Identity.module other ≠ Identity.module name →
    b.catalog.find? (.module other) = a.catalog.find? (.module other)
  listed : ∃ deps, w.dependencies a.host.files = .ok deps ∧
    w.dependencies b.host.files = .ok (Entries.erase name deps)

namespace Registry

-- A package that is in neither place is removed already.
theorem remove_absent {deps : Entries String}
    (listed : w.dependencies world.host.files = .ok deps) (unlisted : Entries.get? deps name = none)
    (unknown : world.catalog.module? name = none) (secs : Nat) :
    ((ofShelf w secs).remove name).run world = (.ok (), world) := by
  have notThere : Entries.contains deps name = false := by
    rw [Entries.contains, unlisted]
    rfl
  have notHeld : Entries.contains world.catalog.modules name = false := by
    unfold Catalog.module? at unknown
    rw [Entries.contains, unknown]
    rfl
  have here : (ofShelf w secs).workspace.dependencies world.host.files = .ok deps := listed
  rw [remove_run, here]
  simp only [notThere, notHeld, Bool.false_eq_true, if_false]

theorem removed_of_ok (attained : Attained w world) (free : world.catalog.Free name)
    (done : ((ofShelf w secs).remove name).run world = (.ok (), next)) :
    Removed w name world next := by
  obtain ⟨top, orderly⟩ := attained.orderly
  obtain ⟨deps, grounded⟩ := orderly.grounded
  obtain ⟨-, catalog, grounded'⟩ := remove_ok grounded done
  have backed := attained.backed
  have unknown : next.catalog.module? name = none := by
    rw [catalog, Catalog.module?_erase, if_pos rfl]
  refine ⟨unknown, fun node => ?_, fun other apart => ?_, fun other apart => ?_, deps,
    grounded.dependencies, grounded'.dependencies⟩
  · rw [catalog] at unknown ⊢
    exact (backed.erase name).controller_absent (free.erase name) unknown node
  · rw [catalog, Catalog.module?_erase, if_neg apart.symm]
  · rw [catalog]
    exact backed.find?_erase apart

theorem Removed.again (removed : Removed w name world next) (secs : Nat) :
    ((ofShelf w secs).remove name).run next = (.ok (), next) := by
  obtain ⟨deps, -, listed⟩ := removed.listed
  apply remove_absent listed _ removed.unknown
  rw [Entries.get?_erase, if_pos rfl]

/-! ### Installations undone -/

-- A package that was put into the workspace and loaded is taken away again, with what was recorded.
theorem remove_recorded {deps : Entries String} {s : Stock} (named : s.WellNamed) {p : Item}
    (among : p ∈ s.items) {source : String} {files : Tree}
    (grounded : Grounded w top world.host.files deps) (unlisted : Entries.get? deps p.name = none)
    (puts : Shelf.Puts w p source world.host.files files)
    (unhurried : (ofShelf w secs).Unhurried world.host) (backed : world.catalog.Backed)
    (free : world.catalog.Free p.name) (unknown : world.catalog.module? p.name = none)
    {schema : Schema} (own : schema.id = .module schema.name) (name : schema.name = p.name) :
    ∃ next, ((ofShelf w secs).remove p.name).run
        { host := { world.host with files }, catalog := world.catalog.insert schema }
          = (.ok (), next) ∧
      next.catalog = world.catalog ∧
      w.dependencies next.host.files = w.dependencies world.host.files := by
  have package := named.packages p among
  obtain ⟨grounded', stored, found⟩ := grounded.puts package (named.nodes p among) puts
  obtain ⟨files', ran, grounded'', -⟩ := Grounded.remove_completes
    (h := { world.host with files }) grounded' package stored found
  have inTime : (ofShelf w secs).call ("removing '" ++ p.name ++ "'")
      ((ofShelf w secs).manager.remove p.name) { world.host with files }
      = (.ok (), { world.host with files := files' }) :=
    (Unhurried.call (h := { world.host with files }) unhurried
      (Shelf.time_remove w p.name { world.host with files })).trans ran
  have listed : (ofShelf w secs).workspace.dependencies files
      = .ok (Entries.change deps p.name (some source)) := grounded'.dependencies
  have there : Entries.contains (Entries.change deps p.name (some source)) p.name = true := by
    rw [Entries.contains, Entries.get?_change, if_pos rfl]
    rfl
  refine ⟨{ host := { world.host with files := files' },
            catalog := (world.catalog.insert schema).erase p.name }, ?_, ?_, ?_⟩
  · rw [remove_run]
    simp only [listed, there, if_true, inTime]
  · rw [← name] at free unknown ⊢
    exact backed.erase_insert own free unknown
  · have same : Entries.change (Entries.change deps p.name (some source)) p.name none = deps :=
      Entries.erase_insert grounded.sorted source unlisted
    rw [same] at grounded''
    exact grounded''.dependencies.trans grounded.dependencies.symm

theorem install_undone (orderly : Orderly w top world) (backed : world.catalog.Backed)
    (free : world.catalog.Free name) (unversioned : Unversioned name)
    (unknown : world.catalog.module? name = none)
    (unlisted : w.source? world.host.files name = none) {version : Option String} {schema : Schema}
    {mid : World} (done : ((ofShelf w secs).install name version).run world = (.ok schema, mid)) :
    ∃ next, ((ofShelf w secs).remove name).run mid = (.ok (), next) ∧
      next.catalog = world.catalog ∧
      w.dependencies next.host.files = w.dependencies world.host.files := by
  obtain ⟨s, named, shelf⟩ := orderly.stocked
  obtain ⟨deps, grounded⟩ := orderly.grounded
  rw [grounded.source?] at unlisted
  rw [install_run, adding] at done
  split at done
  · cases done
  · rename_i host called
    have unhurried := unhurried_of_added called
    obtain ⟨p, files, resolved, puts, rfl⟩ := Shelf.run_add (run_of_call called)
    rw [shelf] at resolved
    obtain rfl := Stock.name_of_installSpec named unversioned resolved
    have among := Stock.mem_of_resolve resolved
    unfold settle at done
    split at done
    · rename_i loaded
      cases done
      exact remove_recorded named among grounded unlisted puts unhurried backed free unknown
        (id_of_loadSchema loaded) (name_of_loadSchema grounded named among puts loaded)
    · cases done

theorem remove_whole (attained : Attained w world) (secs : Nat) (free : world.catalog.Free name) :
    (∀ next, ((ofShelf w secs).remove name).run world = (.ok (), next) →
      Removed w name world next ∧
        ∀ secs', ((ofShelf w secs').remove name).run next = (.ok (), next)) ∧
    (∀ e next, ((ofShelf w secs).remove name).run world = (.error e, next) →
      next.catalog = world.catalog) ∧
    (Unversioned name → world.catalog.module? name = none →
      w.source? world.host.files name = none → ∀ version schema mid,
        ((ofShelf w secs).install name version).run world = (.ok schema, mid) →
        ∃ next, ((ofShelf w secs).remove name).run mid = (.ok (), next) ∧
          next.catalog = world.catalog ∧
          w.dependencies next.host.files = w.dependencies world.host.files) := by
  obtain ⟨top, orderly⟩ := attained.orderly
  refine ⟨fun next done => ?_, fun e next failed => ?_, ?_⟩
  · have removed := removed_of_ok attained free done
    exact ⟨removed, fun secs' => Removed.again removed secs'⟩
  · have kept := keepsOnError_remove (ofShelf w secs) name world e
    rw [failed] at kept
    exact kept rfl
  · intro unversioned unknown unlisted version schema mid done
    exact install_undone orderly attained.backed free unversioned unknown unlisted done

-- The same state, where calls to the shelf take longer than a registry may wait.
def slowed (world : World) (s : Stock) : World :=
  { world with host := { world.host with shelf := { s with delay := some 20 : Stock }.shelf } }

theorem catalog_slowed (world : World) (s : Stock) : (slowed world s).catalog = world.catalog := rfl

theorem attained_slowed (attained : Attained w world) {s : Stock} (named : s.WellNamed) :
    Attained w (slowed world s) :=
  attained.restock { s with delay := some 20 } ⟨named.packages, named.nodes⟩

theorem remove_whole_a :
    Attained { dir := "m" } releases.world ∧ releases.world.catalog.Free "a" ∧
      (∃ schema mid next,
        ((ofShelf { dir := "m" } 5).install "a" none).run releases.world = (.ok schema, mid) ∧
        ((ofShelf { dir := "m" } 5).remove "a").run mid = (.ok (), next) ∧
        next.catalog = releases.world.catalog) ∧
      Attained { dir := "m" } withA ∧ withA.catalog.Free "a" ∧
      (∃ next, ((ofShelf { dir := "m" } 5).remove "a").run withA = (.ok (), next) ∧
        Removed { dir := "m" } "a" withA next) ∧
      ∃ e next, ((ofShelf { dir := "m" } 0).remove "a").run (slowed withA releases) = (.error e, next) ∧
        next.catalog = withA.catalog := by
  have start : Attained { dir := "m" } releases.world := .reached wellNamed_releases.reached
  have attained : Attained { dir := "m" } withA := start.call 5 (.install "a" none)
  have empty : releases.world.catalog.Free "a" := by
    rintro other ⟨s, there⟩
    cases there
  have ran :
      (withA.catalog.modules.names,
        (((ofShelf { dir := "m" } 5).install "a" none).run releases.world).1.isOk,
        (((ofShelf { dir := "m" } 5).remove "a").run withA).1.isOk,
        (((ofShelf { dir := "m" } 0).remove "a").run (slowed withA releases)).1.isOk)
      = (["a"], true, true, false) := by
    decide +kernel
  obtain ⟨names, installed, removed, failed⟩ := by simpa only [Prod.mk.injEq] using ran
  have free : withA.catalog.Free "a" := by
    refine free_of_names fun other listed _ => ?_
    rwa [names, List.mem_singleton] at listed
  have slow : Attained { dir := "m" } (slowed withA releases) :=
    attained_slowed attained wellNamed_releases
  have slowFree : (slowed withA releases).catalog.Free "a" := by
    rw [catalog_slowed]
    exact free
  refine ⟨start, empty, ?_, attained, free, ?_, ?_⟩
  · obtain ⟨schema, done⟩ := done_eq installed
    obtain ⟨next, undone, catalog, -⟩ := (remove_whole start 5 empty).2.2 ⟨by decide, by decide⟩ rfl
      rfl none schema _ done
    exact ⟨schema, _, next, done, undone, catalog⟩
  · obtain ⟨⟨⟩, done⟩ := done_eq removed
    exact ⟨_, done, ((remove_whole attained 5 free).1 _ done).1⟩
  · obtain ⟨e, done⟩ := failed_eq failed
    have kept := (remove_whole slow 0 slowFree).2.1 e _ done
    exact ⟨e, _, done, kept.trans (catalog_slowed withA releases)⟩

/-! ### Names that lead out of the packages -/

-- A package whose directory is the workspace itself, and another one.
def upward : Stock where
  published := [release ".." "1.0.0", release "a" "1.0.0"]
  archives := []
  delay := none

def withUpward : World :=
  [.install ".." none, .install "a" none].foldl (ofShelf { dir := "m" } 5).after upward.world

-- To remove it takes the dependency manifest away, and with it what was listed of the other.
theorem remove_upward :
    withUpward.catalog.Free ".." ∧
      ∃ next, ((ofShelf { dir := "m" } 5).remove "..").run withUpward = (.ok (), next) ∧
        ¬Removed { dir := "m" } ".." withUpward next := by
  have ran :
      (withUpward.catalog.modules.names,
        (((ofShelf { dir := "m" } 5).remove "..").run withUpward).1.isOk,
        (Workspace.dependencies { dir := "m" } withUpward.host.files).toOption,
        (Workspace.dependencies { dir := "m" }
          (((ofShelf { dir := "m" } 5).remove "..").run withUpward).2.host.files).toOption)
      = (["..", "a"], true, some [("..", "^1.0.0"), ("a", "^1.0.0")], some []) := by
    decide +kernel
  obtain ⟨names, removed, before, after⟩ := by simpa only [Prod.mk.injEq] using ran
  refine ⟨?_, ?_⟩
  · refine free_of_names fun other listed same => ?_
    rw [names, List.mem_pair] at listed
    rcases listed with rfl | rfl
    · rfl
    · have apart : Identity.module "a" ≠ Identity.module ".." := by decide +kernel
      exact absurd same apart
  · obtain ⟨⟨⟩, done⟩ := done_eq removed
    refine ⟨_, done, fun whole => ?_⟩
    obtain ⟨deps, listed, erased⟩ := whole.listed
    obtain rfl := Except.ok.inj ((ok_of_toOption before).symm.trans listed)
    -- Only a name for the state keeps it from being evaluated in the next step.
    generalize (((ofShelf { dir := "m" } 5).remove "..").run withUpward).2 = next at after erased
    have lost := Except.ok.inj ((ok_of_toOption after).symm.trans erased)
    exact absurd lost (by decide)

end Registry

end Flowgate.Package
