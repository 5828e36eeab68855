import Flowgate.Proofs.Package.Calls
import Flowgate.Proofs.Package.Grounded

/-!
Jobs of the package manager of the shelf, stopped anywhere: each moves a workspace that is in order to
one that is in order, and the packages that it is not about are left alone. Each pauses twice at most.
-/

namespace Flowgate

namespace Package

open File (Place Tree)
open Flowgate.Task (Moves)

-- The files are in order if they were, and the packages of a kind are left alone.
structure Step (w : Workspace) (top : Place) (kind : String → Prop) (h h' : Host) : Prop where
  shelf : h'.shelf = h.shelf
  moved : ∀ deps, Grounded w top h.files deps → ∃ deps', Grounded w top h'.files deps' ∧
    Spares top kind h.files deps h'.files deps'

variable {w : Workspace} {top : Place} {kind : String → Prop} {h h' h'' : Host} {name : String}

theorem Step.refl (h : Host) : Step w top kind h h :=
  ⟨rfl, fun deps grounded => ⟨deps, grounded, .refl _ _ _ _⟩⟩

theorem Step.trans (first : Step w top kind h h') (second : Step w top kind h' h'') :
    Step w top kind h h'' where
  shelf := second.shelf.trans first.shelf
  moved deps grounded := by
    obtain ⟨deps', grounded', spares⟩ := first.moved deps grounded
    obtain ⟨deps'', grounded'', spares'⟩ := second.moved deps' grounded'
    exact ⟨deps'', grounded'', spares.trans spares'⟩

theorem step_of_files {files : Tree}
    (moved : ∀ deps, Grounded w top h.files deps → ∃ deps', Grounded w top files deps' ∧
      Spares top kind h.files deps files deps') : Step w top kind h { h with files } :=
  ⟨rfl, moved⟩

theorem moves_andThen {t : Job Host (Attempt α)} {next : α → Job Host (Attempt β)}
    (first : Moves (Step w top kind) t h)
    (rest : ∀ a, (t.run h).1 = .ok a → Moves (Step w top kind) (next a) (t.run h).2) :
    Moves (Step w top kind) (andThen t next) h := by
  refine first.bind (fun _ _ _ => Step.trans) ?_
  cases result : (t.run h).1 with
  | ok a => exact rest a result
  | error fault => exact Task.moves_done Step.refl _

namespace Shelf

theorem moves_pause : Moves (Step w top kind) pause h := by
  refine Moves.look ?_
  unfold pauseOn
  cases h.shelf.delay with
  | none => exact Task.moves_done Step.refl _
  | some time =>
    refine ⟨Step.refl h, fun s member => ?_⟩
    rw [List.mem_singleton.mp member]
    exact Step.refl h

theorem moves_afterPause {next : Unit → Job Host α} (rest : Moves (Step w top kind) (next ()) h) :
    Moves (Step w top kind) (pause.bind next) h := by
  refine moves_pause.bind (fun _ _ _ => Step.trans) ?_
  rw [run_pause_done]
  exact rest

theorem moves_onFiles {f : Tree → α × Tree}
    (moved : ∀ deps, Grounded w top h.files deps → ∃ deps', Grounded w top (f h.files).2 deps' ∧
      Spares top kind h.files deps (f h.files).2 deps') :
    Moves (Step w top kind) (onFiles f) h :=
  Task.moves_act (step_of_files moved)

-- The manifest that is written is the one that was read, so other entries are as they were.
theorem moves_setDependency {source : Option String} (package : source.isSome → PackageName name)
    (others : ∀ other, kind other → other ≠ name) :
    Moves (Step w top kind) (setDependency w name source) h := by
  refine moves_andThen (moves_onFiles fun deps grounded => ⟨deps, grounded.readManifest kind⟩) ?_
  intro manifest opened
  rw [run_onFiles] at opened ⊢
  refine moves_afterPause (moves_onFiles fun deps grounded => ?_)
  have read : readManifest w h.files = (.ok manifest, (readManifest w h.files).2) :=
    Prod.ext opened rfl
  rw [grounded.manifest_eq read]
  exact grounded.writeManifest package others

theorem moves_put {p : Item} {source : String} (package : PackageName p.name)
    (clean : ∀ n ∈ p.nodes, '/' ∉ n.name.toList) (others : ∀ other, kind other → other ≠ p.name) :
    Moves (Step w top kind) (put w p source) h := by
  refine moves_andThen (moves_onFiles fun deps grounded => ⟨deps, ?_⟩) fun _ _ =>
    moves_setDependency (fun _ => package) others
  have reworked := reworked_writeTo grounded.aims package clean
  exact ⟨grounded.reworked package reworked, spares_of_way reworked.touched package others⟩

theorem moves_find {f : Shelf → Except ShelfFault Item} {next : Item → Job Host (Attempt β)}
    (rest : ∀ p, f h.shelf = .ok p → Moves (Step w top kind) (next p) h) :
    Moves (Step w top kind) (andThen (find f) next) h := by
  refine moves_andThen (Moves.look (Task.moves_done Step.refl _)) fun p found => ?_
  exact rest p (ok_of_mapError found)

variable {s : Stock}

theorem moves_add {spec : String} (named : s.WellNamed) (shelf : h.shelf = s.shelf)
    (others : ∀ p, s.shelf.resolve spec = .ok p → ∀ other, kind other → other ≠ p.name) :
    Moves (Step w top kind) (add w spec) h := by
  refine moves_afterPause (moves_find fun p resolved => ?_)
  rw [shelf] at resolved
  have among := Stock.mem_of_resolve resolved
  exact moves_put (named.packages p among) (named.nodes p among) (others p resolved)

theorem moves_addArchive {path : String} (named : s.WellNamed) (shelf : h.shelf = s.shelf)
    (others : ∀ p, s.archive? path = some p → ∀ other, kind other → other ≠ p.name) :
    Moves (Step w top kind) (addArchive w path) h := by
  refine moves_afterPause (moves_find fun p found => ?_)
  rw [shelf] at found
  have stored := Stock.archive?_of_findArchive found
  have among := Stock.mem_of_archive? stored
  refine moves_andThen (moves_put (named.packages p among) (named.nodes p among) (others p stored))
    fun _ _ => Task.moves_done Step.refl _

theorem moves_remove (package : PackageName name) (others : ∀ other, kind other → other ≠ name) :
    Moves (Step w top kind) (remove w name) h := by
  refine moves_afterPause (moves_andThen (moves_onFiles fun deps grounded => ⟨deps, ?_⟩) fun _ _ =>
    moves_setDependency (fun none => absurd none (by simp)) others)
  have reworked := reworked_removePackage grounded.aims package
  exact ⟨grounded.reworked package reworked, spares_of_way reworked.touched package others⟩

-- Whatever is asked to be removed, the workspace stays in order.
theorem moves_remove_askable (askable : Askable name) :
    Moves (Step w top fun _ => False) (remove w name) h := by
  refine moves_afterPause (moves_andThen (moves_onFiles fun deps grounded => ⟨deps, ?_⟩) fun _ _ =>
    moves_setDependency (fun none => absurd none (by simp)) fun _ impossible => impossible.elim)
  exact ⟨grounded.removePackage askable, fun _ _ impossible => impossible.elim,
    fun _ impossible => impossible.elim⟩

end Shelf

/-! ### Time -/

namespace Shelf

-- How long each pause is.
def pauseTime (h : Host) : Nat := h.shelf.delay.getD 0

theorem time_afterPause (next : Unit → Job Host α) (h : Host) :
    (pause.bind next).time h = pauseTime h + (next ()).time h := by
  have paused : pause.time h = pauseTime h := by
    show (pauseOn h.shelf).time h = _
    unfold pauseOn pauseTime
    cases h.shelf.delay with
    | none => rfl
    | some time => exact Nat.add_zero time
  rw [Task.time_bind, paused, run_pause_done]

theorem time_andThen {t : Job Host (Attempt α)} {next : α → Job Host (Attempt β)} {most : Nat}
    (rest : ∀ a, (t.run h).1 = .ok a → (next a).time (t.run h).2 ≤ most) :
    (andThen t next).time h ≤ t.time h + most := by
  rw [andThen, Task.time_bind]
  cases result : (t.run h).1 with
  | ok a => exact Nat.add_le_add_left (rest a result) _
  | error fault => exact Nat.add_le_add_left (Nat.zero_le most) _

theorem time_andThen_ok {t : Job Host (Attempt α)} {next : α → Job Host (Attempt β)} {a : α}
    (done : t.run h = (.ok a, h')) : (andThen t next).time h = t.time h + (next a).time h' := by
  rw [andThen, Task.time_bind, done]

-- Work on the files takes no time, and the shelf stays as it is.
theorem time_afterFiles {f : Tree → Attempt α × Tree} {next : α → Job Host (Attempt β)}
    {most : Nat} (rest : ∀ a files, (next a).time { h with files } ≤ most) :
    (andThen (onFiles f) next).time h ≤ most := by
  have bound := time_andThen (t := onFiles f) (h := h) fun a _ => rest a (f h.files).2
  have none : (onFiles f).time h = 0 := rfl
  rwa [none, Nat.zero_add] at bound

theorem time_setDependency (w : Workspace) (name : String) (source : Option String) (h : Host) :
    (setDependency w name source).time h ≤ pauseTime h := by
  refine time_afterFiles fun manifest files => ?_
  rw [time_afterPause]
  exact Nat.le_refl _

theorem time_put (w : Workspace) (p : Item) (source : String) (h : Host) :
    (put w p source).time h ≤ pauseTime h :=
  time_afterFiles fun _ files => time_setDependency w p.name (some source) { h with files }

theorem time_find {f : Shelf → Except ShelfFault Item} {next : Item → Job Host (Attempt β)}
    {most : Nat} (rest : ∀ p, (next p).time h ≤ most) : (andThen (find f) next).time h ≤ most := by
  have bound := time_andThen (t := find f) (h := h) fun p _ => rest p
  have none : (find f).time h = 0 := rfl
  rwa [none, Nat.zero_add] at bound

theorem time_add (w : Workspace) (spec : String) (h : Host) :
    (add w spec).time h ≤ 2 * pauseTime h := by
  have rest : (andThen (find (·.resolve spec)) fun p => put w p ("^" ++ p.version)).time h
      ≤ pauseTime h := time_find fun p => time_put w p _ h
  rw [add, time_afterPause]
  omega

theorem time_setDependency_ok {source : Option String}
    (done : (setDependency w name source).run h = (.ok (), h')) :
    (setDependency w name source).time h = pauseTime h := by
  obtain ⟨manifest, middle, read, -⟩ := run_andThen done
  obtain ⟨-, rfl⟩ := Prod.mk.inj read
  rw [setDependency, time_andThen_ok read, time_afterPause]
  exact Nat.zero_add _

-- What was added took both pauses.
theorem time_add_ok {spec : String} (done : (add w spec).run h = (.ok (), h')) :
    (add w spec).time h = 2 * pauseTime h := by
  rw [add, run_pause] at done
  obtain ⟨p, middle, found, installed⟩ := run_andThen done
  obtain ⟨-, rfl⟩ := run_find found
  obtain ⟨⟨⟩, placed, wrote, listed⟩ := run_andThen installed
  obtain ⟨-, rfl⟩ := Prod.mk.inj wrote
  have files : (onFiles fun t => ((p.writeTo w t).1.mapError ManagerFault.file,
      (p.writeTo w t).2)).time middle = 0 := rfl
  have search : (find (·.resolve spec)).time middle = 0 := rfl
  rw [add, time_afterPause, time_andThen_ok found, put, time_andThen_ok wrote,
    time_setDependency_ok listed, files, search, Nat.zero_add, Nat.zero_add, Nat.two_mul]
  rfl

theorem time_addArchive (w : Workspace) (path : String) (h : Host) :
    (addArchive w path).time h ≤ 2 * pauseTime h := by
  have rest : (andThen (find (·.findArchive path)) fun p =>
      andThen (put w p ("file:" ++ path)) fun () => .done (.ok p.name)).time h ≤ pauseTime h := by
    refine time_find fun p => ?_
    have bound : (andThen (put w p ("file:" ++ path)) fun () => .done (.ok p.name)).time h
        ≤ (put w p ("file:" ++ path)).time h + 0 := time_andThen fun _ _ => Nat.le_refl 0
    exact bound.trans (time_put w p _ h)
  rw [addArchive, time_afterPause]
  omega

theorem time_remove (w : Workspace) (name : String) (h : Host) :
    (remove w name).time h ≤ 2 * pauseTime h := by
  have rest : (andThen (onFiles (removePackage w name)) fun () => setDependency w name none).time h
      ≤ pauseTime h := time_afterFiles fun _ files => time_setDependency w name none { h with files }
  rw [remove, time_afterPause]
  omega

end Shelf

end Package

end Flowgate
