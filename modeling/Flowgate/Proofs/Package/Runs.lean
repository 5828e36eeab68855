import Flowgate.Proofs.Package.Jobs
import Flowgate.Proofs.Package.Refinement

/-!
Operations of a registry that run alone, whatever comes of them: a call of the package manager, then
a look at what it installed, which is recorded or undone. Whatever fails, the workspace stays in order.
-/

namespace Flowgate.Package

open File (Place Tree)

/-! ### Operations as equations -/

namespace Registry

-- A call of the package manager with its result, that of the limit if it is reached.
def call (r : Registry) (what : String) (t : Job Host (Attempt α)) (h : Host) : Attempt α × Host :=
  (Task.within (.error (.timedOut what r.timeoutSecs)) r.limit t).run h

def removal (r : Registry) (name : String) (h : Host) : Host :=
  (r.call ("removing '" ++ name ++ "'") (r.manager.remove name) h).2

-- What becomes of a package that was added: it is loaded and recorded, or given up.
def settle (r : Registry) (name : String) (isLocal : Bool) (giveUp : Host → Host) (w : World) :
    Outcome Schema × World :=
  match r.loadSchema w.host.files name isLocal with
  | .ok s => (.ok s, { w with catalog := w.catalog.insert s })
  | .error e => (.error e, { w with host := giveUp w.host })

-- What is done about a package that cannot be loaded after its version was changed.
def retreat (r : Registry) (name : String) (former : Option String) (h : Host) : Host :=
  match former with
  | none => r.removal name h
  | some version =>
    (r.call ("restoring '" ++ (name ++ "@" ++ version) ++ "'")
      (r.manager.add (name ++ "@" ++ version)) h).2

-- An installation from what the package manager is asked for.
def adding (r : Registry) (name spec : String) (next : World → Outcome Schema × World) (w : World) :
    Outcome Schema × World :=
  match r.call ("installing '" ++ spec ++ "'") (r.manager.add spec) w.host with
  | (.error fault, host) => (.error (.install name fault.message), { w with host })
  | (.ok (), host) => next { w with host }

variable (r : Registry) (name : String) (w : World)

theorem inWorkspace_run (what : String) (t : Job Host (Attempt α)) :
    (r.inWorkspace what t).run w
      = ((r.call what t w.host).1, { w with host := (r.call what t w.host).2 }) := by
  rw [inWorkspace, Task.run_holding, run_onHost]
  rfl

theorem record_run (t : Job World (Outcome Schema)) :
    (record t).run w = match t.run w with
      | (.ok s, w) => (.ok s, { w with catalog := w.catalog.insert s })
      | (.error e, w) => (.error e, w) := by
  rw [record, Task.run_bind]
  cases t.run w with
  | mk result next => cases result <;> rfl

theorem loadNow_run (isLocal : Bool) :
    (r.loadNow name isLocal).run w = (r.loadSchema w.host.files name isLocal, w) := by
  rw [loadNow, Task.run, Task.run]

theorem record_load_run {undo : Job World β} {giveUp : Host → Host}
    (undone : ∀ w, (undo.run w).2 = { w with host := giveUp w.host }) (isLocal : Bool) :
    (record ((r.loadNow name isLocal).bind fun
      | .ok s => .done (.ok s)
      | .error e => undo.bind fun _ => .done (.error e))).run w = r.settle name isLocal giveUp w := by
  rw [record_run, Task.run_bind, loadNow_run]
  unfold settle
  dsimp only
  generalize r.loadSchema w.host.files name isLocal = found
  cases found with
  | ok s => rfl
  | error e =>
    dsimp only
    rw [Task.run_bind, undone]
    rfl

theorem loadOrRemove_run (isLocal : Bool) :
    (record (r.loadOrRemove name isLocal)).run w = r.settle name isLocal (r.removal name) w := by
  apply record_load_run
  intro w
  rw [inWorkspace_run]
  rfl

theorem loadOrRestore_run (former : Option String) :
    (record (r.loadOrRestore name former)).run w = r.settle name false (r.retreat name former) w := by
  cases former with
  | none => exact r.loadOrRemove_run name w false
  | some version =>
    apply record_load_run
    intro w
    rw [inWorkspace_run]
    rfl

theorem installing_run (spec : String) (next : Job World (Outcome Schema)) :
    (r.installing name spec next).run w = r.adding name spec next.run w := by
  rw [installing, Task.run_bind, inWorkspace_run, adding]
  cases r.call ("installing '" ++ spec ++ "'") (r.manager.add spec) w.host with
  | mk result host => cases result <;> rfl

theorem install_run (version : Option String) :
    (r.install name version).run w
      = r.adding name (installSpec name version) (r.settle name false (r.removal name)) w := by
  rw [install, Task.run_holding, installing_run]
  congr 1
  funext w
  exact r.loadOrRemove_run name w false

theorem installArchive_run (path : String) :
    (r.installArchive path).run w
      = match r.call ("installing '" ++ path ++ "'") (r.manager.addArchive path) w.host with
        | (.error fault, host) => (.error (.install path fault.message), { w with host })
        | (.ok name, host) => r.settle name true (r.removal name) { w with host } := by
  rw [installArchive, Task.run_bind, fetchArchive, Task.run_holding, Task.run_bind, inWorkspace_run]
  cases r.call ("installing '" ++ path ++ "'") (r.manager.addArchive path) w.host with
  | mk result host =>
    cases result with
    | error fault => rfl
    | ok name =>
      have adopted := r.loadOrRemove_run name { w with host } true
      rw [← Task.run_holding (.package name)] at adopted
      exact adopted

-- The versions on the shelf are known at once.
theorem change_run (ws : Workspace) (secs : Nat) (version : String) :
    ((ofShelf ws secs).change name version).run w
      = if version ∈ w.host.shelf.versions name then
          (ofShelf ws secs).adding name (name ++ "@" ++ version)
            ((ofShelf ws secs).settle name false
              ((ofShelf ws secs).retreat name ((w.catalog.module? name).map (·.version)))) w
        else (.error (.version name version), w) := by
  have listed : ((ofShelf ws secs).bounded ("listing versions of '" ++ name ++ "'")
      ((ofShelf ws secs).index.versions name)).run w = (.ok (w.host.shelf.versions name), w) := rfl
  rw [change, Task.run_holding, Task.run_bind, listed]
  by_cases known : version ∈ w.host.shelf.versions name
  · simp only [known, if_true, Task.run, installing_run]
    congr 1
    funext next
    exact (ofShelf ws secs).loadOrRestore_run name next _
  · simp only [known, if_false]
    rfl

theorem remove_run :
    (r.remove name).run w = match r.workspace.dependencies w.host.files with
      | .error fault => (.error (.remove name fault.message), w)
      | .ok deps =>
        if Entries.contains deps name then
          match r.call ("removing '" ++ name ++ "'") (r.manager.remove name) w.host with
          | (.error fault, host) => (.error (.remove name fault.message), { w with host })
          | (.ok (), host) => (.ok (), { host, catalog := w.catalog.erase name })
        else if Entries.contains w.catalog.modules name then
          (.ok (), { w with catalog := w.catalog.erase name })
        else (.ok (), w) := by
  have listed : (r.isListed name).run w
      = ((r.workspace.dependencies w.host.files).map (Entries.contains · name), w) := by
    rw [isListed, Task.run_holding]
    rfl
  rw [remove, Task.run_holding, Task.run, Task.run_bind, listed]
  cases r.workspace.dependencies w.host.files with
  | error fault => rfl
  | ok deps =>
    cases known : Entries.contains deps name with
    | true =>
      simp only [Except.map, known, Task.run_bind, inWorkspace_run]
      cases r.call ("removing '" ++ name ++ "'") (r.manager.remove name) w.host with
      | mk result host => cases result <;> rfl
    | false =>
      simp only [Except.map, known]
      cases Entries.contains w.catalog.modules name <;> rfl

-- The limit is long enough for what a call pauses.
def Unhurried (r : Registry) (h : Host) : Prop := 2 * Shelf.pauseTime h ≤ r.limit

theorem Unhurried.call {r : Registry} (unhurried : r.Unhurried h) {what : String}
    {t : Job Host (Attempt α)} (short : t.time h ≤ 2 * Shelf.pauseTime h) :
    r.call what t h = t.run h :=
  Task.run_within_of_time _ (Nat.le_trans short unhurried)

-- What was added within the limit leaves time for another call.
theorem unhurried_of_added {ws : Workspace} {secs : Nat} {what spec : String} {h h' : Host}
    (done : (ofShelf ws secs).call what (Shelf.add ws spec) h = (.ok (), h')) :
    (ofShelf ws secs).Unhurried h := by
  have added : (Shelf.add ws spec).run h = (.ok (), h') :=
    run_within_ok (fun _ same => by cases same) done
  have inTime : (Shelf.add ws spec).time h ≤ (ofShelf ws secs).limit := by
    rcases Task.time_le_or_late (.error (.timedOut what secs)) (ofShelf ws secs).limit
      (Shelf.add ws spec) h with short | late
    · exact short
    · have result := congrArg Prod.fst done
      rw [call] at result
      cases late.symm.trans result
  rwa [Shelf.time_add_ok added] at inTime

end Registry

end Flowgate.Package
