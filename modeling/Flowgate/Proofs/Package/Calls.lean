import Flowgate.Proofs.Package.Effects
import Flowgate.Proofs.Task.Pauses
import Flowgate.Proofs.Traversal

/-!
Calls that succeed: what a package manager did to the files, and what the registry then loaded and
recorded. A call that was stopped for its time does not succeed, so a limit has no say here.
-/

namespace Flowgate

namespace Package

open File (Tree)

theorem run_within_ok {late : Except ε α} (failed : ∀ a, late ≠ .ok a) {left : Nat}
    {t : Job σ (Except ε α)} {s s' : σ} {a : α}
    (done : (Task.within late left t).run s = (.ok a, s')) : t.run s = (.ok a, s') := by
  rcases Task.run_within_pauses late left t s with same | ⟨stopped, -⟩
  · rw [← same, done]
  · rw [done] at stopped
    exact absurd stopped.symm (failed a)

theorem run_andThen {t : Job σ (Attempt α)} {next : α → Job σ (Attempt β)} {s s' : σ} {b : β}
    (done : (andThen t next).run s = (.ok b, s')) :
    ∃ a middle, t.run s = (.ok a, middle) ∧ (next a).run middle = (.ok b, s') := by
  rw [andThen, Task.run_bind] at done
  cases first : t.run s with
  | mk result middle =>
    rw [first] at done
    cases result with
    | ok a => exact ⟨a, middle, rfl, done⟩
    | error fault => cases done

theorem run_andThen_ok {t : Job σ (Attempt α)} {next : α → Job σ (Attempt β)} {s s' : σ} {a : α}
    (done : t.run s = (.ok a, s')) : (andThen t next).run s = (next a).run s' := by
  rw [andThen, Task.run_bind, done]

theorem run_andThen_error {t : Job σ (Attempt α)} {next : α → Job σ (Attempt β)} {s s' : σ}
    {fault : ManagerFault} (failed : t.run s = (.error fault, s')) :
    (andThen t next).run s = (.error fault, s') := by
  rw [andThen, Task.run_bind, failed]
  rfl

theorem run_onFiles (f : Tree → α × Tree) (h : Host) :
    (onFiles f).run h = ((f h.files).1, { h with files := (f h.files).2 }) := rfl

/-! ### The package manager of the shelf -/

namespace Shelf

theorem run_pause_done (h : Host) : pause.run h = ((), h) := by
  show (h.shelf.pauseOn).run h = _
  unfold pauseOn
  cases h.shelf.delay <;> rfl

theorem run_pause (next : Unit → Job Host α) (h : Host) :
    (pause.bind next).run h = (next ()).run h := by
  rw [Task.run_bind, run_pause_done]

-- The dependency manifest was read, and written back with one entry changed.
def Sets (w : Workspace) (name : String) (source : Option String) (t t' : Tree) : Prop :=
  ∃ manifest read, readManifest w t = (.ok manifest, read) ∧
    writeManifest w (withDependency manifest name source) read = (.ok (), t')

-- A package was written into the workspace and is listed there.
def Puts (w : Workspace) (p : Item) (source : String) (t t' : Tree) : Prop :=
  ∃ placed, p.writeTo w t = (.ok (), placed) ∧ Sets w p.name (some source) placed t'

variable {w : Workspace} {h h' : Host}

theorem run_setDependency {name : String} {source : Option String}
    (done : (setDependency w name source).run h = (.ok (), h')) :
    ∃ files, Sets w name source h.files files ∧ h' = { h with files } := by
  obtain ⟨manifest, middle, read, wrote⟩ := run_andThen done
  rw [run_onFiles] at read
  obtain ⟨opened, rfl⟩ := Prod.mk.inj read
  rw [run_pause, run_onFiles] at wrote
  obtain ⟨closed, rfl⟩ := Prod.mk.inj wrote
  exact ⟨_, ⟨manifest, _, Prod.ext opened rfl, Prod.ext closed rfl⟩, rfl⟩

theorem run_put {p : Item} {source : String} (done : (put w p source).run h = (.ok (), h')) :
    ∃ files, Puts w p source h.files files ∧ h' = { h with files } := by
  obtain ⟨⟨⟩, middle, wrote, listed⟩ := run_andThen done
  rw [run_onFiles] at wrote
  obtain ⟨written, rfl⟩ := Prod.mk.inj wrote
  obtain ⟨files, sets, rfl⟩ := run_setDependency listed
  exact ⟨files, ⟨_, Prod.ext (ok_of_mapError written) rfl, sets⟩, rfl⟩

theorem run_find {f : Shelf → Except ShelfFault Item} {p : Item}
    (done : (find f).run h = (.ok p, h')) : f h.shelf = .ok p ∧ h' = h := by
  obtain ⟨found, rfl⟩ := Prod.mk.inj done
  exact ⟨ok_of_mapError found, rfl⟩

theorem run_find_error {f : Shelf → Except ShelfFault Item} {fault : ShelfFault}
    (unknown : f h.shelf = .error fault) (next : Item → Job Host (Attempt α)) :
    (andThen (find f) next).run h = (.error (.shelf fault), h) := by
  have found : (find f).run h = (.error (.shelf fault), h) := by
    show (Except.mapError _ (f h.shelf), h) = _
    rw [unknown]
    rfl
  exact run_andThen_error found

theorem run_add {spec : String} (done : (add w spec).run h = (.ok (), h')) :
    ∃ p files, h.shelf.resolve spec = .ok p ∧ Puts w p ("^" ++ p.version) h.files files ∧
      h' = { h with files } := by
  rw [add, run_pause] at done
  obtain ⟨p, middle, found, installed⟩ := run_andThen done
  obtain ⟨resolved, rfl⟩ := run_find found
  obtain ⟨files, puts, rfl⟩ := run_put installed
  exact ⟨p, files, resolved, puts, rfl⟩

theorem run_addArchive {path name : String} (done : (addArchive w path).run h = (.ok name, h')) :
    ∃ p files, h.shelf.findArchive path = .ok p ∧ p.name = name ∧
      Puts w p ("file:" ++ path) h.files files ∧ h' = { h with files } := by
  rw [addArchive, run_pause] at done
  obtain ⟨p, middle, found, installed⟩ := run_andThen done
  obtain ⟨stored, rfl⟩ := run_find found
  obtain ⟨⟨⟩, middle', wrote, named⟩ := run_andThen installed
  obtain ⟨files, puts, rfl⟩ := run_put wrote
  cases named
  exact ⟨p, files, stored, rfl, puts, rfl⟩

theorem run_remove {name : String} (done : (remove w name).run h = (.ok (), h')) :
    ∃ cleared files, removePackage w name h.files = (.ok (), cleared) ∧
      Sets w name none cleared files ∧ h' = { h with files } := by
  rw [remove, run_pause] at done
  obtain ⟨⟨⟩, middle, removed, listed⟩ := run_andThen done
  rw [run_onFiles] at removed
  obtain ⟨taken, rfl⟩ := Prod.mk.inj removed
  obtain ⟨files, sets, rfl⟩ := run_setDependency listed
  exact ⟨_, files, Prod.ext taken rfl, sets, rfl⟩

end Shelf

/-! ### The registry -/

namespace Registry

variable {r : Registry} {w w' : World}

theorem run_onHost (t : Job Host α) (w : World) :
    (onHost t).run w = ((t.run w.host).1, { w with host := (t.run w.host).2 }) := by
  have parts := Task.run_onPart World.host (fun host w => { w with host }) (fun _ _ => rfl) t w
  have kept := keeps_onHost t w
  refine Prod.ext parts.1 ?_
  show ((onHost t).run w).2 = _
  cases after : ((onHost t).run w).2 with
  | mk host catalog =>
    have same : ((onHost t).run w).2.host = (t.run w.host).2 := parts.2
    rw [after] at same kept
    simp only at same kept
    rw [same, kept]

theorem run_limited {r : Registry} {late : Except ε α} (failed : ∀ a, late ≠ .ok a)
    {t : Job Host (Except ε α)} {a : α}
    (done : (onHost (.within late r.limit t)).run w = (.ok a, w')) :
    ∃ host, t.run w.host = (.ok a, host) ∧ w' = { w with host } := by
  rw [run_onHost] at done
  obtain ⟨result, rfl⟩ := Prod.mk.inj done
  exact ⟨_, run_within_ok failed (Prod.ext result rfl), rfl⟩

theorem run_inWorkspace {what : String} {t : Job Host (Attempt α)} {a : α}
    (done : (r.inWorkspace what t).run w = (.ok a, w')) :
    ∃ host, t.run w.host = (.ok a, host) ∧ w' = { w with host } := by
  rw [inWorkspace, Task.run_holding] at done
  exact run_limited (fun _ same => by cases same) done

theorem run_bounded {what : String} {t : Job Host (Except IndexFault α)} {a : α}
    (done : (r.bounded what t).run w = (.ok a, w')) :
    ∃ host, t.run w.host = (.ok a, host) ∧ w' = { w with host } := by
  rw [bounded, Task.run_bind] at done
  obtain ⟨result, rfl⟩ := Prod.mk.inj done
  exact run_limited (fun _ same => by cases same) (Prod.ext (ok_of_mapError result) rfl)

theorem run_installing {name spec : String} {next : Job World (Outcome Schema)} {s : Schema}
    (done : (r.installing name spec next).run w = (.ok s, w')) :
    ∃ host, (r.manager.add spec).run w.host = (.ok (), host) ∧
      next.run { w with host } = (.ok s, w') := by
  rw [installing, Task.run_bind] at done
  cases first : (r.inWorkspace ("installing '" ++ spec ++ "'") (r.manager.add spec)).run w with
  | mk result middle =>
    rw [first] at done
    cases result with
    | error fault => cases done
    | ok done' =>
      obtain ⟨host, added, rfl⟩ := run_inWorkspace first
      exact ⟨host, added, done⟩

theorem run_record {t : Job World (Outcome Schema)} {s : Schema}
    (done : (record t).run w = (.ok s, w')) :
    ∃ middle, t.run w = (.ok s, middle) ∧
      w' = { middle with catalog := middle.catalog.insert s } := by
  rw [record, Task.run_bind] at done
  cases first : t.run w with
  | mk result middle =>
    rw [first] at done
    cases result with
    | error e => cases done
    | ok schema =>
      cases done
      exact ⟨middle, rfl, rfl⟩

theorem run_loadOrRemove {name : String} {isLocal : Bool} {s : Schema}
    (done : (r.loadOrRemove name isLocal).run w = (.ok s, w')) :
    r.loadSchema w.host.files name isLocal = .ok s ∧ w' = w := by
  rw [loadOrRemove, Task.run_bind] at done
  have loaded : (r.loadNow name isLocal).run w = (r.loadSchema w.host.files name isLocal, w) := rfl
  rw [loaded] at done
  cases found : r.loadSchema w.host.files name isLocal with
  | ok schema =>
    rw [found] at done
    cases done
    exact ⟨rfl, rfl⟩
  | error e =>
    rw [found] at done
    simp only [Task.run_bind] at done
    cases done

theorem run_loadOrRestore {name : String} {former : Option String} {s : Schema}
    (done : (r.loadOrRestore name former).run w = (.ok s, w')) :
    r.loadSchema w.host.files name false = .ok s ∧ w' = w := by
  cases former with
  | none => exact run_loadOrRemove done
  | some version =>
    rw [loadOrRestore, Task.run_bind] at done
    have loaded : (r.loadNow name false).run w = (r.loadSchema w.host.files name false, w) := rfl
    rw [loaded] at done
    cases found : r.loadSchema w.host.files name false with
    | ok schema =>
      rw [found] at done
      cases done
      exact ⟨rfl, rfl⟩
    | error e =>
      rw [found] at done
      simp only [Task.run_bind] at done
      cases done

-- A package was loaded from the files and recorded.
def Records (r : Registry) (name : String) (isLocal : Bool) (host : Host) (w w' : World) : Prop :=
  ∃ s, r.loadSchema host.files name isLocal = .ok s ∧
    w' = { host, catalog := w.catalog.insert s }

theorem run_install {name : String} {version : Option String} {s : Schema}
    (done : (r.install name version).run w = (.ok s, w')) :
    ∃ host, (r.manager.add (installSpec name version)).run w.host = (.ok (), host) ∧
      r.Records name false host w w' := by
  rw [install, Task.run_holding] at done
  obtain ⟨host, added, recorded⟩ := run_installing done
  obtain ⟨middle, loaded, rfl⟩ := run_record recorded
  obtain ⟨found, rfl⟩ := run_loadOrRemove loaded
  exact ⟨host, added, s, found, rfl⟩

theorem run_change {name version : String} {s : Schema}
    (done : (r.change name version).run w = (.ok s, w')) :
    ∃ versions asked host, (r.index.versions name).run w.host = (.ok versions, asked) ∧
      version ∈ versions ∧ (r.manager.add (name ++ "@" ++ version)).run asked = (.ok (), host) ∧
      r.Records name false host w w' := by
  rw [change, Task.run_holding, Task.run_bind] at done
  cases first : (r.bounded ("listing versions of '" ++ name ++ "'") (r.index.versions name)).run w
    with
  | mk result middle =>
    rw [first] at done
    cases result with
    | error e => cases done
    | ok versions =>
      obtain ⟨asked, listed, rfl⟩ := run_bounded first
      by_cases known : version ∈ versions
      · simp only [known, if_true, Task.run] at done
        obtain ⟨host, added, recorded⟩ := run_installing done
        obtain ⟨middle, loaded, rfl⟩ := run_record recorded
        obtain ⟨found, rfl⟩ := run_loadOrRestore loaded
        exact ⟨versions, asked, host, listed, known, added, s, found, rfl⟩
      · simp only [known, if_false] at done
        cases done

theorem run_installArchive {path : String} {s : Schema}
    (done : (r.installArchive path).run w = (.ok s, w')) :
    ∃ name host, (r.manager.addArchive path).run w.host = (.ok name, host) ∧
      r.Records name true host w w' := by
  rw [installArchive, Task.run_bind] at done
  cases first : (r.fetchArchive path).run w with
  | mk result middle =>
    rw [first] at done
    cases result with
    | error e => cases done
    | ok name =>
      rw [fetchArchive, Task.run_holding, Task.run_bind] at first
      obtain ⟨added, rfl⟩ := Prod.mk.inj first
      obtain ⟨host, stored, same⟩ := run_inWorkspace (Prod.ext (ok_of_mapError added) rfl)
      have adopted : (r.adopt name).run { w with host } = (.ok s, w') := by
        rw [← same]
        exact done
      rw [adopt, Task.run_holding] at adopted
      obtain ⟨middle, loaded, rfl⟩ := run_record adopted
      obtain ⟨found, rfl⟩ := run_loadOrRemove loaded
      exact ⟨name, host, stored, s, found, rfl⟩

-- The state after the package of an archive was installed.
def archived (r : Registry) (w : World) (path : String) : Option World :=
  match (r.installArchive path).run w with
  | (.ok _, w') => some w'
  | (.error _, _) => none

theorem length_installArchives (r : Registry) (paths : List String) (w : World) :
    ((r.installArchives paths).run w).1.length ≤ paths.length := by
  induction paths generalizing w with
  | nil => exact Nat.le_refl 0
  | cons path paths ih =>
    rw [installArchives, Task.run_bind, Task.run_bind]
    have rest := ih ((r.installArchive path).run w).2
    cases ((r.installArchive path).run w).1 with
    | ok s => exact Nat.succ_le_succ rest
    | error e => exact Nat.le_succ_of_le rest

-- A batch of which all succeed is a run of single ones.
theorem run_installArchives {paths : List String}
    (all : ((r.installArchives paths).run w).1.length = paths.length) :
    paths.foldlM r.archived w = some ((r.installArchives paths).run w).2 := by
  induction paths generalizing w with
  | nil => rfl
  | cons path paths ih =>
    rw [installArchives, Task.run_bind, Task.run_bind] at all ⊢
    rw [List.foldlM_cons, archived]
    have most := r.length_installArchives paths ((r.installArchive path).run w).2
    cases first : (r.installArchive path).run w with
    | mk outcome middle =>
      rw [first] at all most
      cases outcome with
      | ok s => exact ih (Nat.succ.inj all)
      | error e =>
        have short : ((r.installArchives paths).run middle).1.length = paths.length + 1 := all
        exact absurd short (by simp only at most; omega)

theorem run_remove {name : String} (done : (r.remove name).run w = (.ok (), w')) :
    ∃ deps, r.workspace.dependencies w.host.files = .ok deps ∧
      ((Entries.contains deps name = true ∧ ∃ host,
          (r.manager.remove name).run w.host = (.ok (), host) ∧
          w' = { host, catalog := w.catalog.erase name }) ∨
        (Entries.contains deps name = false ∧ w'.host = w.host ∧
          w'.catalog = if Entries.contains w.catalog.modules name then w.catalog.erase name
            else w.catalog)) := by
  rw [remove, Task.run_holding, Task.run, Task.run_bind] at done
  have listed : (r.isListed name).run w
      = ((r.workspace.dependencies w.host.files).map (Entries.contains · name), w) := by
    rw [isListed, Task.run_holding]
    rfl
  rw [listed] at done
  cases found : r.workspace.dependencies w.host.files with
  | error fault =>
    rw [found] at done
    cases done
  | ok deps =>
    rw [found] at done
    refine ⟨deps, rfl, ?_⟩
    cases known : Entries.contains deps name with
    | true =>
      simp only [Except.map, known, Task.run_bind] at done
      cases first : (r.inWorkspace ("removing '" ++ name ++ "'") (r.manager.remove name)).run w with
      | mk result middle =>
        rw [first] at done
        cases result with
        | error fault => cases done
        | ok done' =>
          obtain ⟨host, removed, rfl⟩ := run_inWorkspace first
          cases done
          exact .inl ⟨rfl, host, removed, rfl⟩
    | false =>
      simp only [Except.map, known] at done
      refine .inr ⟨rfl, ?_⟩
      by_cases inCatalog : Entries.contains w.catalog.modules name
      · simp only [inCatalog, if_true] at done
        cases done
        exact ⟨rfl, (if_pos inCatalog).symm⟩
      · simp only [inCatalog] at done
        cases done
        exact ⟨rfl, (if_neg inCatalog).symm⟩

end Registry

end Package

end Flowgate
