import Flowgate.Proofs.Package.Completion
import Flowgate.Proofs.Task.Sections

/-!
Calls on one package among others that are at work in the same workspace. The lock of the workspace
guards its files and the shelf: a call that succeeds leaves the package listed if it can be loaded.
-/

namespace Flowgate

/-! ### Jobs without locks -/

namespace Package

open Flowgate.Task (Uses Moves)

variable {kind : Lock → Prop}

theorem uses_act {σ α : Type} (f : σ → α × σ) : (Task.act f : Job σ α).Uses kind := fun _ => trivial

theorem uses_andThen {σ α β : Type} {t : Job σ (Attempt α)} {next : α → Job σ (Attempt β)}
    (first : t.Uses kind) (rest : ∀ a, (next a).Uses kind) : (andThen t next).Uses kind := by
  refine first.bind fun result => ?_
  cases result with
  | ok a => exact rest a
  | error fault => trivial

namespace Shelf

theorem uses_pause {next : Unit → Job Host α} (rest : (next ()).Uses kind) :
    (pause.bind next).Uses kind := by
  refine Uses.bind (fun h => ?_) fun _ => rest
  show (pauseOn h.shelf).Uses kind
  unfold pauseOn
  cases h.shelf.delay with
  | none => trivial
  | some time => trivial

theorem uses_setDependency (w : Workspace) (name : String) (source : Option String) :
    (setDependency w name source).Uses kind :=
  uses_andThen (uses_act _) fun _ => uses_pause (uses_act _)

theorem uses_put (w : Workspace) (p : Item) (source : String) : (put w p source).Uses kind :=
  uses_andThen (uses_act _) fun _ => uses_setDependency w p.name (some source)

theorem uses_add (w : Workspace) (spec : String) : (add w spec).Uses kind :=
  uses_pause (uses_andThen (fun _ => trivial) fun p => uses_put w p _)

theorem uses_addArchive (w : Workspace) (path : String) : (addArchive w path).Uses kind :=
  uses_pause (uses_andThen (fun _ => trivial) fun p =>
    uses_andThen (uses_put w p _) fun _ => trivial)

theorem uses_remove (w : Workspace) (name : String) : (remove w name).Uses kind :=
  uses_pause (uses_andThen (uses_act _) fun _ => uses_setDependency w name none)

end Shelf

/-! ### The section -/

open File (Place Tree)

-- The files are in order, and the shelf is the one of a stock.
structure Kempt (w : Workspace) (top : Place) (s : Stock) (h : Host) : Prop where
  shelf : h.shelf = s.shelf
  grounded : ∃ deps, Grounded w top h.files deps

-- A package that can be loaded calls itself by its name and is listed.
def Declared (w : Workspace) (name : String) (t : Tree) : Prop :=
  ∀ found, load t (w.packageDir name) = .ok found →
    found.1.name = name ∧ ∃ source, w.source? t name = some source

def workspaceGuard (w : Workspace) (top : Place) (s : Stock) (name : String) :
    Guard Lock World Host where
  lock := .workspace
  part := World.host
  order world := Kempt w top s world.host ∧ world.catalog.Keyed
  whole h := Declared w name h.files

variable {w : Workspace} {top : Place} {s : Stock} {h h' : Host} {name : String} {kept : Prop}
  {world : World} {packages : String → Prop} {α β : Type}

theorem Kempt.step (kempt : Kempt w top s h) (step : Step w top packages h h') :
    Kempt w top s h' where
  shelf := step.shelf.trans kempt.shelf
  grounded := by
    obtain ⟨deps, grounded⟩ := kempt.grounded
    obtain ⟨deps', grounded', -⟩ := step.moved deps grounded
    exact ⟨deps', grounded'⟩

-- What was put into the workspace is listed with its source, whatever was there.
theorem Kempt.puts (kempt : Kempt w top s h) (named : s.WellNamed) {p : Item} (among : p ∈ s.items)
    (own : name = p.name) {source : String} {files : Tree}
    (puts : Shelf.Puts w p source h.files files) :
    Kempt w top s { h with files } ∧ Declared w name files ∧ w.source? files name = some source := by
  subst own
  obtain ⟨deps, grounded⟩ := kempt.grounded
  obtain ⟨grounded', stored, -⟩ := grounded.puts (named.packages p among) (named.nodes p among) puts
  have listed : w.source? files p.name = some source := by
    rw [grounded'.source?, Entries.get?_change, if_pos rfl]
  refine ⟨⟨kempt.shelf, _, grounded'⟩, fun found loaded => ?_, listed⟩
  rw [Item.load_of_stored stored] at loaded
  split at loaded
  · cases loaded
  · cases loaded
    exact ⟨rfl, source, listed⟩

-- A package that was removed has left no manifest.
theorem Grounded.unloadable {t cleared files : Tree} {deps : Entries String}
    (grounded : Grounded w top t deps) (package : PackageName name)
    (taken : Shelf.removePackage w name t = (.ok (), cleared))
    (sets : Shelf.Sets w name none cleared files) (found : Manifest × Loaded) :
    load files (w.packageDir name) ≠ .ok found := by
  intro done
  obtain ⟨text, manifest⟩ := find_of_load done
  obtain ⟨grounded', relisted⟩ := grounded.takes package taken sets
  have located := locate_of_manifest grounded'.aims package manifest
  obtain ⟨-, -, here⟩ := walks_of_manifest grounded'.aims package manifest
  rw [at?_of_manifest relisted (List.prefix_refl _)] at here
  unfold Shelf.removePackage at taken
  simp only at taken
  split at taken
  · split at taken
    · cases taken
    · rename_i emptied removed
      cases taken
      obtain rfl := removed_eq grounded.aims package removed
      rw [File.Tree.at?_removed t (by simp [way]), if_pos (List.prefix_refl _)] at here
      cases here
  · rename_i absent
    cases taken
    have there := locate_packageDir grounded'.aims package located grounded.aims
      (grounded.sound _ _ here)
    exact absent (Workspace.isThere_iff.mpr ⟨_, File.Tree.find_eq_ok_iff.mpr ⟨_, there, here⟩⟩)

namespace Registry

-- A job of the package manager within the section: what it does is what it does alone.
theorem heeds_onHost {t : Job Host α} (free : t.Uses fun _ => False) {f : α → Job World Bool}
    {before : Host} (keyed : world.catalog.Keyed)
    (pauses : ∀ h ∈ t.pauses world.host, Kempt w top s h)
    (onward : ∀ world' : World, world'.catalog.Keyed → world'.host = (t.run world.host).2 →
      (f (t.run world.host).1).Heeds (workspaceGuard w top s name) (some before) kept world') :
    ((onHost t).bind f).Heeds (workspaceGuard w top s name) (some before) kept world := by
  induction t generalizing world with
  | done a => exact onward world keyed rfl
  | look next ih => exact ih world.host (free world.host) keyed pauses onward
  | put h next ih => exact ⟨nofun, ih free keyed pauses onward⟩
  | pause time next ih =>
    refine ⟨⟨pauses _ List.mem_cons_self, keyed⟩, fun world' order same => ?_⟩
    have host : world'.host = world.host := same (by simp)
    apply ih free order.2
    · rw [host]
      exact fun h later => pauses h (List.mem_cons_of_mem _ later)
    · rw [host]
      exact onward
  | acquire lock next ih => exact free.1.elim
  | release lock next ih => exact free.1.elim

/-! ### The locks of a call -/

section

variable {r : Registry}

theorem uses_inWorkspace {what : String} {t : Job Host (Attempt α)} (uses : t.Uses (· = .workspace)) :
    (r.inWorkspace what t).Uses (· = .workspace) :=
  ⟨rfl, ((uses.within _ _).onPart _ _).bind fun _ => ⟨rfl, trivial⟩⟩

theorem uses_record {t : Job World (Outcome Schema)} (uses : t.Uses (· = .workspace)) :
    (record t).Uses (· = .workspace) := by
  refine uses.bind fun outcome => ?_
  cases outcome with
  | ok schema => exact fun _ => trivial
  | error e => trivial

end

/-! ### Each call -/

-- Whether an operation succeeds.
def succeeded (t : Job World (Outcome α)) : Job World Bool :=
  t.bind fun outcome => .done outcome.isOk

-- What a call does under its own lock: it takes no other but that of the workspace, and heeds it.
structure Attends (w : Workspace) (top : Place) (s : Stock) (name : String) (kept : Prop)
    (t : Job World (Outcome α)) : Prop where
  uses : t.Uses (· = .workspace)
  heeds : ∀ world, (workspaceGuard w top s name).order world →
    (succeeded t).Heeds (workspaceGuard w top s name) none kept world

theorem Attends.behaves {t : Job World (Outcome α)} (attends : Attends w top s name kept t)
    (lock : Lock) :
    Task.Behaves (workspaceGuard w top s name) lock kept (succeeded (t.holding lock))
      (succeeded t) where
  holds := Task.holding_bind _ _ _
  uses := attends.uses.bind fun _ => trivial
  heeds := attends.heeds

-- A call of the package manager, and what follows its success.
theorem attends_inWorkspace {r : Registry} {what : String} {t : Job Host (Attempt α)}
    {f : Attempt α → Job World (Outcome β)} (uses : ∀ kind, t.Uses kind)
    (moves : ∀ h, Kempt w top s h → Moves (Step w top fun _ => False) t h)
    (fails : ∀ fault, ∃ e, f (.error fault) = .done (.error e))
    (later : ∀ a, (f (.ok a)).Uses (· = .workspace))
    (onward : ∀ a before after, Kempt w top s before → t.run before = (.ok a, after) →
      ∀ world, (workspaceGuard w top s name).order world →
        (succeeded (f (.ok a))).Heeds (workspaceGuard w top s name) none
          ((kept ∧ (Declared w name before.files → Declared w name after.files)) ∨
            Declared w name after.files) world) :
    Attends w top s name kept ((r.inWorkspace what t).bind f) := by
  refine ⟨(uses_inWorkspace (uses _)).bind fun result => ?_, fun world order => ?_⟩
  · cases result with
    | ok a => exact later a
    | error fault =>
      obtain ⟨e, fails⟩ := fails fault
      rw [fails]
      trivial
  · refine ⟨rfl, rfl, order, fun entered order' => ?_⟩
    rw [Task.bind_assoc, Task.bind_assoc]
    refine heeds_onHost ((uses _).within _ _) order'.2 (fun h paused => ?_) fun ended keyed host => ?_
    · have among := Task.pauses_within _ _ _ _ h paused
      exact order'.1.step ((moves entered.host order'.1).pauses h among)
    · have kempt : Kempt w top s ended.host := by
        rw [host]
        exact order'.1.step ((moves entered.host order'.1).within _ _)
      refine ⟨rfl, ⟨kempt, keyed⟩, entered.host, rfl, fun world' order'' _ => ?_⟩
      change ended.host = (r.call what t entered.host).2 at host
      change Task.Heeds _ (succeeded (f (r.call what t entered.host).1)) none _ world'
      cases called : r.call what t entered.host with
      | mk result after =>
        rw [called] at host
        cases result with
        | ok a =>
          have host : ended.host = after := host
          have next := onward a entered.host after order'.1 (run_of_call called) world' order''
          rwa [← host] at next
        | error fault =>
          obtain ⟨e, fails⟩ := fails fault
          simp only [fails]
          exact ⟨rfl, order'', nofun⟩

-- Loads a package, or does something about it and fails.
def loadOr (r : Registry) (name : String) (isLocal : Bool) (undo : Job World (Attempt α)) :
    Job World (Outcome Schema) :=
  (r.loadNow name isLocal).bind fun
    | .ok schema => .done (.ok schema)
    | .error e => undo.bind fun _ => .done (.error e)

theorem attends_loadOr {r : Registry} {isLocal : Bool} {what : String} {t : Job Host (Attempt α)}
    (uses : ∀ kind, t.Uses kind)
    (moves : ∀ h, Kempt w top s h → Moves (Step w top fun _ => False) t h) :
    Attends w top s name True (record (r.loadOr name isLocal (r.inWorkspace what t))) := by
  have undoes (e : ModuleError) : Attends w top s name True
      ((r.inWorkspace what t).bind fun _ => .done (.error e) : Job World (Outcome Schema)) :=
    attends_inWorkspace uses moves (fun _ => ⟨e, rfl⟩) (fun _ => trivial)
      fun _ _ _ _ _ _ order => ⟨rfl, order, nofun⟩
  refine ⟨uses_record fun world => ?_, fun world order => ?_⟩
  · simp only [Task.bind]
    cases r.loadSchema world.host.files name isLocal with
    | ok schema => trivial
    | error e => exact (undoes e).uses
  · simp only [succeeded, record, loadOr, loadNow, Task.bind, Task.Heeds]
    cases loaded : r.loadSchema world.host.files name isLocal with
    | ok schema =>
      have keyed := Catalog.keyed_insert order.2 (id_of_loadSchema loaded)
      exact ⟨fun _ => rfl, rfl, ⟨order.1, keyed⟩, fun _ => trivial⟩
    | error e =>
      have heeds := (undoes e).heeds world order
      unfold succeeded at heeds
      rw [Task.bind_assoc] at heeds
      dsimp only
      rw [Task.bind_assoc, Task.bind_assoc]
      exact heeds

variable {secs : Nat}

theorem attends_loadOrRemove (package : PackageName name) (isLocal : Bool) :
    Attends w top s name True (record ((ofShelf w secs).loadOrRemove name isLocal)) :=
  attends_loadOr (r := ofShelf w secs) (fun _ => Shelf.uses_remove w name)
    fun _ _ => Shelf.moves_remove package fun _ => False.elim

theorem attends_loadOrRestore (named : s.WellNamed) (package : PackageName name)
    (former : Option String) :
    Attends w top s name True (record ((ofShelf w secs).loadOrRestore name former)) := by
  cases former with
  | none => exact attends_loadOrRemove package false
  | some version =>
    exact attends_loadOr (r := ofShelf w secs)
      (fun _ => Shelf.uses_add w (name ++ "@" ++ version))
      fun _ kempt => Shelf.moves_add named kempt.shelf fun _ _ _ => False.elim

theorem attends_installing {other spec : String} {next : Job World (Outcome Schema)}
    (named : s.WellNamed) (own : ∀ q, s.shelf.resolve spec = .ok q → name = q.name)
    (onward : Attends w top s name True next) :
    Attends w top s name True ((ofShelf w secs).installing other spec next) := by
  refine attends_inWorkspace (fun _ => Shelf.uses_add w spec)
    (fun _ kempt => Shelf.moves_add named kempt.shelf fun _ _ _ => False.elim)
    (fun _ => ⟨_, rfl⟩) (fun _ => onward.uses) ?_
  intro done before after kempt added world order
  obtain ⟨q, files, resolved, puts, rfl⟩ := Shelf.run_add added
  rw [kempt.shelf] at resolved
  obtain ⟨-, declared, -⟩ :=
    kempt.puts named (Stock.mem_of_resolve resolved) (own q resolved) puts
  exact (onward.heeds world order).mono fun _ => .inr declared

theorem attends_addArchive (named : s.WellNamed) (path : String)
    (own : ∀ q, s.shelf.findArchive path = .ok q → name = q.name) (f : ManagerFault → ModuleError) :
    Attends w top s name False
      (((ofShelf w secs).inWorkspace ("installing '" ++ path ++ "'") (Shelf.addArchive w path)).bind
        fun added => .done (added.mapError f) : Job World (Outcome String)) := by
  refine attends_inWorkspace (fun _ => Shelf.uses_addArchive w path)
    (fun _ kempt => Shelf.moves_addArchive named kempt.shelf fun _ _ _ => False.elim)
    (fun _ => ⟨_, rfl⟩) (fun _ => trivial) ?_
  intro other before after kempt added world order
  obtain ⟨q, files, found, -, puts, rfl⟩ := Shelf.run_addArchive added
  rw [kempt.shelf] at found
  have among := Stock.mem_of_archive? (Stock.archive?_of_findArchive found)
  obtain ⟨-, declared, -⟩ := kempt.puts named among (own q found) puts
  exact ⟨rfl, order, fun _ => .inr declared⟩

theorem attends_forget (holds : kept) :
    Attends w top s name kept ((changeCatalog (·.erase name)).bind fun () => .done (.ok ())) where
  uses _ := trivial
  heeds _ order := ⟨fun _ => rfl, rfl, ⟨order.1, Catalog.keyed_erase order.2 name⟩, fun _ => holds⟩

theorem attends_removal (secs : Nat) (package : PackageName name) :
    Attends w top s name True (((ofShelf w secs).inWorkspace ("removing '" ++ name ++ "'")
      (Shelf.remove w name)).bind fun
      | .error fault => .done (.error (.remove name fault.message))
      | .ok () => (changeCatalog (·.erase name)).bind fun () => .done (.ok ())) := by
  refine attends_inWorkspace (fun _ => Shelf.uses_remove w name)
    (fun _ _ => Shelf.moves_remove package fun _ => False.elim) (fun _ => ⟨_, rfl⟩)
    (fun _ _ => trivial) ?_
  intro done before after kempt removed world order
  obtain ⟨cleared, files, taken, sets, rfl⟩ := Shelf.run_remove removed
  obtain ⟨deps, grounded⟩ := kempt.grounded
  refine (attends_forget (.inr ?_)).heeds world order
  exact fun found loaded => absurd loaded (grounded.unloadable package taken sets found)

theorem behaves_fetchArchive (named : s.WellNamed) (path : String)
    (own : ∀ q, s.shelf.findArchive path = .ok q → name = q.name) :
    ∃ work, Task.Behaves (workspaceGuard w top s name) (.package ("file:" ++ path)) False
      (succeeded ((ofShelf w secs).fetchArchive path)) work :=
  ⟨_, (attends_addArchive named path own _).behaves _⟩

theorem behaves_adopt (package : PackageName name) :
    ∃ work, Task.Behaves (workspaceGuard w top s name) (.package name) True
      (succeeded ((ofShelf w secs).adopt name)) work :=
  ⟨_, (attends_loadOrRemove package true).behaves _⟩

theorem behaves_install (named : s.WellNamed) (package : PackageName name) (version : Option String) :
    ∃ work, Task.Behaves (workspaceGuard w top s name) (.package name) True
      (succeeded ((ofShelf w secs).install name version)) work := by
  have installs : Attends w top s name True ((ofShelf w secs).installing name
      (installSpec name version) (record ((ofShelf w secs).loadOrRemove name false))) :=
    attends_installing named (fun q => Stock.name_of_installSpec named package.unversioned)
      (attends_loadOrRemove package false)
  exact ⟨_, installs.behaves _⟩

theorem behaves_change (named : s.WellNamed) (package : PackageName name) (version : String) :
    ∃ work, Task.Behaves (workspaceGuard w top s name) (.package name) True
      (succeeded ((ofShelf w secs).change name version)) work := by
  have installs (former : Option String) : Attends w top s name True ((ofShelf w secs).installing name
      (name ++ "@" ++ version) (record ((ofShelf w secs).loadOrRestore name former))) :=
    attends_installing named (fun q => Stock.name_of_version named package)
      (attends_loadOrRestore named package former)
  refine ⟨_, Attends.behaves ?_ _⟩
  refine ⟨fun world => ?_, fun world order => ?_⟩
  · show Task.Uses _ (if version ∈ world.host.shelf.versions name then _ else _)
    split
    · exact fun _ => (installs _).uses
    · trivial
  · show Task.Heeds _ (Task.bind (if version ∈ world.host.shelf.versions name then _ else _) _) _ _ _
    split
    · exact (installs _).heeds world order
    · exact ⟨rfl, order, nofun⟩

theorem behaves_remove (package : PackageName name) :
    ∃ work, Task.Behaves (workspaceGuard w top s name) (.package name) True
      (succeeded ((ofShelf w secs).remove name)) work := by
  have removes : Attends w top s name True _ := attends_removal secs package
  refine ⟨_, Attends.behaves ?_ _⟩
  refine ⟨fun world => ?_, fun world order => ?_⟩
  · refine Uses.bind ⟨rfl, fun _ => ⟨rfl, trivial⟩⟩ fun listed => ?_
    match listed with
    | .error fault => trivial
    | .ok true => exact removes.uses
    | .ok false =>
      show Task.Uses _ (if _ then _ else _)
      split
      · exact fun _ => trivial
      · trivial
  · refine ⟨rfl, rfl, order, fun world₁ order₁ => ⟨rfl, order₁, world₁.host, rfl,
      fun world₂ order₂ _ => ?_⟩⟩
    suffices onward : Task.Heeds _ _ none True world₂ from onward.mono fun _ => .inl ⟨trivial, id⟩
    cases ((ofShelf w secs).workspace.dependencies world₁.host.files).map (Entries.contains · name) with
    | error fault => exact ⟨rfl, order₂, nofun⟩
    | ok listed =>
      cases listed with
      | true => exact removes.heeds world₂ order₂
      | false =>
        show Task.Heeds _ (Task.bind (if _ then _ else _) _) _ _ _
        split
        · exact (attends_forget trivial).heeds world₂ order₂
        · exact ⟨rfl, order₂, fun _ => trivial⟩

end Registry

end Package

end Flowgate
