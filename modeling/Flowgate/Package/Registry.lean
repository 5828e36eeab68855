import Flowgate.Package.Catalog
import Flowgate.Package.Index

/-!
The registry of modules: it installs, switches and removes packages, and keeps the catalog in step.
A package enters the catalog only when it is installed and loaded; one that cannot be loaded is
taken out of the workspace again. Operations on one package exclude each other, and so do calls of
the package manager.
-/

namespace Flowgate.Package

inductive ModuleError where
  | install (name reason : String)
  | version (name wanted : String)
  | notFound (key : String)
  | remove (name reason : String)
  | index (reason : String)
deriving DecidableEq

def ModuleError.message : ModuleError → String
  | .install name reason => "Failed to install module '" ++ name ++ "': " ++ reason
  | .version name wanted =>
    "Version '" ++ wanted ++ "' of module '" ++ name ++ "' does not exist"
  | .notFound key => "Module '" ++ key ++ "' not found"
  | .remove name reason => "Failed to remove module '" ++ name ++ "': " ++ reason
  | .index reason => "Package index request failed: " ++ reason

structure Registry where
  workspace : Workspace
  -- The most time for one call, in seconds.
  timeoutSecs : Nat
  manager : Manager
  index : Index

-- All that operations can change.
structure World where
  host : Host
  catalog : Catalog

namespace Registry

abbrev Outcome (α : Type) := Except ModuleError α

/-! ### Calls -/

def onHost (t : Job Host α) : Job World α :=
  t.onPart World.host fun host w => { w with host }

def limit (r : Registry) : Nat := r.timeoutSecs * 1000

-- A call of the package manager, with the workspace to itself and a bound on its time.
def inWorkspace (r : Registry) (what : String) (t : Job Host (Attempt α)) :
    Job World (Attempt α) :=
  .holding .workspace
    (onHost (.within (.error (.timedOut what r.timeoutSecs)) r.limit t))

-- A call of the index, with a bound on its time.
def bounded (r : Registry) (what : String) (t : Job Host (Except IndexFault α)) :
    Job World (Outcome α) :=
  (onHost (.within (.error (.timedOut what r.timeoutSecs)) r.limit t)).bind fun found =>
    .done (found.mapError fun fault => .index fault.message)

def changeCatalog (f : Catalog → Catalog) : Job World Unit :=
  .act fun w => ((), { w with catalog := f w.catalog })

/-! ### Loading -/

def loadSchema (r : Registry) (files : File.Tree) (name : String) (isLocal : Bool) :
    Outcome Schema :=
  match load files (r.workspace.packageDir name) with
  | .error fault => .error (.install name fault.message)
  | .ok (manifest, loaded) => .ok (.ofManifest manifest isLocal (some loaded))

def loadNow (r : Registry) (name : String) (isLocal : Bool) : Job World (Outcome Schema) :=
  .look fun w => .done (r.loadSchema w.host.files name isLocal)

-- Loads a package, or takes it out of the workspace. Whether that succeeds has no say.
def loadOrRemove (r : Registry) (name : String) (isLocal : Bool) : Job World (Outcome Schema) :=
  (r.loadNow name isLocal).bind fun
    | .ok schema => .done (.ok schema)
    | .error e =>
      (r.inWorkspace ("removing '" ++ name ++ "'") (r.manager.remove name)).bind fun _ =>
        .done (.error e)

-- Loads a package, or puts its former version back.
def loadOrRestore (r : Registry) (name : String) (former : Option String) :
    Job World (Outcome Schema) :=
  match former with
  | none => r.loadOrRemove name false
  | some version =>
    (r.loadNow name false).bind fun
      | .ok schema => .done (.ok schema)
      | .error e =>
        let spec := name ++ "@" ++ version
        (r.inWorkspace ("restoring '" ++ spec ++ "'") (r.manager.add spec)).bind fun _ =>
          .done (.error e)

/-! ### Operations -/

-- Records the loaded schema of a successful operation.
def record (t : Job World (Outcome Schema)) : Job World (Outcome Schema) :=
  t.bind fun
    | .ok schema => (changeCatalog (·.insert schema)).bind fun () => .done (.ok schema)
    | .error e => .done (.error e)

def installing (r : Registry) (name spec : String) (next : Job World (Outcome Schema)) :
    Job World (Outcome Schema) :=
  (r.inWorkspace ("installing '" ++ spec ++ "'") (r.manager.add spec)).bind fun
    | .error fault => .done (.error (.install name fault.message))
    | .ok () => next

-- What is asked of the package manager; an empty version is none.
def installSpec (name : String) (version : Option String) : String :=
  match version with
  | some version => if version.isEmpty then name else name ++ "@" ++ version
  | none => name

def install (r : Registry) (name : String) (version : Option String) :
    Job World (Outcome Schema) :=
  .holding (.package name)
    (r.installing name (installSpec name version) (record (r.loadOrRemove name false)))

-- Puts the package of an archive into the workspace and gives its name. The name is not known
-- before, so the lock is that of the archive.
def fetchArchive (r : Registry) (path : String) : Job World (Outcome String) :=
  .holding (.package ("file:" ++ path))
    ((r.inWorkspace ("installing '" ++ path ++ "'") (r.manager.addArchive path)).bind fun added =>
      .done (added.mapError fun fault => .install path fault.message))

-- Records a package that an archive put into the workspace.
def adopt (r : Registry) (name : String) : Job World (Outcome Schema) :=
  .holding (.package name) (record (r.loadOrRemove name true))

def installArchive (r : Registry) (path : String) : Job World (Outcome Schema) :=
  (r.fetchArchive path).bind fun
  | .error e => .done (.error e)
  | .ok name => r.adopt name

-- Installs the packages of some archives, each on its own, and gives those that succeeded.
def installArchives (r : Registry) : List String → Job World (List Schema)
  | [] => .done []
  | path :: rest =>
    (r.installArchive path).bind fun outcome =>
      (r.installArchives rest).bind fun others =>
        match outcome with
        | .ok schema => .done (schema :: others)
        | .error _ => .done others

-- Switches a package to one of the versions that the index lists.
def change (r : Registry) (name version : String) : Job World (Outcome Schema) :=
  .holding (.package name)
    ((r.bounded ("listing versions of '" ++ name ++ "'") (r.index.versions name)).bind fun
    | .error e => .done (.error e)
    | .ok versions =>
      if version ∈ versions then
        .look fun w =>
          let former := (w.catalog.module? name).map (·.version)
          r.installing name (name ++ "@" ++ version) (record (r.loadOrRestore name former))
      else .done (.error (.version name version)))

def isListed (r : Registry) (name : String) : Job World (Except WorkspaceFault Bool) :=
  .holding .workspace (.look fun w =>
    .done ((r.workspace.dependencies w.host.files).map (Entries.contains · name)))

-- Removes a package; one that is not installed is removed already.
def remove (r : Registry) (name : String) : Job World (Outcome Unit) :=
  .holding (.package name) (.look fun w =>
    let inCatalog := Entries.contains w.catalog.modules name
    let forget : Job World (Outcome Unit) :=
      (changeCatalog (·.erase name)).bind fun () => .done (.ok ())
    (r.isListed name).bind fun
    | .error fault => .done (.error (.remove name fault.message))
    | .ok true =>
      (r.inWorkspace ("removing '" ++ name ++ "'") (r.manager.remove name)).bind fun
      | .error fault => .done (.error (.remove name fault.message))
      | .ok () => forget
    | .ok false => if inCatalog then forget else .done (.ok ()))

-- The modules that the workspace lists and that can be loaded. A source that is a file marks a
-- local package.
def listedSchemas (r : Registry) (files : File.Tree) : Except WorkspaceFault (List Schema) := do
  let deps ← r.workspace.dependencies files
  return deps.filterMap fun (name, source) =>
    (r.loadSchema files name ("file:".toList.isPrefixOf source.toList)).toOption

-- Fills the catalog from the workspace and counts what was loaded.
def restore (r : Registry) : Job World (Except WorkspaceFault Nat) :=
  .look fun w =>
    match r.listedSchemas w.host.files with
    | .error fault => .done (.error fault)
    | .ok schemas =>
      (changeCatalog (·.insertAll schemas)).bind fun () => .done (.ok schemas.length)

-- Searches the index; packages that are in the catalog are marked.
def search (r : Registry) (q : SearchQuery) : Job World (Outcome SearchResults) :=
  (r.bounded "searching the package index" (r.index.search q)).bind fun
  | .error e => .done (.error e)
  | .ok found => .look fun w =>
    .done (.ok { found with
      packages := found.packages.map fun p =>
        { p with installed := Entries.contains w.catalog.modules p.name } })

def availableCount (r : Registry) : Job World (Outcome Nat) :=
  (r.search { SearchQuery.empty with size := some 1 }).bind fun found =>
    .done (found.map (·.total))

/-! ### Reading the catalog -/

def schemaOf (w : World) (id : Identity) : Outcome Schema :=
  match w.catalog.find? id with
  | some s => .ok s
  | none => .error (.notFound id.text)

def describe (w : World) (name : String) : Outcome Schema :=
  match w.catalog.module? name with
  | some s => .ok s
  | none => .error (.notFound name)

def diagnostic (r : Registry) (c : Catalog) : String :=
  "ModuleRegistry \x7b modules_dir: " ++ Text.quoted r.workspace.dir ++ ", installed: "
    ++ toString c.modules.length ++ " \x7d"

end Registry

end Flowgate.Package
