import Flowgate.Package.Shelf
import Flowgate.Package.Toolbox
import Flowgate.Task.Basic
import Flowgate.Text.Blank

/-!
Package managers: what installs packages into a workspace and removes them. Every call is a task,
which may pause and may be stopped at a pause with its work half done.
-/

namespace Flowgate.Package

open File (Tree)
open Json (Value)

structure Host where
  files : Tree
  shelf : Shelf
  toolbox : Toolbox

-- What only one task may use at a time.
inductive Lock where
  -- The manifest and the packages of the workspace.
  | workspace
  -- All that concerns one package.
  | package (key : String)
deriving DecidableEq

inductive ManagerFault where
  | shelf (fault : ShelfFault)
  | file (fault : File.Fault)
  | workspace (fault : WorkspaceFault)
  -- The dependency manifest is no JSON.
  | manifest
  -- The dependency manifest is of a kind that cannot list anything.
  | manifestKind (kind : String)
  | notStarted (program : String) (fault : StartFault)
  | failed (program : String) (arguments : List String) (status : Nat) (notice : String)
  | undetermined (archive : String)
  | timedOut (what : String) (secs : Nat)

-- A number of seconds as messages show it.
def durationText (secs : Nat) : String := if secs = 0 then "0ns" else toString secs ++ "s"

def ManagerFault.message : ManagerFault → String
  | .shelf fault => fault.message
  | .file fault => fault.message
  | .workspace fault => fault.message
  | .manifest => Json.faultDetail
  | .manifestKind kind => "cannot access key \"dependencies\" in JSON " ++ kind
  | .notStarted program fault => "Failed to start " ++ program ++ ": " ++ fault.message
  | .failed program arguments status notice =>
    program ++ " " ++ " ".intercalate arguments ++ " exited with exit status: " ++ toString status
      ++ ": " ++ Text.trim notice
  | .undetermined archive =>
    "Could not determine the package installed from '" ++ archive ++ "'"
  | .timedOut what secs => what ++ " timed out after " ++ durationText secs

abbrev Job (σ α : Type) := Task Lock σ α

abbrev Attempt (α : Type) := Except ManagerFault α

structure Manager where
  -- Adds a package by `name` or `name@version`.
  add : String → Job Host (Attempt Unit)
  -- Adds a package from an archive and gives its name.
  addArchive : String → Job Host (Attempt String)
  remove : String → Job Host (Attempt Unit)
  -- Installs all that the manifest lists.
  installAll : Job Host (Attempt Unit)

def onFiles (f : Tree → α × Tree) : Job Host α :=
  .act fun h => ((f h.files).1, { h with files := (f h.files).2 })

-- Goes on after a success.
def andThen (t : Job σ (Attempt α)) (next : α → Job σ (Attempt β)) : Job σ (Attempt β) :=
  t.bind fun
    | .ok a => next a
    | .error fault => .done (.error fault)

/-! ### From the shelf -/

namespace Shelf

def pauseOn (w : Shelf) : Job Host Unit :=
  match w.delay with
  | some time => .wait time
  | none => .done ()

def pause : Job Host Unit := .look fun h => h.shelf.pauseOn

def kindName : Value → String
  | .null => "null"
  | .bool _ => "boolean"
  | .number _ => "number"
  | .string _ => "string"
  | .array _ => "array"
  | .object _ => "object"

-- A manifest with a source for one package, or without the package. What is listed under
-- `dependencies` starts empty if it is no object.
def withDependency (manifest : Value) (name : String) (source : Option String) : Attempt Value :=
  let change (deps : Entries Value) : Entries Value := match source with
    | some source => Entries.insert name (.string source) deps
    | none => Entries.erase name deps
  match manifest with
  | .object fields =>
    let deps := ((manifest.field "dependencies").object?).getD []
    .ok (.object (Entries.insert "dependencies" (.object (change deps)) fields))
  | .null => .ok (.object [("dependencies", .object (change []))])
  | other => .error (.manifestKind (kindName other))

def readManifest (w : Workspace) (t : Tree) : Attempt Value × Tree :=
  match w.ensure t with
  | (.error fault, t) => (.error (.workspace fault), t)
  | (.ok (), t) =>
    match t.read w.manifestPath with
    | .error fault => (.error (.file fault), t)
    | .ok text =>
      match Json.parse? text.toList with
      | none => (.error .manifest, t)
      | some manifest => (.ok manifest, t)

def writeManifest (w : Workspace) (manifest : Attempt Value) (t : Tree) :
    Attempt Unit × Tree :=
  match manifest with
  | .error fault => (.error fault, t)
  | .ok manifest =>
    match t.write w.manifestPath manifest.pretty with
    | .error fault => (.error (.file fault), t)
    | .ok t => (.ok (), t)

-- Reads the manifest, pauses, and writes it back with one entry changed.
def setDependency (w : Workspace) (name : String) (source : Option String) :
    Job Host (Attempt Unit) :=
  andThen (onFiles (readManifest w)) fun manifest =>
    pause.bind fun () => onFiles (writeManifest w (withDependency manifest name source))

def put (w : Workspace) (p : Item) (source : String) : Job Host (Attempt Unit) :=
  andThen
    (onFiles fun t => ((p.writeTo w t).1.mapError .file, (p.writeTo w t).2))
    fun () => setDependency w p.name (some source)

def find (f : Shelf → Except ShelfFault Item) : Job Host (Attempt Item) :=
  .look fun h => .done ((f h.shelf).mapError .shelf)

def add (w : Workspace) (spec : String) : Job Host (Attempt Unit) :=
  pause.bind fun () => andThen (find (·.resolve spec)) fun p => put w p ("^" ++ p.version)

def addArchive (w : Workspace) (path : String) : Job Host (Attempt String) :=
  pause.bind fun () => andThen (find (·.findArchive path)) fun p =>
    andThen (put w p ("file:" ++ path)) fun () => .done (.ok p.name)

def removePackage (w : Workspace) (name : String) (t : Tree) : Attempt Unit × Tree :=
  let root := w.packageDir name
  if t.isThere root then
    match t.removeDirectory root with
    | (.error fault, t) => (.error (.file fault), t)
    | (.ok (), t) => (.ok (), t)
  else (.ok (), t)

def remove (w : Workspace) (name : String) : Job Host (Attempt Unit) :=
  pause.bind fun () =>
    andThen (onFiles (removePackage w name)) fun () => setDependency w name none

def manager (w : Workspace) : Manager where
  add := add w
  addArchive := addArchive w
  remove := remove w
  installAll := pause.bind fun () => .done (.ok ())

end Shelf

/-! ### With a program -/

namespace ToolKind

-- Runs a program in the workspace, which gets a manifest first if it has none. The program is the
-- given one, or else the one whose lock file is there.
def launch (w : Workspace) (forced : Option ToolKind) (arguments : List String) :
    Job Host (Attempt Unit) :=
  .act fun h =>
    match w.ensure h.files with
    | (.error fault, files) => (.error (.workspace fault), { h with files })
    | (.ok (), files) =>
      let program := (forced.getD (w.toolKind files)).program
      let (run, toolbox, files) := h.toolbox.start program arguments w.dir files
      let h := { h with toolbox, files }
      match run with
      | .error fault => (.error (.notStarted program fault), h)
      | .ok run =>
        if run.status = 0 then (.ok (), h)
        else (.error (.failed program arguments run.status run.notice), h)

def dependencies (w : Workspace) : Job Host (Attempt (Entries String)) :=
  .look fun h => .done ((w.dependencies h.files).mapError .workspace)

-- The package that a run installed from an archive: one that was not listed before, or else one
-- whose source ends in the name of the archive.
def installedName? (before after : Entries String) (archive : String) : Option String :=
  let fileName := (File.name? archive).getD ""
  let fresh := after.find? fun (name, _) => !Entries.contains before name
  let same := after.find? fun (_, source) =>
    !fileName.isEmpty && fileName.toList.isSuffixOf source.toList
  (fresh.or same).map Prod.fst

def withKind (w : Workspace) (forced : Option ToolKind)
    (next : ToolKind → Job Host (Attempt α)) : Job Host (Attempt α) :=
  .look fun h => next (forced.getD (w.toolKind h.files))

def addArchive (w : Workspace) (forced : Option ToolKind) (archive : String) :
    Job Host (Attempt String) :=
  andThen (dependencies w) fun before =>
    withKind w forced fun kind =>
      andThen (launch w forced (kind.addArguments ++ [archive])) fun () =>
        andThen (dependencies w) fun after =>
          match installedName? before after archive with
          | some name => .done (.ok name)
          | none => .done (.error (.undetermined archive))

-- The package manager that runs a program.
def manager (w : Workspace) (forced : Option ToolKind) : Manager where
  add spec := withKind w forced fun kind => launch w forced (kind.addArguments ++ [spec])
  addArchive := addArchive w forced
  remove name := withKind w forced fun kind => launch w forced (kind.removeArguments ++ [name])
  installAll := launch w forced ["install"]

end ToolKind

end Flowgate.Package
