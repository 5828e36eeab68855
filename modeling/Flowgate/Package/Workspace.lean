import Flowgate.File.Tree
import Flowgate.Json.Printer
import Flowgate.Package.Load

/-!
The workspace of installed packages: a directory with a dependency manifest, which lists each
installed package with its source, and the packages themselves below `node_modules`.
-/

namespace Flowgate.Package

open File (Tree)
open Json (Value)

inductive ToolKind where
  | npm
  | yarn
  | pnpm
deriving DecidableEq

structure Workspace where
  dir : String

inductive WorkspaceFault where
  | file (fault : File.Fault)
  -- The dependency manifest is no JSON.
  | invalid (path : String)
  | noDirectory (dir : String) (fault : File.Fault)

def WorkspaceFault.message : WorkspaceFault → String
  | .file fault => fault.message
  | .invalid path => "Invalid dependency manifest '" ++ path ++ "': " ++ Json.faultDetail
  | .noDirectory dir fault =>
    "Failed to create module directory '" ++ dir ++ "': " ++ fault.message

namespace Workspace

def manifestPath (w : Workspace) : String := File.join w.dir "package.json"

def packageDir (w : Workspace) (name : String) : String := directory w.dir name

-- The program whose lock file is there.
def toolKind (w : Workspace) (files : Tree) : ToolKind :=
  if files.isThere (File.join w.dir "pnpm-lock.yaml") then .pnpm
  else if files.isThere (File.join w.dir "yarn.lock") then .yarn
  else .npm

-- The packages that a manifest lists with their sources; a source that is no text is empty.
def dependenciesOf (manifest : Value) : Entries String :=
  (((manifest.field "dependencies").object?).getD []).map fun (name, source) =>
    (name, source.string?.getD "")

-- The listed packages with their sources, none if there is no manifest.
def dependencies (w : Workspace) (files : Tree) : Except WorkspaceFault (Entries String) :=
  if !files.isThere w.manifestPath then .ok []
  else
    match files.read w.manifestPath with
    | .error fault => .error (.file fault)
    | .ok text =>
      match Json.parse? text.toList with
      | none => .error (.invalid w.manifestPath)
      | some manifest => .ok (dependenciesOf manifest)

def freshManifest : Value :=
  .record
    [("name", .string "ecoflow-modules"), ("private", .bool true), ("dependencies", .object [])]

-- Makes the directory and the manifest where they are missing.
def ensure (w : Workspace) (files : Tree) : Except WorkspaceFault Unit × Tree :=
  match files.makeDirectories w.dir with
  | (.error fault, files) => (.error (.noDirectory w.dir fault), files)
  | (.ok (), files) =>
    if files.isThere w.manifestPath then (.ok (), files)
    else
      match files.write w.manifestPath freshManifest.pretty with
      | .error fault => (.error (.file fault), files)
      | .ok files => (.ok (), files)

end Workspace

end Flowgate.Package
