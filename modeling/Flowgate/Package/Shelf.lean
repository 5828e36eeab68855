import Flowgate.Package.Workspace

/-!
A shelf: packages that are kept in memory, published under their names or stored as archives. It
plays the part of a package manager and of an index: an installed package is written into the
workspace where a package manager would put it.
-/

namespace Flowgate.Package

open File (Tree)
open Json (Value)

structure ItemNode where
  name : String
  kind : String
  script : Option String

structure Item where
  name : String
  version : String
  nodes : List ItemNode

namespace Item

def description (p : Item) : String := p.name ++ " fixture"

-- Where the script of a node lies in its package.
def scriptPath (n : ItemNode) : String := "nodes/" ++ n.name ++ ".lua"

def nodeJson (n : ItemNode) : Value :=
  .record
    ([("name", .string n.name), ("type", .string n.kind)]
      ++ if n.script.isSome then [("controller", .string (scriptPath n))] else [])

-- The manifest of the package. One without nodes has no node manifest.
def manifest (p : Item) : Value :=
  .record
    ([("name", .string p.name), ("version", .string p.version),
      ("description", .string p.description)]
      ++ if p.nodes.isEmpty then []
        else [("ecoflow", .object [("nodes", .list nodeJson p.nodes)])])

-- The files of the package besides its manifest.
def files (p : Item) : List (String × String) :=
  p.nodes.filterMap fun n => n.script.map fun source => (scriptPath n, source)

def writeFiles (root : String) :
    List (String × String) → Tree → Except File.Fault Unit × Tree
  | [], t => (.ok (), t)
  | (path, content) :: rest, t =>
    let target := File.join root path
    match t.makeDirectories ((File.parent? target).getD "") with
    | (.error fault, t) => (.error fault, t)
    | (.ok (), t) =>
      match t.write target content with
      | .error fault => (.error fault, t)
      | .ok t => writeFiles root rest t

def writeFresh (p : Item) (root : String) (t : Tree) : Except File.Fault Unit × Tree :=
  match t.makeDirectories root with
  | (.error fault, t) => (.error fault, t)
  | (.ok (), t) =>
    match t.write (File.join root "package.json") p.manifest.pretty with
    | .error fault => (.error fault, t)
    | .ok t => writeFiles root p.files t

-- Puts the package into a workspace, in place of what was there under its name.
def writeTo (p : Item) (w : Workspace) (t : Tree) : Except File.Fault Unit × Tree :=
  let root := w.packageDir p.name
  if t.isThere root then
    match t.removeDirectory root with
    | (.error fault, t) => (.error fault, t)
    | (.ok (), t) => p.writeFresh root t
  else p.writeFresh root t

end Item

structure Shelf where
  -- The versions of each package, in the order in which they were published.
  published : Entries (List Item)
  -- Archives by the components of their paths.
  archives : List (List String × Item)
  -- The pauses of every call, if there are any, in milliseconds.
  delay : Option Nat

inductive ShelfFault where
  | unknown (name : String)
  | noVersion (spec : String)
  | noArchive (path : String)

def ShelfFault.message : ShelfFault → String
  | .unknown name => "404 Not Found - '" ++ name ++ "' is not in the registry"
  | .noVersion spec => "No matching version found for " ++ spec
  | .noArchive path => "ENOENT: no such file '" ++ path ++ "'"

namespace Shelf

def empty : Shelf := { published := [], archives := [], delay := none }

-- Adds a version; the one published last is the latest.
def publish (s : Shelf) (p : Item) : Shelf :=
  { s with
    published := Entries.insert p.name (((Entries.get? s.published p.name).getD []) ++ [p])
      s.published }

def archive (s : Shelf) (path : String) (p : Item) : Shelf :=
  let key := File.components path
  { s with archives := (s.archives.filter (·.1 ≠ key)) ++ [(key, p)] }

-- The name and the version that a spec asks for. A marker at the start belongs to the name.
def splitSpec (spec : String) : String × Option String :=
  match Text.splitLast '@' spec with
  | some (name, version) => if name.isEmpty then (spec, none) else (name, some version)
  | none => (spec, none)

def resolve (s : Shelf) (spec : String) : Except ShelfFault Item :=
  let (name, version) := splitSpec spec
  match Entries.get? s.published name with
  | none => .error (.unknown name)
  | some versions =>
    let found := match version with
      | some version => versions.find? (·.version = version)
      | none => versions.getLast?
    match found with
    | some p => .ok p
    | none => .error (.noVersion spec)

def findArchive (s : Shelf) (path : String) : Except ShelfFault Item :=
  match s.archives.find? (·.1 = File.components path) with
  | some (_, p) => .ok p
  | none => .error (.noArchive path)

end Shelf

end Flowgate.Package
