import Flowgate.File.Path

/-!
A tree of files and directories, with the operations of a file system on it. A place is the list of
names from the root. Every operation walks its path first, so a path through a missing directory or
through a file is a fault wherever it leads.
-/

namespace Flowgate.File

abbrev Place := List String

inductive Node where
  | text (content : String)
  | directory
deriving DecidableEq

inductive Fault where
  | notFound
  | taken
  | notDirectory
  | isDirectory
  -- The path to remove ends in a dot, which names no entry of a directory.
  | badArgument
  | nameTooLong
  | notEmpty
  -- A name with a NUL character, which no file can have.
  | badName
deriving DecidableEq

def Fault.message : Fault → String
  | .notFound => "No such file or directory (os error 2)"
  | .taken => "File exists (os error 17)"
  | .notDirectory => "Not a directory (os error 20)"
  | .isDirectory => "Is a directory (os error 21)"
  | .badArgument => "Invalid argument (os error 22)"
  | .nameTooLong => "File name too long (os error 36)"
  | .notEmpty => "Directory not empty (os error 39)"
  | .badName => "file name contained an unexpected NUL byte"

-- The nodes below the root, each place once.
structure Tree where
  nodes : List (Place × Node)

namespace Tree

def empty : Tree := { nodes := [] }

-- What is at a place; the root is always a directory.
def at? (t : Tree) (place : Place) : Option Node :=
  if place.isEmpty then some .directory else (t.nodes.find? (·.1 = place)).map Prod.snd

def set (t : Tree) (place : Place) (node : Node) : Tree :=
  { nodes := (t.nodes.filter (·.1 ≠ place)) ++ [(place, node)] }

-- Takes away a place and all that is below it.
def prune (t : Tree) (place : Place) : Tree :=
  { nodes := t.nodes.filter fun (p, _) => !place.isPrefixOf p }

/-! ### Walking -/

-- The greatest name and the greatest path, in bytes.
def nameLimit : Nat := 255

def pathLimit : Nat := 4095

def checkName (step : String) : Except Fault Unit :=
  if step.utf8ByteSize > nameLimit then .error .nameTooLong else .ok ()

-- Takes the steps of a path from a place. What is walked through has to be a directory; the place
-- at the end may be missing.
def walk (t : Tree) : Place → List String → Except Fault Place
  | place, [] => .ok place
  | place, step :: rest =>
    match t.at? place with
    | none => .error .notFound
    | some (.text _) => .error .notDirectory
    | some .directory => do
      checkName step
      if step = "" || step = "." then t.walk place rest
      else if step = ".." then t.walk place.dropLast rest
      else t.walk (place ++ [step]) rest

-- What any path has to be, wherever it leads.
def checkPath (path : String) : Except Fault Unit :=
  if path.toList.any (·.toNat = 0) then .error .badName
  else if path.isEmpty then .error .notFound
  else if path.utf8ByteSize > pathLimit then .error .nameTooLong
  else .ok ()

def locate (t : Tree) (path : String) : Except Fault Place := do
  checkPath path
  t.walk [] (steps path)

def find (t : Tree) (path : String) : Except Fault Node := do
  match t.at? (← t.locate path) with
  | some node => .ok node
  | none => .error .notFound

/-! ### Operations -/

-- Whether there is something; a fault on the way counts as nothing.
def isThere (t : Tree) (path : String) : Bool := (t.find path).toOption.isSome

def isDirectory (t : Tree) (path : String) : Bool :=
  (t.find path).toOption = some .directory

-- Whether there is something; a fault other than a missing part is kept.
def tryExists (t : Tree) (path : String) : Except Fault Bool :=
  match t.find path with
  | .ok _ => .ok true
  | .error .notFound => .ok false
  | .error fault => .error fault

def read (t : Tree) (path : String) : Except Fault String := do
  match ← t.find path with
  | .text content => .ok content
  | .directory => .error .isDirectory

-- Makes or replaces a file; its directory has to be there.
def write (t : Tree) (path content : String) : Except Fault Tree := do
  let place ← t.locate path
  match t.at? place with
  | some .directory => .error .isDirectory
  | _ => .ok (t.set place (.text content))

-- Makes a directory in one that is there. Slashes after its name do not count.
def makeDirectory (t : Tree) (path : String) : Except Fault Tree := do
  checkPath path
  let place ← t.walk [] ((steps path).reverse.dropWhile (· = "")).reverse
  match t.at? place with
  | some _ => .error .taken
  | none => .ok (t.set place .directory)

-- The path of some components, the last of which comes first.
def spell (reversed : List String) : String :=
  match reversed.reverse with
  | "/" :: rest => "/" ++ "/".intercalate rest
  | parts => "/".intercalate parts

-- Makes a directory, and if what leads to it is missing, that first by `lead`.
def makeAfter (lead : Tree → Except Fault Unit × Tree) (t : Tree) (path : String) :
    Except Fault Unit × Tree :=
  match t.makeDirectory path with
  | .ok t => (.ok (), t)
  | .error .notFound =>
    match lead t with
    | (.error fault, t) => (.error fault, t)
    | (.ok (), t) => settled t (t.makeDirectory path)
  | .error fault => settled t (.error fault)
where
  -- A directory that is there already is as good as a new one.
  settled (t : Tree) : Except Fault Tree → Except Fault Unit × Tree
    | .ok t => (.ok (), t)
    | .error fault => if t.isDirectory path then (.ok (), t) else (.error fault, t)

-- A directory and those above it, from the components of its path, the last of which comes first.
def makeAll : List String → Tree → Except Fault Unit × Tree
  | [], t => (.ok (), t)
  | last :: above, t => makeAfter (makeAll above) t (spell (last :: above))

-- Makes a directory with all that lead to it; one that is there already is left alone. What was
-- made before a fault stays. The path itself is taken as it is written, so one that ends in a dot
-- needs its directory.
def makeDirectories (t : Tree) (path : String) : Except Fault Unit × Tree :=
  if path.isEmpty then (.ok (), t)
  else makeAfter (makeAll (components path).dropLast.reverse) t path

-- Takes away all that is below a place.
def clear (t : Tree) (place : Place) : Tree :=
  { nodes := t.nodes.filter fun (p, _) => p = place || !place.isPrefixOf p }

-- Removes a directory with all it holds. A path that ends in a dot can only be emptied. One that
-- ends in two dots leads nowhere once the directory is empty, which is no fault.
def removeDirectory (t : Tree) (path : String) : Except Fault Unit × Tree :=
  match t.locate path with
  | .error fault => (.error fault, t)
  | .ok place =>
    match t.at? place with
    | none => (.error .notFound, t)
    | some (.text _) => (.error .notDirectory, t)
    | some .directory =>
      let t := t.clear place
      match (steps path).filter (· ≠ "") |>.getLast? with
      | some "." => (.error .badArgument, t)
      | some ".." =>
        match t.locate path with
        | .error .notFound => (.ok (), t)
        | .error fault => (.error fault, t)
        | .ok _ => (.error .notEmpty, t)
      | _ => (.ok (), t.prune place)

-- Gives a file another path, in place of any file that is there.
def rename (t : Tree) (source target : String) : Except Fault Tree := do
  let content ← t.read source
  let place ← t.locate source
  let goal ← t.locate target
  match t.at? goal with
  | some .directory => .error .isDirectory
  | _ => .ok ((t.prune place).set goal (.text content))

def names (t : Tree) (path : String) : List String :=
  match t.locate path with
  | .error _ => []
  | .ok place =>
    let found := t.nodes.filterMap fun (p, _) =>
      if p.dropLast = place && !p.isEmpty then p.getLast? else none
    found.mergeSort fun a b => !(b < a)

end Tree

end Flowgate.File
