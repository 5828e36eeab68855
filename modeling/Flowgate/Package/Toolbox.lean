import Flowgate.Package.Workspace

/-!
Package manager programs. What a program does when it runs is not computed here: a toolbox says
which programs there are and what each of their runs, in order, does to the workspace.
-/

namespace Flowgate.Package

open File (Tree)

structure ToolRun where
  -- Paths that it removes, below the workspace.
  removed : List String
  -- Files that it then writes, below the workspace.
  written : List (String × String)
  notice : String
  status : Nat

def ToolRun.nothing : ToolRun := { removed := [], written := [], notice := "", status := 0 }

structure Toolbox where
  programs : List String
  -- The runs to come; a run beyond them does nothing.
  runs : List ToolRun
  -- The command lines that were run, the latest last.
  log : List (List String)

namespace ToolKind

def program : ToolKind → String
  | .npm => "npm"
  | .yarn => "yarn"
  | .pnpm => "pnpm"

def addArguments : ToolKind → List String
  | .npm => ["install", "--save"]
  | .yarn => ["add"]
  | .pnpm => ["add"]

def removeArguments : ToolKind → List String
  | .npm => ["uninstall", "--save"]
  | .yarn => ["remove"]
  | .pnpm => ["remove"]

end ToolKind

namespace ToolRun

def removeAt (t : Tree) (path : String) : Tree :=
  match t.locate path with
  | .ok place => t.prune place
  | .error _ => t

def writeAt (t : Tree) (path content : String) : Tree :=
  match t.makeDirectories ((File.parent? path).getD "") with
  | (.error _, t) => t
  | (.ok (), t) => (t.write path content).toOption.getD t

-- The files after a run in a directory.
def apply (r : ToolRun) (dir : String) (t : Tree) : Tree :=
  let t := r.removed.foldl (fun t path => removeAt t (File.join dir path)) t
  r.written.foldl (fun t (path, content) => writeAt t (File.join dir path) content) t

end ToolRun

inductive StartFault where
  | noProgram
  -- An argument holds a NUL, which would end it.
  | nulArgument
deriving DecidableEq

def StartFault.message : StartFault → String
  | .noProgram => File.Fault.notFound.message
  | .nulArgument => "nul byte found in provided data"

-- Starts a program in a directory. What does not start changes nothing.
def Toolbox.start (b : Toolbox) (program : String) (arguments : List String) (dir : String)
    (t : Tree) : Except StartFault ToolRun × Toolbox × Tree :=
  if arguments.any (·.toList.contains '\x00') then (.error .nulArgument, b, t)
  else if b.programs.contains program then
    let run := b.runs.headD .nothing
    let b := { b with runs := b.runs.tail, log := b.log ++ [program :: arguments] }
    (.ok run, b, run.apply dir t)
  else (.error .noProgram, b, t)

end Flowgate.Package
