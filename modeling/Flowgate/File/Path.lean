import Flowgate.Text.Split

/-!
File paths as text, and their components. Joining keeps the text as it is written; only the
components leave out empty parts and single dots.
-/

namespace Flowgate.File

def isAbsolute (path : String) : Bool := path.toList.head? = some '/'

-- The path `rest` below `base`. An absolute `rest` stands alone, and an empty one leaves a slash
-- at the end.
def join (base rest : String) : String :=
  if isAbsolute rest || base.isEmpty then rest
  else if base.toList.getLast? = some '/' then base ++ rest
  else base ++ "/" ++ rest

-- The parts between slashes, as a walk takes them: empty ones and dots stand for no step.
def steps (path : String) : List String := Text.pieces '/' path

-- The components of a path. A dot counts only where it is the first.
def components (path : String) : List String :=
  let kept := (steps path).filter fun s => s ≠ "" && s ≠ "."
  if isAbsolute path then "/" :: kept
  else if (steps path).head? = some "." then "." :: kept
  else kept

-- The last component, if it names something.
def name? (path : String) : Option String :=
  match (components path).getLast? with
  | some last => if last = "/" || last = "." || last = ".." then none else some last
  | none => none

def parent? (path : String) : Option String :=
  match components path with
  | [] => none
  | ["/"] => none
  | ["/", _] => some "/"
  | "/" :: rest => some ("/" ++ "/".intercalate rest.dropLast)
  | parts => some ("/".intercalate parts.dropLast)

end Flowgate.File
