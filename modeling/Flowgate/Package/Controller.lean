import Flowgate.Script.Run

/-!
Controllers: what runs when a node is reached. A node without one gets the controller that does
nothing, so a missing controller is never an error.
-/

namespace Flowgate.Package

open Json (Value)

inductive Controller where
  -- Does nothing, and succeeds.
  | noop
  -- Runs a script; the label names its package and node.
  | script (label source : String)
  -- Calls another controller with some context and the inputs as `request`.
  | bound (context : Entries Value) (inner : Controller)

namespace Controller

def isNoop : Controller → Bool
  | .noop => true
  | _ => false

def orNoop (c : Option Controller) : Controller := c.getD .noop

structure Call where
  label : String
  inputs : Value

def boundInputs (context : Entries Value) (request : Value) : Value :=
  .object (Entries.insert "request" request context)

-- The runs of scripts that one call causes: at most one.
def calls : Controller → Value → List Call
  | .noop, _ => []
  | .script label _, inputs => [{ label, inputs }]
  | .bound context inner, inputs => inner.calls (boundInputs context inputs)

-- Calls a controller. The text of a failure is the first line of what went wrong.
def call : Controller → Value → Except String Unit
  | .noop, _ => .ok ()
  | .script label source, inputs =>
    match Script.run label source inputs with
    | .ok () => .ok ()
    | .error fault =>
      .error (Text.firstLine ("Controller '" ++ label ++ "' failed: " ++ fault.message))
  | .bound context inner, inputs => inner.call (boundInputs context inputs)

end Controller

end Flowgate.Package
