import Flowgate.Digest
import Flowgate.Text.Percent

/-!
Identities of modules and of their nodes: 128 bits of a digest, written as hexadecimal digits. They
depend on names only, so they outlive any version of a package, and they serve as keys, not as
names to show.
-/

namespace Flowgate.Package

-- A key derived from a module name, or from a module and a node name. Any text may stand in a
-- stored flow, so the type admits all of them.
structure Identity where
  text : String
deriving DecidableEq, Repr

namespace Identity

-- Bytes of the digest that are kept.
def width : Nat := 16

def ofName (name : String) : Identity :=
  ⟨String.ofList (((Digest.sha256 (Text.encode name)).take width).flatMap Text.hexOfByte)⟩

-- The text whose digest is the identity: the module name, with the node name after a dot unless
-- there is no node name or an empty one.
def source (module : String) (node : Option String) : String :=
  match node with
  | some node => if node.isEmpty then module else module ++ "." ++ node
  | none => module

def of (module : String) (node : Option String) : Identity := ofName (source module node)

def module (name : String) : Identity := of name none

def node (module name : String) : Identity := of module (some name)

end Identity

end Flowgate.Package
