import Flowgate.Package.Schema

/-!
The catalog of installed modules: their schemas by name, and their names by identity.
-/

namespace Flowgate.Package

structure Catalog where
  modules : Entries Schema
  -- The name of a module for the text of its identity.
  byId : Entries String

namespace Catalog

def empty : Catalog := { modules := [], byId := [] }

-- The catalog with a module, in place of one of that name.
def insert (c : Catalog) (s : Schema) : Catalog where
  modules := Entries.insert s.name s c.modules
  byId := Entries.insert s.id.text s.name c.byId

def erase (c : Catalog) (name : String) : Catalog :=
  match Entries.get? c.modules name with
  | none => c
  | some s =>
    { modules := Entries.erase name c.modules, byId := Entries.erase s.id.text c.byId }

def insertAll (c : Catalog) (schemas : List Schema) : Catalog := schemas.foldl insert c

def module? (c : Catalog) (name : String) : Option Schema := Entries.get? c.modules name

def find? (c : Catalog) (id : Identity) : Option Schema := do
  let name ← Entries.get? c.byId id.text
  c.module? name

-- All modules, in the order of their names.
def installed (c : Catalog) : List Schema := c.modules.map Prod.snd

-- The controller of a node of a module, or the one that does nothing.
def controller (c : Catalog) (module node : String) : Controller :=
  match c.find? (.module module) with
  | some s => s.controller node
  | none => .noop

-- The controller that a `module.node` reference names. The node follows the last dot, so the
-- names of modules may have dots. A reference that names none gives the one that does nothing.
def resolve (c : Catalog) (reference : Option String) : Controller :=
  match reference.bind (Text.splitLast '.') with
  | some (module, node) => c.controller module node
  | none => .noop

end Catalog

end Flowgate.Package
