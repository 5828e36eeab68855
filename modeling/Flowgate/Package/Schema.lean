import Flowgate.Package.Controller
import Flowgate.Package.Manifest
import Flowgate.Text.Quoted

/-!
Module schemas: an installed package as the catalog records it, with the identities of the module
and of its nodes and with what was loaded for them.
-/

namespace Flowgate.Package

open Json (Value)

-- What was loaded of a package: the nodes it declares, and the scripts of those that have one.
structure Loaded where
  package : String
  nodeNames : List String
  scripts : Entries String

def Loaded.controller? (l : Loaded) (node : String) : Option Controller :=
  (Entries.get? l.scripts node).map fun source => .script (l.package ++ "." ++ node) source

structure NodeDefinition where
  id : Identity
  name : String
  kind : Flow.NodeKind
  description : Option String
  inputs : Value

structure Schema where
  id : Identity
  -- The name that the package gives itself; the catalog is keyed by it.
  name : String
  version : String
  description : Option String
  author : Option String
  -- Whether the package was installed from an archive.
  isLocal : Bool
  nodes : List NodeDefinition
  loaded : Option Loaded

namespace Schema

def ofManifest (m : Manifest) (isLocal : Bool) (loaded : Option Loaded) : Schema where
  id := .module m.name
  name := m.name
  version := m.version
  description := m.description
  author := m.authorName
  isLocal := isLocal
  nodes := m.declaredNodes.map fun n =>
    { id := .node m.name n.name, name := n.name, kind := n.kind, description := n.description
      inputs := n.inputs }
  loaded := loaded

-- The controller of a node, or the one that does nothing.
def controller (s : Schema) (node : String) : Controller :=
  .orNoop (s.loaded.bind (·.controller? node))

def node? (s : Schema) (name : String) : Option NodeDefinition := s.nodes.find? (·.name = name)

end Schema

def NodeDefinition.toJson (n : NodeDefinition) : Value :=
  .object
    [("id", .string n.id.text), ("name", .string n.name), ("type", .string n.kind.name),
     ("description", .ofString? n.description), ("inputs", n.inputs)]

def Schema.toJson (s : Schema) : Value :=
  .object
    [("id", .string s.id.text), ("name", .string s.name), ("version", .string s.version),
     ("description", .ofString? s.description), ("author", .ofString? s.author),
     ("local", .bool s.isLocal), ("nodes", .list NodeDefinition.toJson s.nodes)]

-- A short description of an installed package: its fields, and its nodes by name.
def Schema.summary (s : Schema) : Value :=
  .object
    [("name", .string s.name), ("version", .string s.version),
     ("description", .ofString? s.description), ("author", .ofString? s.author),
     ("local", .bool s.isLocal), ("nodes", .list (fun n => .string n.name) s.nodes)]

def Schema.diagnostic (s : Schema) : String :=
  "ModuleSchema \x7b id: ModuleIdentity(" ++ Text.quoted s.id.text ++ "), name: "
    ++ Text.quoted s.name ++ ", version: " ++ Text.quoted s.version ++ ", local: "
    ++ (if s.isLocal then "true" else "false") ++ ", nodes: " ++ toString s.nodes.length ++ " \x7d"

end Flowgate.Package
