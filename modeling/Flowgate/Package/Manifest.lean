import Flowgate.Flow.Basic

/-!
Package manifests: what is read of the `package.json` that a module package ships. Under `ecoflow`
it lists the nodes that the package contributes.
-/

namespace Flowgate.Package

open Json (Value Shape Codec)

structure NodeEntry where
  name : String
  kind : Flow.NodeKind
  -- The path of the controller script, relative to the package.
  controller : Option String
  description : Option String
  -- Descriptions of the input fields, null when there are none.
  inputs : Value

structure Manifest where
  name : String
  version : String
  description : Option String
  -- A name, or an object with one.
  author : Value
  -- The declared nodes, if the package has a node manifest at all.
  nodes : Option (List NodeEntry)

namespace NodeEntry

def shape : Shape :=
  .record
    [Json.required "name" .string, Json.required "type" .string,
     Json.defaulted "controller" (.optional .string),
     Json.defaulted "description" (.optional .string), Json.defaulted "inputs" .any]

def decode (v : Value) : Option NodeEntry := do
  return {
    name := ← (v.field "name").string?
    kind := .ofName (← (v.field "type").string?)
    controller := (v.field "controller").string?
    description := (v.field "description").string?
    inputs := v.field "inputs" }

def toJson (n : NodeEntry) : Value :=
  .object
    [("name", .string n.name), ("type", .string n.kind.name),
     ("controller", .ofString? n.controller), ("description", .ofString? n.description),
     ("inputs", n.inputs)]

end NodeEntry

namespace Manifest

def shape : Shape :=
  .record
    [Json.required "name" .string, Json.defaulted "version" .string,
     Json.defaulted "description" (.optional .string), Json.defaulted "author" .any,
     Json.defaulted "ecoflow"
      (.optional (.record [Json.defaulted "nodes" (.list NodeEntry.shape)]))]

def decode (v : Value) : Option Manifest := do
  let nodes ← match v.field "ecoflow" with
    | .null => pure none
    | nodes => (((nodes.field "nodes").array?.getD []).mapM NodeEntry.decode).map some
  return {
    name := ← (v.field "name").string?
    version := (v.field "version").string?.getD ""
    description := (v.field "description").string?
    author := v.field "author"
    nodes }

def codec : Codec Manifest := { shape, decode }

def toJson (m : Manifest) : Value :=
  let nodes := match m.nodes with
    | none => .null
    | some nodes => .object [("nodes", .list NodeEntry.toJson nodes)]
  .object
    [("name", .string m.name), ("version", .string m.version),
     ("description", .ofString? m.description), ("author", m.author), ("ecoflow", nodes)]

def authorName (m : Manifest) : Option String :=
  match m.author with
  | .string name => some name
  | author => (author.get? "name") >>= Value.string?

def declaredNodes (m : Manifest) : List NodeEntry := m.nodes.getD []

end Manifest

end Flowgate.Package
