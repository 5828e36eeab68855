import Flowgate.File.Tree
import Flowgate.Package.Schema

/-!
Loading an installed package from its directory: the manifest, and the script of every node that has
a readable one. A script that cannot be read leaves its node without a controller and changes
nothing else.
-/

namespace Flowgate.Json

-- Stands in messages for the words in which a reader describes its fault.
def faultDetail : String := "<detail>"

end Flowgate.Json

namespace Flowgate.Package

open File (Tree)

inductive LoadFault where
  | unreadable (path : String) (fault : File.Fault)
  | invalid (path : String)
  -- The package contributes no nodes.
  | noNodes (name : String)

def LoadFault.message : LoadFault → String
  | .unreadable path fault => "Failed to read '" ++ path ++ "': " ++ fault.message
  | .invalid path => "Invalid package manifest '" ++ path ++ "': " ++ Json.faultDetail
  | .noNodes name => "Package '" ++ name ++ "' does not expose an ecoflow node manifest"

-- The manifest of a package that contributes at least one node.
def readManifest (files : Tree) (dir : String) : Except LoadFault Manifest :=
  let path := File.join dir "package.json"
  match files.read path with
  | .error fault => .error (.unreadable path fault)
  | .ok text =>
    match Manifest.codec.ofText? text.toList with
    | none => .error (.invalid path)
    | some manifest =>
      if manifest.declaredNodes.isEmpty then .error (.noNodes manifest.name) else .ok manifest

-- The path of a node's script, if it declares one.
def scriptPath? (dir : String) (n : NodeEntry) : Option String := n.controller.map (File.join dir)

-- The scripts of some nodes; of several with one name the last readable one counts.
def readScripts (files : Tree) (dir : String) (nodes : List NodeEntry) : Entries String :=
  nodes.foldl
    (fun scripts n =>
      match scriptPath? dir n with
      | none => scripts
      | some path =>
        match files.read path with
        | .ok source => Entries.insert n.name source scripts
        | .error _ => scripts)
    []

def load (files : Tree) (dir : String) : Except LoadFault (Manifest × Loaded) := do
  let manifest ← readManifest files dir
  let loaded : Loaded :=
    { package := manifest.name
      nodeNames := manifest.declaredNodes.map (·.name)
      scripts := readScripts files dir manifest.declaredNodes }
  return (manifest, loaded)

def directory (workspace name : String) : String :=
  File.join (File.join workspace "node_modules") name

end Flowgate.Package
