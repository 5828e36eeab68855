import Flowgate.Flow.Basic

/-!
Configuration stacks: the settings that the enabled configuration nodes of a flow supply to their
modules. A module has a stack when an enabled configuration node belongs to it, in the order in
which the modules first appear. Connections have no say.
-/

namespace Flowgate.Flow

open Json (Value)

structure Stack where
  -- All enabled configuration nodes of the flow, not only those of one module.
  nodes : List Node
  -- The saved configurations of the module's nodes that are not empty.
  configurations : List Configuration

def Stack.empty : Stack := { nodes := [], configurations := [] }

def Stack.toJson (s : Stack) : Value :=
  .object
    [("nodes", .list Node.toJson s.nodes),
     ("configurations", .list Configuration.toJson s.configurations)]

abbrev Stacks := List (Package.Identity × Stack)

def Stacks.get? (all : Stacks) (id : Package.Identity) : Option Stack :=
  (all.find? (·.1 = id)).map Prod.snd

def Node.isSource (n : Node) : Bool := n.kind = .configuration && !n.disabled

-- The modules of some nodes, each once, in the order of their first nodes.
def modulesOf (nodes : List Node) : List Package.Identity :=
  (nodes.filterMap (·.moduleId)).foldl (fun ids id => if id ∈ ids then ids else ids ++ [id]) []

-- The saved configuration of a node: the first one with its id, unless that one is empty.
def savedFor (configurations : List Configuration) (nodeId : String) : Option Configuration :=
  (configurations.find? (·.nodeId = nodeId)).filter fun c => !c.configs.isEmpty

-- The stack of one module, given the configuration nodes of the flow.
def stackOf (sources : List Node) (configurations : List Configuration) (id : Package.Identity) :
    Stack where
  nodes := sources
  configurations :=
    (sources.filter (·.moduleId = some id)).filterMap fun n => savedFor configurations n.id

def moduleStacks (f : Flow) : Stacks :=
  let sources := f.nodes.filter Node.isSource
  (modulesOf sources).map fun id => (id, stackOf sources f.configurations id)

end Flowgate.Flow
