import Flowgate.Flow.Basic
import Flowgate.Json.Printer
import Flowgate.Package.Load

/-!
Storage of deployed flows: one document in a directory. Saving writes a staging file and renames it
into place, so the document is replaced as a whole or not at all.
-/

namespace Flowgate.Flow

open File (Tree)

structure Store where
  dir : String

inductive StoreFault where
  | file (fault : File.Fault)
  -- The document is no list of flows.
  | corrupted (path : String)

def StoreFault.message : StoreFault → String
  | .file fault => fault.message
  | .corrupted path => "Corrupted flows file " ++ path ++ ": " ++ Json.faultDetail

namespace Store

def path (s : Store) : String := File.join s.dir "flows.json"

def stagingPath (s : Store) : String := File.join s.dir "flows.json.tmp"

def document : Json.Codec (List Flow) where
  shape := Flows.shape (Json.defaulted "flows")
  decode := Flows.decode

-- The stored flows; a missing document means that nothing is deployed.
def load (s : Store) (files : Tree) : Except StoreFault (List Flow) :=
  match files.tryExists s.path with
  | .error fault => .error (.file fault)
  | .ok false => .ok []
  | .ok true =>
    match files.read s.path with
    | .error fault => .error (.file fault)
    | .ok text =>
      match document.ofText? text.toList with
      | none => .error (.corrupted s.path)
      | some flows => .ok flows

-- Replaces the stored flows. The steps that were done before a fault stay done.
def save (s : Store) (files : Tree) (flows : List Flow) : Except StoreFault Unit × Tree :=
  match files.makeDirectories s.dir with
  | (.error fault, files) => (.error (.file fault), files)
  | (.ok (), files) =>
    match files.write s.stagingPath (Flows.toJson flows).pretty with
    | .error fault => (.error (.file fault), files)
    | .ok files =>
      match files.rename s.stagingPath s.path with
      | .error fault => (.error (.file fault), files)
      | .ok files => (.ok (), files)

end Store

end Flowgate.Flow
