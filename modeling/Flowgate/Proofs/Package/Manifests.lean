import Flowgate.Package.Manager
import Flowgate.Proofs.Json.Codecs
import Flowgate.Proofs.Traversal

/-!
Manifests as they are written and read: a package of the shelf reads back with its name, its version
and its nodes, and so does a list of dependencies with its sources.
-/

namespace Flowgate.Package

open Json (Value Shape Readable Integral ReadsBack Part backOf field_backOf)

/-! ### Of a package -/

namespace ItemNode

-- What its package declares of a node.
def entry (n : ItemNode) : NodeEntry where
  name := n.name
  kind := .ofName n.kind
  controller := n.script.map fun _ => Item.scriptPath n
  description := none
  inputs := .null

def textPart (field : Json.Field Shape) (text : String) : Part := ⟨field, .string text, .string text⟩

-- The fields in the order in which they are written.
def parts (n : ItemNode) : List Part :=
  let named := [textPart (Json.required "name" .string) n.name,
    textPart (Json.required "type" .string) n.kind]
  if n.script.isSome then
    textPart (Json.defaulted "controller" (.optional .string)) (Item.scriptPath n) :: named
  else named

theorem nodeJson_eq (n : ItemNode) : Item.nodeJson n = .object (n.parts.map Part.written) := by
  unfold Item.nodeJson parts Value.record Entries.ofList
  cases n.script with
  | none =>
    simp only [Option.isSome_none, Bool.false_eq_true, if_false, List.append_nil, List.foldl_cons,
      List.foldl_nil]
    rw [Entries.insert_nil, Entries.insert_after (by decide)]
    rfl
  | some source =>
    simp only [Option.isSome_some, if_true, List.cons_append, List.nil_append, List.foldl_cons,
      List.foldl_nil]
    rw [Entries.insert_nil, Entries.insert_after (by decide), Entries.insert_before (by decide)]
    rfl

theorem readsBack (n : ItemNode) (depth level : Nat) :
    ReadsBack (fun steps => NodeEntry.shape.read steps (depth + 1))
      ((Item.nodeJson n).indented level) (backOf n.parts) := by
  have name := Json.readsBack_text n.name depth (level + 1)
  have kind := Json.readsBack_text n.kind depth (level + 1)
  rw [nodeJson_eq]
  unfold parts
  cases n.script with
  | none =>
    refine Json.readsBack_some _ (by simp [Json.required, Json.defaulted]) (by decide)
      (by simp [textPart]) (by simp [textPart, Json.required]) (by simp [textPart, Json.defaulted]) ?_
    simpa [textPart, Json.required] using ⟨name, kind⟩
  | some source =>
    have path := Json.readsBack_optional (some (Item.scriptPath n)) depth (level + 1)
    refine Json.readsBack_some _ (by simp [Json.required, Json.defaulted]) (by decide)
      (by simp [textPart]) (by simp [textPart, Json.required, Json.defaulted])
      (by simp [textPart, Json.defaulted]) ?_
    simpa [textPart, Json.required, Json.defaulted] using ⟨path, name, kind⟩

theorem decode_back (n : ItemNode) : NodeEntry.decode (backOf n.parts) = some n.entry := by
  unfold NodeEntry.decode backOf parts entry
  cases n.script with
  | none =>
    simp [textPart, Part.entry, Value.field, Value.get?, Entries.ofList, Entries.get?_insert,
      Json.required, Value.string?, Entries.get?]
  | some source =>
    simp [textPart, Part.entry, Value.field, Value.get?, Entries.ofList, Entries.get?_insert,
      Json.required, Json.defaulted, Value.string?, Entries.get?]

theorem integral_nodeJson (n : ItemNode) : Integral (Item.nodeJson n) := by
  rw [nodeJson_eq]
  refine .object fun f member => ?_
  obtain ⟨p, there, rfl⟩ := List.mem_map.mp member
  have text : ∃ s, p.given = .string s := by
    unfold parts at there
    cases scripted : n.script with
    | none =>
      rw [scripted] at there
      simp only [Option.isSome_none, Bool.false_eq_true, if_false, List.mem_cons,
        List.not_mem_nil, or_false] at there
      rcases there with rfl | rfl <;> exact ⟨_, rfl⟩
    | some source =>
      rw [scripted] at there
      simp only [Option.isSome_some, if_true, List.mem_cons, List.not_mem_nil, or_false] at there
      rcases there with rfl | rfl | rfl <;> exact ⟨_, rfl⟩
  obtain ⟨s, same⟩ := text
  show Integral p.given
  rw [same]
  exact .string s

end ItemNode

namespace Item

-- What is read of the manifest of a package.
def declared (p : Item) : Manifest where
  name := p.name
  version := p.version
  description := some p.description
  author := .null
  nodes := if p.nodes.isEmpty then none else some (p.nodes.map ItemNode.entry)

def nodesField : Json.Field Shape := Json.defaulted "nodes" (.list NodeEntry.shape)

def nodesPart (p : Item) : Part :=
  ⟨nodesField, .list nodeJson p.nodes, .list (fun n => backOf n.parts) p.nodes⟩

def ecoflowPart (p : Item) : Part :=
  ⟨Json.defaulted "ecoflow" (.optional (.record [nodesField])), .object [p.nodesPart.written],
    backOf [p.nodesPart]⟩

def descriptionPart (p : Item) : Part :=
  ItemNode.textPart (Json.defaulted "description" (.optional .string)) p.description

-- The fields in the order in which they are written.
def parts (p : Item) : List Part :=
  let named := [ItemNode.textPart (Json.required "name" .string) p.name,
    ItemNode.textPart (Json.defaulted "version" .string) p.version]
  if p.nodes.isEmpty then p.descriptionPart :: named
  else p.descriptionPart :: p.ecoflowPart :: named

theorem manifest_eq (p : Item) : p.manifest = .object (p.parts.map Part.written) := by
  unfold manifest parts Value.record Entries.ofList
  cases p.nodes.isEmpty with
  | true =>
    simp only [if_true, List.append_nil, List.foldl_cons, List.foldl_nil]
    rw [Entries.insert_nil, Entries.insert_after (by decide), Entries.insert_before (by decide)]
    rfl
  | false =>
    simp only [Bool.false_eq_true, if_false, List.cons_append, List.nil_append, List.foldl_cons,
      List.foldl_nil]
    rw [Entries.insert_nil, Entries.insert_after (by decide), Entries.insert_before (by decide),
      Entries.insert_after (by decide), Entries.insert_before (by decide)]
    rfl

theorem readsBack_ecoflow (p : Item) (depth level : Nat) :
    ReadsBack (fun steps => p.ecoflowPart.field.shape.read steps (depth + 3))
      (p.ecoflowPart.given.indented level) p.ecoflowPart.back := by
  refine Json.readsBack_present (Json.readsBack_record [p.nodesPart] ?_ ?_ ?_)
  · simp [nodesPart, nodesField, Json.defaulted]
  · simp
  · intro part member
    obtain rfl := List.mem_singleton.mp member
    exact Json.readsBack_list fun n _ => n.readsBack depth _

theorem readsBack (p : Item) (depth level : Nat) :
    ReadsBack (fun steps => Manifest.shape.read steps (depth + 4)) (p.manifest.indented level)
      (backOf p.parts) := by
  have description := Json.readsBack_optional (some p.description) (depth + 3) (level + 1)
  have ecoflow := p.readsBack_ecoflow depth (level + 1)
  have name := Json.readsBack_text p.name (depth + 3) (level + 1)
  have version := Json.readsBack_text p.version (depth + 3) (level + 1)
  rw [manifest_eq]
  unfold parts
  cases p.nodes.isEmpty with
  | true =>
    refine Json.readsBack_some _ (by simp [Json.required, Json.defaulted]) (by decide)
      (by simp [descriptionPart, ItemNode.textPart])
      (by simp [descriptionPart, ItemNode.textPart, Json.required, Json.defaulted])
      (by simp [descriptionPart, ItemNode.textPart, Json.defaulted]) ?_
    simpa [descriptionPart, ItemNode.textPart, Json.required, Json.defaulted]
      using ⟨description, name, version⟩
  | false =>
    refine Json.readsBack_some _ (by simp [Json.required, Json.defaulted]) (by decide)
      (by simp [descriptionPart, ecoflowPart, nodesField, ItemNode.textPart])
      (by simp [descriptionPart, ecoflowPart, ItemNode.textPart, Json.required, Json.defaulted])
      (by simp [descriptionPart, ecoflowPart, ItemNode.textPart, Json.defaulted]) ?_
    simpa [descriptionPart, ItemNode.textPart, Json.required, Json.defaulted]
      using ⟨description, ecoflow, name, version⟩

theorem decode_nodes (p : Item) :
    ((p.ecoflowPart.back.field "nodes").array?.getD []).mapM NodeEntry.decode
      = some (p.nodes.map ItemNode.entry) := by
  have only : p.nodesPart ∈ [p.nodesPart] := .head _
  have found : p.ecoflowPart.back.field "nodes" = p.nodesPart.back :=
    field_backOf (by simp) only
  rw [found]
  exact mapM_map_some fun n _ => n.decode_back

theorem decode_back (p : Item) : Manifest.decode (backOf p.parts) = some p.declared := by
  have nodes := p.decode_nodes
  unfold Manifest.decode parts declared
  cases p.nodes.isEmpty with
  | true =>
    simp [backOf, descriptionPart, ItemNode.textPart, Part.entry, Value.field, Value.get?,
      Entries.ofList, Entries.get?_insert, Json.required, Json.defaulted, Value.string?,
      Entries.get?]
  | false =>
    have given : (backOf (p.descriptionPart :: p.ecoflowPart ::
        [ItemNode.textPart (Json.required "name" .string) p.name,
          ItemNode.textPart (Json.defaulted "version" .string) p.version])).field "ecoflow"
        = p.ecoflowPart.back := by
      refine field_backOf (p := p.ecoflowPart) ?_ (.tail _ (.head _))
      simp [descriptionPart, ecoflowPart, ItemNode.textPart, Json.required, Json.defaulted]
    have shown : p.ecoflowPart.back = .object [("nodes", p.nodesPart.back)] := rfl
    rw [shown] at nodes given
    simp only [Bool.false_eq_true, if_false, given, nodes]
    simp [backOf, descriptionPart, ecoflowPart, ItemNode.textPart, Part.entry, Value.field,
      Value.get?, Entries.ofList, Entries.get?_insert, Json.required, Json.defaulted,
      Value.string?, Entries.get?]

theorem integral_manifest (p : Item) : Integral p.manifest := by
  have ecoflow : Integral p.ecoflowPart.given := by
    refine .object fun f member => ?_
    obtain rfl := List.mem_singleton.mp member
    refine .array fun v there => ?_
    obtain ⟨n, -, rfl⟩ := List.mem_map.mp there
    exact n.integral_nodeJson
  rw [manifest_eq]
  refine .object fun f member => ?_
  obtain ⟨part, there, rfl⟩ := List.mem_map.mp member
  unfold parts at there
  split at there
  · simp only [List.mem_cons, List.not_mem_nil, or_false] at there
    rcases there with rfl | rfl | rfl <;> exact .string _
  · simp only [List.mem_cons, List.not_mem_nil, or_false] at there
    rcases there with rfl | rfl | rfl | rfl
    · exact .string _
    · exact ecoflow
    · exact .string _
    · exact .string _

theorem ofText?_manifest (p : Item) :
    Manifest.codec.ofText? p.manifest.pretty.toList = some p.declared :=
  Json.ofText?_pretty p.integral_manifest (p.readsBack 123 0) p.decode_back

end Item

/-! ### Of a workspace -/

namespace Workspace

-- The manifest that lists some packages with their sources.
def manifestOf (deps : Entries String) : Value :=
  .object
    [("dependencies", .object (Entries.mapValues .string deps)),
     ("name", .string "ecoflow-modules"), ("private", .bool true)]

theorem freshManifest_eq : freshManifest = manifestOf [] := by
  unfold freshManifest Value.record Entries.ofList
  simp only [List.foldl_cons, List.foldl_nil]
  rw [Entries.insert_nil, Entries.insert_after (by decide), Entries.insert_before (by decide)]
  rfl

theorem dependenciesOf_manifestOf (deps : Entries String) :
    dependenciesOf (manifestOf deps) = deps := by
  have listed : (manifestOf deps).field "dependencies"
      = .object (Entries.mapValues Value.string deps) := rfl
  rw [dependenciesOf, listed]
  exact (Entries.mapValues_mapValues Value.string (fun v => v.string?.getD "") deps).trans
    (List.map_id deps)

theorem parse?_manifestOf {deps : Entries String} (sorted : Entries.Sorted deps) :
    Json.parse? (manifestOf deps).pretty.toList = some (manifestOf deps) := by
  have listed : Json.Readable 126 (.object (Entries.mapValues Value.string deps)) := by
    refine .object (Entries.sorted_mapValues sorted _) fun f member => ?_
    obtain ⟨d, -, rfl⟩ := List.mem_map.mp member
    exact .string d.2
  have exact : Integral (.object (Entries.mapValues Value.string deps)) := by
    refine .object fun f member => ?_
    obtain ⟨d, -, rfl⟩ := List.mem_map.mp member
    exact .string d.2
  have order : "dependencies" < "name" ∧ "dependencies" < "private" ∧ "name" < "private" := by
    decide
  refine Json.parse?_pretty (.object ?_ fun f member => ?_) (.object fun f member => ?_)
  · obtain ⟨first, second, third⟩ := order
    simp only [Entries.Sorted, List.pairwise_cons, List.forall_mem_cons]
    exact ⟨⟨first, second, by simp⟩, ⟨third, by simp⟩, by simp, .nil⟩
  · simp only [List.mem_cons, List.not_mem_nil, or_false] at member
    rcases member with rfl | rfl | rfl
    · exact listed
    · exact .string _
    · exact .bool _
  · simp only [List.mem_cons, List.not_mem_nil, or_false] at member
    rcases member with rfl | rfl | rfl
    · exact exact
    · exact .string _
    · exact .bool _

theorem withDependency_manifestOf (deps : Entries String) (name : String)
    (source : Option String) :
    Shelf.withDependency (manifestOf deps) name source
      = .ok (manifestOf (Entries.change deps name source)) := by
  have replaced (listed : Value) (fields : Entries Value) (old : Value) :
      Entries.insert "dependencies" listed (("dependencies", old) :: fields)
        = ("dependencies", listed) :: fields := by
    rw [Entries.insert, if_neg (String.lt_irrefl _), if_pos rfl]
  rw [manifestOf, manifestOf, Entries.mapValues_change]
  cases source with
  | none => exact congrArg (fun fields => Except.ok (Value.object fields)) (replaced _ _ _)
  | some source => exact congrArg (fun fields => Except.ok (Value.object fields)) (replaced _ _ _)

end Workspace

end Flowgate.Package
