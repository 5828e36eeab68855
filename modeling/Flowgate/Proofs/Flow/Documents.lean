import Flowgate.Flow.Store
import Flowgate.Proofs.Json.Codecs
import Flowgate.Proofs.Traversal

/-!
The document of deployed flows: flows that were read from a body and hold no doubles are written so
that loading gives the very same flows.
-/

namespace Flowgate

open Json (Value Shape Readable Integral Yields ReadsBack Part backOf field_backOf)

namespace Flow

-- The nesting that is left for the data of a node and the settings of a configuration.
def innerDepth : Nat := 122

-- A node as it is read.
structure Node.Decoded (n : Node) : Prop where
  kind : NodeKind.ofName n.kind.name = n.kind
  data : Readable innerDepth n.data

def Configuration.Decoded (c : Configuration) : Prop := Readable innerDepth (.object c.configs)

structure Decoded (f : Flow) : Prop where
  nodes : ∀ n ∈ f.nodes, n.Decoded
  configurations : ∀ c ∈ f.configurations, c.Decoded

-- The data of the nodes and the settings hold no doubles.
structure Exact (f : Flow) : Prop where
  nodes : ∀ n ∈ f.nodes, Integral n.data
  configurations : ∀ c ∈ f.configurations, Integral (.object c.configs)

-- A flow as a reader gives it, with data and settings of at most this depth.
structure Formed (depth : Nat) (f : Flow) : Prop where
  kinds : ∀ n ∈ f.nodes, NodeKind.ofName n.kind.name = n.kind
  data : ∀ n ∈ f.nodes, Readable depth n.data
  configs : ∀ c ∈ f.configurations, Readable depth (.object c.configs)

theorem Formed.decoded {f : Flow} (formed : f.Formed innerDepth) : f.Decoded where
  nodes n there := ⟨formed.kinds n there, formed.data n there⟩
  configurations c there := formed.configs c there

/-! ### What is decoded -/

section

variable {depth : Nat} {v : Value}

theorem readable_of_any {w : Value} (found : w = .null ∨ Yields .any depth w) (same : v = w) :
    Readable depth v := by
  rcases found with null | yields
  · rw [same, null]
    exact .null
  · cases yields with
    | any readable => exact same ▸ readable

theorem Node.of_decode {n : Node} (yields : Yields Node.shape (depth + 1) v)
    (done : Node.decode v = some n) :
    NodeKind.ofName n.kind.name = n.kind ∧ Readable depth n.data := by
  have data := yields.field (f := Json.defaulted "data" .any) (by decide) (by simp)
  simp only [Node.decode, Option.bind_eq_bind, Option.bind_eq_some_iff, Option.pure_def,
    Option.some.injEq] at done
  obtain ⟨id, -, name, -, rfl⟩ := done
  exact ⟨congrArg NodeKind.ofName (NodeKind.name_ofName name), readable_of_any data rfl⟩

theorem Configuration.of_decode {c : Configuration}
    (yields : Yields Configuration.shape (depth + 2) v) (done : Configuration.decode v = some c) :
    Readable (depth + 1) (.object c.configs) := by
  have configs := yields.field (f := Json.defaulted "configs" .table) (by decide) (by simp)
  simp only [Configuration.decode, Option.bind_eq_bind, Option.bind_eq_some_iff, Option.pure_def,
    Option.some.injEq] at done
  obtain ⟨id, -, rfl⟩ := done
  rcases configs with null | table
  · have none : v.field "configs" = .null := null
    rw [none]
    exact .object List.Pairwise.nil fun _ member => absurd member List.not_mem_nil
  · generalize same : v.field (Json.defaulted "configs" .table).name = w at table
    cases table with
    | table readable =>
      have some : v.field "configs" = _ := same
      rw [some]
      exact readable

theorem decodeList_all {decode : Value → Option α} {shape : Shape} {P : α → Prop} {as : List α}
    (decoded : ∀ w a, Yields shape depth w → decode w = some a → P a)
    (found : v = .null ∨ Yields (.list shape) (depth + 1) v)
    (done : decodeList decode v = some as) : ∀ a ∈ as, P a := by
  rcases found with rfl | yields
  · cases done
    simp
  · obtain ⟨below, items, same, rfl, inner⟩ := yields.items
    obtain rfl : depth = below := Nat.succ.inj same
    intro a member
    obtain ⟨w, there, here⟩ := mem_of_mapM_some done member
    exact decoded w a (inner w there) here

theorem formed_of_decode {f : Flow} (yields : Yields shape (depth + 4) v)
    (done : decode v = some f) : f.Formed (depth + 1) := by
  have nodes := yields.field (f := Json.defaulted "nodes" (.list Node.shape)) (by decide) (by simp)
  have configurations := yields.field
    (f := Json.defaulted "configurations" (.list Configuration.shape)) (by decide) (by simp)
  simp only [decode, Option.bind_eq_bind, Option.bind_eq_some_iff, Option.pure_def,
    Option.some.injEq] at done
  obtain ⟨name, -, ns, ofNodes, cs, -, gs, ofConfigurations, rfl⟩ := done
  have each := decodeList_all (fun _ _ => Node.of_decode) nodes ofNodes
  exact ⟨fun n there => (each n there).1, fun n there => (each n there).2,
    decodeList_all (fun _ _ => Configuration.of_decode) configurations ofConfigurations⟩

end

end Flow

theorem Flows.formed_of_decode {depth : Nat} {field : Json.Field Shape} {v : Value}
    {flows : List Flow} (named : field.name = "flows") (listed : field.shape = .list Flow.shape)
    (yields : Yields (.record [field]) (depth + 6) v) (done : Flows.decode v = some flows) :
    ∀ f ∈ flows, f.Formed (depth + 1) := by
  have found := yields.field (f := field) (by simp) (by simp)
  rw [named, listed] at found
  exact Flow.decodeList_all (fun _ _ => Flow.formed_of_decode) found done

namespace Flow

/-! ### What is read back -/

def Node.parts (n : Node) : List Part :=
  [⟨Json.required "id" .string, .string n.id, .string n.id⟩,
   ⟨Json.required "type" .string, .string n.kind.name, .string n.kind.name⟩,
   ⟨Json.defaulted "moduleID" (.optional .string), .ofString? (n.moduleId.map (·.text)),
    .ofString? (n.moduleId.map (·.text))⟩,
   ⟨Json.defaulted "disabled" .bool, .bool n.disabled, .bool n.disabled⟩,
   ⟨Json.defaulted "data" .any, n.data, n.data⟩]

def Connection.parts (c : Connection) : List Part :=
  [⟨Json.required "from" .string, .string c.source, .string c.source⟩,
   ⟨Json.required "to" .string, .string c.target, .string c.target⟩]

def Configuration.parts (c : Configuration) : List Part :=
  [⟨Json.required "nodeID" .string, .string c.nodeId, .string c.nodeId⟩,
   ⟨Json.defaulted "configs" .table, .object c.configs, .object c.configs⟩]

theorem Node.readsBack {n : Node} (decoded : n.Decoded) (exact : Integral n.data) (level : Nat) :
    ReadsBack (fun steps => Node.shape.read steps (innerDepth + 1)) (n.toJson.indented level)
      (backOf n.parts) := by
  refine Json.readsBack_record n.parts (by simp [parts, Json.required, Json.defaulted])
    (by simp [parts, Json.required, Json.defaulted]) ?_
  intro p member
  simp only [parts, List.mem_cons, List.not_mem_nil, or_false] at member
  rcases member with rfl | rfl | rfl | rfl | rfl
  · exact Json.readsBack_text _ _ _
  · exact Json.readsBack_text _ _ _
  · exact Json.readsBack_optional _ _ _
  · exact Json.readsBack_bool _ _ _
  · exact Json.readsBack_any decoded.data exact _

theorem Node.decode_back {n : Node} (decoded : n.Decoded) :
    Node.decode (backOf n.parts) = some n := by
  obtain ⟨id, kind, moduleId, disabled, data⟩ := n
  have kept : NodeKind.ofName kind.name = kind := decoded.kind
  simp only [Node.decode, backOf, parts, Part.entry, Value.field, Value.get?, Entries.ofList,
    Entries.get?_insert, Json.required, Json.defaulted, Value.string?, Value.bool?, List.map_cons,
    List.map_nil, List.foldl_cons, List.foldl_nil]
  cases moduleId <;> simp [Value.ofString?, kept]

theorem Connection.readsBack (c : Connection) (depth level : Nat) :
    ReadsBack (fun steps => Connection.shape.read steps (depth + 1)) (c.toJson.indented level)
      (backOf c.parts) := by
  refine Json.readsBack_record c.parts (by simp [parts, Json.required])
    (by simp [parts, Json.required]) ?_
  intro p member
  simp only [parts, List.mem_cons, List.not_mem_nil, or_false] at member
  rcases member with rfl | rfl
  · exact Json.readsBack_text _ _ _
  · exact Json.readsBack_text _ _ _

theorem Connection.decode_back (c : Connection) :
    Connection.decode (backOf c.parts) = some c := by
  simp [Connection.decode, backOf, parts, Part.entry, Value.field, Value.get?, Entries.ofList,
    Entries.get?_insert, Json.required, Value.string?]

theorem Configuration.readsBack {c : Configuration} (decoded : c.Decoded)
    (exact : Integral (.object c.configs)) (level : Nat) :
    ReadsBack (fun steps => Configuration.shape.read steps (innerDepth + 1))
      (c.toJson.indented level) (backOf c.parts) := by
  refine Json.readsBack_record c.parts (by simp [parts, Json.required, Json.defaulted])
    (by simp [parts, Json.required, Json.defaulted]) ?_
  intro p member
  simp only [parts, List.mem_cons, List.not_mem_nil, or_false] at member
  rcases member with rfl | rfl
  · exact Json.readsBack_text _ _ _
  · exact Json.readsBack_table decoded exact _

theorem Configuration.decode_back (c : Configuration) :
    Configuration.decode (backOf c.parts) = some c := by
  simp [Configuration.decode, backOf, parts, Part.entry, Value.field, Value.get?, Entries.ofList,
    Entries.get?_insert, Json.required, Json.defaulted, Value.string?, Value.object?]

def parts (f : Flow) : List Part :=
  [⟨Json.required "name" .string, .string f.name, .string f.name⟩,
   ⟨Json.defaulted "nodes" (.list Node.shape), .list Node.toJson f.nodes,
    .list (fun n => backOf n.parts) f.nodes⟩,
   ⟨Json.defaulted "connections" (.list Connection.shape), .list Connection.toJson f.connections,
    .list (fun c => backOf c.parts) f.connections⟩,
   ⟨Json.defaulted "configurations" (.list Configuration.shape),
    .list Configuration.toJson f.configurations,
    .list (fun c => backOf c.parts) f.configurations⟩]

theorem readsBack {f : Flow} (decoded : f.Decoded) (exact : f.Exact) (level : Nat) :
    ReadsBack (fun steps => shape.read steps (innerDepth + 3)) (f.toJson.indented level)
      (backOf f.parts) := by
  refine Json.readsBack_record f.parts (by simp [parts, Json.required, Json.defaulted])
    (by simp [parts, Json.required, Json.defaulted]) ?_
  intro p member
  simp only [parts, List.mem_cons, List.not_mem_nil, or_false] at member
  rcases member with rfl | rfl | rfl | rfl
  · exact Json.readsBack_text _ _ _
  · exact Json.readsBack_list fun n there =>
      Node.readsBack (decoded.nodes n there) (exact.nodes n there) _
  · exact Json.readsBack_list fun c _ => Connection.readsBack c _ _
  · exact Json.readsBack_list fun c there =>
      Configuration.readsBack (decoded.configurations c there) (exact.configurations c there) _

theorem parts_distinct (f : Flow) : (f.parts.map (·.field.name)).Nodup := by
  simp [parts, Json.required, Json.defaulted]

theorem decodeList_list {decode : Value → Option α} {write : α → Value} {as : List α}
    (back : ∀ a ∈ as, decode (write a) = some a) :
    decodeList decode (.list write as) = some as := by
  have whole := mapM_map_some (h := id) back
  rwa [List.map_id] at whole

theorem decode_back {f : Flow} (decoded : f.Decoded) : decode (backOf f.parts) = some f := by
  have name : (backOf f.parts).field "name" = .string f.name :=
    field_backOf f.parts_distinct (.head _)
  have nodes : (backOf f.parts).field "nodes" = .list (fun n => backOf n.parts) f.nodes :=
    field_backOf f.parts_distinct (.tail _ (.head _))
  have connections : (backOf f.parts).field "connections"
      = .list (fun c => backOf c.parts) f.connections :=
    field_backOf f.parts_distinct (.tail _ (.tail _ (.head _)))
  have configurations : (backOf f.parts).field "configurations"
      = .list (fun c => backOf c.parts) f.configurations :=
    field_backOf f.parts_distinct (.tail _ (.tail _ (.tail _ (.head _))))
  rw [decode, name, nodes, connections, configurations,
    decodeList_list fun n there => Node.decode_back (decoded.nodes n there),
    decodeList_list fun c _ => Connection.decode_back c,
    decodeList_list fun c _ => Configuration.decode_back c]
  rfl

/-! ### What is written holds no doubles -/

theorem integral_list {write : α → Value} {as : List α} (all : ∀ a ∈ as, Integral (write a)) :
    Integral (.list write as) :=
  .array (List.forall_mem_map.mpr all)

theorem integral_ofString? (s : Option String) : Integral (.ofString? s) := by
  cases s with
  | none => exact .null
  | some s => exact .string s

theorem Node.integral_toJson {n : Node} (exact : Integral n.data) : Integral n.toJson := by
  refine .object fun f member => ?_
  simp only [List.mem_cons, List.not_mem_nil, or_false] at member
  rcases member with rfl | rfl | rfl | rfl | rfl
  · exact .string _
  · exact .string _
  · exact integral_ofString? _
  · exact .bool _
  · exact exact

theorem Connection.integral_toJson (c : Connection) : Integral c.toJson := by
  refine .object fun f member => ?_
  simp only [List.mem_cons, List.not_mem_nil, or_false] at member
  rcases member with rfl | rfl
  · exact .string _
  · exact .string _

theorem Configuration.integral_toJson {c : Configuration} (exact : Integral (.object c.configs)) :
    Integral c.toJson := by
  refine .object fun f member => ?_
  simp only [List.mem_cons, List.not_mem_nil, or_false] at member
  rcases member with rfl | rfl
  · exact .string _
  · exact exact

theorem integral_toJson {f : Flow} (exact : f.Exact) : Integral f.toJson := by
  refine .object fun field member => ?_
  simp only [List.mem_cons, List.not_mem_nil, or_false] at member
  rcases member with rfl | rfl | rfl | rfl
  · exact .string _
  · exact integral_list fun n there => Node.integral_toJson (exact.nodes n there)
  · exact integral_list fun c _ => c.integral_toJson
  · exact integral_list fun c there => Configuration.integral_toJson (exact.configurations c there)

end Flow

namespace Flows

variable {flows : List Flow}

def parts (flows : List Flow) : List Part :=
  [⟨Json.defaulted "flows" (.list Flow.shape), .list Flow.toJson flows,
    .list (fun f => Json.backOf f.parts) flows⟩]

theorem readsBack (decoded : ∀ f ∈ flows, f.Decoded) (exact : ∀ f ∈ flows, f.Exact)
    (level : Nat) :
    ReadsBack
      (fun steps => (Flows.shape (Json.defaulted "flows")).read steps (Flow.innerDepth + 5))
      ((Flows.toJson flows).indented level) (Json.backOf (parts flows)) := by
  refine Json.readsBack_record (parts flows) (by simp [parts, Json.defaulted]) (by simp [parts]) ?_
  intro p member
  rw [List.mem_singleton.mp member]
  exact Json.readsBack_list fun f there => Flow.readsBack (decoded f there) (exact f there) _

theorem decode_back (decoded : ∀ f ∈ flows, f.Decoded) :
    Flows.decode (Json.backOf (parts flows)) = some flows := by
  have found : (Json.backOf (parts flows)).field "flows"
      = .list (fun f => Json.backOf f.parts) flows :=
    Json.field_backOf (by simp) (.head _)
  rw [Flows.decode, found]
  exact Flow.decodeList_list fun f there => Flow.decode_back (decoded f there)

theorem integral_toJson (exact : ∀ f ∈ flows, f.Exact) : Integral (Flows.toJson flows) := by
  refine .object fun f member => ?_
  rw [List.mem_singleton.mp member]
  exact Flow.integral_list fun f there => Flow.integral_toJson (exact f there)

-- What is stored is what was deployed.
theorem ofText?_pretty (decoded : ∀ f ∈ flows, f.Decoded) (exact : ∀ f ∈ flows, f.Exact) :
    Flow.Store.document.ofText? (Flows.toJson flows).pretty.toList = some flows :=
  Json.ofText?_pretty (integral_toJson exact) (readsBack decoded exact 0) (decode_back decoded)

end Flows

end Flowgate
