import Flowgate.Proofs.Flow.Saved
import Mathlib.Data.List.Induction
import Mathlib.Data.List.Nodup

/-!
The stacks of a flow: one for each module that owns an enabled configuration node, in the order in
which the modules first appear. A stack has all enabled configuration nodes of the flow, and of the
saved configurations those that its module's own nodes choose.
-/

namespace Flowgate.Flow

open Package (Identity)

-- An enabled configuration node of a module.
structure Node.Supplies (n : Node) (id : Identity) : Prop where
  kind : n.kind = .configuration
  enabled : n.disabled = false
  owner : n.moduleId = some id

theorem isSource_iff (n : Node) :
    n.isSource = true ↔ n.kind = .configuration ∧ n.disabled = false := by
  simp [Node.isSource]

theorem supplies_iff {n : Node} {id : Identity} :
    n.Supplies id ↔ n.isSource = true ∧ n.moduleId = some id := by
  rw [isSource_iff]
  exact ⟨fun h => ⟨⟨h.kind, h.enabled⟩, h.owner⟩, fun h => ⟨h.1.1, h.1.2, h.2⟩⟩

instance (n : Node) (id : Identity) : Decidable (n.Supplies id) :=
  decidable_of_iff _ supplies_iff.symm

/-! ### The modules -/

-- The place of the first enabled configuration node of a module, past the end if there is none.
def firstPlace (nodes : List Node) (id : Identity) : Nat :=
  nodes.findIdx fun n => n.Supplies id

-- The modules of the enabled configuration nodes, each once, by the places of their first nodes.
structure Owners (nodes : List Node) (ids : List Identity) : Prop where
  distinct : ids.Nodup
  owns : ∀ id, id ∈ ids ↔ ∃ n ∈ nodes, n.Supplies id
  ordered : ids.Pairwise fun a b => firstPlace nodes a < firstPlace nodes b

section

variable {nodes : List Node} {ids : List Identity} {id : Identity} {n : Node}

theorem firstPlace_lt_iff :
    firstPlace nodes id < nodes.length ↔ ∃ n ∈ nodes, n.Supplies id := by
  simp only [firstPlace, List.findIdx_lt_length, decide_eq_true_eq]

theorem firstPlace_snoc (owned : ∃ m ∈ nodes, m.Supplies id) :
    firstPlace (nodes ++ [n]) id = firstPlace nodes id := by
  have inside := firstPlace_lt_iff.mpr owned
  unfold firstPlace at inside ⊢
  rw [List.findIdx_append, if_pos inside]

theorem length_le_firstPlace_snoc (new : ¬∃ m ∈ nodes, m.Supplies id) :
    nodes.length ≤ firstPlace (nodes ++ [n]) id := by
  have outside := mt firstPlace_lt_iff.mp new
  unfold firstPlace at outside ⊢
  rw [List.findIdx_append, if_neg outside]
  omega

-- A node that comes later does not change the order of the modules that are there.
theorem Owners.ordered_snoc (owners : Owners nodes ids) (n : Node) :
    ids.Pairwise fun a b => firstPlace (nodes ++ [n]) a < firstPlace (nodes ++ [n]) b := by
  refine owners.ordered.imp_of_mem fun {a b} first second less => ?_
  rw [firstPlace_snoc ((owners.owns a).mp first), firstPlace_snoc ((owners.owns b).mp second)]
  exact less

theorem Owners.snoc_same (owners : Owners nodes ids) (known : ∀ id, n.Supplies id → id ∈ ids) :
    Owners (nodes ++ [n]) ids where
  distinct := owners.distinct
  owns id := by
    rw [owners.owns]
    constructor
    · rintro ⟨m, member, supplies⟩
      exact ⟨m, List.mem_append_left _ member, supplies⟩
    · rintro ⟨m, member, supplies⟩
      rcases List.mem_append.mp member with there | last
      · exact ⟨m, there, supplies⟩
      · obtain rfl := List.mem_singleton.mp last
        exact (owners.owns id).mp (known id supplies)
  ordered := owners.ordered_snoc n

theorem Owners.snoc_new (owners : Owners nodes ids) (supplies : n.Supplies id)
    (new : id ∉ ids) : Owners (nodes ++ [n]) (ids ++ [id]) where
  distinct := List.nodup_append.mpr
    ⟨owners.distinct, List.nodup_singleton id, fun a there b last same =>
      new (List.mem_singleton.mp last ▸ same ▸ there)⟩
  owns other := by
    rw [List.mem_append, owners.owns, List.mem_singleton]
    constructor
    · rintro (⟨m, member, known⟩ | rfl)
      · exact ⟨m, List.mem_append_left _ member, known⟩
      · exact ⟨n, List.mem_append_right _ (List.mem_singleton_self n), supplies⟩
    · rintro ⟨m, member, known⟩
      rcases List.mem_append.mp member with there | last
      · exact .inl ⟨m, there, known⟩
      · obtain rfl := List.mem_singleton.mp last
        exact .inr (Option.some.inj (known.owner.symm.trans supplies.owner))
  ordered := by
    refine List.pairwise_append.mpr ⟨owners.ordered_snoc n, List.pairwise_singleton _ _, ?_⟩
    intro a there b last
    obtain rfl := List.mem_singleton.mp last
    have owned := (owners.owns a).mp there
    rw [firstPlace_snoc owned]
    exact Nat.lt_of_lt_of_le (firstPlace_lt_iff.mpr owned)
      (length_le_firstPlace_snoc (mt (owners.owns b).mpr new))

theorem modulesOf_snoc (sources : List Node) (n : Node) :
    modulesOf (sources ++ [n]) = match n.moduleId with
      | none => modulesOf sources
      | some id => if id ∈ modulesOf sources then modulesOf sources
          else modulesOf sources ++ [id] := by
  unfold modulesOf
  rw [List.filterMap_append, List.foldl_append]
  cases owner : n.moduleId with
  | none => rw [List.filterMap_cons_none owner, List.filterMap_nil, List.foldl_nil]
  | some id =>
    rw [List.filterMap_cons_some owner, List.filterMap_nil, List.foldl_cons, List.foldl_nil]

-- The induction is on the nodes from their end, since a module is taken where it first appears.
theorem owners_modulesOf (nodes : List Node) :
    Owners nodes (modulesOf (nodes.filter Node.isSource)) := by
  induction nodes using List.reverseRecOn with
  | nil => exact ⟨List.nodup_nil, by simp [modulesOf], List.Pairwise.nil⟩
  | append_singleton nodes n ih =>
    rw [List.filter_append]
    by_cases source : n.isSource = true
    · rw [List.filter_cons_of_pos source, List.filter_nil, modulesOf_snoc]
      cases owner : n.moduleId with
      | none =>
        refine ih.snoc_same fun id supplies => ?_
        cases owner.symm.trans supplies.owner
      | some id =>
        have supplies : n.Supplies id := supplies_iff.mpr ⟨source, owner⟩
        by_cases known : id ∈ modulesOf (nodes.filter Node.isSource)
        · simp only [if_pos known]
          refine ih.snoc_same fun other supplies' => ?_
          rwa [← Option.some.inj (supplies.owner.symm.trans supplies'.owner)]
        · simp only [if_neg known]
          exact ih.snoc_new supplies known
    · rw [List.filter_cons_of_neg source, List.filter_nil, List.append_nil]
      exact ih.snoc_same fun id supplies => absurd (supplies_iff.mp supplies).1 source

end

/-! ### Their configurations -/

-- What some nodes choose, each in its turn: its first saved configuration, unless that is empty or
-- there is none.
inductive Chosen (configurations : List Configuration) :
    List Node → List Configuration → Prop
  | nil : Chosen configurations [] []
  | kept {n : Node} {c : Configuration} {nodes : List Node} {chosen : List Configuration}
      (first : FirstSaved configurations n.id c) (filled : c.configs ≠ [])
      (rest : Chosen configurations nodes chosen) :
      Chosen configurations (n :: nodes) (c :: chosen)
  | dropped {n : Node} {nodes : List Node} {chosen : List Configuration}
      (empty : ∀ c, FirstSaved configurations n.id c → c.configs = [])
      (rest : Chosen configurations nodes chosen) : Chosen configurations (n :: nodes) chosen

section

variable {configurations : List Configuration} {nodes : List Node} {chosen : List Configuration}

theorem chosen_savedFor (configurations : List Configuration) (nodes : List Node) :
    Chosen configurations nodes (nodes.filterMap fun n => savedFor configurations n.id) := by
  induction nodes with
  | nil => exact .nil
  | cons n nodes ih =>
    cases found : savedFor configurations n.id with
    | none =>
      rw [List.filterMap_cons, found]
      exact .dropped (savedFor_eq_none_iff.mp found) ih
    | some c =>
      obtain ⟨first, filled⟩ := savedFor_eq_some_iff.mp found
      rw [List.filterMap_cons, found]
      exact .kept first filled ih

theorem Chosen.mem_iff (all : Chosen configurations nodes chosen) (c : Configuration) :
    c ∈ chosen ↔ c.configs ≠ [] ∧ ∃ n ∈ nodes, FirstSaved configurations n.id c := by
  induction all with
  | nil => simp
  | @kept n d nodes chosen first filled rest ih =>
    rw [List.mem_cons, ih]
    constructor
    · rintro (rfl | ⟨some, m, member, found⟩)
      · exact ⟨filled, n, List.mem_cons_self, first⟩
      · exact ⟨some, m, List.mem_cons_of_mem _ member, found⟩
    · rintro ⟨some, m, member, found⟩
      rcases List.mem_cons.mp member with rfl | there
      · exact .inl (found.unique first)
      · exact .inr ⟨some, m, there, found⟩
  | @dropped n nodes chosen empty rest ih =>
    rw [ih]
    constructor
    · rintro ⟨some, m, member, found⟩
      exact ⟨some, m, List.mem_cons_of_mem _ member, found⟩
    · rintro ⟨some, m, member, found⟩
      rcases List.mem_cons.mp member with rfl | there
      · exact absurd (empty c found) some
      · exact ⟨some, m, there, found⟩

end

/-! ### The stacks -/

-- What the stacks of a flow are.
structure Partition (f : Flow) (entries : Stacks) : Prop where
  owners : Owners f.nodes (entries.map Prod.fst)
  nodes : ∀ entry ∈ entries, entry.2.nodes
    = f.nodes.filter fun n => n.kind = .configuration ∧ n.disabled = false
  configurations : ∀ entry ∈ entries, Chosen f.configurations
    (f.nodes.filter fun n => n.Supplies entry.1) entry.2.configurations
  -- Nothing that a node chooses is lost,
  kept : ∀ n ∈ f.nodes, ∀ id, n.Supplies id → ∀ c, FirstSaved f.configurations n.id c →
    c.configs ≠ [] → ∃ stack, (id, stack) ∈ entries ∧ c ∈ stack.configurations
  -- and there is nothing else.
  filled : ∀ entry ∈ entries, ∀ c ∈ entry.2.configurations, c.configs ≠ []
  owned : ∀ entry ∈ entries, ∀ c ∈ entry.2.configurations,
    ∃ n ∈ f.nodes, n.Supplies entry.1 ∧ n.id = c.nodeId

theorem keys_moduleStacks (f : Flow) :
    f.moduleStacks.map Prod.fst = modulesOf (f.nodes.filter Node.isSource) := by
  rw [moduleStacks, List.map_map]
  exact List.map_id _

theorem mem_moduleStacks {f : Flow} {entry : Identity × Stack} (member : entry ∈ f.moduleStacks) :
    entry.2 = stackOf (f.nodes.filter Node.isSource) f.configurations entry.1 := by
  obtain ⟨id, -, rfl⟩ := List.mem_map.mp member
  rfl

theorem get?_map_stack (stack : Identity → Stack) {ids : List Identity} {id : Identity}
    (member : id ∈ ids) :
    Stacks.get? (ids.map fun id => (id, stack id)) id = some (stack id) := by
  induction ids with
  | nil => cases member
  | cons first ids ih =>
    unfold Stacks.get? at ih ⊢
    rw [List.map_cons, List.find?_cons]
    by_cases here : first = id
    · simp [here]
    · simp only [here, decide_false]
      exact ih ((List.mem_cons.mp member).resolve_left (Ne.symm here))

-- A module with an enabled configuration node is given its stack.
theorem get?_moduleStacks {f : Flow} {n : Node} {id : Identity} (member : n ∈ f.nodes)
    (supplies : n.Supplies id) :
    f.moduleStacks.get? id
      = some (stackOf (f.nodes.filter Node.isSource) f.configurations id) :=
  get?_map_stack _ (((owners_modulesOf f.nodes).owns id).mpr ⟨n, member, supplies⟩)

-- What the nodes of a module keep of the saved configurations, in their order.
def choices (configurations : List Configuration) (id : Identity) (nodes : List Node) :
    List Configuration :=
  (nodes.filter fun n => n.Supplies id).filterMap fun n => savedFor configurations n.id

theorem configurations_stackOf (f : Flow) (id : Identity) :
    (stackOf (f.nodes.filter Node.isSource) f.configurations id).configurations
      = choices f.configurations id f.nodes := by
  have own : (f.nodes.filter Node.isSource).filter (·.moduleId = some id)
      = f.nodes.filter fun n => n.Supplies id := by
    rw [List.filter_filter]
    refine List.filter_congr fun n _ => ?_
    rw [Bool.eq_iff_iff, Bool.and_eq_true, decide_eq_true_iff, decide_eq_true_iff, supplies_iff,
      and_comm]
  rw [stackOf, own]
  rfl

theorem partition_moduleStacks (f : Flow) : Partition f f.moduleStacks := by
  have owners : Owners f.nodes (f.moduleStacks.map Prod.fst) :=
    keys_moduleStacks f ▸ owners_modulesOf f.nodes
  have chosen : ∀ entry ∈ f.moduleStacks, Chosen f.configurations
      (f.nodes.filter fun n => n.Supplies entry.1) entry.2.configurations := by
    intro entry member
    rw [mem_moduleStacks member, configurations_stackOf]
    exact chosen_savedFor f.configurations _
  refine ⟨owners, ?nodes, chosen, ?kept, ?filled, ?owned⟩
  case nodes =>
    intro entry member
    rw [mem_moduleStacks member]
    refine List.filter_congr fun n _ => ?_
    rw [Bool.eq_iff_iff, isSource_iff, decide_eq_true_iff]
  case kept =>
    intro n member id supplies c first some
    obtain ⟨⟨_, stack⟩, there, rfl⟩ :=
      List.mem_map.mp ((owners.owns id).mpr ⟨n, member, supplies⟩)
    refine ⟨stack, there, ((chosen _ there).mem_iff c).mpr ⟨some, n, ?_, first⟩⟩
    exact List.mem_filter.mpr ⟨member, decide_eq_true supplies⟩
  case filled =>
    intro entry there c member
    exact (((chosen entry there).mem_iff c).mp member).1
  case owned =>
    intro entry there c member
    obtain ⟨-, n, own, first⟩ := ((chosen entry there).mem_iff c).mp member
    obtain ⟨among, supplies⟩ := List.mem_filter.mp own
    exact ⟨n, among, of_decide_eq_true supplies, first.1.symm⟩

-- Two nodes of one id keep its configuration twice, and a node without a module keeps none.
example :
    let source (id : String) (owner : Option Identity) : Node :=
      { id, kind := .configuration, moduleId := owner, disabled := false, data := .null }
    let f : Flow :=
      { name := "f"
        nodes := [source "a" (some ⟨"m"⟩), source "b" none, source "c" (some ⟨"k"⟩),
          source "a" (some ⟨"m"⟩)]
        connections := []
        configurations := [⟨"b", [("x", .null)]⟩, ⟨"a", [("x", .null)]⟩, ⟨"c", []⟩] }
    f.moduleStacks.map (fun entry => (entry.1, entry.2.configurations.map (·.nodeId)))
      = [(⟨"m"⟩, ["a", "a"]), (⟨"k"⟩, [])] := rfl

end Flowgate.Flow
