import Flowgate.Package.Load
import Flowgate.Proofs.Entries
import Flowgate.Proofs.Traversal
import Mathlib.Data.List.Induction

/-!
The scripts of a loaded package. A node is described by the first entry of its name in the manifest, and
it runs the last script that can be read among the entries of its name. So it runs the script of the
entry that describes it unless a later entry of that name has another one. What the entries of other
names declare has no say.
-/

namespace Flowgate.Package

open File (Tree)

variable {files files' : Tree} {dir node : String} {manifest : Manifest} {loaded : Loaded}

/-! ### Reading -/

-- The text of the script that an entry declares, if it declares one that can be read.
def scriptText? (files : Tree) (dir : String) (n : NodeEntry) : Option String :=
  (scriptPath? dir n).bind fun path => (files.read path).toOption

theorem scriptText?_eq_some_iff {n : NodeEntry} {source : String} :
    scriptText? files dir n = some source ↔
      ∃ path, scriptPath? dir n = some path ∧ files.read path = .ok source := by
  rw [scriptText?, Option.bind_eq_some_iff]
  constructor
  · rintro ⟨path, declared, read⟩
    exact ⟨path, declared, ok_of_toOption read⟩
  · rintro ⟨path, declared, read⟩
    exact ⟨path, declared, by rw [read]; rfl⟩

theorem readScripts_snoc (nodes : List NodeEntry) (n : NodeEntry) :
    readScripts files dir (nodes ++ [n]) = match scriptText? files dir n with
      | some source => Entries.insert n.name source (readScripts files dir nodes)
      | none => readScripts files dir nodes := by
  unfold readScripts scriptText?
  rw [List.foldl_append, List.foldl_cons, List.foldl_nil]
  cases scriptPath? dir n with
  | none => rfl
  | some path => cases read : files.read path <;> simp [read, Except.toOption]

-- The script that counts for a name: the last one that can be read.
def lastScript? (files : Tree) (dir : String) (nodes : List NodeEntry) (node : String) :
    Option String :=
  ((nodes.filter (·.name = node)).filterMap (scriptText? files dir)).getLast?

theorem lastScript?_append (nodes more : List NodeEntry) :
    lastScript? files dir (nodes ++ more) node
      = (lastScript? files dir more node).or (lastScript? files dir nodes node) := by
  rw [lastScript?, List.filter_append, List.filterMap_append, List.getLast?_append]
  rfl

theorem lastScript?_singleton (n : NodeEntry) :
    lastScript? files dir [n] node = if n.name = node then scriptText? files dir n else none := by
  by_cases same : n.name = node
  · cases read : scriptText? files dir n <;> simp [lastScript?, same, read]
  · simp [lastScript?, same]

theorem lastScript?_absent {nodes : List NodeEntry} (absent : ∀ n ∈ nodes, n.name ≠ node) :
    lastScript? files dir nodes node = none := by
  have none : nodes.filter (·.name = node) = [] := by simpa using absent
  rw [lastScript?, none]
  rfl

theorem get?_readScripts (nodes : List NodeEntry) :
    Entries.get? (readScripts files dir nodes) node = lastScript? files dir nodes node := by
  induction nodes using List.reverseRecOn with
  | nil => rfl
  | append_singleton nodes n ih =>
    rw [readScripts_snoc, lastScript?_append, lastScript?_singleton]
    cases scriptText? files dir n with
    | none => simpa using ih
    | some source =>
      dsimp only
      rw [Entries.get?_insert, ih]
      by_cases same : n.name = node <;> simp [same]

/-! ### What a node runs -/

-- The entry that describes a node.
def Manifest.entry? (m : Manifest) (node : String) : Option NodeEntry :=
  m.declaredNodes.find? (·.name = node)

-- A later entry of the name has a script that can be read, and it is not that of the first one.
def Overridden (files : Tree) (dir : String) (nodes : List NodeEntry) (node : String) : Prop :=
  ∃ before first after source, nodes = before ++ first :: after ∧
    (∀ n ∈ before, n.name ≠ node) ∧ first.name = node ∧
    lastScript? files dir after node = some source ∧ scriptText? files dir first ≠ some source

theorem lastScript?_split {before after : List NodeEntry} {first : NodeEntry}
    (absent : ∀ n ∈ before, n.name ≠ node) (here : first.name = node) :
    lastScript? files dir (before ++ first :: after) node
      = (lastScript? files dir after node).or (scriptText? files dir first) := by
  rw [List.append_cons, lastScript?_append, lastScript?_append, lastScript?_singleton, if_pos here,
    lastScript?_absent absent, Option.or_none]

theorem find?_split {before after : List NodeEntry} {first : NodeEntry}
    (absent : ∀ n ∈ before, n.name ≠ node) (here : first.name = node) :
    (before ++ first :: after).find? (·.name = node) = some first := by
  rw [List.find?_eq_some_iff_append]
  refine ⟨decide_eq_true here, before, after, rfl, fun n member => ?_⟩
  simpa using absent n member

theorem described_eq_last_iff (nodes : List NodeEntry) :
    (nodes.find? (·.name = node)).bind (scriptText? files dir) = lastScript? files dir nodes node ↔
      ¬Overridden files dir nodes node := by
  constructor
  · rintro same ⟨before, first, after, source, rfl, absent, here, later, other⟩
    rw [find?_split absent here, lastScript?_split absent here, later] at same
    exact other same
  · intro sole
    cases found : nodes.find? (·.name = node) with
    | none =>
      have absent : ∀ n ∈ nodes, n.name ≠ node := by simpa using found
      exact (lastScript?_absent absent).symm
    | some first =>
      obtain ⟨here, before, after, rfl, absent⟩ := List.find?_eq_some_iff_append.mp found
      have here : first.name = node := of_decide_eq_true here
      have absent : ∀ n ∈ before, n.name ≠ node := by simpa using absent
      rw [lastScript?_split absent here]
      cases later : lastScript? files dir after node with
      | none => rfl
      | some source =>
        by_contra other
        exact sole ⟨before, first, after, source, rfl, absent, here, later, other⟩

-- Where no two entries have one name, each node runs the script of the entry that describes it.
theorem not_overridden {nodes : List NodeEntry} (distinct : (nodes.map (·.name)).Nodup) :
    ¬Overridden files dir nodes node := by
  rintro ⟨before, first, after, source, rfl, -, here, later, -⟩
  have apart : ∀ n ∈ after, n.name ≠ node := by
    intro n member same
    rw [List.map_append, List.map_cons] at distinct
    apply (List.nodup_cons.mp (List.nodup_append.mp distinct).2.1).1
    rw [here, ← same]
    exact List.mem_map_of_mem member
  rw [lastScript?_absent apart] at later
  cases later

-- What a node of a module runs: a text under the label of the node, or nothing at all.
structure Runs (s : Schema) (node : String) (text : Option String) : Prop where
  callable : (s.controller node).isNoop = false ↔ ∃ source, text = some source
  script : ∀ source, text = some source →
    s.controller node = .script (s.name ++ "." ++ node) source

theorem Runs.unique {s : Schema} {text text' : Option String} (runs : Runs s node text)
    (runs' : Runs s node text') : text = text' := by
  cases text with
  | none =>
    cases text' with
    | none => rfl
    | some source => exact absurd (runs.callable.mp (runs'.callable.mpr ⟨source, rfl⟩)) (by simp)
  | some source =>
    obtain ⟨source', rfl⟩ := runs'.callable.mp (runs.callable.mpr ⟨source, rfl⟩)
    have same := (runs.script source rfl).symm.trans (runs'.script source' rfl)
    rw [(Controller.script.inj same).2]

theorem runs_of_controller {s : Schema} {text : Option String}
    (same : s.controller node = .orNoop (text.map (.script (s.name ++ "." ++ node)))) :
    Runs s node text := by
  cases text with
  | none => exact ⟨by simp [same, Controller.orNoop, Controller.isNoop], by simp⟩
  | some source =>
    refine ⟨by simp [same, Controller.orNoop, Controller.isNoop], ?_⟩
    rintro _ ⟨⟩
    exact same

/-! ### Loading -/

theorem load_eq_ok_iff : load files dir = .ok (manifest, loaded) ↔
    readManifest files dir = .ok manifest ∧
      loaded = { package := manifest.name, nodeNames := manifest.declaredNodes.map (·.name)
                 scripts := readScripts files dir manifest.declaredNodes } := by
  unfold load
  cases readManifest files dir with
  | error fault => simp [bind, Except.bind]
  | ok found =>
    simp only [bind, Except.bind, pure, Except.pure, Except.ok.injEq, Prod.mk.injEq]
    constructor
    · rintro ⟨rfl, rfl⟩
      exact ⟨rfl, rfl⟩
    · rintro ⟨rfl, rfl⟩
      exact ⟨rfl, rfl⟩

theorem readManifest_congr
    (same : files'.read (File.join dir "package.json") = files.read (File.join dir "package.json")) :
    readManifest files' dir = readManifest files dir := by
  simp only [readManifest, same]

theorem lastScript?_congr {nodes : List NodeEntry}
    (same : ∀ n ∈ nodes, n.name = node → scriptText? files' dir n = scriptText? files dir n) :
    lastScript? files' dir nodes node = lastScript? files dir nodes node := by
  rw [lastScript?, lastScript?]
  congr 1
  apply List.filterMap_congr
  intro n member
  obtain ⟨among, here⟩ := List.mem_filter.mp member
  exact same n among (of_decide_eq_true here)

theorem controller_ofManifest (done : load files dir = .ok (manifest, loaded)) (isLocal : Bool)
    (node : String) : (Schema.ofManifest manifest isLocal (some loaded)).controller node
      = .orNoop ((lastScript? files dir manifest.declaredNodes node).map
          (.script (manifest.name ++ "." ++ node))) := by
  obtain ⟨-, rfl⟩ := load_eq_ok_iff.mp done
  rw [← get?_readScripts]
  rfl

theorem runs_of_load (done : load files dir = .ok (manifest, loaded)) (isLocal : Bool)
    (node : String) : Runs (.ofManifest manifest isLocal (some loaded)) node
      (lastScript? files dir manifest.declaredNodes node) :=
  runs_of_controller (controller_ofManifest done isLocal node)

-- What the manifest says of other nodes, and what became of their scripts, does not count.
theorem controller_congr (done : load files dir = .ok (manifest, loaded)) (isLocal : Bool)
    (manifests :
      files'.read (File.join dir "package.json") = files.read (File.join dir "package.json"))
    (scripts : ∀ n ∈ manifest.declaredNodes, n.name = node →
      scriptText? files' dir n = scriptText? files dir n) :
    ∃ loaded', load files' dir = .ok (manifest, loaded') ∧
      (Schema.ofManifest manifest isLocal (some loaded')).controller node
        = (Schema.ofManifest manifest isLocal (some loaded)).controller node := by
  obtain ⟨read, -⟩ := load_eq_ok_iff.mp done
  have done' := load_eq_ok_iff.mpr ⟨(readManifest_congr manifests).trans read, rfl⟩
  refine ⟨_, done', ?_⟩
  rw [controller_ofManifest done', controller_ofManifest done, lastScript?_congr scripts]

theorem controller_of_load (done : load files dir = .ok (manifest, loaded)) (isLocal : Bool)
    (node : String) :
    let s := Schema.ofManifest manifest isLocal (some loaded)
    s.node? node = (manifest.entry? node).map (fun n =>
      { id := .node manifest.name n.name, name := n.name, kind := n.kind
        description := n.description, inputs := n.inputs }) ∧
    Runs s node (lastScript? files dir manifest.declaredNodes node) ∧
    (Runs s node ((manifest.entry? node).bind (scriptText? files dir)) ↔
      ¬Overridden files dir manifest.declaredNodes node) ∧
    ∀ files' : Tree,
      files'.read (File.join dir "package.json") = files.read (File.join dir "package.json") →
      (∀ n ∈ manifest.declaredNodes, n.name = node →
        scriptText? files' dir n = scriptText? files dir n) →
      ∃ loaded', load files' dir = .ok (manifest, loaded') ∧
        (Schema.ofManifest manifest isLocal (some loaded')).controller node = s.controller node := by
  have runs := runs_of_load done isLocal node
  refine ⟨List.find?_map .., runs, ?_, fun files' => controller_congr done isLocal⟩
  · rw [← described_eq_last_iff]
    constructor
    · exact fun described => described.unique runs
    · intro same
      rwa [Manifest.entry?, same]

/-! ### Two packages -/

-- The entry of a node with the path of its script.
def entryText (name path : String) : String :=
  "\x7b\"name\":\"" ++ name ++ "\",\"type\":\"Request\",\"controller\":\"" ++ path ++ "\"\x7d"

-- A directory `pkg` with a manifest of some nodes, and some files.
def shipped (nodes scripts : List (String × String)) : Tree :=
  let entries := nodes.map fun (name, path) => entryText name path
  let manifest := "\x7b\"name\":\"p\",\"ecoflow\":\x7b\"nodes\":[" ++ ",".intercalate entries
    ++ "]\x7d\x7d"
  { nodes := (["pkg"], .directory) :: (["pkg", "package.json"], .text manifest)
      :: scripts.map fun (name, text) => (["pkg", name], .text text) }

-- One of two scripts is missing.
def halved : Tree :=
  shipped [("send", "send.lua"), ("list", "list.lua")] [("list.lua", "return 1")]

theorem controller_of_load_halved :
    ∃ manifest loaded, load halved "pkg" = .ok (manifest, loaded) ∧
      Runs (.ofManifest manifest false (some loaded)) "send" none ∧
      Runs (.ofManifest manifest false (some loaded)) "list" (some "return 1") := by
  have ran : (load halved "pkg").toOption.map (fun (manifest, _) =>
      (lastScript? halved "pkg" manifest.declaredNodes "send",
        lastScript? halved "pkg" manifest.declaredNodes "list"))
      = some (none, some "return 1") := by
    decide +kernel
  obtain ⟨⟨manifest, loaded⟩, found, rest⟩ := Option.map_eq_some_iff.mp ran
  obtain ⟨send, list⟩ := Prod.mk.inj rest
  have done := ok_of_toOption found
  refine ⟨manifest, loaded, done, ?_, ?_⟩
  · rw [← send]
    exact (controller_of_load done false "send").2.1
  · rw [← list]
    exact (controller_of_load done false "list").2.1

-- Both entries have one name, and both scripts are there.
def twins : Tree :=
  shipped [("n", "a.lua"), ("n", "b.lua")] [("a.lua", "return 1"), ("b.lua", "error('boom')")]

theorem twins_differ :
    ∃ manifest loaded, load twins "pkg" = .ok (manifest, loaded) ∧
      (manifest.entry? "n").bind (scriptText? twins "pkg") = some "return 1" ∧
      Runs (.ofManifest manifest false (some loaded)) "n" (some "error('boom')") ∧
      ¬Runs (.ofManifest manifest false (some loaded)) "n" (some "return 1") := by
  have ran : (load twins "pkg").toOption.map (fun (manifest, _) =>
      ((manifest.entry? "n").bind (scriptText? twins "pkg"),
        lastScript? twins "pkg" manifest.declaredNodes "n"))
      = some (some "return 1", some "error('boom')") := by
    decide +kernel
  obtain ⟨⟨manifest, loaded⟩, found, rest⟩ := Option.map_eq_some_iff.mp ran
  obtain ⟨described, last⟩ := Prod.mk.inj rest
  have done := ok_of_toOption found
  have runs : Runs (.ofManifest manifest false (some loaded)) "n" (some "error('boom')") := by
    rw [← last]
    exact runs_of_load done false "n"
  exact ⟨manifest, loaded, done, described, runs, fun runs' => absurd (runs.unique runs') (by decide)⟩

end Flowgate.Package
