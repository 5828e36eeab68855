import Flowgate.Proofs.File.Presence
import Flowgate.Proofs.Flow.Storage
import Flowgate.Proofs.Json.Nesting

/-!
The round trip of stored flows: flows that came from JSON and hold no doubles are loaded as they were
saved if the document is not nested too deep, and a second save succeeds and writes the same text.
-/

namespace Flowgate

open File (Tree Node Place)
open Json (Codec Readable Shape Value Yields)

/-! ### Flows from JSON -/

-- What a codec gives for some bytes, or for some JSON in memory, which may be nested at any depth.
inductive Json.Deserialized (codec : Codec α) (a : α) : Prop
  | bytes {bytes : List UInt8} (done : codec.ofBytes bytes = .ok a)
  | value {depth : Nat} {v : Value} (readable : Readable depth v) (done : codec.ofValue? v = some a)

theorem Json.Deserialized.yields {codec : Codec α} {a : α} (read : Json.Deserialized codec a) :
    ∃ depth v, Yields codec.shape depth v ∧ codec.decode v = some a := by
  cases read with
  | bytes done =>
    obtain ⟨v, yields, decoded⟩ := Json.ofBytes_ok done
    exact ⟨_, v, yields, decoded⟩
  | value readable done =>
    obtain ⟨v, yields, decoded⟩ := Json.ofValue?_some readable done
    exact ⟨_, v, yields, decoded⟩

namespace Flows

variable {flows : List Flow}

-- What lists of flows are read from: an array of them, or a document that has it in its one field.
inductive Codes : Codec (List Flow) → Prop
  | array : Codes { shape := .list Flow.shape, decode := Flow.decodeList Flow.decode }
  | document {field : Json.Field Shape} (named : field.name = "flows")
      (listed : field.shape = .list Flow.shape) :
      Codes { shape := .record [field], decode := Flows.decode }

theorem codes_document : Codes Flow.Store.document := .document rfl rfl

-- Flows that were deserialized, all of them as one list or each by itself.
inductive Obtained (flows : List Flow) : Prop
  | whole {codec : Codec (List Flow)} (codes : Codes codec) (read : Json.Deserialized codec flows)
  | each (read : ∀ f ∈ flows, Json.Deserialized Flow.codec f)

theorem formed_of_obtained (obtained : Obtained flows) :
    ∀ f ∈ flows, ∃ depth, f.Formed depth := by
  intro f there
  cases obtained with
  | each read =>
    obtain ⟨depth, v, yields, decoded⟩ := (read f there).yields
    exact ⟨_, Flow.formed_of_decode (yields.mono 4) decoded⟩
  | whole codes read =>
    obtain ⟨depth, v, yields, decoded⟩ := read.yields
    cases codes with
    | array =>
      have found : v = .null ∨ Yields (.list Flow.shape) (depth + 4 + 1) v := .inr (yields.mono 5)
      exact ⟨_, Flow.decodeList_all (fun _ _ => Flow.formed_of_decode) found decoded f there⟩
    | document named listed =>
      exact ⟨_, formed_of_decode named listed (yields.mono 6) decoded f there⟩

/-! ### Nesting -/

theorem nesting_list_le_iff {write : α → Value} {as : List α} {n : Nat} :
    (Value.list write as).nesting ≤ n + 1 ↔ ∀ a ∈ as, (write a).nesting ≤ n := by
  rw [Value.list, Value.nesting_array_le_iff, List.forall_mem_map]

end Flows

-- The data of a node lie three levels below its flow, and so do the settings of a configuration.
theorem Flow.nesting_le {f : Flow} {depth : Nat} (shallow : f.toJson.nesting ≤ depth + 3) :
    (∀ n ∈ f.nodes, n.data.nesting ≤ depth) ∧
      ∀ c ∈ f.configurations, (Value.object c.configs).nesting ≤ depth := by
  have fields := Value.nesting_object_le_iff.mp shallow
  constructor
  · intro n there
    have nodes := fields ("nodes", .list Node.toJson f.nodes) (by simp)
    have node := Flows.nesting_list_le_iff.mp nodes n there
    exact Value.nesting_object_le_iff.mp node ("data", n.data) (by simp)
  · intro c there
    have configurations := fields ("configurations", .list Configuration.toJson f.configurations)
      (by simp)
    have configuration := Flows.nesting_list_le_iff.mp configurations c there
    exact Value.nesting_object_le_iff.mp configuration ("configs", .object c.configs) (by simp)

theorem Flow.Formed.of_nesting {f : Flow} {depth more : Nat} (formed : f.Formed depth)
    (shallow : f.toJson.nesting ≤ more + 3) : f.Formed more := by
  obtain ⟨data, configs⟩ := Flow.nesting_le shallow
  exact ⟨formed.kinds, fun n there => (formed.data n there).of_nesting (data n there),
    fun c there => (formed.configs c there).of_nesting (configs c there)⟩

theorem Flows.decoded_of_obtained {flows : List Flow} (obtained : Flows.Obtained flows)
    (shallow : (Flows.toJson flows).nesting ≤ Json.nestingLimit) : ∀ f ∈ flows, f.Decoded := by
  intro f there
  obtain ⟨depth, formed⟩ := Flows.formed_of_obtained obtained f there
  have list := Value.nesting_object_le_iff (n := Flow.innerDepth + 4) |>.mp shallow
    ("flows", .list Flow.toJson flows) (by simp)
  have nested := Flows.nesting_list_le_iff.mp list f there
  exact (formed.of_nesting nested).decoded

namespace Flow.Store

variable {s : Store} {t t' : Tree} {flows : List Flow}

/-! ### Saving again -/

-- Where the directory of the document is, with the staging file and the document in it.
structure Ready (s : Store) (t : Tree) (home : Place) : Prop where
  leads : t.walk [] (File.baseSteps s.dir) = .ok home
  here : t.at? home = some .directory
  staging : t.locate s.stagingPath = .ok (home ++ ["flows.json.tmp"])
  free : t.at? (home ++ ["flows.json.tmp"]) ≠ some .directory
  document : t.locate s.path = .ok (home ++ ["flows.json"])
  file : t.at? (home ++ ["flows.json"]) ≠ some .directory

theorem ready_of_saved (saved : s.save t flows = (.ok (), t')) : ∃ home, s.Ready t' home := by
  obtain ⟨made, staged, -, written, renamed⟩ := save_ok saved
  obtain ⟨place, located, other, rfl⟩ := Tree.write_ok written
  have walked := (Tree.locate_ok located).2
  rw [s.steps_stagingPath] at walked
  obtain ⟨home, leads, here, rfl⟩ := Tree.walk_snoc_ok (by decide) walked
  have keeps := Tree.keeps_set other (.text (Flows.toJson flows).pretty)
  have solid := (Tree.walk_reached made.reached_root leads).solid here
  obtain ⟨content, source, goal, from_staging, there, aims, free, rfl⟩ := Tree.rename_ok renamed
  obtain rfl := Except.ok.inj ((keeps.locate located).symm.trans from_staging)
  have leads' := keeps.walk made.reached_root leads
  have walked' := (Tree.locate_ok aims).2
  rw [s.steps_path] at walked'
  obtain ⟨same, through, -, rfl⟩ := Tree.walk_snoc_ok (by decide) walked'
  obtain rfl := Except.ok.inj (leads'.symm.trans through)
  have kept := Tree.keeps_rename there free (.text content)
  have solid' := (Tree.walk_reached (Tree.reached_root _) leads').solid (keeps _ solid)
  have apart : home ++ ["flows.json.tmp"] ≠ home ++ ["flows.json"] := by simp
  have below : home ++ ["flows.json.tmp"] ≠ [] := by simp
  refine ⟨home, kept.walk (Tree.reached_root _) leads', kept _ solid', ?_, ?_, ?_, ?_⟩
  · exact kept.locate from_staging
  · rw [Tree.at?_set _ (Tree.ne_nil_of_at? free), if_neg apart, Tree.at?_prune _ below,
      if_pos (List.prefix_refl _)]
    simp
  · exact kept.locate aims
  · rw [Tree.at?_set _ (Tree.ne_nil_of_at? free), if_pos rfl]
    simp

theorem Ready.makeDirectories {home : Place} (ready : s.Ready t home) :
    t.makeDirectories s.dir = (.ok (), t) := by
  have walked : t.walk [] (File.steps s.dir) = .ok home := by
    rcases File.baseSteps_cases s.dir with same | slash
    · rw [same, ready.leads]
    · rw [slash, Tree.walk_append, ready.leads]
      simp only [Tree.walk_cons, ready.here]
      rfl
  refine Tree.makeDirectories_there (fun some => ?_) walked ready.here
  exact Tree.checkPath_base (File.isAbsolute_of_clean (by decide)) some
    (Tree.locate_ok ready.document).1

-- Where one save succeeded, any other one does.
theorem Ready.save {home : Place} (ready : s.Ready t home) (flows : List Flow) :
    ∃ t', s.save t flows = (.ok (), t') := by
  have written := Tree.write_of_locate ready.staging ready.free (Flows.toJson flows).pretty
  have keeps := Tree.keeps_set ready.free (.text (Flows.toJson flows).pretty)
  have reads := Tree.read_eq_ok_iff.mpr (Tree.find_write written)
  have apart : home ++ ["flows.json"] ≠ home ++ ["flows.json.tmp"] := by simp
  have file : (t.set (home ++ ["flows.json.tmp"]) (.text (Flows.toJson flows).pretty)).at?
      (home ++ ["flows.json"]) ≠ some .directory := by
    rw [Tree.at?_set _ (by simp), if_neg apart]
    exact ready.file
  have renamed := Tree.rename_of_locate reads (keeps.locate ready.staging)
    (keeps.locate ready.document) file
  simp only [Store.save, ready.makeDirectories, written, renamed]
  exact ⟨_, rfl⟩

/-! ### The round trip -/

-- Whatever was stored before: a save that succeeds is followed by a load of the same flows, and by
-- saves of them that succeed and leave the text of the document as it is.
theorem load_of_obtained (obtained : Flows.Obtained flows) (exact : ∀ f ∈ flows, f.Exact)
    (shallow : (Flows.toJson flows).nesting < 128) (saved : s.save t flows = (.ok (), t')) :
    s.load t' = .ok flows ∧
      ∃ text again, t'.read s.path = .ok text ∧ s.save t' flows = (.ok (), again) ∧
        again.read s.path = .ok text := by
  have decoded := Flows.decoded_of_obtained obtained (Nat.le_of_lt_succ shallow)
  obtain ⟨home, ready⟩ := ready_of_saved saved
  obtain ⟨again, saved'⟩ := ready.save flows
  refine ⟨load_saved decoded exact saved, (Flows.toJson flows).pretty, again, ?_, saved', ?_⟩
  · exact Tree.read_eq_ok_iff.mpr (text?_eq_some_iff.mp (text?_saved saved))
  · exact Tree.read_eq_ok_iff.mpr (text?_eq_some_iff.mp (text?_saved saved'))

-- A flow with a disabled node of a kind that is not known, of a module and with data.
def timer : Flow where
  name := "wöchentlich \"1\""
  nodes :=
    [{ id := "t", kind := .other "Timer", moduleId := some ⟨"0a"⟩, disabled := true
       data := .object [("every", .array [.number (.integer (-7)), .null])] }]
  connections := []
  configurations := []

def timerJson : Value :=
  .array
    [.object
      [("name", .string "wöchentlich \"1\""),
       ("nodes", .array
         [.object
           [("data", .object [("every", .array [.number (.integer (-7)), .null])]),
            ("disabled", .bool true), ("id", .string "t"), ("moduleID", .string "0a"),
            ("type", .string "Timer")]])]]

theorem readable_timerJson : Readable 6 timerJson := by
  have data : Readable 2 (.object [("every", .array [.number (.integer (-7)), .null])]) := by
    refine .object (by unfold Entries.Sorted; decide) (List.forall_mem_singleton.mpr (.array ?_))
    intro v member
    simp only [List.mem_cons, List.not_mem_nil, or_false] at member
    rcases member with rfl | rfl
    · exact .integer (by unfold Json.Wide; decide)
    · exact .null
  refine .array (List.forall_mem_singleton.mpr (.object (by unfold Entries.Sorted; decide) ?_))
  intro f member
  simp only [List.mem_cons, List.not_mem_nil, or_false] at member
  rcases member with rfl | rfl
  · exact .string _
  · refine .array (List.forall_mem_singleton.mpr (.object (by unfold Entries.Sorted; decide) ?_))
    intro f member
    simp only [List.mem_cons, List.not_mem_nil, or_false] at member
    rcases member with rfl | rfl | rfl | rfl | rfl
    · exact data
    · exact .bool _
    · exact .string _
    · exact .string _
    · exact .string _

theorem exact_timer : timer.Exact where
  nodes n member := by
    rw [List.mem_singleton.mp member]
    refine .object (List.forall_mem_singleton.mpr (.array fun v member => ?_))
    simp only [List.mem_cons, List.not_mem_nil, or_false] at member
    rcases member with rfl | rfl
    · exact .integer _
    · exact .null
  configurations c member := absurd member List.not_mem_nil

-- The flow is taken from JSON in memory and stored on an empty disk.
theorem load_of_obtained_timer :
    Flows.Obtained [timer] ∧ (∀ f ∈ [timer], f.Exact) ∧ (Flows.toJson [timer]).nesting < 128 ∧
      ∃ stored : Tree, Store.save ⟨"flows"⟩ .empty [timer] = (.ok (), stored) ∧
        Store.load ⟨"flows"⟩ stored = .ok [timer] := by
  have fits : Codec.ofValue?
      { shape := .list Flow.shape, decode := Flow.decodeList Flow.decode } timerJson
        = some [timer] := rfl
  have obtained : Flows.Obtained [timer] := .whole .array (.value readable_timerJson fits)
  have exact : ∀ f ∈ [timer], f.Exact := List.forall_mem_singleton.mpr exact_timer
  have shallow : (Flows.toJson [timer]).nesting < 128 := by decide +kernel
  cases saved : Store.save ⟨"flows"⟩ .empty [timer] with
  | mk outcome stored =>
    have done : (Store.save ⟨"flows"⟩ .empty [timer]).1.isOk = true := by decide +kernel
    cases outcome with
    | error fault => simp [saved, Except.isOk, Except.toBool] at done
    | ok done =>
      have whole := load_of_obtained obtained exact shallow saved
      exact ⟨obtained, exact, shallow, stored, rfl, whole.1⟩

end Flow.Store

end Flowgate
