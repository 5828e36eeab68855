import Flowgate.Json.Shape
import Flowgate.Proofs.Json.Values
import Mathlib.Data.List.Nodup

/-!
What a shape makes of a text. A value that was read has the form of its shape; and a value that was
written with all fields of its shape, under their first names, reads back in that form.
-/

namespace Flowgate.Json

mutual

-- The form of the values that a shape reads for a depth.
inductive Yields : Shape → Nat → Value → Prop
  | any {depth : Nat} {v : Value} (readable : Readable depth v) : Yields .any depth v
  | string {depth : Nat} (s : String) : Yields .string depth (.string s)
  | bool {depth : Nat} (b : Bool) : Yields .bool depth (.bool b)
  | count {depth limit : Nat} {v : Value} (fits : Shape.fitsCount limit v = true) :
      Yields (.count limit) depth v
  | null {depth : Nat} {shape : Shape} : Yields (.optional shape) depth .null
  | present {depth : Nat} {shape : Shape} {v : Value} (inner : Yields shape depth v) :
      Yields (.optional shape) depth v
  | list {depth : Nat} {shape : Shape} {items : List Value}
      (inner : ∀ v ∈ items, Yields shape depth v) : Yields (.list shape) (depth + 1) (.array items)
  | table {depth : Nat} {fields : Entries Value} (readable : Readable depth (.object fields)) :
      Yields .table depth (.object fields)
  | record {depth : Nat} {fields : List (Field Shape)} {found : Entries Value}
      (inner : ∀ pair ∈ found, Kept fields depth pair) :
      Yields (.record fields) (depth + 1) (.object found)

-- One of the known fields of a record, under its first name.
inductive Kept : List (Field Shape) → Nat → String × Value → Prop
  | field {depth : Nat} {fields : List (Field Shape)} {f : Field Shape} {v : Value}
      (member : f ∈ fields) (yields : Yields f.shape depth v) : Kept fields depth (f.name, v)

end

/-! ### What is read -/

theorem readNull_ok {cs rest : List Char} {v : Value} (done : Shape.readNull cs = .ok (v, rest)) :
    v = .null := by
  unfold Shape.readNull at done
  split at done
  · cases done
    rfl
  · cases done

theorem scalar_quote {cs rest : List Char} {v : Value}
    (done : scalar ('"' :: cs) = .ok (v, rest)) : ∃ s, v = .string s := by
  unfold scalar at done
  simp only at done
  cases read : stringBody [] cs with
  | error fault => rw [read] at done; cases done
  | ok found =>
    rw [read] at done
    cases done
    exact ⟨_, rfl⟩

theorem finish_ok {fields : List (Field Shape)} {found : Entries Value} {v : Value}
    (done : Shape.finish fields found = .ok v) : v = .object found := by
  unfold Shape.finish at done
  split at done
  · cases done
  · cases done
    rfl

section Fields

variable {steps depth : Nat} {all : List (Field Shape)}

theorem kept_insert {found : Entries Value} (known : ∀ pair ∈ found, Kept all depth pair)
    {f : Field Shape} (member : f ∈ all) {v : Value} (yields : Yields f.shape depth v) :
    ∀ pair ∈ Entries.insert f.name v found, Kept all depth pair := by
  intro pair there
  rcases Entries.mem_insert there with rfl | old
  · exact .field member yields
  · exact known pair old

theorem kept_of_readField {fields : List (Field Shape)} (among : ∀ f ∈ fields, f ∈ all)
    (reads : ∀ f ∈ fields, ∀ cs v rest,
      Shape.read steps f.shape depth cs = .ok (v, rest) → Yields f.shape depth v)
    {found found' : Entries Value} (known : ∀ pair ∈ found, Kept all depth pair) {name : String}
    {cs rest : List Char}
    (done : Shape.readField steps fields depth found name cs = .ok (found', rest)) :
    ∀ pair ∈ found', Kept all depth pair := by
  induction fields with
  | nil =>
    unfold Shape.readField at done
    split at done
    · cases done
      exact known
    · cases done
  | cons f fields ih =>
    unfold Shape.readField at done
    split at done
    · split at done
      · cases done
      · cases read : Shape.read steps f.shape depth cs with
        | error fault => rw [read] at done; cases done
        | ok pair =>
          rw [read] at done
          cases done
          exact kept_insert known (among f List.mem_cons_self) (reads f List.mem_cons_self _ _ _ read)
    · exact ih (fun g member => among g (List.mem_cons_of_mem _ member))
        (fun g member => reads g (List.mem_cons_of_mem _ member)) done

theorem kept_of_readPlaces {fields : List (Field Shape)} (among : ∀ f ∈ fields, f ∈ all)
    (reads : ∀ f ∈ fields, ∀ cs v rest,
      Shape.read steps f.shape depth cs = .ok (v, rest) → Yields f.shape depth v)
    {found found' : Entries Value} (known : ∀ pair ∈ found, Kept all depth pair) {isFirst : Bool}
    {cs rest : List Char}
    (done : Shape.readPlaces steps fields depth found isFirst cs = .ok (found', rest)) :
    ∀ pair ∈ found', Kept all depth pair := by
  induction fields generalizing found isFirst cs with
  | nil =>
    unfold Shape.readPlaces at done
    split at done
    · cases done
      exact known
    · cases done
  | cons f fields ih =>
    have onward {cs : List Char}
        (done : ((Shape.read steps f.shape depth cs).bind fun pair =>
          Shape.readPlaces steps fields depth (Entries.insert f.name pair.1 found) false pair.2)
          = .ok (found', rest)) : ∀ pair ∈ found', Kept all depth pair := by
      cases read : Shape.read steps f.shape depth cs with
      | error fault => rw [read] at done; cases done
      | ok pair =>
        obtain ⟨v, left⟩ := pair
        rw [read] at done
        exact ih (fun g member => among g (List.mem_cons_of_mem _ member))
          (fun g member => reads g (List.mem_cons_of_mem _ member))
          (kept_insert known (among f List.mem_cons_self) (reads f List.mem_cons_self _ _ _ read)) done
    unfold Shape.readPlaces at done
    split at done
    · split at done
      · cases done
      · cases done
        exact known
    · exact onward done
    · exact onward done
    · cases done

end Fields

theorem scalar_true {cs rest : List Char} {v : Value}
    (done : scalar ('t' :: cs) = .ok (v, rest)) : v = .bool true := by
  unfold scalar scalar.word at done
  simp only at done
  split at done
  · cases done
    rfl
  · cases done

theorem scalar_false {cs rest : List Char} {v : Value}
    (done : scalar ('f' :: cs) = .ok (v, rest)) : v = .bool false := by
  unfold scalar scalar.word at done
  simp only at done
  split at done
  · cases done
    rfl
  · cases done

theorem readValue_brace {steps depth : Nat} {cs rest : List Char} {v : Value}
    (done : readValue steps depth ('\x7b' :: cs) = .ok (v, rest)) : ∃ fields, v = .object fields := by
  unfold readValue at done
  cases depth with
  | zero => cases done
  | succ depth =>
    simp only at done
    cases read : fields (entering (readValue steps depth)) steps [] cs with
    | error fault => rw [read] at done; cases done
    | ok found =>
      rw [read] at done
      cases done
      exact ⟨_, rfl⟩

-- The recursion is over the shape, the fields of a record being smaller than it.
theorem yields_of_read {steps : Nat} (shape : Shape) {depth : Nat} {cs rest : List Char} {v : Value}
    (done : shape.read steps depth cs = .ok (v, rest)) : Yields shape depth v := by
  match shape with
  | .any =>
    unfold Shape.read at done
    exact .any (readable_of_readValue done)
  | .string =>
    unfold Shape.read at done
    split at done
    · obtain ⟨s, same⟩ := scalar_quote done
      rw [same]
      exact .string s
    · cases done
  | .bool =>
    unfold Shape.read at done
    split at done
    · rw [scalar_true done]
      exact .bool true
    · rw [scalar_false done]
      exact .bool false
    · cases done
  | .count limit =>
    unfold Shape.read at done
    split at done
    · split at done
      · cases done
        exact .count ‹_›
      · cases done
    · cases done
  | .optional inner =>
    unfold Shape.read at done
    split at done
    · rw [readNull_ok done]
      exact .null
    · exact .present (yields_of_read inner done)
  | .list inner =>
    unfold Shape.read at done
    split at done
    · cases done
    · rename_i body depth
      cases read : items (gathering (inner.read steps depth)) steps [] body with
      | error fault => rw [read] at done; cases done
      | ok found =>
        obtain ⟨found, left⟩ := found
        rw [read] at done
        cases done
        have all := items_all (Q := Yields inner depth) (fun _ _ _ => yields_of_read inner) read
        exact .list fun v member => all v (List.mem_reverse.mp member)
    · cases done
  | .table =>
    unfold Shape.read at done
    split at done
    · have readable := readable_of_readValue done
      obtain ⟨fields, same⟩ := readValue_brace done
      rw [same] at readable ⊢
      exact .table readable
    · cases done
  | .record fields =>
    have reads (depth : Nat) : ∀ f ∈ fields, ∀ cs v rest,
        Shape.read steps f.shape depth cs = .ok (v, rest) → Yields f.shape depth v :=
      fun f member cs v rest done => yields_of_read f.shape done
    unfold Shape.read at done
    split at done
    · cases done
    · cases done
    · rename_i body depth
      cases read : Json.fields
          (fun found name cs => Shape.readField steps fields depth found name cs) steps [] body with
      | error fault => rw [read] at done; cases done
      | ok found =>
        obtain ⟨found, left⟩ := found
        rw [read] at done
        simp only [bind, Except.bind] at done
        split at done
        · cases done
        · rename_i finished
          cases done
          rw [finish_ok finished]
          refine .record (fields_keeps (P := fun found => ∀ pair ∈ found, Kept fields depth pair)
            ?_ (by simp) read)
          exact fun _ _ _ _ _ known done =>
            kept_of_readField (fun _ member => member) (reads depth) known done
    · rename_i body depth
      cases read : Shape.readPlaces steps fields depth [] true body with
      | error fault => rw [read] at done; cases done
      | ok found =>
        rw [read] at done
        cases done
        exact .record (kept_of_readPlaces (fun _ member => member) (reads depth) (by simp) read)
    · cases done
termination_by sizeOf shape
decreasing_by
  all_goals simp_wf
  have smaller := List.sizeOf_lt_of_mem member
  cases f
  simp only [Field.mk.sizeOf_spec] at smaller ⊢
  omega

theorem Yields.fields {depth : Nat} {fields : List (Field Shape)} {v : Value}
    (yields : Yields (.record fields) depth v) :
    ∃ below found, depth = below + 1 ∧ v = .object found ∧
      ∀ pair ∈ found, Kept fields below pair := by
  cases yields with
  | record inner => exact ⟨_, _, rfl, rfl, inner⟩

theorem Yields.items {depth : Nat} {shape : Shape} {v : Value}
    (yields : Yields (.list shape) depth v) :
    ∃ below items, depth = below + 1 ∧ v = .array items ∧ ∀ w ∈ items, Yields shape below w := by
  cases yields with
  | list inner => exact ⟨_, _, rfl, rfl, inner⟩

-- A field that is missing is null.
theorem Yields.field {depth : Nat} {fields : List (Field Shape)} {v : Value}
    (yields : Yields (.record fields) (depth + 1) v) (distinct : (fields.map Field.name).Nodup)
    {f : Field Shape} (member : f ∈ fields) :
    v.field f.name = .null ∨ Yields f.shape depth (v.field f.name) := by
  obtain ⟨below, found, same, rfl, inner⟩ := yields.fields
  obtain rfl : depth = below := Nat.succ.inj same
  cases there : Entries.get? found f.name with
  | none =>
    refine .inl ?_
    rw [Value.field, Value.get?, there]
    rfl
  | some w =>
    refine .inr ?_
    rw [Value.field, Value.get?, there]
    generalize named : (f.name, w) = pair at *
    have kept := inner pair (named ▸ Entries.mem_of_get? there)
    cases kept with
    | field among within =>
      obtain ⟨name, rfl⟩ := Prod.mk.inj named
      rename_i g
      have one : f = g := List.inj_on_of_nodup_map distinct member among name
      rw [one]
      exact within

/-! ### What is read back -/

theorem readsBack_any {depth : Nat} {v : Value} (readable : Readable depth v)
    (integral : Integral v) (level : Nat) :
    ReadsBack (fun steps => Shape.any.read steps depth) (v.indented level) v := by
  obtain ⟨opens, reads⟩ := readsBack_indented readable integral level
  refine ⟨opens, fun steps rest ends enough => ?_⟩
  rw [Shape.read]
  exact reads steps rest ends enough

theorem readsBack_text (s : String) (depth level : Nat) :
    ReadsBack (fun steps => Shape.string.read steps depth) ((Value.string s).indented level)
      (.string s) := by
  refine ⟨(readsBack_string s).opens, fun steps rest ends enough => ?_⟩
  have read := scalar_stringText s rest
  rw [Value.indented]
  rw [stringText_eq] at read ⊢
  rw [Shape.read]
  exact read

theorem readsBack_bool (b : Bool) (depth level : Nat) :
    ReadsBack (fun steps => Shape.bool.read steps depth) ((Value.bool b).indented level)
      (.bool b) := by
  cases b with
  | false =>
    refine ⟨⟨'f', _, rfl, by decide, by decide, by decide⟩, fun steps rest ends enough => ?_⟩
    simp only [Value.indented, List.cons_append, Shape.read]
    rfl
  | true =>
    refine ⟨⟨'t', _, rfl, by decide, by decide, by decide⟩, fun steps rest ends enough => ?_⟩
    simp only [Value.indented, List.cons_append, Shape.read]
    rfl

theorem readsBack_optional (s : Option String) (depth level : Nat) :
    ReadsBack (fun steps => (Shape.optional .string).read steps depth)
      ((Value.ofString? s).indented level) (Value.ofString? s) := by
  cases s with
  | none =>
    refine ⟨⟨'n', _, rfl, by decide, by decide, by decide⟩, fun steps rest ends enough => ?_⟩
    simp only [Value.ofString?, Option.elim, Value.indented, List.cons_append, Shape.read]
    rfl
  | some s =>
    obtain ⟨opens, reads⟩ := readsBack_text s depth level
    refine ⟨opens, fun steps rest ends enough => ?_⟩
    have read := reads steps rest ends enough
    simp only [Value.ofString?, Option.elim, Value.indented] at read ⊢
    rw [stringText_eq] at read ⊢
    rw [Shape.read]
    · exact read
    · rintro tail same
      cases same

theorem object_shown (level : Nat) (fields : List (String × Value)) :
    ∃ tail, (Value.object fields).indented level = '\x7b' :: tail := by
  cases fields with
  | nil => exact ⟨['\x7d'], rfl⟩
  | cons f fields => exact ⟨_, rfl⟩

theorem readsBack_present {shape : Shape} {depth level : Nat} {fields : List (String × Value)}
    {back : Value}
    (inner : ReadsBack (fun steps => shape.read steps depth) ((Value.object fields).indented level)
      back) :
    ReadsBack (fun steps => (Shape.optional shape).read steps depth)
      ((Value.object fields).indented level) back := by
  refine ⟨inner.opens, fun steps rest ends enough => ?_⟩
  have read := inner.reads steps rest ends enough
  obtain ⟨tail, shown⟩ := object_shown level fields
  rw [shown, List.cons_append] at read ⊢
  rw [Shape.read]
  · exact read
  · rintro tail same
    cases same

theorem readsBack_table {depth : Nat} {fields : Entries Value}
    (readable : Readable depth (.object fields)) (integral : Integral (.object fields))
    (level : Nat) :
    ReadsBack (fun steps => Shape.table.read steps depth) ((Value.object fields).indented level)
      (.object fields) := by
  obtain ⟨opens, reads⟩ := readsBack_indented readable integral level
  refine ⟨opens, fun steps rest ends enough => ?_⟩
  have read := reads steps rest ends enough
  obtain ⟨tail, shown⟩ := object_shown level fields
  rw [shown, List.cons_append] at read ⊢
  rw [Shape.read]
  exact read

theorem readsBack_list {α : Type} {depth level : Nat} {shape : Shape} {write back : α → Value}
    {as : List α}
    (inner : ∀ a ∈ as,
      ReadsBack (fun steps => shape.read steps depth) ((write a).indented (level + 1)) (back a)) :
    ReadsBack (fun steps => (Shape.list shape).read steps (depth + 1))
      ((Value.list write as).indented level) (.array (as.map back)) := by
  refine ⟨opens_array level _, fun steps rest ends enough => ?_⟩
  obtain ⟨tail, shown, read⟩ := items_indented (gathering (shape.read steps depth))
    (fun found a => back a :: found) write level as enough
    (fun a member => (inner a member).opens)
    (fun found a member rest ends => by
      have short : ((write a).indented (level + 1)).length ≤ steps :=
        Nat.le_trans (length_item_le (List.mem_map_of_mem member)) enough
      have first := (inner a member).reads steps rest ends short
      simp only [gathering, first, bind, Except.bind]) [] rest
  rw [shown, Shape.read, read]
  simp only [bind, Except.bind, List.foldl_flip_cons_eq_append, List.append_nil,
    List.reverse_reverse]

theorem readField_known {steps depth : Nat} {fields : List (Field Shape)}
    (plain : ∀ f ∈ fields, f.aliases = []) (distinct : (fields.map Field.name).Nodup)
    {f : Field Shape} (member : f ∈ fields) {found : Entries Value}
    (fresh : Entries.contains found f.name = false) {cs rest : List Char} {v : Value}
    (read : f.shape.read steps depth cs = .ok (v, rest)) :
    Shape.readField steps fields depth found f.name cs
      = .ok (Entries.insert f.name v found, rest) := by
  induction fields with
  | nil => cases member
  | cons g fields ih =>
    obtain ⟨apart, distinct⟩ := List.nodup_cons.mp distinct
    rw [Shape.readField]
    rcases List.mem_cons.mp member with rfl | there
    · rw [if_pos (by simp [Field.answers]), fresh, read]
      rfl
    · have other : g.answers f.name = false := by
        have name : g.name ≠ f.name := fun same => apart (same ▸ List.mem_map_of_mem there)
        simp [Field.answers, plain g List.mem_cons_self, name]
      rw [other]
      exact ih (fun f member => plain f (List.mem_cons_of_mem _ member)) distinct there

-- A field of a record that is to be written, with how its value reads back.
structure Part where
  field : Field Shape
  given : Value
  back : Value

def Part.written (p : Part) : String × Value := (p.field.name, p.given)

def Part.entry (p : Part) : String × Value := (p.field.name, p.back)

theorem finish_all {fields : List (Field Shape)} {found : Entries Value}
    (all : ∀ f ∈ fields, f.required = true → Entries.contains found f.name = true) :
    Shape.finish fields found = .ok (.object found) := by
  have none : (fields.any fun f => f.required && !Entries.contains found f.name) = false := by
    rw [List.any_eq_false]
    intro f member
    cases needed : f.required with
    | false => simp
    | true => simp [all f member needed]
  rw [Shape.finish, none]
  rfl

theorem ofList_entries (parts : List Part) :
    parts.foldl (fun found p => Entries.insert p.field.name p.back found) []
      = Entries.ofList (parts.map Part.entry) := by
  rw [Entries.ofList, List.foldl_map]
  rfl

theorem contains_entries {parts : List Part} {name : String}
    (other : ∀ p ∈ parts, p.field.name ≠ name) :
    Entries.contains (Entries.ofList (parts.map Part.entry)) name = false := by
  rw [Entries.contains_ofList, List.any_map, List.any_eq_false]
  intro p member
  simp [Part.entry, other p member]

theorem contains_of_part {parts : List Part} {f : Field Shape} (member : f ∈ parts.map Part.field) :
    Entries.contains (Entries.ofList (parts.map Part.entry)) f.name = true := by
  obtain ⟨p, there, rfl⟩ := List.mem_map.mp member
  rw [Entries.contains_ofList, List.any_map, List.any_eq_true]
  exact ⟨p, there, by simp [Part.entry]⟩

-- A field is new to the record when it is read, since no other part has its name.
theorem readsBack_some {fields : List (Field Shape)} (parts : List Part) {depth level : Nat}
    (plain : ∀ f ∈ fields, f.aliases = []) (names : (fields.map Field.name).Nodup)
    (known : ∀ p ∈ parts, p.field ∈ fields) (distinct : (parts.map (·.field.name)).Nodup)
    (full : ∀ f ∈ fields, f.required = true → f ∈ parts.map Part.field)
    (inner : ∀ p ∈ parts, ReadsBack (fun steps => p.field.shape.read steps depth)
      (p.given.indented (level + 1)) p.back) :
    ReadsBack (fun steps => (Shape.record fields).read steps (depth + 1))
      ((Value.object (parts.map Part.written)).indented level)
      (.object (Entries.ofList (parts.map Part.entry))) := by
  refine ⟨opens_object level _, fun steps rest ends enough => ?_⟩
  obtain ⟨tail, shown, read⟩ := fields_indented
    (fun found name cs => Shape.readField steps fields depth found name cs)
    (fun found p => Entries.insert p.field.name p.back found) (fun p => p.field.name) Part.given
    level parts enough (fun p member => (inner p member).opens) []
    (fun before p after split rest ends => by
      have member : p ∈ parts := by rw [split]; simp
      have fresh : ∀ q ∈ before, q.field.name ≠ p.field.name := by
        rw [split, List.map_append, List.map_cons] at distinct
        exact fun q there => (List.nodup_append.mp distinct).2.2 _ (List.mem_map_of_mem there) _
          List.mem_cons_self
      have short : (p.given.indented (level + 1)).length ≤ steps :=
        Nat.le_trans (length_field_le (List.mem_map_of_mem (f := Part.written) member)) enough
      refine readField_known plain names (known p member) ?_
        ((inner p member).reads steps rest ends short)
      rw [ofList_entries, contains_entries fresh]) rest
  have opened : (Value.object (parts.map Part.written)).indented level ++ rest = '\x7b' :: tail :=
    shown
  rw [opened, Shape.read, read, ofList_entries]
  simp only [bind, Except.bind]
  rw [finish_all fun f member needed => contains_of_part (full f member needed)]

theorem readsBack_record (parts : List Part) {depth level : Nat}
    (plain : ∀ p ∈ parts, p.field.aliases = []) (distinct : (parts.map (·.field.name)).Nodup)
    (inner : ∀ p ∈ parts, ReadsBack (fun steps => p.field.shape.read steps depth)
      (p.given.indented (level + 1)) p.back) :
    ReadsBack (fun steps => (Shape.record (parts.map Part.field)).read steps (depth + 1))
      ((Value.object (parts.map Part.written)).indented level)
      (.object (Entries.ofList (parts.map Part.entry))) := by
  have names : ((parts.map Part.field).map Field.name).Nodup := by rwa [List.map_map]
  exact readsBack_some parts (List.forall_mem_map.mpr plain) names
    (fun p member => List.mem_map_of_mem member) distinct (fun f member _ => member) inner

-- The value that the fields of a record read back to.
def backOf (parts : List Part) : Value := .object (Entries.ofList (parts.map Part.entry))

theorem field_backOf {parts : List Part} (distinct : (parts.map (·.field.name)).Nodup) {p : Part}
    (member : p ∈ parts) : (backOf parts).field p.field.name = p.back := by
  have names : ((parts.map Part.entry).map Prod.fst).Nodup := by rwa [List.map_map]
  have there : (p.field.name, p.back) ∈ parts.map Part.entry := List.mem_map_of_mem (f := Part.entry) member
  rw [backOf, Value.field, Value.get?, Entries.get?_ofList names there, Option.getD_some]

end Flowgate.Json
