import Flowgate.Proofs.Entries
import Flowgate.Proofs.Json.Loops

/-!
Values that were read and hold no doubles: written over several lines they read back as they are,
since their names are in order already and their nesting is one that the reader allows.
-/

namespace Flowgate.Json

-- A value as a reader for a depth gives it.
inductive Readable : Nat → Value → Prop
  | null {depth : Nat} : Readable depth .null
  | bool {depth : Nat} (b : Bool) : Readable depth (.bool b)
  | string {depth : Nat} (s : String) : Readable depth (.string s)
  | integer {depth : Nat} {n : Int} (wide : Wide n) : Readable depth (.number (.integer n))
  | float {depth : Nat} (x : Float) : Readable depth (.number (.float x))
  | array {depth : Nat} {items : List Value} (inner : ∀ v ∈ items, Readable depth v) :
      Readable (depth + 1) (.array items)
  | object {depth : Nat} {fields : Entries Value} (sorted : Entries.Sorted fields)
      (inner : ∀ f ∈ fields, Readable depth f.2) : Readable (depth + 1) (.object fields)

-- No number of the value is a double.
inductive Integral : Value → Prop
  | null : Integral .null
  | bool (b : Bool) : Integral (.bool b)
  | string (s : String) : Integral (.string s)
  | integer (n : Int) : Integral (.number (.integer n))
  | array {items : List Value} (inner : ∀ v ∈ items, Integral v) : Integral (.array items)
  | object {fields : List (String × Value)} (inner : ∀ f ∈ fields, Integral f.2) :
      Integral (.object fields)

/-! ### What is read -/

theorem readable_of_word {depth : Nat} {w cs rest : List Char} {v found : Value}
    (readable : Readable depth v) (done : scalar.word w v cs = .ok (found, rest)) :
    Readable depth found := by
  unfold scalar.word at done
  split at done
  · cases done
    exact readable
  · cases done

theorem readable_of_scalar {depth : Nat} {cs rest : List Char} {v : Value}
    (done : scalar cs = .ok (v, rest)) : Readable depth v := by
  unfold scalar at done
  split at done
  · rename_i body
    cases read : stringBody [] body with
    | error fault => rw [read] at done; cases done
    | ok found =>
      rw [read] at done
      cases done
      exact .string _
  · exact readable_of_word .null done
  · exact readable_of_word (.bool _) done
  · exact readable_of_word (.bool _) done
  · cases read : readNumber cs with
    | error fault => rw [read] at done; cases done
    | ok found =>
      obtain ⟨number, left⟩ := found
      rw [read] at done
      cases done
      cases number with
      | integer n => exact .integer (wide_of_readNumber read)
      | float x => exact .float x

-- The step that enters a field into an object.
abbrev entering (read : Reader Value) (found : Entries Value) (name : String) :
    Reader (Entries Value) := fun cs => do
  let (v, rest) ← read cs
  .ok (Entries.insert name v found, rest)

theorem readable_of_entering {read : Reader Value} {depth n : Nat} {cs rest : List Char}
    {found : Entries Value}
    (readable : ∀ cs v rest, read cs = .ok (v, rest) → Readable depth v)
    (done : fields (entering read) n [] cs = .ok (found, rest)) :
    Readable (depth + 1) (.object found) := by
  have kept : Entries.Sorted found ∧ ∀ f ∈ found, Readable depth f.2 := by
    refine fields_keeps
      (P := fun found => Entries.Sorted found ∧ ∀ f ∈ found, Readable depth f.2) ?_
      ⟨List.Pairwise.nil, by simp⟩ done
    rintro s name cs s' rest ⟨sorted, inner⟩ step
    unfold entering at step
    cases first : read cs with
    | error fault => rw [first] at step; cases step
    | ok pair =>
      rw [first] at step
      cases step
      refine ⟨Entries.sorted_insert sorted _ _, fun f member => ?_⟩
      rcases Entries.mem_insert member with rfl | there
      · exact readable cs _ _ first
      · exact inner f there
  exact .object kept.1 kept.2

theorem readable_of_readValue {steps depth : Nat} {cs rest : List Char} {v : Value}
    (done : readValue steps depth cs = .ok (v, rest)) : Readable depth v := by
  induction depth generalizing cs rest v with
  | zero =>
    unfold readValue at done
    split at done
    · cases done
    · cases done
    · exact readable_of_scalar done
  | succ depth ih =>
    unfold readValue at done
    split at done
    · rename_i body
      cases read : items (gathering (readValue steps depth)) steps [] body with
      | error fault => rw [read] at done; cases done
      | ok found =>
        obtain ⟨found, left⟩ := found
        rw [read] at done
        cases done
        have inner := items_all (Q := Readable depth) (fun _ _ _ => ih) read
        exact .array fun v member => inner v (List.mem_reverse.mp member)
    · rename_i body
      cases read : fields (entering (readValue steps depth)) steps [] body with
      | error fault => rw [read] at done; cases done
      | ok found =>
        obtain ⟨found, left⟩ := found
        rw [read] at done
        cases done
        exact readable_of_entering (fun _ _ _ => ih) read
    · exact readable_of_scalar done

/-! ### What is read back -/

-- How a written value reads back: what a reader makes of its text, whatever follows.
structure ReadsBack (read : Nat → Reader Value) (shown : List Char) (v : Value) : Prop where
  opens : Opens shown
  reads : ∀ steps rest, Delimited rest → shown.length ≤ steps →
    read steps (shown ++ rest) = .ok (v, rest)

theorem readValue_scalar {cs : List Char} (array : ∀ tail, cs ≠ '[' :: tail)
    (object : ∀ tail, cs ≠ '\x7b' :: tail) (steps depth : Nat) :
    readValue steps depth cs = scalar cs := by
  unfold readValue
  split
  · split
    · exact absurd rfl (array _)
    · exact absurd rfl (object _)
    · rfl
  · split
    · exact absurd rfl (array _)
    · exact absurd rfl (object _)
    · rfl

theorem readsBack_string (s : String) : ReadsBack (fun _ => scalar) (stringText s) (.string s) where
  opens := ⟨'"', s.toList.flatMap escapedChar ++ ['"'], rfl, by decide, by decide, by decide⟩
  reads _ rest _ _ := scalar_stringText s rest

-- How an integer starts, and so neither a word nor a string, an array or an object.
theorem integer_head (n : Int) :
    ∃ c tail, (toString n).toList = c :: tail ∧ (c = '-' ∨ c.isDigit = true) := by
  rw [Int.toString_eq_repr, Int.repr_eq_if]
  split
  · rw [Nat.toList_repr]
    cases run : Nat.toDigits 10 n.toNat with
    | nil => exact absurd run Nat.toDigits_ne_nil
    | cons c tail =>
      refine ⟨c, tail, rfl, .inr ?_⟩
      exact Nat.isDigit_of_mem_toDigits (n := n.toNat) (b := 10) (by omega) (by omega)
        (by rw [run]; exact List.mem_cons_self)
  · exact ⟨'-', (-n).toNat.repr.toList, by simp, .inl rfl⟩

theorem start_ne {c : Char} (starts : c = '-' ∨ c.isDigit = true) (d : Char)
    (other : d ≠ '-' ∧ d.isDigit = false) : c ≠ d := by
  rintro rfl
  rcases starts with same | digit
  · exact other.1 same
  · rw [other.2] at digit
    cases digit

theorem scalar_number {c : Char} (starts : c = '-' ∨ c.isDigit = true) (tail : List Char) :
    scalar (c :: tail) = (readNumber (c :: tail)).map fun (n, rest) => (.number n, rest) := by
  unfold scalar
  split
  · rename_i same
    exact absurd (List.cons.inj same).1 (start_ne starts '"' (by decide))
  · rename_i same
    exact absurd (List.cons.inj same).1 (start_ne starts 'n' (by decide))
  · rename_i same
    exact absurd (List.cons.inj same).1 (start_ne starts 't' (by decide))
  · rename_i same
    exact absurd (List.cons.inj same).1 (start_ne starts 'f' (by decide))
  · rfl

theorem opens_of_start {c : Char} (starts : c = '-' ∨ c.isDigit = true) (tail : List Char) :
    Opens (c :: tail) := by
  have not_blank : isBlank c = false := by
    simp only [isBlank, Bool.or_eq_false_iff, decide_eq_false_iff_not]
    exact ⟨⟨⟨start_ne starts ' ' (by decide), start_ne starts '\n' (by decide)⟩,
      start_ne starts '\t' (by decide)⟩, start_ne starts '\r' (by decide)⟩
  exact ⟨c, tail, rfl, not_blank, start_ne starts ']' (by decide),
    start_ne starts '\x7d' (by decide)⟩

theorem readsBack_integer {n : Int} (wide : Wide n) :
    ReadsBack (fun _ => scalar) (Number.integer n).text (.number (.integer n)) := by
  obtain ⟨c, tail, shown, starts⟩ := integer_head n
  refine ⟨?_, fun steps rest ends _ => ?_⟩
  · rw [Number.text, shown]
    exact opens_of_start starts tail
  · have number := readNumber_integer wide ends
    rw [Number.text]
    rw [shown] at number ⊢
    rw [List.cons_append] at number ⊢
    rw [scalar_number starts, number]
    rfl

theorem readsBack_value {shown : List Char} {v : Value}
    (back : ReadsBack (fun _ => scalar) shown v) (array : shown.head? ≠ some '[')
    (object : shown.head? ≠ some '\x7b') (depth : Nat) :
    ReadsBack (fun steps => readValue steps depth) shown v := by
  refine ⟨back.opens, fun steps rest ends enough => ?_⟩
  obtain ⟨c, tail, rfl, -⟩ := back.opens
  rw [← back.reads steps rest ends enough]
  refine readValue_scalar ?_ ?_ steps depth
  · exact fun tail same => array (congrArg List.head? same)
  · exact fun tail same => object (congrArg List.head? same)

theorem readsBack_word {w : List Char} {v : Value}
    (reads : ∀ rest, scalar (w ++ rest) = .ok (v, rest)) (opens : Opens w) :
    ReadsBack (fun _ => scalar) w v :=
  ⟨opens, fun _ rest _ _ => reads rest⟩

theorem opens_array (level : Nat) (vs : List Value) : Opens ((Value.array vs).indented level) := by
  cases vs with
  | nil => exact ⟨'[', [']'], rfl, by decide, by decide, by decide⟩
  | cons v vs => exact ⟨'[', _, rfl, by decide, by decide, by decide⟩

theorem opens_object (level : Nat) (fs : List (String × Value)) :
    Opens ((Value.object fs).indented level) := by
  cases fs with
  | nil => exact ⟨'\x7b', ['\x7d'], rfl, by decide, by decide, by decide⟩
  | cons f fs => exact ⟨'\x7b', _, rfl, by decide, by decide, by decide⟩

theorem length_item_le {level : Nat} {v : Value} {vs : List Value} (member : v ∈ vs) :
    (v.indented (level + 1)).length ≤ ((Value.array vs).indented level).length := by
  have below : (v.indented (level + 1)).length ≤ (Value.indentedItems (level + 1) vs).length :=
    length_indented_le member
  cases vs with
  | nil => cases member
  | cons w vs =>
    simp only [Value.indented, List.length_cons, List.length_append]
    omega

theorem length_field_le {level : Nat} {f : String × Value} {fs : List (String × Value)}
    (member : f ∈ fs) :
    (f.2.indented (level + 1)).length ≤ ((Value.object fs).indented level).length := by
  have below : (f.2.indented (level + 1)).length ≤ (Value.indentedFields (level + 1) fs).length :=
    length_indented_field_le member
  cases fs with
  | nil => cases member
  | cons w fs =>
    simp only [Value.indented, List.length_cons, List.length_append]
    omega

theorem readsBack_array {depth level : Nat} {vs : List Value}
    (inner : ∀ v ∈ vs, ReadsBack (fun steps => readValue steps depth) (v.indented (level + 1)) v) :
    ReadsBack (fun steps => readValue steps (depth + 1)) ((Value.array vs).indented level)
      (.array vs) := by
  refine ⟨opens_array level vs, fun steps rest ends enough => ?_⟩
  have same : Value.list id vs = .array vs := by rw [Value.list, List.map_id]
  have room : ((Value.list id vs).indented level).length ≤ steps := by rw [same]; exact enough
  obtain ⟨tail, shown, read⟩ := items_indented (gathering (readValue steps depth))
    (fun found v => v :: found) id level vs room (fun v member => (inner v member).opens)
    (fun found v member rest ends => by
      have first := (inner v member).reads steps rest ends
        (Nat.le_trans (length_item_le member) enough)
      simp only [gathering, id, first, bind, Except.bind]) [] rest
  rw [same] at shown
  rw [shown, readValue, read]
  simp only [bind, Except.bind, List.foldl_flip_cons_eq_append', List.append_nil,
    List.reverse_reverse]

theorem readsBack_object {depth level : Nat} {fs : Entries Value} (sorted : Entries.Sorted fs)
    (inner : ∀ f ∈ fs,
      ReadsBack (fun steps => readValue steps depth) (f.2.indented (level + 1)) f.2) :
    ReadsBack (fun steps => readValue steps (depth + 1)) ((Value.object fs).indented level)
      (.object fs) := by
  refine ⟨opens_object level fs, fun steps rest ends enough => ?_⟩
  have same : (fs.map fun f => (f.1, f.2)) = fs := List.map_id fs
  have room : ((Value.object (fs.map fun f => (f.1, f.2))).indented level).length ≤ steps := by
    rw [same]; exact enough
  obtain ⟨tail, shown, read⟩ := fields_indented (entering (readValue steps depth))
    (fun found f => Entries.insert f.1 f.2 found) Prod.fst Prod.snd level fs room
    (fun f member => (inner f member).opens) []
    (fun before f after split rest ends => by
      have member : f ∈ fs := by rw [split]; simp
      have first := (inner f member).reads steps rest ends
        (Nat.le_trans (length_field_le member) enough)
      simp only [entering, first, bind, Except.bind]) rest
  rw [same] at shown
  have inserted : fs.foldl (fun found f => Entries.insert f.1 f.2 found) [] = fs :=
    @Entries.foldl_insert_sorted _ fs [] sorted
  rw [shown, readValue, read, inserted]
  rfl

theorem readsBack_indented {depth : Nat} {v : Value} (readable : Readable depth v)
    (integral : Integral v) (level : Nat) :
    ReadsBack (fun steps => readValue steps depth) (v.indented level) v := by
  induction readable generalizing level with
  | null =>
    refine readsBack_value (readsBack_word (fun rest => rfl) ?_) (by simp [Value.indented])
      (by simp [Value.indented]) _
    exact ⟨'n', _, rfl, by decide, by decide, by decide⟩
  | bool b =>
    cases b with
    | false =>
      refine readsBack_value (readsBack_word (fun rest => rfl) ?_) (by simp [Value.indented])
        (by simp [Value.indented]) _
      exact ⟨'f', _, rfl, by decide, by decide, by decide⟩
    | true =>
      refine readsBack_value (readsBack_word (fun rest => rfl) ?_) (by simp [Value.indented])
        (by simp [Value.indented]) _
      exact ⟨'t', _, rfl, by decide, by decide, by decide⟩
  | string s =>
    exact readsBack_value (readsBack_string s) (by simp [stringText]) (by simp [stringText]) _
  | @integer _ n wide =>
    obtain ⟨c, tail, shown, starts⟩ := integer_head n
    refine readsBack_value (readsBack_integer wide) ?_ ?_ _
    · rw [Number.text, shown]
      exact fun same => start_ne starts '[' (by decide) (Option.some.inj same)
    · rw [Number.text, shown]
      exact fun same => start_ne starts '\x7b' (by decide) (Option.some.inj same)
  | float x => cases integral
  | array inner ih =>
    cases integral with
    | array integral =>
      exact readsBack_array fun v member => ih v member (integral v member) (level + 1)
  | object sorted inner ih =>
    cases integral with
    | object integral =>
      exact readsBack_object sorted fun f member => ih f member (integral f member) (level + 1)

end Flowgate.Json
