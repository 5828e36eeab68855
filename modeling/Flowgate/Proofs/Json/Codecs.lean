import Flowgate.Proofs.Json.Shapes
import Flowgate.Proofs.Traversal

/-!
Whole documents: what was written over several lines is read back by a codec of its shape, and what
a codec reads from bytes has the form of its shape.
-/

namespace Flowgate.Json

theorem skipBlanks_nil : skipBlanks [] = [] := rfl

theorem readAll_written {read : Nat → Reader Value} {shown : List Char} {back : Value}
    (reads : ReadsBack read shown back) : readAll (read (shown.length + 1)) shown = .ok back := by
  have whole := reads.reads (shown.length + 1) [] delimited_nil (Nat.le_succ _)
  have opened := reads.opens.skipBlanks []
  rw [List.append_nil] at whole opened
  rw [readAll, opened, whole]
  simp only [bind, Except.bind, skipBlanks_nil, List.isEmpty_nil, if_true]

theorem ofMarked_written {codec : Codec α} {shown : List Char} {back : Value} {a : α}
    (reads : ReadsBack (fun steps => codec.shape.read steps nestingLimit) shown back)
    (decodes : codec.decode back = some a) : codec.ofMarked shown = .ok a := by
  rw [Codec.ofMarked, readAll_written reads]
  simp only [bind, Except.bind, decodes]

theorem parse?_pretty {v : Value} (readable : Readable nestingLimit v) (integral : Integral v) :
    parse? v.pretty.toList = some v := by
  rw [parse?, parse, Value.pretty, String.toList_ofList,
    readAll_written (readsBack_indented readable integral 0)]
  rfl

theorem readable_of_parse? {cs : List Char} {v : Value} (parsed : parse? cs = some v) :
    Readable nestingLimit v := by
  have done := ok_of_toOption parsed
  unfold parse readAll at done
  cases read : readValue (cs.length + 1) nestingLimit (skipBlanks cs) with
  | error fault =>
    rw [read] at done
    cases done
  | ok found =>
    rw [read] at done
    simp only [bind, Except.bind] at done
    split at done
    · cases done
      exact readable_of_readValue read
    · cases done

theorem ofBytes_ok {codec : Codec α} {bytes : List UInt8} {a : α}
    (done : codec.ofBytes bytes = .ok a) :
    ∃ v, Yields codec.shape nestingLimit v ∧ codec.decode v = some a := by
  unfold Codec.ofBytes Codec.ofMarked readAll at done
  simp only [bind, Except.bind] at done
  split at done
  · cases done
  · rename_i v whole
    split at whole
    · cases whole
    · rename_i pair read
      split at whole
      · cases whole
        split at done
        · cases done
          exact ⟨_, yields_of_read _ read, ‹_›⟩
        · cases done
      · cases whole

/-! ### No mark is written -/

theorem mem_indentedItems {depth : Nat} {vs : List Value} {c : Char}
    (member : c ∈ Value.indentedItems depth vs) :
    c = ',' ∨ c ∈ Value.lineAt depth ∨ ∃ v ∈ vs, c ∈ v.indented depth := by
  induction vs with
  | nil => cases member
  | cons v vs ih =>
    rw [indentedItems_cons] at member
    rcases List.mem_append.mp member with front | more
    · rcases List.mem_append.mp front with line | inner
      · exact .inr (.inl line)
      · exact .inr (.inr ⟨v, List.mem_cons_self, inner⟩)
    · split at more
      · cases more
      · rcases List.mem_cons.mp more with comma | more
        · exact .inl comma
        · refine (ih more).imp_right (.imp_right ?_)
          rintro ⟨w, there, inner⟩
          exact ⟨w, List.mem_cons_of_mem _ there, inner⟩

theorem mem_indentedFields {depth : Nat} {fs : List (String × Value)} {c : Char}
    (member : c ∈ Value.indentedFields depth fs) :
    c = ',' ∨ c = ':' ∨ c = ' ' ∨ c ∈ Value.lineAt depth ∨
      ∃ f ∈ fs, c ∈ stringText f.1 ∨ c ∈ f.2.indented depth := by
  induction fs with
  | nil => cases member
  | cons f fs ih =>
    obtain ⟨name, v⟩ := f
    rw [indentedFields_cons] at member
    simp only [List.mem_append, List.mem_cons] at member
    rcases member with line | inName | colon | space | inner | more
    · exact .inr (.inr (.inr (.inl line)))
    · exact .inr (.inr (.inr (.inr ⟨(name, v), List.mem_cons_self, .inl inName⟩)))
    · exact .inr (.inl colon)
    · exact .inr (.inr (.inl space))
    · exact .inr (.inr (.inr (.inr ⟨(name, v), List.mem_cons_self, .inr inner⟩)))
    · split at more
      · cases more
      · rcases List.mem_cons.mp more with comma | more
        · exact .inl comma
        · refine (ih more).imp_right (.imp_right (.imp_right (.imp_right ?_)))
          rintro ⟨g, there, inner⟩
          exact ⟨g, List.mem_cons_of_mem _ there, inner⟩

theorem mark_not_mem_lineAt (depth : Nat) : Text.faultMark ∉ Value.lineAt depth := by
  intro member
  rcases List.mem_cons.mp member with line | spaces
  · exact absurd line (by decide)
  · exact absurd (List.eq_of_mem_replicate spaces) (by decide)

theorem mark_not_mem_unicode : ∀ n < 0x20,
    Text.faultMark ∉ ['\\', 'u', '0', '0'] ++ Text.hexOfByte (UInt8.ofNat n) := by
  decide

theorem mark_not_mem_escapedChar (c : Char) : Text.faultMark ∉ escapedChar c := by
  unfold escapedChar
  repeat' split
  all_goals try decide
  · exact mark_not_mem_unicode _ ‹_›
  · rename_i printed
    intro member
    rw [← List.mem_singleton.mp member] at printed
    exact printed (by decide)

theorem mark_not_mem_stringText (s : String) : Text.faultMark ∉ stringText s := by
  intro member
  simp only [stringText, List.mem_append, List.mem_cons, List.mem_flatMap,
    List.not_mem_nil, or_false] at member
  rcases member with (quote | ⟨c, -, inner⟩) | quote
  · exact absurd quote (by decide)
  · exact mark_not_mem_escapedChar c inner
  · exact absurd quote (by decide)

theorem mark_not_mem_digits (n : Nat) : Text.faultMark ∉ Nat.toDigits 10 n := by
  intro member
  have digit := Nat.isDigit_of_mem_toDigits (by omega) (by omega) member
  exact absurd digit (by decide)

theorem mark_not_mem_integer (n : Int) : Text.faultMark ∉ (toString n).toList := by
  rw [Int.toString_eq_repr, Int.repr_eq_if]
  split
  · rw [Nat.toList_repr]
    exact mark_not_mem_digits _
  · rw [String.toList_append, Nat.toList_repr]
    intro member
    rcases List.mem_append.mp member with sign | digits
    · exact absurd sign (by decide)
    · exact mark_not_mem_digits _ digits

theorem mark_not_mem_indented {v : Value} (integral : Integral v) (level : Nat) :
    Text.faultMark ∉ v.indented level := by
  induction integral generalizing level with
  | null =>
    rw [Value.indented]
    decide
  | bool b =>
    cases b with
    | false => rw [Value.indented]; decide
    | true => rw [Value.indented]; decide
  | string s => exact mark_not_mem_stringText s
  | integer n => exact mark_not_mem_integer n
  | @array items inner ih =>
    cases items with
    | nil => rw [Value.indented]; decide
    | cons item items =>
      rw [Value.indented]
      simp only [List.mem_append, List.mem_cons, List.not_mem_nil, or_false, not_or]
      refine ⟨⟨⟨by decide, fun member => ?_⟩, mark_not_mem_lineAt level⟩, by decide⟩
      rcases mem_indentedItems member with comma | line | ⟨v, there, within⟩
      · exact absurd comma (by decide)
      · exact mark_not_mem_lineAt _ line
      · exact ih v there _ within
  | @object fields inner ih =>
    cases fields with
    | nil => rw [Value.indented]; decide
    | cons field fields =>
      rw [Value.indented]
      simp only [List.mem_append, List.mem_cons, List.not_mem_nil, or_false, not_or]
      refine ⟨⟨⟨by decide, fun member => ?_⟩, mark_not_mem_lineAt level⟩, by decide⟩
      rcases mem_indentedFields member with comma | colon | space | line | ⟨f, there, within⟩
      · exact absurd comma (by decide)
      · exact absurd colon (by decide)
      · exact absurd space (by decide)
      · exact mark_not_mem_lineAt _ line
      · rcases within with name | value
        · exact mark_not_mem_stringText _ name
        · exact ih f there _ value

theorem unmarked_of_not_mem {cs : List Char} (none : Text.faultMark ∉ cs) :
    Text.unmarked cs = cs := by
  refine (List.map_congr_left fun c member => ?_).trans (List.map_id cs)
  exact if_neg fun (same : c = Text.faultMark) => none (same ▸ member)

theorem ofText?_pretty {codec : Codec α} {v back : Value} {a : α} (integral : Integral v)
    (reads : ReadsBack (fun steps => codec.shape.read steps nestingLimit) (v.indented 0) back)
    (decodes : codec.decode back = some a) : codec.ofText? v.pretty.toList = some a := by
  rw [Codec.ofText?, Value.pretty, String.toList_ofList,
    unmarked_of_not_mem (mark_not_mem_indented integral 0), ofMarked_written reads decodes]
  rfl

end Flowgate.Json
