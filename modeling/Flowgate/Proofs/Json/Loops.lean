import Flowgate.Json.Printer
import Flowgate.Json.Reader
import Flowgate.Proofs.Json.Scalars

/-!
The loops over items and fields. What each step keeps, a whole loop keeps; and a loop over text that
was written with one item or field on each line takes them in their order.
-/

namespace Flowgate.Json

/-! ### What loops keep -/

section Keeps

variable {σ : Type} {P : σ → Prop}

theorem eachItem_keeps {step : σ → Reader σ}
    (keeps : ∀ s cs s' rest, P s → step s cs = .ok (s', rest) → P s')
    {n : Nat} {s s' : σ} {cs rest : List Char} (start : P s)
    (done : eachItem step n s cs = .ok (s', rest)) : P s' := by
  induction n generalizing s cs with
  | zero => cases done
  | succ n ih =>
    rw [eachItem] at done
    cases first : step s (skipBlanks cs) with
    | error fault => rw [first] at done; cases done
    | ok found =>
      obtain ⟨next, left⟩ := found
      have kept : P next := keeps s _ next left start first
      rw [first] at done
      simp only [bind, Except.bind] at done
      split at done
      · exact ih kept done
      · cases done
        exact kept
      · cases done

theorem items_keeps {step : σ → Reader σ}
    (keeps : ∀ s cs s' rest, P s → step s cs = .ok (s', rest) → P s')
    {n : Nat} {s s' : σ} {cs rest : List Char} (start : P s)
    (done : items step n s cs = .ok (s', rest)) : P s' := by
  unfold items at done
  split at done
  · cases done
    exact start
  · exact eachItem_keeps keeps start done

theorem eachField_keeps {step : σ → String → Reader σ}
    (keeps : ∀ s name cs s' rest, P s → step s name cs = .ok (s', rest) → P s')
    {n : Nat} {s s' : σ} {cs rest : List Char} (start : P s)
    (done : eachField step n s cs = .ok (s', rest)) : P s' := by
  induction n generalizing s cs with
  | zero => cases done
  | succ n ih =>
    rw [eachField] at done
    cases named : fieldName cs with
    | error fault => rw [named] at done; cases done
    | ok found =>
      obtain ⟨name, value⟩ := found
      cases first : step s name value with
      | error fault =>
        rw [named] at done
        simp only [bind, Except.bind, first] at done
        cases done
      | ok found =>
        obtain ⟨next, left⟩ := found
        have kept : P next := keeps s name value next left start first
        rw [named] at done
        simp only [bind, Except.bind, first] at done
        split at done
        · exact ih kept done
        · cases done
          exact kept
        · cases done

theorem fields_keeps {step : σ → String → Reader σ}
    (keeps : ∀ s name cs s' rest, P s → step s name cs = .ok (s', rest) → P s')
    {n : Nat} {s s' : σ} {cs rest : List Char} (start : P s)
    (done : fields step n s cs = .ok (s', rest)) : P s' := by
  unfold fields at done
  split at done
  · cases done
    exact start
  · exact eachField_keeps keeps start done

-- The step that gathers items, the last of which comes first.
abbrev gathering {α : Type} (read : Reader α) (found : List α) : Reader (List α) := fun cs => do
  let (a, rest) ← read cs
  .ok (a :: found, rest)

theorem gathering_ok {α : Type} {read : Reader α} {found found' : List α} {cs rest : List Char}
    (done : gathering read found cs = .ok (found', rest)) :
    ∃ a, read cs = .ok (a, rest) ∧ found' = a :: found := by
  unfold gathering at done
  cases first : read cs with
  | error fault => rw [first] at done; cases done
  | ok pair =>
    rw [first] at done
    cases done
    exact ⟨_, rfl, rfl⟩

theorem items_all {α : Type} {read : Reader α} {Q : α → Prop}
    (keeps : ∀ cs a rest, read cs = .ok (a, rest) → Q a) {n : Nat} {found : List α}
    {cs rest : List Char} (done : items (gathering read) n [] cs = .ok (found, rest)) :
    ∀ a ∈ found, Q a := by
  refine items_keeps (P := fun found => ∀ a ∈ found, Q a) ?_ (by simp) done
  intro s cs s' rest all step
  obtain ⟨a, first, rfl⟩ := gathering_ok step
  exact List.forall_mem_cons.mpr ⟨keeps cs a rest first, all⟩

end Keeps

/-! ### Blanks -/

-- A text that a value can start: neither a blank nor the end of an array or object.
def Opens (cs : List Char) : Prop :=
  ∃ c tail, cs = c :: tail ∧ isBlank c = false ∧ c ≠ ']' ∧ c ≠ '\x7d'

theorem skipBlanks_lineAt (depth : Nat) (cs : List Char) :
    skipBlanks (Value.lineAt depth ++ cs) = skipBlanks cs := by
  have blanks : ∀ n, skipBlanks (List.replicate n ' ' ++ cs) = skipBlanks cs := by
    intro n
    induction n with
    | zero => rfl
    | succ n ih =>
      rw [List.replicate_succ, List.cons_append, ← ih]
      rfl
  exact blanks _

theorem skipBlanks_of_not_blank {c : Char} (not_blank : isBlank c = false) (cs : List Char) :
    skipBlanks (c :: cs) = c :: cs := by
  rw [skipBlanks, List.dropWhile_cons_of_neg (by rw [not_blank]; exact Bool.false_ne_true)]

theorem skipBlanks_skipBlanks (cs : List Char) : skipBlanks (skipBlanks cs) = skipBlanks cs := by
  induction cs with
  | nil => rfl
  | cons c cs ih =>
    cases blank : isBlank c with
    | true => simpa only [skipBlanks, List.dropWhile_cons_of_pos blank] using ih
    | false => rw [skipBlanks_of_not_blank blank, skipBlanks_of_not_blank blank]

theorem Opens.skipBlanks {cs : List Char} (opens : Opens cs) (rest : List Char) :
    skipBlanks (cs ++ rest) = cs ++ rest := by
  obtain ⟨c, tail, rfl, not_blank, -⟩ := opens
  exact skipBlanks_of_not_blank not_blank _

theorem Opens.head {cs : List Char} (opens : Opens cs) (rest : List Char) :
    (cs ++ rest).head? ≠ some ']' := by
  obtain ⟨c, tail, rfl, -, open_item, -⟩ := opens
  exact fun same => open_item (Option.some.inj same)

theorem delimited_lineAt (depth : Nat) (cs : List Char) :
    Delimited (Value.lineAt depth ++ cs) :=
  delimited_cons (by decide) _

theorem delimited_comma (cs : List Char) : Delimited (',' :: cs) := delimited_cons (by decide) _

/-! ### Items on their lines -/

open Value in
theorem indentedItems_cons (depth : Nat) (v : Value) (vs : List Value) :
    indentedItems depth (v :: vs)
      = lineAt depth ++ v.indented depth
        ++ if vs.isEmpty then [] else ',' :: indentedItems depth vs := by
  cases vs with
  | nil => simp [indentedItems]
  | cons w vs => simp [indentedItems]

theorem length_indentedItems (depth : Nat) (vs : List Value) :
    vs.length ≤ (Value.indentedItems depth vs).length := by
  induction vs with
  | nil => exact Nat.zero_le _
  | cons v vs ih =>
    rw [indentedItems_cons]
    cases vs with
    | nil => simp [Value.lineAt]
    | cons w vs =>
      simp only [List.length_cons, List.length_append, List.isEmpty_cons, Bool.false_eq_true,
        if_false] at ih ⊢
      omega

theorem length_indented_le {depth : Nat} {v : Value} {vs : List Value} (member : v ∈ vs) :
    (v.indented depth).length ≤ (Value.indentedItems depth vs).length := by
  induction vs with
  | nil => cases member
  | cons w vs ih =>
    rw [indentedItems_cons]
    rcases List.mem_cons.mp member with rfl | there
    · simp only [List.length_append]
      omega
    · have below := ih there
      cases vs with
      | nil => cases there
      | cons u vs =>
        simp only [List.length_append, List.length_cons, List.isEmpty_cons, Bool.false_eq_true,
          if_false] at below ⊢
        omega

section Items

variable {σ α : Type} {step : σ → Reader σ} {next : σ → α → σ} {write : α → Value}
  {depth outer : Nat}

-- The induction is on the items after the first, as the loop looks for a comma after each.
theorem eachItem_indented (items : List α) (item : α) {n : Nat} (enough : items.length < n)
    (opens : ∀ a ∈ item :: items, Opens ((write a).indented depth))
    (reads : ∀ s, ∀ a ∈ item :: items, ∀ rest, Delimited rest →
      step s ((write a).indented depth ++ rest) = .ok (next s a, rest))
    (s : σ) (rest : List Char) :
    eachItem step n s
        (Value.indentedItems depth ((item :: items).map write)
          ++ Value.lineAt outer ++ ']' :: rest)
      = .ok ((item :: items).foldl next s, rest) := by
  induction items generalizing item n s with
  | nil =>
    obtain ⟨n, rfl⟩ := Nat.exists_eq_add_of_lt enough
    have first := reads s item List.mem_cons_self (Value.lineAt outer ++ ']' :: rest)
      (delimited_lineAt _ _)
    have opened := (opens item List.mem_cons_self).skipBlanks (Value.lineAt outer ++ ']' :: rest)
    simp only [List.map_cons, List.map_nil, indentedItems_cons, List.isEmpty_nil, if_true,
      List.append_nil, List.append_assoc]
    rw [eachItem, skipBlanks_lineAt, opened, first]
    simp only [bind, Except.bind]
    rw [skipBlanks_lineAt, skipBlanks_of_not_blank (by decide)]
    rfl
  | cons second items ih =>
    cases n with
    | zero => exact absurd enough (Nat.not_lt_zero _)
    | succ n =>
      let more := Value.indentedItems depth ((second :: items).map write)
        ++ Value.lineAt outer ++ ']' :: rest
      have first := reads s item List.mem_cons_self (',' :: more) (delimited_comma _)
      have opened := (opens item List.mem_cons_self).skipBlanks (',' :: more)
      have others := ih second (n := n) (by simpa using enough)
        (fun a member => opens a (List.mem_cons_of_mem _ member))
        (fun s a member => reads s a (List.mem_cons_of_mem _ member)) (next s item)
      have text : Value.indentedItems depth ((item :: second :: items).map write)
          ++ Value.lineAt outer ++ ']' :: rest
          = Value.lineAt depth ++ ((write item).indented depth ++ ',' :: more) := by
        rw [List.map_cons, indentedItems_cons]
        simp [more]
      rw [text, eachItem, skipBlanks_lineAt, opened, first]
      simp only [bind, Except.bind]
      rw [skipBlanks_of_not_blank (by decide)]
      exact others

theorem eachItem_skipBlanks (n : Nat) (s : σ) (cs : List Char) :
    eachItem step n s (skipBlanks cs) = eachItem step n s cs := by
  cases n with
  | zero => rfl
  | succ n => rw [eachItem, eachItem, skipBlanks_skipBlanks]

theorem items_eq_eachItem {n : Nat} {s : σ} {cs : List Char}
    (more : (skipBlanks cs).head? ≠ some ']') : items step n s cs = eachItem step n s cs := by
  unfold items
  split
  · rename_i ended
    rw [ended] at more
    exact absurd rfl more
  · exact eachItem_skipBlanks n s cs

theorem items_indented (step : σ → Reader σ) (next : σ → α → σ) (write : α → Value) (outer : Nat)
    (items : List α) {n : Nat}
    (enough : (Value.list write items |>.indented outer).length ≤ n)
    (opens : ∀ a ∈ items, Opens ((write a).indented (outer + 1)))
    (reads : ∀ s, ∀ a ∈ items, ∀ rest, Delimited rest →
      step s ((write a).indented (outer + 1) ++ rest) = .ok (next s a, rest))
    (s : σ) (rest : List Char) :
    ∃ tail, (Value.list write items).indented outer ++ rest = '[' :: tail ∧
      Json.items step n s tail = .ok (items.foldl next s, rest) := by
  cases items with
  | nil => exact ⟨']' :: rest, rfl, rfl⟩
  | cons item items =>
    refine ⟨Value.indentedItems (outer + 1) ((item :: items).map write)
      ++ Value.lineAt outer ++ ']' :: rest, ?_, ?_⟩
    · simp [Value.list, Value.indented]
    · have fuel : items.length < n := by
        have least := length_indentedItems (outer + 1) ((item :: items).map write)
        simp only [Value.list, List.map_cons, Value.indented, List.length_cons, List.length_append,
          List.length_map] at enough least
        omega
      rw [items_eq_eachItem, eachItem_indented items item fuel opens reads]
      rw [List.map_cons, indentedItems_cons, List.append_assoc, List.append_assoc, List.append_assoc,
        skipBlanks_lineAt, (opens item List.mem_cons_self).skipBlanks]
      exact (opens item List.mem_cons_self).head _

end Items

/-! ### Fields on their lines -/

open Value in
theorem indentedFields_cons (depth : Nat) (name : String) (v : Value) (fs : List (String × Value)) :
    indentedFields depth ((name, v) :: fs)
      = lineAt depth ++ (stringText name ++ ':' :: ' ' :: (v.indented depth
        ++ if fs.isEmpty then [] else ',' :: indentedFields depth fs)) := by
  cases fs with
  | nil => simp [indentedFields]
  | cons f fs => simp [indentedFields]

theorem length_indentedFields (depth : Nat) (fs : List (String × Value)) :
    fs.length ≤ (Value.indentedFields depth fs).length := by
  induction fs with
  | nil => exact Nat.zero_le _
  | cons f fs ih =>
    obtain ⟨name, v⟩ := f
    rw [indentedFields_cons]
    cases fs with
    | nil => simp [Value.lineAt]
    | cons g fs =>
      simp only [List.length_cons, List.length_append, List.isEmpty_cons, Bool.false_eq_true,
        if_false] at ih ⊢
      omega

theorem length_indented_field_le {depth : Nat} {f : String × Value} {fs : List (String × Value)}
    (member : f ∈ fs) : (f.2.indented depth).length ≤ (Value.indentedFields depth fs).length := by
  induction fs with
  | nil => cases member
  | cons g fs ih =>
    obtain ⟨name, v⟩ := g
    rw [indentedFields_cons]
    rcases List.mem_cons.mp member with rfl | there
    · simp only [List.length_append, List.length_cons]
      omega
    · have below := ih there
      cases fs with
      | nil => cases there
      | cons h fs =>
        simp only [List.length_append, List.length_cons, List.isEmpty_cons, Bool.false_eq_true,
          if_false] at below ⊢
        omega

theorem stringText_eq (s : String) (rest : List Char) :
    stringText s ++ rest = '"' :: (s.toList.flatMap escapedChar ++ '"' :: rest) := by
  simp [stringText]

theorem fieldName_written (depth : Nat) (name : String) (cs : List Char) :
    fieldName (Value.lineAt depth ++ (stringText name ++ ':' :: ' ' :: cs))
      = .ok (name, skipBlanks cs) := by
  have body := stringBody_escaped name.toList [] (':' :: ' ' :: cs)
  rw [List.reverse_nil, List.nil_append, String.ofList_toList] at body
  rw [fieldName, skipBlanks_lineAt, stringText_eq, skipBlanks_of_not_blank (by decide)]
  simp only [body, bind, Except.bind]
  rw [skipBlanks_of_not_blank (by decide)]
  rfl

section Fields

variable {σ α : Type} {step : σ → String → Reader σ} {next : σ → α → σ} {name : α → String}
  {write : α → Value} {depth outer : Nat}

theorem eachField_indented (fs : List α) (f : α) {n : Nat} (enough : fs.length < n)
    (opens : ∀ a ∈ f :: fs, Opens ((write a).indented depth)) (s : σ)
    (reads : ∀ before a after, f :: fs = before ++ a :: after → ∀ rest, Delimited rest →
      step (before.foldl next s) (name a) ((write a).indented depth ++ rest)
        = .ok (next (before.foldl next s) a, rest))
    (rest : List Char) :
    eachField step n s
        (Value.indentedFields depth ((f :: fs).map fun a => (name a, write a))
          ++ Value.lineAt outer ++ '\x7d' :: rest)
      = .ok ((f :: fs).foldl next s, rest) := by
  induction fs generalizing f n s with
  | nil =>
    obtain ⟨n, rfl⟩ := Nat.exists_eq_add_of_lt enough
    have first := reads [] f [] rfl (Value.lineAt outer ++ '\x7d' :: rest) (delimited_lineAt _ _)
    have opened := (opens f List.mem_cons_self).skipBlanks (Value.lineAt outer ++ '\x7d' :: rest)
    have text : Value.indentedFields depth ([f].map fun a => (name a, write a))
        ++ Value.lineAt outer ++ '\x7d' :: rest
        = Value.lineAt depth ++ (stringText (name f) ++ ':' :: ' ' :: ((write f).indented depth
          ++ (Value.lineAt outer ++ '\x7d' :: rest))) := by
      rw [List.map_cons, indentedFields_cons]
      simp
    rw [List.foldl_nil] at first
    rw [text, eachField, fieldName_written, opened]
    simp only [bind, Except.bind, first]
    rw [skipBlanks_lineAt, skipBlanks_of_not_blank (by decide)]
    rfl
  | cons second fs ih =>
    cases n with
    | zero => exact absurd enough (Nat.not_lt_zero _)
    | succ n =>
      let more := Value.indentedFields depth ((second :: fs).map fun a => (name a, write a))
        ++ Value.lineAt outer ++ '\x7d' :: rest
      have first := reads [] f (second :: fs) rfl (',' :: more) (delimited_comma _)
      have opened := (opens f List.mem_cons_self).skipBlanks (',' :: more)
      have others := ih second (n := n) (by simpa using enough)
        (fun a member => opens a (List.mem_cons_of_mem _ member)) (next s f)
        (fun before a after split => reads (f :: before) a after (by rw [split, List.cons_append]))
      have text : Value.indentedFields depth ((f :: second :: fs).map fun a => (name a, write a))
          ++ Value.lineAt outer ++ '\x7d' :: rest
          = Value.lineAt depth ++ (stringText (name f) ++ ':' :: ' ' :: ((write f).indented depth
            ++ ',' :: more)) := by
        rw [List.map_cons, indentedFields_cons]
        simp [more]
      rw [List.foldl_nil] at first
      rw [text, eachField, fieldName_written, opened]
      simp only [bind, Except.bind, first]
      rw [skipBlanks_of_not_blank (by decide)]
      exact others

theorem eachField_skipBlanks (n : Nat) (s : σ) (cs : List Char) :
    eachField step n s (skipBlanks cs) = eachField step n s cs := by
  cases n with
  | zero => rfl
  | succ n => rw [eachField, eachField, fieldName, skipBlanks_skipBlanks, ← fieldName]

theorem fields_eq_eachField {n : Nat} {s : σ} {cs : List Char}
    (more : (skipBlanks cs).head? ≠ some '\x7d') : fields step n s cs = eachField step n s cs := by
  unfold fields
  split
  · rename_i ended
    rw [ended] at more
    exact absurd rfl more
  · exact eachField_skipBlanks n s cs

theorem fields_indented (step : σ → String → Reader σ) (next : σ → α → σ) (name : α → String)
    (write : α → Value) (outer : Nat) (fs : List α) {n : Nat}
    (enough : ((Value.object (fs.map fun a => (name a, write a))).indented outer).length ≤ n)
    (opens : ∀ a ∈ fs, Opens ((write a).indented (outer + 1))) (s : σ)
    (reads : ∀ before a after, fs = before ++ a :: after → ∀ rest, Delimited rest →
      step (before.foldl next s) (name a) ((write a).indented (outer + 1) ++ rest)
        = .ok (next (before.foldl next s) a, rest))
    (rest : List Char) :
    ∃ tail, (Value.object (fs.map fun a => (name a, write a))).indented outer ++ rest
        = '\x7b' :: tail ∧
      fields step n s tail = .ok (fs.foldl next s, rest) := by
  cases fs with
  | nil => exact ⟨'\x7d' :: rest, rfl, rfl⟩
  | cons f fs =>
    refine ⟨Value.indentedFields (outer + 1) ((f :: fs).map fun a => (name a, write a))
      ++ Value.lineAt outer ++ '\x7d' :: rest, ?_, ?_⟩
    · simp [Value.indented]
    · have fuel : fs.length < n := by
        have least := length_indentedFields (outer + 1) ((f :: fs).map fun a => (name a, write a))
        simp only [List.map_cons, Value.indented, List.length_cons, List.length_append,
          List.length_map] at enough least
        omega
      rw [fields_eq_eachField, eachField_indented fs f fuel opens s reads]
      rw [List.map_cons, indentedFields_cons, List.append_assoc, List.append_assoc,
        skipBlanks_lineAt, List.append_assoc, stringText_eq, skipBlanks_of_not_blank (by decide)]
      exact fun same => absurd (Option.some.inj same) (by decide)

end Fields

end Flowgate.Json
