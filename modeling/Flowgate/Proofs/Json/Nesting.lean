import Flowgate.Proofs.Json.Shapes
import Flowgate.Proofs.Traversal

/-!
Nesting: how many arrays and objects of a value lie inside one another. A reader of any depth gives
the values whose nesting is at most that depth, and a shape makes of a value what it makes of a text.
-/

namespace Flowgate.Json

namespace Value

mutual

def nesting : Value → Nat
  | .array items => nestingOfItems items + 1
  | .object fields => nestingOfFields fields + 1
  | _ => 0

def nestingOfItems : List Value → Nat
  | [] => 0
  | v :: vs => max v.nesting (nestingOfItems vs)

def nestingOfFields : List (String × Value) → Nat
  | [] => 0
  | (_, v) :: fs => max v.nesting (nestingOfFields fs)

end

theorem nestingOfItems_le_iff {vs : List Value} {n : Nat} :
    nestingOfItems vs ≤ n ↔ ∀ v ∈ vs, v.nesting ≤ n := by
  induction vs with
  | nil => simp [nestingOfItems]
  | cons v vs ih => rw [nestingOfItems, Nat.max_le, ih, List.forall_mem_cons]

theorem nestingOfFields_le_iff {fs : List (String × Value)} {n : Nat} :
    nestingOfFields fs ≤ n ↔ ∀ f ∈ fs, f.2.nesting ≤ n := by
  induction fs with
  | nil => simp [nestingOfFields]
  | cons f fs ih => rw [nestingOfFields, Nat.max_le, ih, List.forall_mem_cons]

theorem nesting_array_le_iff {vs : List Value} {n : Nat} :
    (Value.array vs).nesting ≤ n + 1 ↔ ∀ v ∈ vs, v.nesting ≤ n := by
  rw [nesting, Nat.add_le_add_iff_right, nestingOfItems_le_iff]

theorem nesting_object_le_iff {fs : List (String × Value)} {n : Nat} :
    (Value.object fs).nesting ≤ n + 1 ↔ ∀ f ∈ fs, f.2.nesting ≤ n := by
  rw [nesting, Nat.add_le_add_iff_right, nestingOfFields_le_iff]

end Value

variable {depth more : Nat} {v w : Value}

theorem Readable.nesting_le (readable : Readable depth v) : v.nesting ≤ depth := by
  induction readable with
  | null => simp [Value.nesting]
  | bool b => simp [Value.nesting]
  | string s => simp [Value.nesting]
  | integer wide => simp [Value.nesting]
  | float x => simp [Value.nesting]
  | array inner ih => exact Value.nesting_array_le_iff.mpr ih
  | object sorted inner ih => exact Value.nesting_object_le_iff.mpr ih

-- Apart from its nesting, what a reader gives does not depend on the depth.
theorem Readable.of_nesting (readable : Readable depth v) (shallow : v.nesting ≤ more) :
    Readable more v := by
  induction readable generalizing more with
  | null => exact .null
  | bool b => exact .bool b
  | string s => exact .string s
  | integer wide => exact .integer wide
  | float x => exact .float x
  | @array _ items inner ih =>
    cases more with
    | zero => simp [Value.nesting] at shallow
    | succ more =>
      have each := Value.nesting_array_le_iff.mp shallow
      exact .array fun v member => ih v member (each v member)
  | @object _ fields sorted inner ih =>
    cases more with
    | zero => simp [Value.nesting] at shallow
    | succ more =>
      have each := Value.nesting_object_le_iff.mp shallow
      exact .object sorted fun f member => ih f member (each f member)

theorem Readable.mono (readable : Readable depth v) (deeper : depth ≤ more) : Readable more v :=
  readable.of_nesting (Nat.le_trans readable.nesting_le deeper)

/-! ### Shapes -/

mutual

theorem Yields.mono (extra : Nat) : ∀ {shape : Shape} {depth : Nat} {v : Value},
    Yields shape depth v → Yields shape (depth + extra) v
  | _, _, _, .any readable => .any (readable.mono (Nat.le_add_right _ _))
  | _, _, _, .string s => .string s
  | _, _, _, .bool b => .bool b
  | _, _, _, .count fits => .count fits
  | _, _, _, .null => .null
  | _, _, _, .present inner => .present (inner.mono extra)
  | _, _, _, @Yields.list depth _ _ inner => by
    rw [Nat.add_right_comm]
    exact .list fun v member => (inner v member).mono extra
  | _, _, _, .table readable => .table (readable.mono (Nat.le_add_right _ _))
  | _, _, _, @Yields.record depth _ _ inner => by
    rw [Nat.add_right_comm]
    exact .record fun pair member => (inner pair member).mono extra

theorem Kept.mono (extra : Nat) : ∀ {fields : List (Field Shape)} {depth : Nat}
    {pair : String × Value}, Kept fields depth pair → Kept fields (depth + extra) pair
  | _, _, _, .field member yields => .field member (yields.mono extra)

end

/-! ### What fits -/

section Fits

variable {all : List (Field Shape)} {found : Entries Value}

theorem kept_of_fitFields {fields : List (Field Shape)} (among : ∀ f ∈ fields, f ∈ all)
    (fits : ∀ f ∈ fields, ∀ v w, Readable depth v → f.shape.fit v = some w →
      Yields f.shape depth w)
    {given : Entries Value} (inner : ∀ pair ∈ given, Readable depth pair.2)
    (done : Shape.fitFields fields given = some found) : ∀ pair ∈ found, Kept all depth pair := by
  induction fields generalizing found with
  | nil =>
    unfold Shape.fitFields at done
    cases done
    simp
  | cons f fields ih =>
    unfold Shape.fitFields at done
    obtain ⟨others, rest, done⟩ := Option.bind_eq_some_iff.mp done
    have known := ih (fun g member => among g (List.mem_cons_of_mem _ member))
      (fun g member => fits g (List.mem_cons_of_mem _ member)) rest
    split at done
    · split at done
      · cases done
      · cases done
        exact known
    · rename_i name v one
      obtain ⟨w, fitted, same⟩ := Option.bind_eq_some_iff.mp done
      cases same
      have there : (name, v) ∈ given := List.mem_of_mem_filter (one ▸ List.mem_singleton_self _)
      exact kept_insert known (among f List.mem_cons_self)
        (fits f List.mem_cons_self v w (inner _ there) fitted)
    · cases done

theorem kept_of_fitPlaces {fields : List (Field Shape)} (among : ∀ f ∈ fields, f ∈ all)
    (fits : ∀ f ∈ fields, ∀ v w, Readable depth v → f.shape.fit v = some w →
      Yields f.shape depth w)
    {items : List Value} (inner : ∀ v ∈ items, Readable depth v)
    (done : Shape.fitPlaces fields items = some found) : ∀ pair ∈ found, Kept all depth pair := by
  induction fields generalizing items found with
  | nil =>
    cases items with
    | nil =>
      unfold Shape.fitPlaces at done
      cases done
      simp
    | cons v items =>
      unfold Shape.fitPlaces at done
      cases done
  | cons f fields ih =>
    have onward {items : List Value} {found : Entries Value}
        (inner : ∀ v ∈ items, Readable depth v)
        (done : Shape.fitPlaces fields items = some found) : ∀ pair ∈ found, Kept all depth pair :=
      ih (fun g member => among g (List.mem_cons_of_mem _ member))
        (fun g member => fits g (List.mem_cons_of_mem _ member)) inner done
    cases items with
    | nil =>
      unfold Shape.fitPlaces at done
      split at done
      · cases done
      · exact onward inner done
    | cons v items =>
      unfold Shape.fitPlaces at done
      obtain ⟨first, fitted, done⟩ := Option.bind_eq_some_iff.mp done
      obtain ⟨others, rest, same⟩ := Option.bind_eq_some_iff.mp done
      cases same
      have known := onward (fun w member => inner w (List.mem_cons_of_mem _ member)) rest
      exact kept_insert known (among f List.mem_cons_self)
        (fits f List.mem_cons_self v first (inner v List.mem_cons_self) fitted)

end Fits

theorem yields_of_fit (shape : Shape) {depth : Nat} {v w : Value} (readable : Readable depth v)
    (done : shape.fit v = some w) : Yields shape depth w := by
  match shape with
  | .any =>
    unfold Shape.fit at done
    cases done
    exact .any readable
  | .string =>
    unfold Shape.fit at done
    cases v with
    | string s => cases done; exact .string s
    | _ => cases done
  | .bool =>
    unfold Shape.fit at done
    cases v with
    | bool b => cases done; exact .bool b
    | _ => cases done
  | .count limit =>
    unfold Shape.fit at done
    split at done
    · cases done
      exact .count ‹_›
    · cases done
  | .optional inner =>
    unfold Shape.fit at done
    split at done
    · cases done
      exact .null
    · exact .present (yields_of_fit inner readable done)
  | .list inner =>
    unfold Shape.fit at done
    cases readable with
    | array each =>
      obtain ⟨items, fitted, same⟩ := Option.map_eq_some_iff.mp done
      cases same
      refine .list fun w member => ?_
      obtain ⟨v, there, here⟩ := mem_of_mapM_some fitted member
      exact yields_of_fit inner (each v there) here
    | _ => cases done
  | .table =>
    unfold Shape.fit at done
    cases v with
    | object fields => cases done; exact .table readable
    | _ => cases done
  | .record fields =>
    have fits (depth : Nat) : ∀ f ∈ fields, ∀ v w, Readable depth v → f.shape.fit v = some w →
        Yields f.shape depth w :=
      fun f member v w readable done => yields_of_fit f.shape readable done
    unfold Shape.fit at done
    cases readable with
    | object sorted each =>
      obtain ⟨found, fitted, same⟩ := Option.map_eq_some_iff.mp done
      cases same
      exact .record (kept_of_fitFields (fun _ member => member) (fits _) each fitted)
    | array each =>
      obtain ⟨found, fitted, same⟩ := Option.map_eq_some_iff.mp done
      cases same
      exact .record (kept_of_fitPlaces (fun _ member => member) (fits _) each fitted)
    | _ => cases done
termination_by sizeOf shape
decreasing_by
  all_goals simp_wf
  have smaller := List.sizeOf_lt_of_mem member
  cases f
  simp only [Field.mk.sizeOf_spec] at smaller ⊢
  omega

-- However a codec gets a value, from bytes or from JSON in memory, it has the form of the shape.
theorem ofValue?_some {codec : Codec α} {a : α} (readable : Readable depth v)
    (done : codec.ofValue? v = some a) :
    ∃ w, Yields codec.shape depth w ∧ codec.decode w = some a := by
  obtain ⟨w, fitted, decoded⟩ := Option.bind_eq_some_iff.mp done
  exact ⟨w, yields_of_fit codec.shape readable fitted, decoded⟩

end Flowgate.Json
