/-!
Entries: a finite map from names to values, kept as a list of pairs sorted by name. Names compare
character by character, which is also the order of their bytes. Two lists of entries with the same
lookups are the same list once both are sorted (`Sorted`), so equality of maps is equality of lists.
-/

namespace Flowgate

abbrev Entries (β : Type) := List (String × β)

namespace Entries

def get? : Entries β → String → Option β
  | [], _ => none
  | (name, value) :: rest, key => if name = key then some value else get? rest key

def contains (es : Entries β) (key : String) : Bool := (get? es key).isSome

-- Sets the value of one name, in its place in the order.
def insert (key : String) (value : β) : Entries β → Entries β
  | [] => [(key, value)]
  | (name, old) :: rest =>
    if key < name then (key, value) :: (name, old) :: rest
    else if key = name then (key, value) :: rest
    else (name, old) :: insert key value rest

def erase (key : String) : Entries β → Entries β
  | [] => []
  | (name, value) :: rest => if name = key then erase key rest else (name, value) :: erase key rest

-- Of several values for one name the last one stays.
def ofList (pairs : List (String × β)) : Entries β :=
  pairs.foldl (fun es pair => insert pair.1 pair.2 es) []

def names (es : Entries β) : List String := es.map Prod.fst

def Sorted (es : Entries β) : Prop := es.Pairwise fun a b => a.1 < b.1

theorem get?_insert (es : Entries β) (key name : String) (value : β) :
    get? (insert key value es) name = if key = name then some value else get? es name := by
  induction es with
  | nil => simp [insert, get?]
  | cons pair rest ih =>
    obtain ⟨first, old⟩ := pair
    by_cases less : key < first
    · simp [insert, less, get?]
    · by_cases same : key = first
      · subst same
        simp only [insert, less, if_false, if_true, get?]
        split <;> rfl
      · simp only [insert, less, same, if_false, get?, ih]
        by_cases here : first = name
        · subst here
          simp [same]
        · simp [here]

theorem get?_erase (es : Entries β) (key name : String) :
    get? (erase key es) name = if key = name then none else get? es name := by
  induction es with
  | nil => simp [erase, get?]
  | cons pair rest ih =>
    obtain ⟨first, old⟩ := pair
    by_cases same : first = key
    · subst same
      simp only [erase, if_true, ih, get?]
      split <;> simp_all
    · simp only [erase, same, if_false, get?, ih]
      by_cases here : first = name
      · subst here
        simp [Ne.symm same]
      · simp [here]

theorem mem_insert {es : Entries β} {key : String} {value : β} {pair : String × β}
    (member : pair ∈ insert key value es) : pair = (key, value) ∨ pair ∈ es := by
  induction es with
  | nil => simpa [insert] using member
  | cons head rest ih =>
    obtain ⟨first, old⟩ := head
    by_cases less : key < first
    · simp only [insert, less, if_true, List.mem_cons] at member
      simpa using member
    · by_cases same : key = first
      · rw [insert, if_neg less, if_pos same] at member
        rcases List.mem_cons.mp member with rfl | there
        · exact .inl rfl
        · exact .inr (List.mem_cons_of_mem _ there)
      · simp only [insert, less, same, if_false, List.mem_cons] at member
        rcases member with rfl | there
        · exact .inr List.mem_cons_self
        · exact (ih there).imp_right (List.mem_cons_of_mem _)

theorem erase_subset {es : Entries β} {key : String} {pair : String × β}
    (member : pair ∈ erase key es) : pair ∈ es := by
  induction es with
  | nil => simp [erase] at member
  | cons head rest ih =>
    obtain ⟨first, old⟩ := head
    by_cases same : first = key
    · simp only [erase, same, if_true] at member
      exact List.mem_cons_of_mem _ (ih member)
    · simp only [erase, same, if_false, List.mem_cons] at member
      rcases member with rfl | there
      · exact List.mem_cons_self
      · exact List.mem_cons_of_mem _ (ih there)

theorem sorted_insert {es : Entries β} (sorted : Sorted es) (key : String) (value : β) :
    Sorted (insert key value es) := by
  induction es with
  | nil => simp [insert, Sorted]
  | cons head rest ih =>
    obtain ⟨first, old⟩ := head
    obtain ⟨above, restSorted⟩ := List.pairwise_cons.mp sorted
    by_cases less : key < first
    · simp only [insert, less, if_true, Sorted]
      refine List.pairwise_cons.mpr ⟨?_, sorted⟩
      intro pair member
      rcases List.mem_cons.mp member with rfl | there
      · exact less
      · exact String.lt_trans less (above pair there)
    · by_cases same : key = first
      · subst same
        simp only [insert, less, if_false, if_true]
        exact List.pairwise_cons.mpr ⟨above, restSorted⟩
      · simp only [insert, less, same, if_false]
        refine List.pairwise_cons.mpr ⟨?_, ih restSorted⟩
        intro pair member
        rcases mem_insert member with rfl | there
        · rcases Decidable.em (first < key) with lt | notLt
          · exact lt
          · exact absurd (String.le_antisymm notLt less) same
        · exact above pair there

theorem sorted_erase {es : Entries β} (sorted : Sorted es) (key : String) :
    Sorted (erase key es) := by
  induction es with
  | nil => exact sorted
  | cons head rest ih =>
    obtain ⟨first, old⟩ := head
    obtain ⟨above, restSorted⟩ := List.pairwise_cons.mp sorted
    by_cases same : first = key
    · simp only [erase, same, if_true]
      exact ih restSorted
    · simp only [erase, same, if_false]
      exact List.pairwise_cons.mpr ⟨fun pair m => above pair (erase_subset m), ih restSorted⟩

end Entries

end Flowgate
