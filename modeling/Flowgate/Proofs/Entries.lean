import Flowgate.Entries
import Mathlib.Data.List.Basic
import Mathlib.Data.List.Dedup

/-!
Sorted entries as maps: membership is lookup, equal lookups are equal entries, and building from
sorted pairs changes nothing.
-/

namespace Flowgate.Entries

theorem get?_cons (pair : String × β) (es : Entries β) (key : String) :
    get? (pair :: es) key = if pair.1 = key then some pair.2 else get? es key := rfl

theorem mem_of_get? {es : Entries β} {key : String} {value : β}
    (found : get? es key = some value) : (key, value) ∈ es := by
  induction es with
  | nil => cases found
  | cons pair es ih =>
    rw [get?_cons] at found
    by_cases here : pair.1 = key
    · rw [if_pos here] at found
      cases found
      subst here
      exact List.mem_cons_self
    · rw [if_neg here] at found
      exact List.mem_cons_of_mem _ (ih found)

theorem get?_of_mem {es : Entries β} (sorted : Sorted es) {key : String} {value : β}
    (member : (key, value) ∈ es) : get? es key = some value := by
  induction es with
  | nil => cases member
  | cons pair es ih =>
    obtain ⟨above, rest⟩ := List.pairwise_cons.mp sorted
    rw [get?_cons]
    rcases List.mem_cons.mp member with rfl | there
    · rw [if_pos rfl]
    · have less : pair.1 < key := above _ there
      rw [if_neg fun (same : pair.1 = key) => absurd (same ▸ less) (String.lt_irrefl _)]
      exact ih rest there

theorem get?_eq_some_iff {es : Entries β} (sorted : Sorted es) {key : String} {value : β} :
    get? es key = some value ↔ (key, value) ∈ es :=
  ⟨mem_of_get?, get?_of_mem sorted⟩

theorem ext {es fs : Entries β} (left : Sorted es) (right : Sorted fs)
    (same : ∀ key, get? es key = get? fs key) : es = fs := by
  have members : ∀ pair : String × β, pair ∈ es ↔ pair ∈ fs := by
    rintro ⟨key, value⟩
    rw [← get?_eq_some_iff left, ← get?_eq_some_iff right, same]
  have nodup (gs : Entries β) (sorted : Sorted gs) : gs.Nodup := by
    refine List.Pairwise.imp ?_ sorted
    rintro a b less rfl
    exact String.lt_irrefl _ less
  have perm : es.Perm fs := (List.perm_ext_iff_of_nodup (nodup es left) (nodup fs right)).mpr members
  have asymm : ∀ a b : String × β, a ∈ es → b ∈ fs → a.1 < b.1 → b.1 < a.1 → a = b :=
    fun a b _ _ less more => absurd (String.lt_trans less more) (String.lt_irrefl _)
  exact perm.eq_of_pairwise asymm left right

theorem sorted_foldl_insert (pairs : List (String × β)) {es : Entries β} (sorted : Sorted es) :
    Sorted (pairs.foldl (fun es pair => insert pair.1 pair.2 es) es) := by
  induction pairs generalizing es with
  | nil => exact sorted
  | cons pair pairs ih => exact ih (sorted_insert sorted _ _)

theorem sorted_ofList (pairs : List (String × β)) : Sorted (ofList pairs) :=
  sorted_foldl_insert pairs List.Pairwise.nil

theorem insert_nil (key : String) (value : β) : insert key value [] = [(key, value)] := rfl

theorem insert_before {key name : String} (less : key < name) (value old : β) (es : Entries β) :
    insert key value ((name, old) :: es) = (key, value) :: (name, old) :: es := by
  rw [insert, if_pos less]

theorem insert_after {key name : String} (less : name < key) (value old : β) (es : Entries β) :
    insert key value ((name, old) :: es) = (name, old) :: insert key value es := by
  have notLess : ¬key < name := fun more => String.lt_irrefl _ (String.lt_trans less more)
  have notSame : key ≠ name := fun same => String.lt_irrefl _ (same ▸ less)
  rw [insert, if_neg notLess, if_neg notSame]

-- A name after all others goes to the end.
theorem insert_last {es : Entries β} {key : String} (value : β)
    (above : ∀ pair ∈ es, pair.1 < key) : insert key value es = es ++ [(key, value)] := by
  induction es with
  | nil => rfl
  | cons pair es ih =>
    obtain ⟨name, old⟩ := pair
    rw [insert_after (above _ List.mem_cons_self), List.cons_append,
      ih fun p member => above p (List.mem_cons_of_mem _ member)]

theorem foldl_insert_sorted {pairs : List (String × β)} {es : Entries β}
    (sorted : Sorted (es ++ pairs)) :
    pairs.foldl (fun es pair => insert pair.1 pair.2 es) es = es ++ pairs := by
  induction pairs generalizing es with
  | nil => exact (List.append_nil es).symm
  | cons pair pairs ih =>
    have above : ∀ p ∈ es, p.1 < pair.1 := fun p member =>
      (List.pairwise_append.mp sorted).2.2 p member pair List.mem_cons_self
    rw [List.foldl_cons, insert_last pair.2 above]
    rw [List.append_cons es pair pairs] at sorted ⊢
    exact ih sorted

theorem contains_insert (es : Entries β) (key name : String) (value : β) :
    contains (insert key value es) name = (decide (key = name) || contains es name) := by
  rw [contains, get?_insert]
  by_cases same : key = name <;> simp [same, contains]

theorem contains_foldl_insert (pairs : List (String × β)) (es : Entries β) (key : String) :
    contains (pairs.foldl (fun es pair => insert pair.1 pair.2 es) es) key
      = (contains es key || pairs.any fun pair => pair.1 = key) := by
  induction pairs generalizing es with
  | nil => simp
  | cons pair pairs ih =>
    rw [List.foldl_cons, ih, contains_insert, List.any_cons, ← Bool.or_assoc,
      Bool.or_comm (decide _)]

theorem contains_ofList (pairs : List (String × β)) (key : String) :
    contains (ofList pairs) key = pairs.any fun pair => pair.1 = key := by
  rw [ofList, contains_foldl_insert]
  rfl

theorem get?_foldl_own (value : String → β) (pairs : List (String × γ)) (es : Entries β)
    (key : String) :
    get? (pairs.foldl (fun es pair => insert pair.1 (value pair.1) es) es) key
      = if pairs.any (·.1 = key) then some (value key) else get? es key := by
  induction pairs generalizing es with
  | nil => rfl
  | cons pair pairs ih =>
    rw [List.foldl_cons, ih, get?_insert, List.any_cons]
    by_cases same : pair.1 = key
    · subst same
      simp
    · rw [if_neg same, decide_eq_false same, Bool.false_or]

-- Writing the values that a map ends up with in place of those that it is made from gives that map.
theorem foldl_settled (pairs : List (String × β)) (other : β) :
    pairs.foldl (fun es pair => insert pair.1 ((get? (ofList pairs) pair.1).getD other) es) []
      = ofList pairs := by
  have sorted := sorted_ofList
    (pairs.map fun pair => (pair.1, (get? (ofList pairs) pair.1).getD other))
  rw [ofList, List.foldl_map] at sorted
  refine ext sorted (sorted_ofList _) fun key => ?_
  rw [get?_foldl_own (fun key => (get? (ofList pairs) key).getD other)]
  have known := contains_ofList pairs key
  cases found : get? (ofList pairs) key with
  | none =>
    rw [contains, found] at known
    rw [← known]
    rfl
  | some value =>
    rw [contains, found] at known
    rw [← known]
    rfl

theorem get?_foldl_insert_other {pairs : List (String × β)} {key : String}
    (other : ∀ pair ∈ pairs, pair.1 ≠ key) (es : Entries β) :
    get? (pairs.foldl (fun es pair => insert pair.1 pair.2 es) es) key = get? es key := by
  induction pairs generalizing es with
  | nil => rfl
  | cons pair pairs ih =>
    rw [List.foldl_cons, ih fun p member => other p (List.mem_cons_of_mem _ member), get?_insert,
      if_neg (other pair List.mem_cons_self)]

theorem get?_ofList {pairs : List (String × β)} (distinct : (pairs.map Prod.fst).Nodup)
    {key : String} {value : β} (member : (key, value) ∈ pairs) :
    get? (ofList pairs) key = some value := by
  obtain ⟨before, after, rfl⟩ := List.append_of_mem member
  rw [List.map_append, List.map_cons] at distinct
  have later : ∀ pair ∈ after, pair.1 ≠ key := by
    intro pair there same
    have apart := (List.nodup_cons.mp (List.nodup_append.mp distinct).2.1).1
    exact apart (List.mem_map.mpr ⟨pair, there, same⟩)
  rw [ofList, List.foldl_append, List.foldl_cons, get?_foldl_insert_other later, get?_insert,
    if_pos rfl]

theorem mem_of_mem_foldl {pairs : List (String × β)} {es : Entries β} {pair : String × β}
    (member : pair ∈ pairs.foldl (fun es pair => insert pair.1 pair.2 es) es) :
    pair ∈ es ∨ pair ∈ pairs := by
  induction pairs generalizing es with
  | nil => exact .inl member
  | cons first pairs ih =>
    rcases ih member with before | later
    · rcases mem_insert before with rfl | old
      · exact .inr List.mem_cons_self
      · exact .inl old
    · exact .inr (List.mem_cons_of_mem _ later)

theorem mem_of_mem_ofList {pairs : List (String × β)} {pair : String × β}
    (member : pair ∈ ofList pairs) : pair ∈ pairs :=
  (mem_of_mem_foldl member).resolve_left List.not_mem_nil

theorem nodup_names {es : Entries β} (sorted : Sorted es) : es.names.Nodup := by
  apply List.pairwise_map.mpr
  refine sorted.imp fun {a b} less same => ?_
  rw [same] at less
  exact String.lt_irrefl _ less

theorem mem_names_ofList {pairs : List (String × β)} {name : String} :
    name ∈ (ofList pairs).names ↔ name ∈ pairs.map Prod.fst := by
  constructor
  · intro member
    obtain ⟨pair, there, rfl⟩ := List.mem_map.mp member
    exact List.mem_map_of_mem (mem_of_mem_ofList there)
  · intro member
    have known : contains (ofList pairs) name = true := by
      rw [contains_ofList]
      simpa using member
    obtain ⟨value, found⟩ := Option.isSome_iff_exists.mp known
    exact List.mem_map_of_mem (f := Prod.fst) (mem_of_get? found)

theorem names_ofList {pairs : List (String × β)} (distinct : (pairs.map Prod.fst).Nodup) :
    (ofList pairs).names.Perm (pairs.map Prod.fst) :=
  (List.perm_ext_iff_of_nodup (nodup_names (sorted_ofList pairs)) distinct).mpr
    fun _ => mem_names_ofList

-- No pair gets lost exactly if all have names of their own.
theorem length_ofList_iff (pairs : List (String × β)) :
    (ofList pairs).length = pairs.length ↔ (pairs.map Prod.fst).Nodup := by
  have perm : (ofList pairs).names.Perm (pairs.map Prod.fst).dedup := by
    apply (List.perm_ext_iff_of_nodup (nodup_names (sorted_ofList pairs)) (List.nodup_dedup _)).mpr
    intro name
    rw [mem_names_ofList, List.mem_dedup]
  have lengths : (ofList pairs).length = (pairs.map Prod.fst).dedup.length := by
    rw [← perm.length_eq, names, List.length_map]
  rw [lengths, ← List.dedup_eq_self]
  constructor
  · intro same
    apply (List.dedup_sublist _).eq_of_length
    rw [same, List.length_map]
  · intro same
    rw [same, List.length_map]

theorem getLast?_iff {es : Entries β} (sorted : Sorted es) {pair : String × β} :
    es.getLast? = some pair ↔ pair ∈ es ∧ ∀ other ∈ es, other.1 ≤ pair.1 := by
  have last {top : String × β} (ends : es.getLast? = some top) :
      top ∈ es ∧ ∀ other ∈ es, other.1 ≤ top.1 := by
    obtain ⟨front, rfl⟩ := List.getLast?_eq_some_iff.mp ends
    refine ⟨by simp, fun other member => ?_⟩
    rcases List.mem_append.mp member with before | here
    · have less := (List.pairwise_append.mp sorted).2.2 other before top List.mem_cons_self
      exact fun more => String.lt_irrefl _ (String.lt_trans less more)
    · obtain rfl := List.mem_singleton.mp here
      exact String.le_refl _
  refine ⟨last, fun ⟨member, top⟩ => ?_⟩
  cases ends : es.getLast? with
  | none =>
    rw [List.getLast?_eq_none_iff.mp ends] at member
    cases member
  | some found =>
    obtain ⟨there, above⟩ := last ends
    have names : found.1 = pair.1 := String.le_antisymm (top _ there) (above _ member)
    have values := (get?_of_mem sorted there).symm.trans (names ▸ get?_of_mem sorted member)
    exact congrArg some (Prod.ext names (Option.some.inj values))

/-! ### Changed values -/

-- The same names with other values.
def mapValues (f : β → γ) (es : Entries β) : Entries γ := es.map fun pair => (pair.1, f pair.2)

theorem mapValues_cons (f : β → γ) (pair : String × β) (es : Entries β) :
    mapValues f (pair :: es) = (pair.1, f pair.2) :: mapValues f es := rfl

theorem sorted_mapValues {es : Entries β} (sorted : Sorted es) (f : β → γ) :
    Sorted (mapValues f es) :=
  List.pairwise_map.mpr sorted

theorem mapValues_insert (f : β → γ) (key : String) (value : β) (es : Entries β) :
    mapValues f (insert key value es) = insert key (f value) (mapValues f es) := by
  induction es with
  | nil => rfl
  | cons pair es ih =>
    obtain ⟨name, old⟩ := pair
    rw [insert, mapValues_cons, insert]
    by_cases less : key < name
    · rw [if_pos less, if_pos less]
      rfl
    · by_cases same : key = name
      · rw [if_neg less, if_neg less, if_pos same, if_pos same]
        rfl
      · rw [if_neg less, if_neg less, if_neg same, if_neg same, ← ih]
        rfl

theorem mapValues_erase (f : β → γ) (key : String) (es : Entries β) :
    mapValues f (erase key es) = erase key (mapValues f es) := by
  induction es with
  | nil => rfl
  | cons pair es ih =>
    obtain ⟨name, old⟩ := pair
    rw [erase, mapValues_cons, erase]
    by_cases same : name = key
    · rw [if_pos same, if_pos same, ih]
    · rw [if_neg same, if_neg same, ← ih]
      rfl

theorem get?_mapValues (f : β → γ) (es : Entries β) (key : String) :
    get? (mapValues f es) key = (get? es key).map f := by
  induction es with
  | nil => rfl
  | cons pair es ih =>
    rw [mapValues_cons, get?_cons, get?_cons, ih]
    by_cases same : pair.1 = key
    · rw [if_pos same, if_pos same]
      rfl
    · rw [if_neg same, if_neg same]

theorem mapValues_mapValues (f : β → γ) (g : γ → δ) (es : Entries β) :
    mapValues g (mapValues f es) = mapValues (fun v => g (f v)) es := by
  rw [mapValues, mapValues, List.map_map]
  rfl

/-! ### Changes of one name -/

-- The entries with a value for one name, or without the name.
def change (es : Entries β) (key : String) : Option β → Entries β
  | some value => insert key value es
  | none => erase key es

theorem get?_change (es : Entries β) (key name : String) (value : Option β) :
    get? (change es key value) name = if key = name then value else get? es name := by
  cases value with
  | none => exact get?_erase es key name
  | some value => exact get?_insert es key name value

theorem get?_change_cases {es : Entries β} {key name : String} {value : Option β} {found : β}
    (there : get? (change es key value) name = some found) :
    (key = name ∧ value = some found) ∨ (key ≠ name ∧ get? es name = some found) := by
  rw [get?_change] at there
  by_cases same : key = name
  · rw [if_pos same] at there
    exact .inl ⟨same, there⟩
  · rw [if_neg same] at there
    exact .inr ⟨same, there⟩

theorem sorted_change {es : Entries β} (sorted : Sorted es) (key : String) (value : Option β) :
    Sorted (change es key value) := by
  cases value with
  | none => exact sorted_erase sorted key
  | some value => exact sorted_insert sorted key value

theorem mapValues_change (f : β → γ) (es : Entries β) (key : String) (value : Option β) :
    mapValues f (change es key value) = change (mapValues f es) key (value.map f) := by
  cases value with
  | none => exact mapValues_erase f key es
  | some value => exact mapValues_insert f key value es

-- Taking away what is not there changes nothing.
theorem change_absent {es : Entries β} {key : String} (absent : get? es key = none) :
    change es key none = es := by
  induction es with
  | nil => rfl
  | cons pair es ih =>
    rw [get?_cons] at absent
    by_cases same : pair.1 = key
    · rw [if_pos same] at absent
      cases absent
    · rw [if_neg same] at absent
      rw [change, erase, if_neg same]
      exact congrArg (pair :: ·) (ih absent)

-- What was added under a new name can be taken away again.
theorem erase_insert {es : Entries β} (sorted : Sorted es) {key : String} (value : β)
    (absent : get? es key = none) : erase key (insert key value es) = es := by
  apply ext (sorted_erase (sorted_insert sorted _ _) _) sorted
  intro name
  rw [get?_erase, get?_insert]
  by_cases same : key = name
  · rw [if_pos same, ← same, absent]
  · rw [if_neg same, if_neg same]

end Flowgate.Entries
