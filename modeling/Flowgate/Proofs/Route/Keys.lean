import Flowgate.Proofs.Entries
import Flowgate.Route.Duplicate
import Mathlib.Data.List.Count
import Mathlib.Data.List.Nodup

/-!
Duplicate keys: the report has exactly the keys that occur more than once, each with its count, so
keys are accepted exactly when none occurs twice.
-/

namespace Flowgate.Route

theorem get?_foldl_count (keys : List String) (counts : Entries Nat) (key : String) :
    Entries.get? (keys.foldl (fun counts key =>
        Entries.insert key ((Entries.get? counts key).getD 0 + 1) counts) counts) key
      = if keys.count key = 0 then Entries.get? counts key
        else some ((Entries.get? counts key).getD 0 + keys.count key) := by
  induction keys generalizing counts with
  | nil => rfl
  | cons first keys ih =>
    rw [List.foldl_cons, ih, Entries.get?_insert]
    by_cases same : first = key
    · subst same
      rw [List.count_cons_self]
      by_cases absent : keys.count first = 0
      · simp [absent]
      · simp [absent]; omega
    · rw [List.count_cons_of_ne same, if_neg same]

theorem get?_frequency (keys : List String) (key : String) :
    Entries.get? (frequency keys) key
      = if keys.count key = 0 then none else some (keys.count key) := by
  rw [frequency, get?_foldl_count]
  simp [Entries.get?]

theorem sorted_frequency (keys : List String) : Entries.Sorted (frequency keys) := by
  unfold frequency
  generalize start : ([] : Entries Nat) = counts
  have sorted : Entries.Sorted counts := by subst start; exact List.Pairwise.nil
  clear start
  induction keys generalizing counts with
  | nil => exact sorted
  | cons key keys ih => exact ih _ (Entries.sorted_insert sorted _ _)

-- How often the keys occur is all that counts.
theorem frequency_perm {keys keys' : List String} (perm : keys.Perm keys') :
    frequency keys = frequency keys' := by
  refine Entries.ext (sorted_frequency keys) (sorted_frequency keys') fun key => ?_
  rw [get?_frequency, get?_frequency, perm.count_eq]

theorem ensureUnique_perm {keys keys' : List String} (perm : keys.Perm keys') :
    ensureUnique keys = ensureUnique keys' := by
  rw [ensureUnique, ensureUnique, duplicates, duplicates, frequency_perm perm]

theorem sorted_duplicates (keys : List String) : Entries.Sorted (duplicates keys) :=
  (sorted_frequency keys).filter _

theorem mem_duplicates (keys : List String) (key : String) (count : Nat) :
    (key, count) ∈ duplicates keys ↔ count = keys.count key ∧ 2 ≤ count := by
  rw [duplicates, List.mem_filter, ← Entries.get?_eq_some_iff (sorted_frequency keys),
    get?_frequency]
  constructor
  · rintro ⟨found, many⟩
    have bound : 1 < count := of_decide_eq_true many
    by_cases absent : keys.count key = 0
    · rw [if_pos absent] at found; cases found
    · rw [if_neg absent] at found; cases found; exact ⟨rfl, bound⟩
  · rintro ⟨rfl, bound⟩
    have present : keys.count key ≠ 0 := by omega
    exact ⟨if_neg present, decide_eq_true bound⟩

theorem duplicates_eq_nil_iff (keys : List String) : duplicates keys = [] ↔ keys.Nodup := by
  rw [List.nodup_iff_count_le_one, List.eq_nil_iff_forall_not_mem]
  constructor
  · intro none key
    have notThere := none (key, keys.count key)
    rw [mem_duplicates] at notThere
    omega
  · rintro once ⟨key, count⟩ member
    obtain ⟨rfl, many⟩ := (mem_duplicates keys key count).mp member
    have := once key
    omega

theorem ensureUnique_of_nodup {keys : List String} (nodup : keys.Nodup) :
    ensureUnique keys = .ok () := by
  rw [ensureUnique, (duplicates_eq_nil_iff keys).mpr nodup]
  rfl

theorem ensureUnique_of_not_nodup {keys : List String} (twice : ¬keys.Nodup) :
    ensureUnique keys = .error (.conflict (duplicates keys)) := by
  have some : duplicates keys ≠ [] := fun none => twice ((duplicates_eq_nil_iff keys).mp none)
  rw [ensureUnique, if_neg (by simpa using some)]

theorem nodup_of_ensureUnique {keys : List String} (unique : ensureUnique keys = .ok ()) :
    keys.Nodup := by
  by_contra twice
  rw [ensureUnique_of_not_nodup twice] at unique
  cases unique

end Flowgate.Route
