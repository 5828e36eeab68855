import Flowgate.Package.Catalog
import Flowgate.Proofs.Entries

/-!
The identities of a catalog: as long as modules of different names have different ones, each module
is found by its own, and the modules alone say what the index is.
-/

namespace Flowgate.Package.Catalog

variable {P : Schema → Prop} {c d : Catalog}

-- Schemas of the kind have the same identity only if they have the same name.
def Apart (P : Schema → Prop) : Prop :=
  ∀ s t, P s → P t → (s.id.text = t.id.text ↔ s.name = t.name)

-- Each module of the catalog is kept under its name and found by its identity.
structure Indexed (P : Schema → Prop) (c : Catalog) : Prop where
  named : ∀ name s, Entries.get? c.modules name = some s → s.name = name ∧ P s
  sorted : Entries.Sorted c.byId
  exact : ∀ key name, Entries.get? c.byId key = some name ↔
    ∃ s, Entries.get? c.modules name = some s ∧ s.id.text = key

theorem indexed_empty (P : Schema → Prop) : Indexed P empty where
  named _ _ there := by cases there
  sorted := .nil
  exact key name := by
    constructor
    · intro there
      cases there
    · rintro ⟨s, there, -⟩
      cases there

theorem indexed_insert {s : Schema} (apart : Apart P) (indexed : Indexed P c) (kind : P s) :
    Indexed P (c.insert s) := by
  have named : ∀ name t, Entries.get? (c.insert s).modules name = some t → t.name = name ∧ P t := by
    intro name t there
    rw [insert, Entries.get?_insert] at there
    by_cases same : s.name = name
    · rw [if_pos same] at there
      cases there
      exact ⟨same, kind⟩
    · rw [if_neg same] at there
      exact indexed.named name t there
  refine ⟨named, Entries.sorted_insert indexed.sorted _ _, fun key name => ?_⟩
  simp only [insert, Entries.get?_insert]
  by_cases same : s.name = name
  · subst same
    rw [if_pos rfl]
    by_cases own : s.id.text = key
    · simp [own]
    · rw [if_neg own, indexed.exact]
      constructor
      · rintro ⟨t, there, rfl⟩
        obtain ⟨alike, kind'⟩ := indexed.named _ t there
        exact absurd ((apart s t kind kind').mpr alike.symm) own
      · rintro ⟨t, there, found⟩
        cases there
        exact absurd found own
  · rw [if_neg same]
    by_cases own : s.id.text = key
    · rw [if_pos own]
      constructor
      · intro there
        exact absurd (Option.some.inj there) same
      · rintro ⟨t, there, found⟩
        obtain ⟨rfl, kind'⟩ := indexed.named name t there
        exact absurd ((apart s t kind kind').mp (own.trans found.symm)) same
    · rw [if_neg own, indexed.exact]

theorem indexed_erase (apart : Apart P) (indexed : Indexed P c) (name : String) :
    Indexed P (c.erase name) := by
  unfold erase
  split
  · exact indexed
  · rename_i s found
    obtain ⟨rfl, kind⟩ := indexed.named _ s found
    refine ⟨fun other t there => ?_, Entries.sorted_erase indexed.sorted _, fun key other => ?_⟩
    · rw [Entries.get?_erase] at there
      by_cases same : s.name = other
      · simp [same] at there
      · rw [if_neg same] at there
        exact indexed.named other t there
    · simp only [Entries.get?_erase]
      by_cases same : s.name = other
      · subst same
        rw [if_pos rfl]
        by_cases own : s.id.text = key
        · simp [own]
        · rw [if_neg own, indexed.exact, found]
          simp [own]
      · rw [if_neg same]
        by_cases own : s.id.text = key
        · rw [if_pos own]
          constructor
          · intro there
            cases there
          · rintro ⟨t, there, alike⟩
            obtain ⟨rfl, kind'⟩ := indexed.named other t there
            exact absurd ((apart s t kind kind').mp (own.trans alike.symm)) same
        · rw [if_neg own, indexed.exact]

theorem indexed_insertAll {schemas : List Schema} (apart : Apart P) (indexed : Indexed P c)
    (kind : ∀ s ∈ schemas, P s) : Indexed P (c.insertAll schemas) := by
  induction schemas generalizing c with
  | nil => exact indexed
  | cons s schemas ih =>
    exact ih (indexed_insert apart indexed (kind s List.mem_cons_self))
      fun t member => kind t (List.mem_cons_of_mem _ member)

-- The modules leave no choice for the index.
theorem Indexed.ext (left : Indexed P c) (right : Indexed P d) (same : c.modules = d.modules) :
    c = d := by
  have index : c.byId = d.byId := by
    refine Entries.ext left.sorted right.sorted fun key => Option.ext fun name => ?_
    rw [left.exact, right.exact, same]
  cases c
  cases d
  cases same
  cases index
  rfl

theorem insertAll_modules (c : Catalog) (schemas : List Schema) :
    (c.insertAll schemas).modules
      = (schemas.map fun s => (s.name, s)).foldl (fun es pair => Entries.insert pair.1 pair.2 es)
        c.modules := by
  induction schemas generalizing c with
  | nil => rfl
  | cons s schemas ih => exact ih (c.insert s)

theorem erase_absent {name : String} (absent : c.module? name = none) : c.erase name = c := by
  unfold module? at absent
  rw [erase, absent]

theorem erase_modules (c : Catalog) (name : String) :
    (c.erase name).modules = Entries.change c.modules name none := by
  unfold erase
  split
  · rename_i none
    exact (Entries.change_absent none).symm
  · rfl

/-! ### Keys -/

-- What the index has under an identity is a name with that identity.
def Keyed (c : Catalog) : Prop :=
  ∀ key name, Entries.get? c.byId key = some name → key = (Identity.module name).text

theorem keyed_empty : Keyed empty := fun _ _ there => by cases there

theorem keyed_insert (keyed : c.Keyed) {s : Schema} (own : s.id = .module s.name) :
    (c.insert s).Keyed := by
  intro key name there
  rw [insert, Entries.get?_insert] at there
  by_cases here : s.id.text = key
  · rw [if_pos here] at there
    cases there
    rw [← here, own]
  · rw [if_neg here] at there
    exact keyed key name there

theorem keyed_insertAll (keyed : c.Keyed) {schemas : List Schema}
    (own : ∀ s ∈ schemas, s.id = .module s.name) : (c.insertAll schemas).Keyed := by
  induction schemas generalizing c with
  | nil => exact keyed
  | cons s schemas ih =>
    exact ih (keyed_insert keyed (own s List.mem_cons_self))
      fun t member => own t (List.mem_cons_of_mem _ member)

theorem keyed_erase (keyed : c.Keyed) (name : String) : (c.erase name).Keyed := by
  unfold erase
  split
  · exact keyed
  · rename_i s found
    intro key other there
    rw [Entries.get?_erase] at there
    by_cases here : s.id.text = key
    · simp [here] at there
    · rw [if_neg here] at there
      exact keyed key other there

theorem module?_insert (c : Catalog) (s : Schema) (name : String) :
    (c.insert s).module? name = if s.name = name then some s else c.module? name :=
  Entries.get?_insert _ _ _ _

theorem module?_erase (c : Catalog) (gone name : String) :
    (c.erase gone).module? name = if gone = name then none else c.module? name := by
  simp only [module?, erase_modules, Entries.get?_change]

-- An identity leads where it did if the index has the same name for it, and the name its module.
theorem find?_congr {id : Identity} (index : Entries.get? d.byId id.text = Entries.get? c.byId id.text)
    (modules : ∀ name, Entries.get? c.byId id.text = some name → d.module? name = c.module? name) :
    d.find? id = c.find? id := by
  rw [find?, find?, index]
  cases known : Entries.get? c.byId id.text with
  | none => rfl
  | some name => exact modules name known

-- A module of another identity keeps its controllers.
theorem controller_insert (keyed : c.Keyed) {s : Schema} (own : s.id = .module s.name)
    {other : String} (apart : Identity.module other ≠ Identity.module s.name) (node : String) :
    (c.insert s).controller other node = c.controller other node := by
  have keys : s.id.text ≠ (Identity.module other).text := by
    rw [own]
    exact fun same => apart (congrArg Identity.mk same).symm
  have found : (c.insert s).find? (.module other) = c.find? (.module other) := by
    apply find?_congr
    · rw [insert, Entries.get?_insert, if_neg keys]
    · intro name known
      have named : s.name ≠ name := by
        rintro rfl
        exact keys ((congrArg Identity.text own).trans (keyed _ _ known).symm)
      rw [module?_insert, if_neg named]
  rw [controller, controller, found]

end Flowgate.Package.Catalog
