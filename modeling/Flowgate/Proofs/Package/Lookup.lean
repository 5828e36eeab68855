import Flowgate.Proofs.Package.Indexing

/-!
Lookups in the catalogs that a registry can hold: unless the digests of two names collide, the
identity of a name finds the module that is kept under the name. So the controllers of a package
depend on nothing but the module of that package.
-/

namespace Flowgate.Package

-- No two of the names have the same identity.
def Identity.Distinct (names : String → Prop) : Prop :=
  ∀ a b, names a → names b → Identity.module a = Identity.module b → a = b

namespace Catalog

variable {names : String → Prop} {c d : Catalog} {p : String}

-- The catalogs that come of recording and removing modules of the names, in any order.
inductive Recorded (names : String → Prop) : Catalog → Prop
  | empty : Recorded names .empty
  | insert {c : Catalog} {s : Schema} (recorded : Recorded names c) (own : s.id = .module s.name)
      (among : names s.name) : Recorded names (c.insert s)
  | erase {c : Catalog} (recorded : Recorded names c) (name : String) :
      Recorded names (c.erase name)

theorem Recorded.insertAll (recorded : Recorded names c) {schemas : List Schema}
    (own : ∀ s ∈ schemas, s.id = .module s.name) (among : ∀ s ∈ schemas, names s.name) :
    Recorded names (c.insertAll schemas) := by
  induction schemas generalizing c with
  | nil => exact recorded
  | cons s schemas ih =>
    apply ih (recorded.insert (own s List.mem_cons_self) (among s List.mem_cons_self))
    · exact fun t member => own t (List.mem_cons_of_mem _ member)
    · exact fun t member => among t (List.mem_cons_of_mem _ member)

-- The schemas of modules of the names.
def Among (names : String → Prop) (s : Schema) : Prop := s.id = .module s.name ∧ names s.name

theorem apart_among (distinct : Identity.Distinct names) : Apart (Among names) := by
  rintro s t ⟨own, known⟩ ⟨own', known'⟩
  constructor
  · intro same
    apply distinct _ _ known known'
    rw [← own, ← own']
    exact congrArg Identity.mk same
  · intro same
    rw [own, own', same]

theorem Recorded.indexed (distinct : Identity.Distinct names) (recorded : Recorded names c) :
    c.Indexed (Among names) := by
  induction recorded with
  | empty => exact indexed_empty _
  | insert _ own among ih => exact indexed_insert (apart_among distinct) ih ⟨own, among⟩
  | erase _ name ih => exact indexed_erase (apart_among distinct) ih name

theorem find?_module (distinct : Identity.Distinct names) (recorded : Recorded names c)
    {name : String} (known : names name) : c.find? (.module name) = c.module? name := by
  have indexed := recorded.indexed distinct
  have held {other : String} {s : Schema} (there : c.module? other = some s) :
      s.id = .module other ∧ names other := by
    obtain ⟨rfl, own, among⟩ := indexed.named other s there
    exact ⟨own, among⟩
  unfold find?
  cases listed : Entries.get? c.byId (Identity.module name).text with
  | none =>
    cases there : c.module? name with
    | none => rfl
    | some s =>
      have own := congrArg Identity.text (held there).1
      have key := (indexed.exact _ name).mpr ⟨s, there, own⟩
      simp [key] at listed
  | some other =>
    obtain ⟨s, there, found⟩ := (indexed.exact _ other).mp listed
    obtain ⟨own, known'⟩ := held there
    have same : Identity.module other = Identity.module name :=
      own.symm.trans (congrArg Identity.mk found)
    obtain rfl := distinct other name known' known same
    rfl

/-! ### Agreement -/

-- The catalogs have the same modules but for one package, which only one of them may have, or each
-- in its own version.
def AgreeExcept (p : String) (c d : Catalog) : Prop :=
  ∀ name, name ≠ p → c.module? name = d.module? name

theorem agreeExcept_insert (c : Catalog) (s : Schema) : AgreeExcept s.name c (c.insert s) := by
  intro name other
  simp [module?_insert, other.symm]

theorem controller_of_agree (distinct : Identity.Distinct names) (left : Recorded names c)
    (right : Recorded names d) (agree : AgreeExcept p c d) {name : String} (known : names name)
    (other : name ≠ p) (node : String) : c.controller name node = d.controller name node := by
  simp only [controller, find?_module distinct left known, find?_module distinct right known,
    agree name other]

end Catalog

end Flowgate.Package
