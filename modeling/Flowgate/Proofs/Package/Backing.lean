import Flowgate.Proofs.Package.History

/-!
The two maps of a catalog, whether identities collide or not: what the index leads to is there, and a
module is kept under its name. So a module whose identity no other one has can be taken out without a
trace.
-/

namespace Flowgate.Package

namespace Catalog

variable {names : String → Prop} {c : Catalog} {name : String}

-- What the names and the identities of a catalog say about each other even where identities collide.
structure Backed (c : Catalog) : Prop where
  keyed : c.Keyed
  own : ∀ name s, c.module? name = some s → s.name = name ∧ s.id = .module name
  held : ∀ key name, Entries.get? c.byId key = some name → c.Holds name
  modules : Entries.Sorted c.modules
  byId : Entries.Sorted c.byId

theorem backed_empty : Backed empty :=
  ⟨keyed_empty, fun _ _ there => (by cases there), fun _ _ there => (by cases there), .nil, .nil⟩

theorem Backed.insert (backed : c.Backed) {s : Schema} (own : s.id = .module s.name) :
    (c.insert s).Backed where
  keyed := keyed_insert backed.keyed own
  own name t there := by
    rw [module?_insert] at there
    by_cases same : s.name = name
    · rw [if_pos same] at there
      cases there
      exact ⟨same, same ▸ own⟩
    · rw [if_neg same] at there
      exact backed.own name t there
  held key name there := by
    have kept (held : c.Holds name) : (c.insert s).Holds name := by
      obtain ⟨t, found⟩ := held
      unfold Holds
      rw [module?_insert]
      split
      · exact ⟨s, rfl⟩
      · exact ⟨t, found⟩
    rw [Catalog.insert, Entries.get?_insert] at there
    by_cases here : s.id.text = key
    · rw [if_pos here] at there
      cases there
      exact ⟨s, by rw [module?_insert, if_pos rfl]⟩
    · rw [if_neg here] at there
      exact kept (backed.held key name there)
  modules := Entries.sorted_insert backed.modules _ _
  byId := Entries.sorted_insert backed.byId _ _

theorem erase_held {s : Schema} (there : c.module? name = some s) :
    c.erase name =
      { modules := Entries.erase name c.modules, byId := Entries.erase s.id.text c.byId } := by
  unfold module? at there
  rw [erase, there]

-- An identity that is left in the index is not that of the module that was removed.
theorem Backed.byId_erase (backed : c.Backed) {key other : String}
    (there : Entries.get? (c.erase name).byId key = some other) :
    Entries.get? c.byId key = some other ∧ other ≠ name := by
  cases found : c.module? name with
  | none =>
    rw [erase_absent found] at there
    refine ⟨there, ?_⟩
    rintro rfl
    obtain ⟨s, held⟩ := backed.held key other there
    rw [found] at held
    cases held
  | some s =>
    obtain ⟨rfl, own⟩ := backed.own name s found
    rw [erase_held found, Entries.get?_erase] at there
    by_cases here : s.id.text = key
    · rw [if_pos here] at there
      cases there
    · rw [if_neg here] at there
      refine ⟨there, ?_⟩
      rintro rfl
      exact here ((congrArg Identity.text own).trans (backed.keyed key s.name there).symm)

theorem Backed.erase (backed : c.Backed) (name : String) : (c.erase name).Backed where
  keyed := keyed_erase backed.keyed name
  own other t there := by
    rw [module?_erase] at there
    split at there
    · cases there
    · exact backed.own other t there
  held key other there := by
    obtain ⟨before, apart⟩ := backed.byId_erase there
    obtain ⟨t, found⟩ := backed.held key other before
    exact ⟨t, by rw [module?_erase, if_neg apart.symm, found]⟩
  modules := by
    rw [erase_modules]
    exact Entries.sorted_change backed.modules _ _
  byId := by
    cases found : c.module? name with
    | none =>
      rw [erase_absent found]
      exact backed.byId
    | some s =>
      rw [erase_held found]
      exact Entries.sorted_erase backed.byId _

theorem Recorded.backed (recorded : c.Recorded names) : c.Backed := by
  induction recorded with
  | empty => exact backed_empty
  | insert _ own _ ih => exact ih.insert own
  | erase _ name ih => exact ih.erase name

-- No other module of the catalog has the identity of the name.
def Free (c : Catalog) (name : String) : Prop :=
  ∀ other, c.Holds other → Identity.module other = Identity.module name → other = name

-- The index has nothing under the identity of a name that is not in the catalog.
theorem Backed.byId_absent (backed : c.Backed) (free : c.Free name)
    (absent : c.module? name = none) : Entries.get? c.byId (Identity.module name).text = none := by
  cases found : Entries.get? c.byId (Identity.module name).text with
  | none => rfl
  | some other =>
    have held := backed.held _ other found
    have same : Identity.module name = Identity.module other :=
      congrArg Identity.mk (backed.keyed _ other found)
    obtain rfl := free other held same.symm
    obtain ⟨s, there⟩ := held
    rw [absent] at there
    cases there

theorem Backed.controller_absent (backed : c.Backed) (free : c.Free name)
    (absent : c.module? name = none) (node : String) : c.controller name node = .noop := by
  have none : c.find? (.module name) = none := by
    rw [find?, backed.byId_absent free absent]
    rfl
  rw [controller, none]

theorem Free.erase (free : c.Free name) (gone : String) : (c.erase gone).Free name := by
  rintro other ⟨s, there⟩ same
  rw [module?_erase] at there
  split at there
  · cases there
  · exact free other ⟨s, there⟩ same

-- Another identity leads where it did.
theorem Backed.find?_erase (backed : c.Backed) {other : String}
    (apart : Identity.module other ≠ Identity.module name) :
    (c.erase name).find? (.module other) = c.find? (.module other) := by
  cases found : c.module? name with
  | none => rw [erase_absent found]
  | some s =>
    obtain ⟨rfl, own⟩ := backed.own name s found
    have key : s.id.text ≠ (Identity.module other).text := by
      rw [own]
      exact fun same => apart (congrArg Identity.mk same).symm
    apply find?_congr
    · rw [erase_held found, Entries.get?_erase, if_neg key]
    · intro name' listed
      have differ : s.name ≠ name' := by
        rintro rfl
        exact key ((congrArg Identity.text own).trans (backed.keyed _ _ listed).symm)
      rw [module?_erase, if_neg differ]

-- What was recorded under a new name and its identity can be taken out again.
theorem Backed.erase_insert (backed : c.Backed) {s : Schema} (own : s.id = .module s.name)
    (free : c.Free s.name) (absent : c.module? s.name = none) : (c.insert s).erase s.name = c := by
  have there : (c.insert s).module? s.name = some s := by
    rw [module?_insert, if_pos rfl]
  have unlisted : Entries.get? c.byId s.id.text = none := by
    rw [own]
    exact backed.byId_absent free absent
  rw [erase_held there, Catalog.insert, Entries.erase_insert backed.modules s absent,
    Entries.erase_insert backed.byId s.name unlisted]

end Catalog

end Flowgate.Package
