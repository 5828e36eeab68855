import Flowgate.Json.Shape
import Flowgate.Proofs.Entries
import Mathlib.Data.List.Nodup

/-!
Records in memory. An object whose names are distinct fits a record when each field is given a value
of its shape, or may be missing; and every field then has what was given for it, in that form.
-/

namespace Flowgate.Json

-- What a shape makes of a value that may be missing.
def Shape.fitGiven (shape : Shape) : Option Value → Option (Option Value)
  | none => some none
  | some v => (shape.fit v).map some

-- A field with one name, that may be missing.
structure Field.Free (f : Field Shape) : Prop where
  plain : f.aliases = []
  free : f.required = false

theorem Field.free_defaulted (name : String) (shape : Shape) : (defaulted name shape).Free :=
  ⟨rfl, rfl⟩

section

variable {given found : Entries Value} {fields : List (Field Shape)}

theorem filter_answers (distinct : given.names.Nodup) {f : Field Shape} (plain : f.aliases = []) :
    (given.filter fun pair => f.answers pair.1)
      = ((Entries.get? given f.name).map (f.name, ·)).toList := by
  have answers (name : String) : f.answers name = true ↔ f.name = name := by
    simp [Field.answers, plain]
  induction given with
  | nil => rfl
  | cons pair given ih =>
    obtain ⟨name, v⟩ := pair
    obtain ⟨new, rest⟩ := List.nodup_cons.mp distinct
    rw [Entries.get?_cons]
    by_cases here : f.name = name
    · subst here
      have others : (given.filter fun pair => f.answers pair.1) = [] := by
        refine List.filter_eq_nil_iff.mpr fun pair member answered => new ?_
        exact List.mem_map.mpr ⟨pair, member, ((answers pair.1).mp answered).symm⟩
      rw [List.filter_cons, if_pos ((answers f.name).mpr rfl), others, if_pos rfl]
      rfl
    · rw [List.filter_cons, if_neg (mt (answers name).mp here), ih rest, if_neg (Ne.symm here)]

-- One field after the others: it is left out, or put in, or the object does not fit.
theorem fitFields_cons (distinct : given.names.Nodup) {f : Field Shape} (free : f.Free) :
    Shape.fitFields (f :: fields) given = (Shape.fitFields fields given).bind fun others =>
      (f.shape.fitGiven (Entries.get? given f.name)).map fun v? =>
        v?.elim others fun v => Entries.insert f.name v others := by
  rw [Shape.fitFields]
  refine congrArg (Option.bind (Shape.fitFields fields given)) (funext fun others => ?_)
  rw [filter_answers distinct free.plain]
  cases Entries.get? given f.name with
  | none => simp [Shape.fitGiven, free.free]
  | some v => cases fitted : f.shape.fit v <;> simp [Shape.fitGiven, fitted]

theorem fitFields_iff (distinct : given.names.Nodup) (frees : ∀ f ∈ fields, f.Free) :
    (∃ found, Shape.fitFields fields given = some found) ↔
      ∀ f ∈ fields, ∃ v?, f.shape.fitGiven (Entries.get? given f.name) = some v? := by
  induction fields with
  | nil => simp [Shape.fitFields]
  | cons f fields ih =>
    rw [fitFields_cons distinct (frees f List.mem_cons_self), List.forall_mem_cons,
      ← ih fun g member => frees g (List.mem_cons_of_mem _ member)]
    cases Shape.fitFields fields given with
    | none => simp
    | some others => cases f.shape.fitGiven (Entries.get? given f.name) <;> simp

theorem get?_fitFields (distinct : given.names.Nodup) (frees : ∀ f ∈ fields, f.Free)
    (apart : (fields.map Field.name).Nodup) (fits : Shape.fitFields fields given = some found) :
    (∀ f ∈ fields, f.shape.fitGiven (Entries.get? given f.name)
      = some (Entries.get? found f.name)) ∧
    ∀ name ∉ fields.map Field.name, Entries.get? found name = none := by
  induction fields generalizing found with
  | nil =>
    cases fits
    exact ⟨by simp, fun name _ => rfl⟩
  | cons f fields ih =>
    obtain ⟨new, apart⟩ := List.nodup_cons.mp apart
    rw [fitFields_cons distinct (frees f List.mem_cons_self)] at fits
    obtain ⟨others, rest, put⟩ := Option.bind_eq_some_iff.mp fits
    obtain ⟨v?, here, rfl⟩ := Option.map_eq_some_iff.mp put
    obtain ⟨known, unknown⟩ :=
      ih (fun g member => frees g (List.mem_cons_of_mem _ member)) apart rest
    have own :
        Entries.get? (v?.elim others fun v => Entries.insert f.name v others) f.name = v? := by
      cases v? with
      | none => exact unknown f.name new
      | some v => exact (Entries.get?_insert others _ _ v).trans (if_pos rfl)
    have other {name : String} (apart : f.name ≠ name) :
        Entries.get? (v?.elim others fun v => Entries.insert f.name v others) name
          = Entries.get? others name := by
      cases v? with
      | none => rfl
      | some v => exact (Entries.get?_insert others _ _ v).trans (if_neg apart)
    refine ⟨fun g member => ?_, fun name absent => ?_⟩
    · rcases List.mem_cons.mp member with rfl | there
      · rw [own]
        exact here
      · have apart' : f.name ≠ g.name := fun same => new (same ▸ List.mem_map_of_mem there)
        rw [other apart']
        exact known g there
    · rw [List.map_cons, List.mem_cons, not_or] at absent
      rw [other (Ne.symm absent.1)]
      exact unknown name absent.2

end

end Flowgate.Json
