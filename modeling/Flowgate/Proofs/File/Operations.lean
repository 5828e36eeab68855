import Flowgate.Proofs.File.Lookup
import Flowgate.Proofs.File.Steps

/-!
Operations on a tree: making directories adds them on the way to one, where nothing was; writing
sets one place, and renaming sets the target and takes the source away. Nothing else changes, and what was a directory
stays one.
-/

namespace Flowgate.File.Tree

/-! ### Making directories -/

-- Only directories were added, where nothing was.
def Grown (t t' : Tree) : Prop :=
  ∀ p, t'.at? p = t.at? p ∨ (t.at? p = none ∧ t'.at? p = some .directory)

theorem Grown.at?_some {t t' : Tree} (grown : t.Grown t') {p : Place} {node : Node}
    (there : t.at? p = some node) : t'.at? p = some node := by
  rcases grown p with same | ⟨none, -⟩
  · rw [same]
    exact there
  · rw [there] at none
    cases none

theorem Grown.keeps {t t' : Tree} (grown : t.Grown t') : t.Keeps t' :=
  fun p solid => grown.at?_some (solid p (List.prefix_refl p))

theorem Grown.find {t t' : Tree} (grown : t.Grown t') {path : String} {node : Node}
    (found : t.find path = .ok node) : t'.find path = .ok node := by
  obtain ⟨place, located, there⟩ := find_eq_ok_iff.mp found
  exact find_eq_ok_iff.mpr ⟨place, grown.keeps.locate located, grown.at?_some there⟩

theorem ne_nil_of_at? {t : Tree} {p : Place} (other : t.at? p ≠ some .directory) : p ≠ [] := by
  rintro rfl
  exact other t.at?_root

theorem grown_set_directory {t : Tree} {p : Place} (none : t.at? p = none) :
    t.Grown (t.set p .directory) := by
  intro q
  rw [at?_set t (ne_nil_of_at? (by rw [none]; simp)) _ q]
  by_cases here : q = p
  · subst here
    rw [if_pos rfl]
    exact .inr ⟨none, rfl⟩
  · rw [if_neg here]
    exact .inl rfl

-- The tree has grown by directories that the steps lead to, all or the first ones of them.
def GrownAlong (steps : List String) (t t' : Tree) : Prop :=
  ∀ p, t'.at? p = t.at? p ∨
    (t.at? p = none ∧ t'.at? p = some .directory ∧
      ∃ front, front <+: steps ∧ t'.walk [] front = .ok p)

theorem GrownAlong.refl (steps : List String) (t : Tree) : t.GrownAlong steps t := fun _ => .inl rfl

theorem GrownAlong.grown {steps : List String} {t t' : Tree} (along : t.GrownAlong steps t') :
    t.Grown t' :=
  fun p => (along p).imp_right fun ⟨absent, made, _⟩ => ⟨absent, made⟩

theorem GrownAlong.trans {steps : List String} {t t' t'' : Tree} (first : t.GrownAlong steps t')
    (second : t'.GrownAlong steps t'') : t.GrownAlong steps t'' := by
  intro p
  rcases second p with same | ⟨none, made, way⟩
  · rw [same]
    refine (first p).imp_right ?_
    rintro ⟨none, made, front, leads, walked⟩
    exact ⟨none, made, front, leads, second.grown.keeps.walk t'.reached_root walked⟩
  · rcases first p with same | ⟨_, made', _⟩
    · exact .inr ⟨same ▸ none, made, way⟩
    · rw [made'] at none
      cases none

theorem GrownAlong.mono {steps more : List String} {t t' : Tree} (along : t.GrownAlong steps t')
    (leads : steps <+: more) : t.GrownAlong more t' :=
  fun p => (along p).imp_right fun ⟨absent, made, front, under, walked⟩ =>
    ⟨absent, made, front, under.trans leads, walked⟩

theorem along_makeDirectory {t t' : Tree} {path : String}
    (done : t.makeDirectory path = .ok t') : t.GrownAlong (core (steps path)) t' := by
  unfold makeDirectory at done
  cases checked : checkPath path with
  | error fault => rw [checked] at done; cases done
  | ok checked' =>
    rw [checked] at done
    simp only [bind, Except.bind] at done
    split at done
    · cases done
    · rename_i place walked
      split at done
      · cases done
      · rename_i none
        cases done
        have grown := grown_set_directory none
        intro p
        by_cases here : p = place
        · subst here
          have core := walk_core walked
          rw [core_dropEmpty] at core
          refine .inr ⟨none, ?_, _, List.prefix_refl _, grown.keeps.walk t.reached_root core⟩
          rw [at?_set t (ne_nil_of_at? (by rw [none]; simp)), if_pos rfl]
        · refine .inl ?_
          rw [at?_set t (ne_nil_of_at? (by rw [none]; simp)), if_neg here]

theorem along_settled {t : Tree} (path : String) {steps : List String}
    {made : Except Fault Tree} (along : ∀ t', made = .ok t' → t.GrownAlong steps t') :
    t.GrownAlong steps (makeAfter.settled path t made).2 := by
  unfold makeAfter.settled
  split
  · exact along _ rfl
  · split
    · exact .refl _ t
    · exact .refl _ t

theorem along_makeAfter {lead : Tree → Except Fault Unit × Tree} {steps : List String}
    (leads : ∀ t : Tree, t.GrownAlong steps (lead t).2) (t : Tree) {path : String}
    (under : core (File.steps path) <+: steps) : t.GrownAlong steps (makeAfter lead t path).2 := by
  unfold makeAfter
  split
  · exact (along_makeDirectory ‹_›).mono under
  · have first := leads t
    split
    · rename_i result
      rw [result] at first
      exact first
    · rename_i result
      rw [result] at first
      exact first.trans (along_settled path fun _ made => (along_makeDirectory made).mono under)
  · refine along_settled path fun _ made => ?_
    cases made

-- The paths that are made on the way are those of the first components.
theorem along_makeAll {path : String} (above : List String) (leads : above.reverse <+: components path)
    (t : Tree) : t.GrownAlong (core (steps path)) (makeAll above t).2 := by
  induction above generalizing t with
  | nil => exact .refl _ t
  | cons last above ih =>
    have front : above.reverse <+: components path := by
      rw [List.reverse_cons] at leads
      exact (List.prefix_append _ _).trans leads
    exact along_makeAfter (ih front) t (core_spell_leads leads)

theorem along_makeDirectories (t : Tree) (path : String) :
    t.GrownAlong (core (steps path)) (t.makeDirectories path).2 := by
  unfold makeDirectories
  split
  · exact .refl _ t
  · refine along_makeAfter (fun t => along_makeAll _ ?_ t) t (List.prefix_refl _)
    rw [List.reverse_reverse]
    exact List.dropLast_prefix _

/-! ### Writing -/

-- The places that are not directories have no say in what is passed.
theorem keeps_set {t : Tree} {place : Place} (other : t.at? place ≠ some .directory) (node : Node) :
    t.Keeps (t.set place node) := by
  intro p solid
  have here := solid p (List.prefix_refl p)
  rw [at?_set t (ne_nil_of_at? other), if_neg]
  · exact here
  · rintro rfl
    exact other here

theorem write_ok {t t' : Tree} {path content : String} (done : t.write path content = .ok t') :
    ∃ place, t.locate path = .ok place ∧ t.at? place ≠ some .directory ∧
      t' = t.set place (.text content) := by
  unfold write at done
  cases located : t.locate path with
  | error fault => rw [located] at done; cases done
  | ok place =>
    rw [located] at done
    simp only [bind, Except.bind] at done
    split at done
    · cases done
    · rename_i other
      cases done
      exact ⟨place, rfl, other, rfl⟩

theorem find_write {t t' : Tree} {path content : String}
    (done : t.write path content = .ok t') : t'.find path = .ok (.text content) := by
  obtain ⟨place, located, other, rfl⟩ := write_ok done
  refine find_eq_ok_iff.mpr ⟨place, (keeps_set other _).locate located, ?_⟩
  rw [at?_set t (ne_nil_of_at? other), if_pos rfl]

theorem rename_ok {t t' : Tree} {source target : String}
    (done : t.rename source target = .ok t') :
    ∃ content place goal, t.locate source = .ok place ∧ t.at? place = some (.text content) ∧
      t.locate target = .ok goal ∧ t.at? goal ≠ some .directory ∧
      t' = (t.prune place).set goal (.text content) := by
  unfold rename at done
  cases reads : t.read source with
  | error fault => rw [reads] at done; cases done
  | ok content =>
    obtain ⟨place, located, there⟩ := find_eq_ok_iff.mp (read_eq_ok_iff.mp reads)
    rw [reads, located] at done
    simp only [bind, Except.bind] at done
    split at done
    · cases done
    · rename_i goal located'
      split at done
      · cases done
      · rename_i other
        cases done
        exact ⟨content, place, goal, located, there, located', other, rfl⟩

-- A directory below a file is never passed, so taking the file away breaks no walk.
theorem keeps_rename {t : Tree} {place goal : Place} {content : String}
    (there : t.at? place = some (.text content)) (other : t.at? goal ≠ some .directory)
    (node : Node) : t.Keeps ((t.prune place).set goal node) := by
  intro p solid
  have here := solid p (List.prefix_refl p)
  have file : place ≠ [] := ne_nil_of_at? (by rw [there]; simp)
  rw [at?_set _ (ne_nil_of_at? other), if_neg, at?_prune t file, if_neg]
  · exact here
  · intro under
    rw [solid place under] at there
    cases there
  · rintro rfl
    exact other here

theorem find_rename {t t' : Tree} {source target : String}
    (done : t.rename source target = .ok t') : t'.find target = t.find source := by
  obtain ⟨content, place, goal, located, there, located', other, rfl⟩ := rename_ok done
  rw [find_eq_ok_iff.mpr ⟨place, located, there⟩]
  refine find_eq_ok_iff.mpr ⟨goal, (keeps_rename there other _).locate located', ?_⟩
  rw [at?_set _ (ne_nil_of_at? other), if_pos rfl]

end Flowgate.File.Tree
