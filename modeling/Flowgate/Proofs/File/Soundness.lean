import Flowgate.Proofs.File.Regions

/-!
Sound trees stay sound: what an operation adds lies in directories, and what it takes away it takes
with all that lies below. So what is at a place decides what is found along a path that leads there.
-/

namespace Flowgate.File.Tree

variable {t t' : Tree} {place : Place}

theorem sound_set (sound : t.Sound) (reached : t.Reached place)
    (other : t.at? place ≠ some .directory) (node : Node) : (t.set place node).Sound := by
  intro p held there q under apart
  have below : place ≠ [] := ne_nil_of_at? other
  rw [at?_set t below] at there ⊢
  by_cases here : p = place
  · subst here
    rw [if_neg apart]
    exact reached q under apart
  · rw [if_neg here] at there
    have above := sound p held there q under apart
    rw [if_neg]
    · exact above
    · rintro rfl
      exact other above

theorem GrownAlong.sound {steps : List String} (along : t.GrownAlong steps t') (sound : t.Sound) :
    t'.Sound := by
  intro p node there
  rcases along p with same | ⟨-, -, front, -, walked⟩
  · rw [same] at there
    intro q under apart
    exact along.grown.at?_some (sound p node there q under apart)
  · exact walk_reached t'.reached_root walked

theorem sound_makeDirectories (sound : t.Sound) (path : String) : (t.makeDirectories path).2.Sound :=
  (along_makeDirectories t path).sound sound

theorem sound_write {path content : String} (sound : t.Sound) (done : t.write path content = .ok t') :
    t'.Sound := by
  obtain ⟨place, located, other, rfl⟩ := write_ok done
  exact sound_set sound (walk_reached t.reached_root (locate_ok located).2) other _

theorem sound_removed (sound : t.Sound) (below : place ≠ []) :
    ((t.clear place).prune place).Sound := by
  intro p node there q under apart
  rw [at?_removed t below] at there ⊢
  by_cases gone : place <+: p
  · simp [gone] at there
  · rw [if_neg gone] at there
    rw [if_neg fun first => gone (first.trans under)]
    exact sound p node there q under apart

/-! ### Along a path -/

-- What is at a place below the directory of a path; nothing if the path leads nowhere.
def inside (t : Tree) (path : String) (rest : Place) : Option Node :=
  match t.locate path with
  | .ok place => t.at? (place ++ rest)
  | .error _ => none

section

variable {base xs : List String} {top : Place} {path : String}

theorem inside_eq_some (aims : t.Aims base top) (along : steps path = base ++ xs)
    (names : ∀ x ∈ xs, Names x) {rest : Place} {node : Node} (found : t.inside path rest = some node) :
    t.locate path = .ok (top ++ xs) ∧ t.at? (top ++ xs ++ rest) = some node := by
  unfold inside at found
  split at found
  · rename_i place located
    obtain ⟨rfl, -⟩ := aims.locate along names located
    exact ⟨located, found⟩
  · cases found

-- A path that leads to a place in one tree does so in any other where directories lead there.
theorem Aims.locate_reached (aims : t.Aims base top) (aims' : t'.Aims base top)
    (along : steps path = base ++ xs) (names : ∀ x ∈ xs, Names x) (some : xs ≠ []) {goal : Place}
    (done : t.locate path = .ok goal) (reached : t'.Reached (top ++ xs)) :
    t'.locate path = .ok (top ++ xs) := by
  obtain ⟨rfl, first, second⟩ := aims.locate along names done
  have above (ys : List String) (under : ys <+: xs) (other : ys ≠ xs) :
      t'.at? (top ++ ys) = .some .directory := by
    apply reached
    · exact (List.prefix_append_right_inj top).mpr under
    · exact fun same => other (List.append_cancel_left same)
  have solid : t'.Solid top := by
    intro q under
    apply reached q (under.trans (List.prefix_append _ _))
    rintro rfl
    have longer := under.length_le
    have proper := List.length_pos_iff.mpr some
    simp only [List.length_append] at longer
    omega
  have first' : t'.walk [] base = .ok top := by
    rcases aims' with ⟨walked, -⟩ | ⟨down, -⟩
    · exact (keeps_clear t' top).walk (reached_root _) walked
    · exact (walk_down down first).2 solid
  refine locate_of_walk (locate_ok done).1 ?_
  rw [along, walk_append, first']
  exact walk_names_congr names (fun ys under other _ => above ys under other) second

theorem inside_of_same (aims : t.Aims base top) (aims' : t'.Aims base top) (sound : t'.Sound)
    (along : steps path = base ++ xs) (names : ∀ x ∈ xs, Names x) (some : xs ≠ [])
    (same : ∀ p, top ++ xs <+: p → t'.at? p = t.at? p) {rest : Place} {node : Node}
    (found : t.inside path rest = .some node) : t'.inside path rest = .some node := by
  obtain ⟨located, there⟩ := inside_eq_some aims along names found
  rw [← same _ (List.prefix_append _ _)] at there
  have reached : t'.Reached (top ++ xs) := by
    intro q under apart
    apply sound _ node there q (under.trans (List.prefix_append _ _))
    rintro rfl
    exact apart (under.eq_of_length_le (by simp))
  rw [inside, aims.locate_reached aims' along names some located reached]
  exact there

-- Trees that are the same below a place are the same below the path that leads there.
theorem inside_congr (aims : t.Aims base top) (aims' : t'.Aims base top) (sound : t.Sound)
    (sound' : t'.Sound) (along : steps path = base ++ xs) (names : ∀ x ∈ xs, Names x)
    (some : xs ≠ []) (same : ∀ p, top ++ xs <+: p → t'.at? p = t.at? p) :
    t'.inside path = t.inside path := by
  funext rest
  cases before : t.inside path rest with
  | some node => exact inside_of_same aims aims' sound' along names some same before
  | none =>
    cases after : t'.inside path rest with
    | none => rfl
    | some node =>
      have back := inside_of_same aims' aims sound along names some
        (fun p under => (same p under).symm) after
      simp [before] at back

end

end Flowgate.File.Tree
