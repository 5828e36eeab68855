import Flowgate.Proofs.File.Paths

/-!
Operations below one place. A path whose base leads to a directory reaches only what lies below that
directory, so what an operation on it changes lies there too, but for directories that it makes on
the way.
-/

namespace Flowgate.File.Tree

/-! ### Walks through names -/

theorem walk_names {t : Tree} {p goal : Place} {xs : List String} (names : ∀ x ∈ xs, Names x)
    (done : t.walk p xs = .ok goal) : goal = p ++ xs := by
  induction xs generalizing p with
  | nil =>
    cases done
    exact (List.append_nil _).symm
  | cons x xs ih =>
    obtain ⟨-, -, done⟩ := walk_step done
    rw [stepFrom_name (names x List.mem_cons_self)] at done
    rw [ih (fun y member => names y (List.mem_cons_of_mem _ member)) done, List.append_assoc,
      List.singleton_append]

-- A walk through names depends on the directories between its ends only.
theorem walk_names_congr {t t' : Tree} {p goal : Place} {xs : List String}
    (names : ∀ x ∈ xs, Names x)
    (same : ∀ ys, ys <+: xs → ys ≠ xs → t.at? (p ++ ys) = some .directory →
      t'.at? (p ++ ys) = some .directory)
    (done : t.walk p xs = .ok goal) : t'.walk p xs = .ok goal := by
  induction xs generalizing p with
  | nil => exact done
  | cons x xs ih =>
    obtain ⟨here, named, done⟩ := walk_step done
    have here' := same [] List.nil_prefix (List.cons_ne_nil x xs).symm
    rw [List.append_nil] at here'
    rw [walk_cons, here' here, named]
    rw [stepFrom_name (names x List.mem_cons_self)] at done ⊢
    refine ih (fun y member => names y (List.mem_cons_of_mem _ member)) ?_ done
    intro ys under other there
    rw [List.append_assoc, List.singleton_append] at there ⊢
    refine same (x :: ys) (List.cons_prefix_cons.mpr ⟨rfl, under⟩) ?_ there
    exact fun equal => other (List.cons.inj equal).2

theorem walk_base {t : Tree} {p goal : Place} {base xs : List String} (names : ∀ x ∈ xs, Names x)
    (done : t.walk p (base ++ xs) = .ok goal) :
    ∃ q, t.walk p base = .ok q ∧ t.walk q xs = .ok goal ∧ goal = q ++ xs := by
  rw [walk_append] at done
  split at done
  · cases done
  · rename_i q first
    exact ⟨q, first, done, walk_names names done⟩

-- What a walk passes is a directory.
theorem walk_through {t : Tree} {p goal : Place} {xs ys : List String} (names : ∀ x ∈ xs, Names x)
    (more : ys ≠ []) (done : t.walk p (xs ++ ys) = .ok goal) :
    t.at? (p ++ xs) = some .directory := by
  rw [walk_append] at done
  split at done
  · cases done
  · rename_i q first
    obtain rfl := walk_names names first
    obtain ⟨y, ys, rfl⟩ := List.exists_cons_of_ne_nil more
    exact (walk_step done).1

/-! ### Where a path can lead -/

-- The steps lead to the place: they do so even without what is below it, or they only go down.
def Aims (t : Tree) (base : List String) (place : Place) : Prop :=
  ((t.clear place).walk [] base = .ok place ∧ t.at? place = some .directory) ∨
  (".." ∉ base ∧ place = core base)

theorem clear_at?_directory {t : Tree} {place p : Place} :
    (t.clear place).at? p = some .directory ↔
      t.at? p = some .directory ∧ ¬(place <+: p ∧ p ≠ place) := by
  rw [at?_clear]
  by_cases below : place <+: p ∧ p ≠ place
  · rw [if_pos below]
    simp [below]
  · rw [if_neg below]
    simp [below]

theorem keeps_clear (t : Tree) (place : Place) : (t.clear place).Keeps t :=
  fun p solid => (clear_at?_directory.mp (solid p (List.prefix_refl p))).1

theorem names_core {base : List String} (down : ".." ∉ base) : ∀ x ∈ core base, Names x := by
  intro x member
  obtain ⟨there, proper⟩ := List.mem_filter.mp member
  have kept : x ≠ "" ∧ x ≠ "." := by simpa using proper
  exact ⟨kept.1, kept.2, fun same => down (same ▸ there)⟩

namespace Aims

variable {t : Tree} {base : List String} {place : Place}

theorem ends (aims : t.Aims base place) {goal : Place} (done : t.walk [] (core base) = .ok goal) :
    goal = place := by
  rcases aims with ⟨walked, -⟩ | ⟨down, rfl⟩
  · have same := (keeps_clear t place).walk (reached_root _) (walk_core walked)
    rw [done] at same
    exact Except.ok.inj same
  · exact walk_names (names_core down) done

theorem leads {t' : Tree} (aims : t.Aims base place) (keeps : t.Keeps t') {front : List String}
    (first : front <+: core base) {goal : Place} (done : t'.walk [] front = .ok goal) :
    goal <+: place ∨ t.at? goal = some .directory := by
  obtain ⟨rest, whole⟩ := first
  rcases aims with ⟨walked, here⟩ | ⟨down, rfl⟩
  · have whole' := (keeps_clear t place).walk (reached_root _) (walk_core walked)
    rw [← whole, walk_append] at whole'
    split at whole'
    · cases whole'
    · rename_i q through
      have same := keeps.walk t.reached_root through
      rw [done] at same
      obtain rfl := Except.ok.inj same
      cases rest with
      | nil =>
        cases whole'
        exact .inl (List.prefix_refl _)
      | cons step rest => exact .inr (walk_step whole').1
  · have names : ∀ x ∈ front, Names x := fun x member =>
      names_core down x (whole ▸ List.mem_append_left _ member)
    rw [walk_names names done]
    exact .inl ⟨rest, whole⟩

-- What an operation below the place does not touch.
theorem keeps {t' : Tree} (aims : t.Aims base place)
    (kept : ∀ p, ¬(place <+: p ∧ p ≠ place) → t.at? p = some .directory →
      t'.at? p = some .directory) : t'.Aims base place := by
  rcases aims with ⟨walked, here⟩ | down
  · have keeps : (t.clear place).Keeps (t'.clear place) := by
      intro p solid
      obtain ⟨there, outside⟩ := clear_at?_directory.mp (solid p (List.prefix_refl p))
      exact clear_at?_directory.mpr ⟨kept p outside there, outside⟩
    exact .inl ⟨keeps.walk (reached_root _) walked, kept place (fun below => below.2 rfl) here⟩
  · exact .inr down

-- Once the place is there, the steps do lead to it.
theorem settled (aims : t.Aims base place) {goal : Place} (done : t.walk [] base = .ok goal)
    (here : t.at? place = some .directory) : (t.clear place).walk [] base = .ok place := by
  obtain rfl := aims.ends (walk_core done)
  rcases aims with ⟨walked, -⟩ | ⟨down, -⟩
  · exact walked
  · refine (walk_down down done).2 ?_
    have solid := (walk_reached t.reached_root done).solid here
    refine fun q under => clear_at?_directory.mpr ⟨solid q under, ?_⟩
    exact fun ⟨above, other⟩ => other (List.IsPrefix.eq_of_length_le under above.length_le)

-- Where a path leads whose base is aimed at the place.
theorem locate (aims : t.Aims base place) {path : String} {xs : List String}
    (along : steps path = base ++ xs) (names : ∀ x ∈ xs, Names x) {goal : Place}
    (done : t.locate path = .ok goal) :
    goal = place ++ xs ∧ t.walk [] base = .ok place ∧ t.walk place xs = .ok goal := by
  have walked := (locate_ok done).2
  rw [along] at walked
  obtain ⟨q, first, second, same⟩ := walk_base names walked
  obtain rfl := aims.ends (walk_core first)
  exact ⟨same, first, second⟩

end Aims

/-! ### What an operation changes -/

-- Nothing has changed but what is at or below a place, and directories above it are new.
structure Touched (place : Place) (t t' : Tree) : Prop where
  kept : ∀ p node, ¬place <+: p → t.at? p = some node → t'.at? p = some node
  made : ∀ p node, t'.at? p = some node →
    t.at? p = some node ∨ place <+: p ∨ (p <+: place ∧ node = .directory)

theorem Touched.refl (place : Place) (t : Tree) : Touched place t t :=
  ⟨fun _ _ _ there => there, fun _ _ there => .inl there⟩

theorem Touched.trans {place : Place} {t t' t'' : Tree} (first : Touched place t t')
    (second : Touched place t' t'') : Touched place t t'' where
  kept p node apart there := second.kept p node apart (first.kept p node apart there)
  made p node there := by
    rcases second.made p node there with old | new
    · exact first.made p node old
    · exact .inr new

-- Off the way to the place, nothing has changed.
theorem Touched.at?_apart {place p : Place} {t t' : Tree} (touched : Touched place t t')
    (below : ¬place <+: p) (above : ¬p <+: place) : t'.at? p = t.at? p := by
  cases before : t.at? p with
  | some node => exact touched.kept p node below before
  | none =>
    cases after : t'.at? p with
    | none => rfl
    | some node =>
      rcases touched.made p node after with old | under | ⟨higher, -⟩
      · rw [before] at old
        cases old
      · exact absurd under below
      · exact absurd higher above

theorem touched_set {t : Tree} {place p : Place} (under : place <+: p)
    (other : t.at? p ≠ some .directory) (node : Node) : Touched place t (t.set p node) where
  kept q old apart there := by
    rw [at?_set t (ne_nil_of_at? other), if_neg, there]
    rintro rfl
    exact apart under
  made q new there := by
    rw [at?_set t (ne_nil_of_at? other)] at there
    by_cases here : q = p
    · exact .inr (.inl (here ▸ under))
    · rw [if_neg here] at there
      exact .inl there

theorem removeDirectory_there {t : Tree} {path name : String} {place : Place}
    (last : ((steps path).filter (· ≠ "")).getLast? = some name) (names : Names name)
    (located : t.locate path = .ok place) (here : t.at? place = some .directory) :
    t.removeDirectory path = (.ok (), (t.clear place).prune place) := by
  unfold removeDirectory
  simp only [located, here, last]
  split
  · rename_i dot
    exact absurd (Option.some.inj dot) names.2.1
  · rename_i up
    exact absurd (Option.some.inj up) names.2.2
  · rfl

-- A directory whose path ends in a name is removed as a whole or not at all.
theorem removeDirectory_cases (t : Tree) {path name : String}
    (last : ((steps path).filter (· ≠ "")).getLast? = some name) (names : Names name) :
    (∃ fault, t.removeDirectory path = (.error fault, t)) ∨
    ∃ place, t.locate path = .ok place ∧ t.at? place = some .directory ∧
      t.removeDirectory path = (.ok (), (t.clear place).prune place) := by
  cases located : t.locate path with
  | error fault => exact .inl ⟨fault, by simp [removeDirectory, located]⟩
  | ok place =>
    cases here : t.at? place with
    | none => exact .inl ⟨.notFound, by simp [removeDirectory, located, here]⟩
    | some node =>
      cases node with
      | text content => exact .inl ⟨.notDirectory, by simp [removeDirectory, located, here]⟩
      | directory => exact .inr ⟨place, rfl, here, removeDirectory_there last names located here⟩

theorem last_step {path name : String} {front : List String} (ends : steps path = front ++ [name])
    (some : name ≠ "") : ((steps path).filter (· ≠ "")).getLast? = .some name := by
  rw [ends, List.filter_append, List.filter_cons_of_pos (by simpa using some), List.filter_nil,
    List.getLast?_concat]

theorem removeDirectory_ok {t t' : Tree} {path name : String} {front : List String}
    (ends : steps path = front ++ [name]) (names : Names name)
    (done : t.removeDirectory path = (.ok (), t')) :
    ∃ place, t.locate path = .ok place ∧ t.at? place = some .directory ∧
      t' = (t.clear place).prune place := by
  rcases t.removeDirectory_cases (last_step ends names.1) names with
    ⟨fault, failed⟩ | ⟨place, located, here, removed⟩
  · rw [failed] at done
    cases done
  · rw [removed] at done
    cases done
    exact ⟨place, located, here, rfl⟩

theorem at?_removed (t : Tree) {place : Place} (below : place ≠ []) (p : Place) :
    ((t.clear place).prune place).at? p = if place <+: p then none else t.at? p := by
  rw [at?_prune _ below, at?_clear]
  by_cases under : place <+: p
  · rw [if_pos under, if_pos under]
  · rw [if_neg under, if_neg under, if_neg fun both => under both.1]

theorem touched_removed (t : Tree) {place : Place} (below : place ≠ []) :
    Touched place t ((t.clear place).prune place) where
  kept p node apart there := by rw [at?_removed t below, if_neg apart, there]
  made p node there := by
    rw [at?_removed t below] at there
    by_cases under : place <+: p
    · exact .inr (.inl under)
    · rw [if_neg under] at there
      exact .inl there

section Below

variable {t t' : Tree} {base : List String} {top place : Place}

-- A place strictly below another one.
def Below (top place : Place) : Prop := top <+: place ∧ place ≠ top

theorem Touched.keeps (touched : Touched place t t') (below : Below top place) :
    ∀ p, ¬(top <+: p ∧ p ≠ top) → t.at? p = some .directory → t'.at? p = some .directory := by
  intro p outside there
  refine touched.kept p _ (fun under => outside ⟨below.1.trans under, ?_⟩) there
  rintro rfl
  exact below.2 (List.IsPrefix.eq_of_length_le under below.1.length_le)

theorem Touched.aims (touched : Touched place t t') (below : Below top place)
    (aims : t.Aims base top) : t'.Aims base top :=
  aims.keeps (touched.keeps below)

-- A file that is found stays found if it does not lie where something has changed.
theorem Touched.find (touched : Touched place t t') (below : Below top place)
    (aims : t.Aims base top) {path : String} {xs : List String} (along : steps path = base ++ xs)
    (names : ∀ x ∈ xs, Names x) (some : xs ≠ []) (apart : ¬place <+: top ++ xs) {node : Node}
    (found : t.find path = .ok node) : t'.find path = .ok node := by
  obtain ⟨goal, located, there⟩ := find_eq_ok_iff.mp found
  obtain ⟨rfl, first, second⟩ := aims.locate along names located
  have unreached (ys : List String) (under : ys <+: xs) : ¬place <+: top ++ ys :=
    fun reached => apart (reached.trans ((List.prefix_append_right_inj top).mpr under))
  have here : t.at? top = .some .directory := by
    cases xs with
    | nil => exact absurd rfl some
    | cons x xs => exact (walk_step second).1
  have first' : t'.walk [] base = .ok top := by
    have keeps : (t.clear top).Keeps t' := by
      intro p solid
      obtain ⟨there, outside⟩ := clear_at?_directory.mp (solid p (List.prefix_refl p))
      exact touched.keeps below p outside there
    exact keeps.walk (reached_root _) (aims.settled first here)
  have second' : t'.walk top xs = .ok (top ++ xs) :=
    walk_names_congr names (fun ys under _ there => touched.kept _ _ (unreached ys under) there) second
  refine find_eq_ok_iff.mpr ⟨top ++ xs, locate_of_walk (locate_ok located).1 ?_, ?_⟩
  · rw [along, walk_append, first']
    exact second'
  · exact touched.kept _ _ (unreached xs (List.prefix_refl xs)) there

theorem Aims.touched_write (aims : t.Aims base top) {path content : String} {xs : List String}
    (along : steps path = base ++ xs) (names : ∀ x ∈ xs, Names x) (under : place <+: top ++ xs)
    (done : t.write path content = .ok t') : Touched place t t' := by
  obtain ⟨goal, located, other, rfl⟩ := write_ok done
  obtain ⟨rfl, -, -⟩ := aims.locate along names located
  exact touched_set under other _

-- Directories that are made for a path are those on its way.
theorem Aims.onWay (aims : t.Aims base top) {steps xs : List String} (names : ∀ x ∈ xs, Names x)
    (along : steps <+: core base ++ xs) (grown : t.GrownAlong steps t') {p : Place} {node : Node}
    (there : t'.at? p = some node) :
    t.at? p = some node ∨ (p <+: top ++ xs ∧ node = .directory) := by
  rcases grown p with same | ⟨absent, made, front, leads, walked⟩
  · exact .inl (same ▸ there)
  · rw [made] at there
    refine .inr ⟨?_, (Option.some.inj there).symm⟩
    rcases prefix_append_cases (leads.trans along) with first | ⟨ys, rfl, under⟩
    · rcases aims.leads grown.grown.keeps first walked with above | there
      · exact above.trans (List.prefix_append _ _)
      · rw [there] at absent
        cases absent
    · obtain ⟨q, first, -, rfl⟩ := walk_base (fun x member => names x (under.subset member)) walked
      have aims' : t'.Aims base top := aims.keeps fun p _ there => grown.grown.at?_some there
      rw [aims'.ends first]
      exact (List.prefix_append_right_inj top).mpr under

theorem Aims.touched_makeDirectories (aims : t.Aims base top) {path : String} {xs : List String}
    (names : ∀ x ∈ xs, Names x) (along : core (steps path) <+: core base ++ xs)
    (near : place <+: top ++ xs ∨ top ++ xs <+: place) :
    Touched place t (t.makeDirectories path).2 := by
  have grown := along_makeDirectories t path
  refine ⟨fun p node _ there => grown.grown.at?_some there, fun p node there => ?_⟩
  rcases aims.onWay names along grown there with old | ⟨onWay, directory⟩
  · exact .inl old
  · rcases near with under | above
    · refine .inr ((List.prefix_or_prefix_of_prefix under onWay).imp_right ?_)
      exact fun above => ⟨above, directory⟩
    · exact .inr (.inr ⟨onWay.trans above, directory⟩)

end Below

end Flowgate.File.Tree
