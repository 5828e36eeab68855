import Flowgate.Proofs.File.Steps
import Mathlib.Data.List.Basic

/-!
What is at a place after an operation, and which walks an operation leaves alone. A walk depends on
the directories that it passes only, and all that lies above such a directory is one as well.
-/

namespace Flowgate.File.Tree

theorem at?_root (t : Tree) : t.at? [] = some .directory := rfl

theorem at?_eq_find (t : Tree) {p : Place} (below : p ≠ []) :
    t.at? p = (t.nodes.find? (·.1 = p)).map Prod.snd := by
  rw [at?, if_neg (by simpa using below)]

theorem find?_kept (nodes : List (Place × Node)) (keep : Place → Bool) (p : Place) :
    (nodes.filter fun pair => keep pair.1).find? (·.1 = p)
      = if keep p then nodes.find? (·.1 = p) else none := by
  rw [List.find?_filter]
  by_cases kept : keep p
  · rw [if_pos kept]
    congr 1
    funext pair
    by_cases here : pair.1 = p
    · simp [here, kept]
    · simp [here]
  · rw [if_neg kept, List.find?_eq_none]
    rintro pair - both
    obtain ⟨kept', here⟩ := of_decide_eq_true both
    exact kept (of_decide_eq_true here ▸ kept')

theorem isPrefixOf_eq_false {p q : Place} (apart : ¬p <+: q) : p.isPrefixOf q = false := by
  rw [Bool.eq_false_iff]
  exact fun under => apart (List.isPrefixOf_iff_prefix.mp under)

theorem at?_set (t : Tree) {place : Place} (below : place ≠ []) (node : Node) (p : Place) :
    (t.set place node).at? p = if p = place then some node else t.at? p := by
  by_cases root : p = []
  · subst root
    rw [if_neg (Ne.symm below)]
    rfl
  · have kept := find?_kept t.nodes (fun q => decide (q ≠ place)) p
    rw [at?_eq_find _ root, at?_eq_find _ root, set, List.find?_append, kept]
    by_cases here : p = place
    · simp [here]
    · simp [here, Ne.symm here]

theorem at?_prune (t : Tree) {place : Place} (below : place ≠ []) (p : Place) :
    (t.prune place).at? p = if place <+: p then none else t.at? p := by
  by_cases root : p = []
  · subst root
    rw [if_neg (by simpa using below)]
    rfl
  · have kept := find?_kept t.nodes (fun q => !place.isPrefixOf q) p
    rw [at?_eq_find _ root, at?_eq_find _ root, prune, kept]
    by_cases under : place <+: p
    · rw [if_pos under, if_neg (by simpa using under)]
      rfl
    · rw [if_neg under, if_pos (by rw [isPrefixOf_eq_false under]; rfl)]

theorem at?_clear (t : Tree) (place p : Place) :
    (t.clear place).at? p = if place <+: p ∧ p ≠ place then none else t.at? p := by
  by_cases root : p = []
  · subst root
    have top : ¬(place <+: [] ∧ [] ≠ place) := fun ⟨under, other⟩ =>
      other (List.prefix_nil.mp under).symm
    rw [if_neg top]
    rfl
  · have kept := find?_kept t.nodes (fun q => decide (q = place) || !place.isPrefixOf q) p
    rw [at?_eq_find _ root, at?_eq_find _ root, clear, kept]
    by_cases under : place <+: p ∧ p ≠ place
    · rw [if_pos under, if_neg (by simpa [under.2] using under.1)]
      rfl
    · rw [if_neg under, if_pos]
      rw [not_and_or, not_not] at under
      rcases under with apart | here
      · simp [isPrefixOf_eq_false apart]
      · simp [here]

/-! ### Walks -/

-- All places above are directories.
def Reached (t : Tree) (p : Place) : Prop :=
  ∀ q, q <+: p → q ≠ p → t.at? q = some .directory

-- The place and all above are directories.
def Solid (t : Tree) (p : Place) : Prop := ∀ q, q <+: p → t.at? q = some .directory

theorem reached_root (t : Tree) : t.Reached [] :=
  fun _ under other => absurd (List.prefix_nil.mp under) other

theorem Reached.solid {t : Tree} {p : Place} (reached : t.Reached p)
    (here : t.at? p = some .directory) : t.Solid p := by
  intro q under
  by_cases same : q = p
  · rw [same]
    exact here
  · exact reached q under same

theorem Solid.above {t : Tree} {p q : Place} (solid : t.Solid p) (under : q <+: p) : t.Solid q :=
  fun r below => solid r (below.trans under)

theorem Solid.reached {t : Tree} {p : Place} (solid : t.Solid p) : t.Reached p :=
  fun q under _ => solid q under

theorem Solid.append {t : Tree} {p : Place} (solid : t.Solid p) (name : String) :
    t.Reached (p ++ [name]) := by
  intro q under other
  rcases List.prefix_concat_iff.mp under with same | above
  · exact absurd same other
  · exact solid q above

-- Where a step leads from a directory.
def stepFrom (p : Place) (step : String) : Place :=
  if step = "" ∨ step = "." then p else if step = ".." then p.dropLast else p ++ [step]

theorem walk_cons (t : Tree) (p : Place) (step : String) (rest : List String) :
    t.walk p (step :: rest) = match t.at? p with
      | none => .error .notFound
      | some (.text _) => .error .notDirectory
      | some .directory =>
        match checkName step with
        | .error fault => .error fault
        | .ok () => t.walk (stepFrom p step) rest := by
  rw [walk]
  cases t.at? p with
  | none => rfl
  | some node =>
    cases node with
    | text content => rfl
    | directory =>
      cases checkName step with
      | error fault => rfl
      | ok done =>
        by_cases stay : step = "" ∨ step = "."
        · simp [stepFrom, stay, bind, Except.bind]
        · by_cases up : step = ".."
          · simp [stepFrom, up, bind, Except.bind]
          · simp [stepFrom, stay, up, bind, Except.bind]

theorem Solid.stepFrom {t : Tree} {p : Place} (solid : t.Solid p) (step : String) :
    t.Reached (stepFrom p step) := by
  unfold Tree.stepFrom
  split
  · exact solid.reached
  · split
    · exact (solid.above p.dropLast_prefix).reached
    · exact solid.append step

theorem walk_step {t : Tree} {p goal : Place} {step : String} {rest : List String}
    (done : t.walk p (step :: rest) = .ok goal) :
    t.at? p = some .directory ∧ checkName step = .ok () ∧
      t.walk (stepFrom p step) rest = .ok goal := by
  rw [walk_cons] at done
  split at done
  · cases done
  · cases done
  · rename_i here
    split at done
    · cases done
    · rename_i named
      exact ⟨here, named, done⟩

theorem walk_reached {t : Tree} {p goal : Place} {steps : List String} (reached : t.Reached p)
    (done : t.walk p steps = .ok goal) : t.Reached goal := by
  induction steps generalizing p with
  | nil =>
    cases done
    exact reached
  | cons step rest ih =>
    obtain ⟨here, -, done⟩ := walk_step done
    exact ih ((reached.solid here).stepFrom step) done

-- A step that stays where it is needs a directory, so leaving it out makes a walk no harder.
theorem walk_core {t : Tree} {p goal : Place} {steps : List String}
    (done : t.walk p steps = .ok goal) : t.walk p (core steps) = .ok goal := by
  induction steps generalizing p with
  | nil => exact done
  | cons step rest ih =>
    obtain ⟨here, named, done⟩ := walk_step done
    by_cases stays : step = "" ∨ step = "."
    · rw [stepFrom, if_pos stays] at done
      have left : core (step :: rest) = core rest := by
        rw [core, List.filter_cons_of_neg (by simpa [or_iff_not_imp_left] using stays)]
        rfl
      rw [left]
      exact ih done
    · have kept : core (step :: rest) = step :: core rest := by
        rw [core, List.filter_cons_of_pos (by simpa using stays)]
        rfl
      rw [kept, walk_cons, here, named]
      exact ih done

-- Directories of one tree are directories of another.
def Keeps (t t' : Tree) : Prop := ∀ p, t.Solid p → t'.at? p = some .directory

theorem Keeps.walk {t t' : Tree} (keeps : t.Keeps t') {p goal : Place} {steps : List String}
    (reached : t.Reached p) (done : t.walk p steps = .ok goal) :
    t'.walk p steps = .ok goal := by
  induction steps generalizing p with
  | nil => exact done
  | cons step rest ih =>
    obtain ⟨here, named, done⟩ := walk_step done
    have solid := reached.solid here
    rw [walk_cons, keeps p solid, named]
    exact ih (solid.stepFrom step) done

theorem locate_ok {t : Tree} {path : String} {place : Place}
    (done : t.locate path = .ok place) :
    checkPath path = .ok () ∧ t.walk [] (steps path) = .ok place := by
  unfold locate at done
  cases checked : checkPath path with
  | error fault => rw [checked] at done; cases done
  | ok done' =>
    rw [checked] at done
    exact ⟨rfl, done⟩

theorem locate_of_walk {t : Tree} {path : String} {place : Place}
    (checked : checkPath path = .ok ()) (walked : t.walk [] (steps path) = .ok place) :
    t.locate path = .ok place := by
  rw [locate, checked]
  exact walked

theorem Keeps.locate {t t' : Tree} (keeps : t.Keeps t') {path : String} {place : Place}
    (done : t.locate path = .ok place) : t'.locate path = .ok place :=
  locate_of_walk (locate_ok done).1 (keeps.walk t.reached_root (locate_ok done).2)

theorem find_of_locate {t : Tree} {path : String} {place : Place}
    (done : t.locate path = .ok place) :
    t.find path = match t.at? place with
      | some node => .ok node
      | none => .error .notFound := by
  rw [find, done]
  rfl

theorem find_eq_ok_iff {t : Tree} {path : String} {node : Node} :
    t.find path = .ok node ↔ ∃ place, t.locate path = .ok place ∧ t.at? place = some node := by
  constructor
  · intro done
    cases located : t.locate path with
    | error fault =>
      rw [find, located] at done
      cases done
    | ok place =>
      rw [find_of_locate located] at done
      split at done
      · cases done
        exact ⟨place, rfl, ‹_›⟩
      · cases done
  · rintro ⟨place, located, there⟩
    rw [find_of_locate located, there]

theorem read_eq_ok_iff {t : Tree} {path content : String} :
    t.read path = .ok content ↔ t.find path = .ok (.text content) := by
  rw [read]
  cases found : t.find path with
  | error fault => simp [bind, Except.bind]
  | ok node =>
    cases node with
    | text held => simp [bind, Except.bind]
    | directory => simp [bind, Except.bind]

end Flowgate.File.Tree
