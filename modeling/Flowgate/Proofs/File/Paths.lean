import Flowgate.Proofs.File.Operations
import Flowgate.Proofs.File.Steps

/-!
Walks along paths: through what a path has in common with another one, to an entry of a directory,
and downwards only.
-/

namespace Flowgate.File

namespace Tree

theorem walk_append (t : Tree) (p : Place) (first second : List String) :
    t.walk p (first ++ second) = match t.walk p first with
      | .error fault => .error fault
      | .ok q => t.walk q second := by
  induction first generalizing p with
  | nil => rfl
  | cons step first ih =>
    rw [List.cons_append, walk_cons, walk_cons]
    split
    · rfl
    · rfl
    · split
      · rfl
      · exact ih _

theorem stepFrom_name {step : String} (names : Names step) (p : Place) :
    stepFrom p step = p ++ [step] := by
  obtain ⟨some, dot, up⟩ := names
  rw [stepFrom, if_neg (not_or.mpr ⟨some, dot⟩), if_neg up]

theorem walk_snoc {t : Tree} {p q : Place} {base : List String} (walked : t.walk p base = .ok q)
    {step : String} (names : Names step) :
    t.walk p (base ++ [step]) = match t.at? q with
      | none => .error .notFound
      | some (.text _) => .error .notDirectory
      | some .directory =>
        match checkName step with
        | .error fault => .error fault
        | .ok () => .ok (q ++ [step]) := by
  rw [walk_append, walked]
  simp only
  rw [walk_cons, stepFrom_name names]
  rfl

theorem walk_snoc_ok {t : Tree} {p goal : Place} {base : List String} {step : String}
    (names : Names step) (walked : t.walk p (base ++ [step]) = .ok goal) :
    ∃ q, t.walk p base = .ok q ∧ t.at? q = some .directory ∧ goal = q ++ [step] := by
  rw [walk_append] at walked
  split at walked
  · cases walked
  · rename_i q first
    obtain ⟨here, -, last⟩ := walk_step walked
    rw [stepFrom_name names] at last
    cases last
    exact ⟨q, first, here, rfl⟩

-- Writing a file says nothing about another one in the same directory.
theorem find_write_sibling {t t' : Tree} {base : List String} {path sibling content : String}
    {a b : String} (aSteps : steps path = base ++ [a]) (bSteps : steps sibling = base ++ [b])
    (aNames : Names a) (bNames : Names b) (apart : a ≠ b)
    (done : t.write sibling content = .ok t') : t'.find path = t.find path := by
  obtain ⟨place, located, other, rfl⟩ := write_ok done
  have walked := (locate_ok located).2
  rw [bSteps] at walked
  obtain ⟨q, first, here, rfl⟩ := walk_snoc_ok bNames walked
  have keeps := keeps_set other (.text content)
  have solid := (walk_reached t.reached_root first).solid here
  have first' := keeps.walk t.reached_root first
  have different : q ++ [a] ≠ q ++ [b] := fun same =>
    apart (List.singleton_inj.mp (List.append_cancel_left same))
  have same : (t.set (q ++ [b]) (.text content)).at? (q ++ [a]) = t.at? (q ++ [a]) := by
    rw [at?_set t (ne_nil_of_at? other), if_neg different]
  rw [find, find, locate, locate, aSteps, walk_snoc first aNames, walk_snoc first' aNames, here,
    keeps q solid]
  cases checkPath path with
  | error fault => rfl
  | ok checked =>
    cases checkName a with
    | error fault => rfl
    | ok named =>
      simp only [bind, Except.bind, same]

/-! ### Sound trees -/

-- All that is in the tree lies in directories.
def Sound (t : Tree) : Prop := ∀ p node, t.at? p = some node → t.Reached p

theorem sound_empty : empty.Sound := by
  intro p node there
  cases p with
  | nil => exact reached_root _
  | cons name p => cases there

theorem stepFrom_down {step : String} (down : step ≠ "..") (p : Place) : p <+: stepFrom p step := by
  unfold stepFrom
  split
  · exact List.prefix_refl p
  · exact List.prefix_append p [step]

-- A walk that never goes up passes what lies above its end only.
theorem walk_down {t t' : Tree} {p goal : Place} {steps : List String} (down : ".." ∉ steps)
    (done : t'.walk p steps = .ok goal) :
    p <+: goal ∧ (t.Solid goal → t.walk p steps = .ok goal) := by
  induction steps generalizing p with
  | nil =>
    cases done
    exact ⟨List.prefix_refl goal, fun _ => rfl⟩
  | cons step rest ih =>
    obtain ⟨here, further⟩ := not_or.mp (mt List.mem_cons.mpr down)
    obtain ⟨-, named, done⟩ := walk_step done
    obtain ⟨under, walked⟩ := ih further done
    have above := (stepFrom_down (Ne.symm here) p).trans under
    refine ⟨above, fun solid => ?_⟩
    rw [walk_cons, solid p above, named]
    exact walked solid

end Tree

end Flowgate.File
