import Flowgate.Proofs.File.Regions

/-!
Paths that go down from a directory that is there. In a tree of files as there are, nothing lies
below a missing place, so making directories on such a path changes neither what is found along it
nor why nothing is.
-/

namespace Flowgate.File.Tree

variable {t t' : Tree}

-- What is at the end of a walk.
def lookFrom (t : Tree) (p : Place) (steps : List String) : Except Fault Node :=
  match t.walk p steps with
  | .error fault => .error fault
  | .ok goal =>
    match t.at? goal with
    | some node => .ok node
    | none => .error .notFound

theorem find_eq_lookFrom (t : Tree) (path : String) :
    t.find path = match checkPath path with
      | .error fault => .error fault
      | .ok () => t.lookFrom [] (steps path) := by
  unfold find locate lookFrom
  cases checkPath path with
  | error fault => rfl
  | ok checked =>
    cases t.walk [] (steps path) with
    | error fault => rfl
    | ok goal => cases t.at? goal <;> rfl

theorem lookFrom_append {p q : Place} {front : List String} (walked : t.walk p front = .ok q)
    (rest : List String) : t.lookFrom p (front ++ rest) = t.lookFrom q rest := by
  simp only [lookFrom, walk_append, walked]

theorem lookFrom_cons (p : Place) (step : String) (rest : List String) :
    t.lookFrom p (step :: rest) = match t.at? p with
      | none => .error .notFound
      | some (.text _) => .error .notDirectory
      | some .directory =>
        match checkName step with
        | .error fault => .error fault
        | .ok () => t.lookFrom (stepFrom p step) rest := by
  simp only [lookFrom, walk_cons]
  cases t.at? p with
  | none => rfl
  | some node =>
    cases node with
    | text content => rfl
    | directory => cases checkName step <;> rfl

-- A step that stays or goes down, by a name that is short enough.
def Downward (step : String) : Prop := step ≠ ".." ∧ checkName step = .ok ()

theorem Downward.core_stepFrom {step : String} (down : Downward step) (p : Place)
    (rest : List String) : stepFrom p step ++ core rest = p ++ core (step :: rest) := by
  by_cases stays : step = "" ∨ step = "."
  · have left : core (step :: rest) = core rest := by
      rw [core, List.filter_cons_of_neg (by simpa [or_iff_not_imp_left] using stays)]
      rfl
    rw [stepFrom, if_pos stays, left]
  · have kept : core (step :: rest) = step :: core rest := by
      rw [core, List.filter_cons_of_pos (by simpa using stays)]
      rfl
    rw [stepFrom, if_neg stays, if_neg down.1, kept, List.append_assoc, List.singleton_append]

-- Where there are only directories, and none at the end, nothing is found.
theorem lookFrom_vacant {p : Place} {steps : List String} (down : ∀ s ∈ steps, Downward s)
    (vacant : ∀ q node, p <+: q → t.at? q = some node → node = .directory)
    (last : t.at? (p ++ core steps) = none) : t.lookFrom p steps = .error .notFound := by
  induction steps generalizing p with
  | nil =>
    have here : t.at? p = none := by simpa [core] using last
    simp [lookFrom, walk, here]
  | cons step rest ih =>
    have first := down step List.mem_cons_self
    rw [lookFrom_cons]
    cases here : t.at? p with
    | none => rfl
    | some node =>
      obtain rfl := vacant p node (List.prefix_refl p) here
      rw [first.2]
      apply ih
      · intro s member
        exact down s (List.mem_cons_of_mem _ member)
      · intro q node under there
        exact vacant q node ((stepFrom_down first.1 p).trans under) there
      · rw [first.core_stepFrom]
        exact last

-- New directories above a place leave the search for it as it is.
theorem Grown.lookFrom {p : Place} {steps : List String} (grown : t.Grown t') (sound : t.Sound)
    (down : ∀ s ∈ steps, Downward s) (last : t'.at? (p ++ core steps) = t.at? (p ++ core steps)) :
    t'.lookFrom p steps = t.lookFrom p steps := by
  induction steps generalizing p with
  | nil =>
    have here : t'.at? p = t.at? p := by simpa [core] using last
    simp [Tree.lookFrom, walk, here]
  | cons step rest ih =>
    have first := down step List.mem_cons_self
    rcases grown p with same | ⟨absent, made⟩
    · rw [lookFrom_cons, lookFrom_cons, same]
      have further := ih (p := stepFrom p step)
        (fun s member => down s (List.mem_cons_of_mem _ member)) (by rwa [first.core_stepFrom])
      rw [further]
    · have nothing : ∀ q, p <+: q → t.at? q = none := by
        intro q under
        cases there : t.at? q with
        | none => rfl
        | some node =>
          by_cases here : p = q
          · simp [← here, absent] at there
          · simp [sound q node there p under here] at absent
      have before : t.lookFrom p (step :: rest) = .error .notFound := by
        rw [lookFrom_cons, absent]
      rw [before]
      apply lookFrom_vacant down
      · intro q node under there
        rcases grown q with same | ⟨-, made⟩
        · simp [same, nothing q under] at there
        · rw [made] at there
          exact (Option.some.inj there).symm
      · rw [last, nothing _ (List.prefix_append _ _)]

/-! ### Directories that can be made -/

-- The steps go down from a directory that is there, or lead to one.
def Descends (t : Tree) (steps : List String) : Prop :=
  ∃ front rest p, steps = front ++ rest ∧ t.walk [] front = .ok p ∧ t.at? p = some .directory ∧
    ∀ s ∈ rest, Downward s

-- What is made on the way to a directory is not a place below that directory.
theorem GrownAlong.at?_below {base : List String} (along : t.GrownAlong (core base) t')
    {front rest : List String} (whole : base = front ++ rest) {p : Place}
    (walked : t.walk [] front = .ok p) (here : t.at? p = some .directory)
    (down : ∀ s ∈ rest, Downward s) (name : String) :
    t'.at? (p ++ core rest ++ [name]) = t.at? (p ++ core rest ++ [name]) := by
  rcases along (p ++ core rest ++ [name]) with same | ⟨absent, -, way, leads, reached⟩
  · exact same
  · exfalso
    have keeps := along.grown.keeps
    have through := walk_core walked
    rw [whole, core_append] at leads
    rcases prefix_append_cases leads with ⟨more, split⟩ | ⟨ys, rfl, under⟩
    · rw [← split, walk_append] at through
      split at through
      · cases through
      · rename_i q first
        have arrived := keeps.walk t.reached_root first
        rw [reached] at arrived
        obtain rfl := Except.ok.inj arrived
        cases more with
        | nil =>
          simp [Except.ok.inj through, here] at absent
        | cons step more =>
          rw [(walk_step through).1] at absent
          cases absent
    · have names : ∀ y ∈ ys, Names y := fun y member =>
        names_core (fun up => (down ".." up).1 rfl) y (under.subset member)
      obtain ⟨q, first, -, ends⟩ := walk_base names reached
      have arrived := keeps.walk t.reached_root through
      rw [first] at arrived
      obtain rfl := Except.ok.inj arrived
      rw [List.append_assoc] at ends
      have longer := congrArg List.length (List.append_cancel_left ends)
      have shorter := under.length_le
      simp only [List.length_append, List.length_singleton] at longer
      omega

-- Making a directory that can be made says nothing about what is in it.
theorem GrownAlong.find_entry {base : List String} (along : t.GrownAlong (core base) t')
    (sound : t.Sound) (descends : t.Descends base) {path name : String}
    (ends : steps path = base ++ [name]) (names : Names name) (short : checkName name = .ok ()) :
    t'.find path = t.find path := by
  obtain ⟨front, rest, p, whole, walked, here, down⟩ := descends
  have last := along.at?_below whole walked here down name
  have single : core [name] = [name] := core_of_proper fun x member => by
    rw [List.mem_singleton.mp member]
    exact ⟨names.1, names.2.1⟩
  have downward : ∀ s ∈ rest ++ [name], Downward s := by
    intro s member
    rcases List.mem_append.mp member with there | there
    · exact down s there
    · rw [List.mem_singleton.mp there]
      exact ⟨names.2.2, short⟩
  rw [find_eq_lookFrom, find_eq_lookFrom, ends, whole, List.append_assoc, lookFrom_append walked,
    lookFrom_append (along.grown.keeps.walk t.reached_root walked)]
  rw [along.grown.lookFrom sound downward (by rwa [core_append, single, ← List.append_assoc])]

end Flowgate.File.Tree
