import Flowgate.Proofs.Task.Pool

/-!
Sections: a lock inside the locks of the parties, and the part of the state that it guards. A party
that fails may leave the part as it likes, but the sections of those that succeed either make it whole
or leave it as whole as it was. So it is whole whenever the lock is free and none has failed.
-/

namespace Flowgate

structure Guard (ι σ τ : Type) where
  lock : ι
  part : σ → τ
  -- Holds wherever a party stands.
  order : σ → Prop
  -- Holds outside the sections.
  whole : τ → Prop

namespace Task

variable {ι σ τ κ : Type} {g : Guard ι σ τ} {t : Task ι σ Bool} {entered : Option τ}
  {kept kept' : Prop} {s s' : σ}

-- Whatever others do where the task stands, it changes the part within its sections only, and if it
-- succeeds, what is `kept` holds at its end. In a section, `entered` is the part at its start.
def Heeds (g : Guard ι σ τ) : Task ι σ Bool → Option τ → Prop → σ → Prop
  | .done b, entered, kept, s => entered = none ∧ g.order s ∧ (b = true → kept)
  | .look next, entered, kept, s => (next s).Heeds g entered kept s
  | .put s' next, entered, kept, s =>
    (entered = none → g.part s' = g.part s) ∧ next.Heeds g entered kept s'
  | .pause _ next, entered, kept, s =>
    g.order s ∧ ∀ s', g.order s' → (entered ≠ none → g.part s' = g.part s) →
      next.Heeds g entered kept s'
  | .acquire lock next, entered, kept, s =>
    lock = g.lock ∧ entered = none ∧ g.order s ∧
      ∀ s', g.order s' → next.Heeds g (some (g.part s')) kept s'
  | .release lock next, entered, kept, s =>
    lock = g.lock ∧ g.order s ∧ ∃ before, entered = some before ∧
      ∀ s', g.order s' → g.part s' = g.part s →
        next.Heeds g none ((kept ∧ (g.whole before → g.whole (g.part s))) ∨ g.whole (g.part s)) s'

theorem Heeds.mono (heeds : t.Heeds g entered kept s) (implies : kept → kept') :
    t.Heeds g entered kept' s := by
  induction t generalizing entered kept kept' s with
  | done b => exact ⟨heeds.1, heeds.2.1, implies ∘ heeds.2.2⟩
  | look next ih => exact ih s heeds implies
  | put s' next ih => exact ⟨heeds.1, ih heeds.2 implies⟩
  | pause time next ih =>
    exact ⟨heeds.1, fun s' order same => ih (heeds.2 s' order same) implies⟩
  | acquire lock next ih =>
    obtain ⟨own, outside, order, onward⟩ := heeds
    exact ⟨own, outside, order, fun s' order => ih (onward s' order) implies⟩
  | release lock next ih =>
    obtain ⟨own, order, before, inside, onward⟩ := heeds
    refine ⟨own, order, before, inside, fun s' order same => ih (onward s' order same) ?_⟩
    exact Or.imp_left (And.imp_left implies)

theorem Heeds.advance (heeds : t.Heeds g entered kept s) :
    (t.advance s).1.Heeds g entered kept (t.advance s).2 := by
  induction t generalizing s with
  | look next ih => exact ih s heeds
  | put s' next ih => exact ih heeds.2
  | _ => exact heeds

theorem Heeds.part_advance (heeds : t.Heeds g none kept s) : g.part (t.advance s).2 = g.part s := by
  induction t generalizing s with
  | look next ih => exact ih s heeds
  | put s' next ih => exact (ih heeds.2).trans (heeds.1 rfl)
  | _ => rfl

theorem Heeds.order (heeds : t.Heeds g entered kept s) (rests : t.Rests) : g.order s := by
  cases rests with
  | done b => exact heeds.2.1
  | pause time next => exact heeds.1
  | acquire lock next => exact heeds.2.2.1
  | release lock next => exact heeds.2.1

-- A task that stands does not mind what others do.
theorem Heeds.stable (heeds : t.Heeds g entered kept s) (rests : t.Rests) (order : g.order s')
    (same : entered ≠ none → g.part s' = g.part s) : t.Heeds g entered kept s' := by
  cases rests with
  | done b => exact ⟨heeds.1, order, heeds.2.2⟩
  | pause time next =>
    refine ⟨order, fun s'' order' same' => heeds.2 s'' order' fun inside => ?_⟩
    exact (same' inside).trans (same inside)
  | acquire lock next => exact ⟨heeds.1, heeds.2.1, order, heeds.2.2.2⟩
  | release lock next =>
    obtain ⟨own, -, before, inside, onward⟩ := heeds
    have part := same (by simp [inside])
    refine ⟨own, order, before, inside, fun s'' order' same' => ?_⟩
    rw [part]
    exact onward s'' order' (same'.trans part)

-- How a turn of a party goes about the section.
inductive Crosses (g : Guard ι σ τ) (k : κ) (s s' : σ) (held held' : ι → Option κ) :
    Option τ → Prop → Option τ → Prop → Prop
  | stays {entered : Option τ} {kept : Prop} (same : held' g.lock = held g.lock)
    (outside : entered = none → g.part s' = g.part s) :
    Crosses g k s s' held held' entered kept entered kept
  | enters {kept : Prop} (free : held g.lock = none) (taken : held' g.lock = some k) :
    Crosses g k s s' held held' none kept (some (g.part s)) kept
  | leaves {before : τ} {kept : Prop} (given : held' g.lock = none) (same : g.part s' = g.part s) :
    Crosses g k s s' held held' (some before) kept none
      ((kept ∧ (g.whole before → g.whole (g.part s))) ∨ g.whole (g.part s))

section

variable {k other : κ} {held held' : ι → Option κ} {entered' : Option τ}

-- Another party that is in the section stays in it, and finds the part as it was.
theorem Crosses.others (crosses : Crosses g k s s' held held' entered kept entered' kept')
    (inside : entered ≠ none ↔ held g.lock = some k) (differs : other ≠ k) :
    (held' g.lock = some other ↔ held g.lock = some other) ∧
      (held g.lock = some other → g.part s' = g.part s) := by
  cases crosses with
  | stays same outside =>
    refine ⟨by rw [same], fun theirs => outside ?_⟩
    by_contra entered
    have mine := inside.mp entered
    rw [theirs] at mine
    exact differs (Option.some.inj mine)
  | enters free taken =>
    refine ⟨?_, fun theirs => by simp [free] at theirs⟩
    simpa [free, taken] using differs.symm
  | leaves given same =>
    have mine := inside.mp (by simp)
    refine ⟨?_, fun _ => same⟩
    simpa [given, mine] using differs.symm

theorem Crosses.inside (crosses : Crosses g k s s' held held' entered kept entered' kept')
    (inside : entered ≠ none ↔ held g.lock = some k) :
    entered' ≠ none ↔ held' g.lock = some k := by
  cases crosses with
  | stays same outside => rw [inside, same]
  | enters free taken => simp [taken]
  | leaves given same => simp [given]

end

theorem Heeds.passes [DecidableEq ι] {k : κ} {held held' : ι → Option κ} {rest : Task ι σ Bool}
    (heeds : t.Heeds g entered kept s) (order : g.order s) (passes : Passes k held t held' rest) :
    ∃ entered' kept', rest.Heeds g entered' kept' s ∧
      Crosses g k s (rest.advance s).2 held held' entered kept entered' kept' := by
  cases passes with
  | pause time next =>
    have onward := heeds.2 s order fun _ => rfl
    refine ⟨_, _, onward, .stays rfl ?_⟩
    rintro rfl
    exact onward.part_advance
  | acquire free next =>
    obtain ⟨rfl, rfl, -, onward⟩ := heeds
    exact ⟨_, _, onward s order, .enters free (Function.update_self _ _ _)⟩
  | release lock next =>
    obtain ⟨rfl, -, before, rfl, onward⟩ := heeds
    have onward := onward s order rfl
    exact ⟨_, _, onward, .leaves (Function.update_self _ _ _) onward.part_advance⟩

-- A task that holds one lock from its start to its end, and heeds a section in between.
structure Behaves (g : Guard ι σ τ) (lock : ι) (kept : Prop) (t work : Task ι σ Bool) : Prop where
  holds : t = work.holding lock
  uses : work.Uses (· = g.lock)
  heeds : ∀ s, g.order s → work.Heeds g none kept s

end Task

namespace Stage

variable {ι σ τ κ : Type}

-- What a party heeds at its stage, when `first` was kept before it began.
def Heeds (g : Guard ι σ τ) (work : Task ι σ Bool) (first : Prop) (entered : Option τ) (kept : Prop)
    (s : σ) : Stage ι σ Bool → Prop
  | .idle => entered = none ∧ (first → kept) ∧ ∀ s', g.order s' → work.Heeds g none kept s'
  | .busy rest => rest.Heeds g entered kept s
  | .ended b => entered = none ∧ (b = true → kept)

variable {g : Guard ι σ τ} {work : Task ι σ Bool} {entered : Option τ} {first kept : Prop}
  {s s' : σ} {before after : Stage ι σ Bool} {k : κ} {lock : ι} {held held' : ι → Option κ}

theorem Heeds.goes [DecidableEq ι] (heeds : before.Heeds g work first entered kept s) (order : g.order s)
    (apart : lock ≠ g.lock) (goes : Goes k lock work s held before s' held' after) :
    ∃ entered' kept', after.Heeds g work first entered' kept' s' ∧ g.order s' ∧
      Task.Crosses g k s s' held held' entered kept entered' kept' := by
  have others (new : Option κ) : Function.update held lock new g.lock = held g.lock :=
    Function.update_of_ne apart.symm _ _
  cases goes with
  | begins free =>
    obtain ⟨rfl, -, ready⟩ := heeds
    have started := (ready s order).advance
    exact ⟨none, kept, started, started.order (Task.rests_advance _ _),
      .stays (others _) fun _ => (ready s order).part_advance⟩
  | passes passes =>
    obtain ⟨entered', kept', onward, crosses⟩ := Task.Heeds.passes heeds order passes
    exact ⟨entered', kept', onward.advance, onward.advance.order (Task.rests_advance _ _), crosses⟩
  | ends a =>
    obtain ⟨rfl, -, succeeds⟩ := heeds
    exact ⟨none, kept, ⟨rfl, succeeds⟩, order, .stays (others _) fun _ => rfl⟩

theorem Heeds.stable {stage : Stage ι σ Bool} (heeds : stage.Heeds g work first entered kept s)
    (rests : ∀ rest, stage = .busy rest → rest.Rests) (order : g.order s')
    (same : entered ≠ none → g.part s' = g.part s) : stage.Heeds g work first entered kept s' := by
  cases stage with
  | idle => exact heeds
  | busy rest => exact Task.Heeds.stable heeds (rests rest rfl) order same
  | ended b => exact heeds

end Stage

/-! ### Pools -/

-- All parties heed the section, and one at most is in it.
structure Guarded {κ ι σ τ : Type} (g : Guard ι σ τ) (lock : κ → ι) (work : κ → Task ι σ Bool)
    (first : κ → Prop) (pool : Pool κ ι σ Bool) (stage : κ → Stage ι σ Bool) (entered : κ → Option τ)
    (kept : κ → Prop) : Prop where
  staged : Staged (· = g.lock) lock work pool stage
  order : g.order pool.state
  heeds : ∀ k, (stage k).Heeds g (work k) (first k) (entered k) (kept k) pool.state
  inside : ∀ k, entered k ≠ none ↔ pool.holder g.lock = some k
  whole : (∀ k, kept k) → (pool.holder g.lock = none → g.whole (g.part pool.state)) ∧
    ∀ k before, entered k = some before → g.whole before

namespace Guarded

variable {κ ι σ τ : Type} {g : Guard ι σ τ} {lock : κ → ι} {work : κ → Task ι σ Bool}
  {first kept : κ → Prop}

theorem start {s : σ} (order : g.order s)
    (heeds : ∀ k s', g.order s' → (work k).Heeds g none (first k) s')
    (whole : (∀ k, first k) → g.whole (g.part s)) :
    Guarded g lock work first (.start s fun k => (work k).holding (lock k)) (fun _ => .idle)
      (fun _ => none) first where
  staged := .start s lock work
  order := order
  heeds k := ⟨rfl, id, heeds k⟩
  inside k := by simp [Pool.start]
  whole all := ⟨fun _ => whole all, fun _ _ entered => by cases entered⟩

variable {pool next last : Pool κ ι σ Bool} {stage : κ → Stage ι σ Bool} {entered : κ → Option τ}
  {k : κ} {turns : List κ}

-- When nobody is at work and all that have ended have succeeded.
theorem whole_of_quiet (guarded : Guarded g lock work first pool stage entered kept)
    (quiet : ∀ k rest, stage k ≠ .busy rest) (idle : ∀ k, stage k = .idle → first k)
    (succeeded : ∀ k b, stage k = .ended b → b = true) : g.whole (g.part pool.state) := by
  have each (k : κ) : entered k = none ∧ kept k := by
    have heeds := guarded.heeds k
    cases at_k : stage k with
    | idle =>
      rw [at_k] at heeds
      exact ⟨heeds.1, heeds.2.1 (idle k at_k)⟩
    | busy rest => exact absurd at_k (quiet k rest)
    | ended b =>
      rw [at_k] at heeds
      exact ⟨heeds.1, heeds.2 (succeeded k b at_k)⟩
  refine (guarded.whole fun k => (each k).2).1 ?_
  cases held : pool.holder g.lock with
  | none => rfl
  | some k => exact absurd (each k).1 ((guarded.inside k).mpr held)

variable [DecidableEq κ]

-- What is left behind is whole, and so is what is found at the start of a section.
theorem whole_crosses {s' : σ} {held' : ι → Option κ} {entered' : Option τ} {kept' : Prop}
    (guarded : Guarded g lock work first pool stage entered kept)
    (crosses : Task.Crosses g k pool.state s' pool.holder held' (entered k) (kept k) entered' kept')
    (all : ∀ other, Function.update kept k kept' other) :
    (held' g.lock = none → g.whole (g.part s')) ∧
      ∀ other before, Function.update entered k entered' other = some before → g.whole before := by
  have mine : kept' := by simpa using all k
  have whole : kept k → _ := fun own => guarded.whole fun other => by
    by_cases here : other = k
    · rwa [here]
    · simpa [here] using all other
  have inside := guarded.inside k
  generalize at_k : entered k = own at crosses inside
  generalize kept k = ownKept at crosses whole
  cases crosses with
  | stays same outside =>
    obtain ⟨free, others⟩ := whole mine
    rw [← at_k, Function.update_eq_self]
    refine ⟨fun given => ?_, others⟩
    rw [same] at given
    have out : entered k = none := by
      by_contra entered
      have held := (guarded.inside k).mp entered
      rw [given] at held
      cases held
    rw [outside (at_k.symm.trans out)]
    exact free given
  | enters free taken =>
    obtain ⟨found, others⟩ := whole mine
    refine ⟨fun given => by simp [taken] at given, fun other before there => ?_⟩
    by_cases here : other = k
    · subst here
      rw [Function.update_self] at there
      cases there
      exact found free
    · rw [Function.update_of_ne here] at there
      exact others other before there
  | @leaves before _ given same =>
    have held := inside.mp (by simp)
    have left : g.whole (g.part pool.state) := by
      rcases mine with ⟨own, keeps⟩ | whole
      · exact keeps ((whole own).2 k before at_k)
      · exact whole
    refine ⟨fun _ => by rwa [same], fun other before there => ?_⟩
    by_cases here : other = k
    · subst here
      simp at there
    · rw [Function.update_of_ne here] at there
      have theirs := (guarded.inside other).mp (by simp [there])
      rw [held] at theirs
      exact absurd (Option.some.inj theirs).symm here

variable [DecidableEq ι]

theorem turn (apart : ∀ k, lock k ≠ g.lock) (uses : ∀ k, (work k).Uses (· = g.lock))
    (guarded : Guarded g lock work first pool stage entered kept) (turned : pool.turn? k = some next) :
    ∃ stage' entered' kept', Guarded g lock work first next stage' entered' kept' := by
  obtain ⟨after, goes, staged⟩ := guarded.staged.turn apart uses turned
  obtain ⟨entered', kept', heeds, order, crosses⟩ :=
    (guarded.heeds k).goes guarded.order (apart k) goes
  refine ⟨_, Function.update entered k entered', Function.update kept k kept', staged, order,
    fun other => ?_, fun other => ?_, guarded.whole_crosses crosses⟩
  · by_cases here : other = k
    · subst here
      simpa using heeds
    · simp only [Function.update_of_ne here]
      refine (guarded.heeds other).stable (fun rest busy => (guarded.staged.rests other rest busy).1)
        order fun inside => ?_
      exact (crosses.others (guarded.inside k) here).2 ((guarded.inside other).mp inside)
  · by_cases here : other = k
    · subst here
      simpa using crosses.inside (guarded.inside other)
    · rw [Function.update_of_ne here, guarded.inside]
      exact (crosses.others (guarded.inside k) here).1.symm

theorem follow (apart : ∀ k, lock k ≠ g.lock) (uses : ∀ k, (work k).Uses (· = g.lock))
    (guarded : Guarded g lock work first pool stage entered kept)
    (followed : pool.follow turns = some last) :
    ∃ stage' entered' kept', Guarded g lock work first last stage' entered' kept' := by
  induction turns generalizing pool stage entered kept with
  | nil =>
    cases followed
    exact ⟨stage, entered, kept, guarded⟩
  | cons k turns ih =>
    obtain ⟨next, turned, rest⟩ := Option.bind_eq_some_iff.mp followed
    obtain ⟨stage', entered', kept', guarded'⟩ := guarded.turn apart uses turned
    exact ih guarded' rest

end Guarded

end Flowgate
