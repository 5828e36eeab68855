import Flowgate.Task.Basic

/-!
Tasks that may be stopped. A limit stops a task at a pause, so the states in which it pauses are, with
the one at its end, all that a limit can leave behind. A task moves along a relation if all of these
are related to the state it starts from; and one that pauses no longer than it may is not stopped.
-/

namespace Flowgate.Task

-- The states in which a task that runs alone pauses.
def pauses : Task ι σ α → σ → List σ
  | .done _, _ => []
  | .look next, s => (next s).pauses s
  | .put s next, _ => next.pauses s
  | .pause _ next, s => s :: next.pauses s
  | .acquire _ next, s => next.pauses s
  | .release _ next, s => next.pauses s

-- How long it pauses in all.
def time : Task ι σ α → σ → Nat
  | .done _, _ => 0
  | .look next, s => (next s).time s
  | .put s next, _ => next.time s
  | .pause time next, s => time + next.time s
  | .acquire _ next, s => next.time s
  | .release _ next, s => next.time s

theorem pauses_bind (t : Task ι σ α) (f : α → Task ι σ β) (s : σ) :
    (t.bind f).pauses s = t.pauses s ++ (f (t.run s).1).pauses (t.run s).2 := by
  induction t generalizing s with
  | done a => rfl
  | look next ih => exact ih s s
  | put s' next ih => exact ih s'
  | pause time next ih => simp [bind, pauses, run, ih]
  | acquire lock next ih => exact ih s
  | release lock next ih => exact ih s

theorem time_bind (t : Task ι σ α) (f : α → Task ι σ β) (s : σ) :
    (t.bind f).time s = t.time s + (f (t.run s).1).time (t.run s).2 := by
  induction t generalizing s with
  | done a => simp [bind, time, run]
  | look next ih => exact ih s s
  | put s' next ih => exact ih s'
  | pause time next ih => simp [bind, Task.time, run, ih, Nat.add_assoc]
  | acquire lock next ih => exact ih s
  | release lock next ih => exact ih s

-- A limit that is reached leaves the task where it paused.
theorem run_within_pauses (late : α) (left : Nat) (t : Task ι σ α) (s : σ) :
    (t.within late left).run s = t.run s ∨
      ((t.within late left).run s).1 = late ∧ ((t.within late left).run s).2 ∈ t.pauses s := by
  induction t generalizing left s with
  | done a => exact .inl rfl
  | look next ih => exact ih s left s
  | put s' next ih => exact ih left s'
  | pause time next ih =>
    rw [within]
    split
    · exact (ih _ s).imp_right fun ⟨stopped, paused⟩ => ⟨stopped, List.mem_cons_of_mem _ paused⟩
    · exact .inr ⟨rfl, List.mem_cons_self⟩
  | acquire lock next ih => exact ih left s
  | release lock next ih => exact ih left s

theorem pauses_within (late : α) (left : Nat) (t : Task ι σ α) (s : σ) :
    ∀ s' ∈ (t.within late left).pauses s, s' ∈ t.pauses s := by
  induction t generalizing left s with
  | done a => exact fun _ => id
  | look next ih => exact ih s left s
  | put s' next ih => exact ih left s'
  | pause time next ih =>
    intro s' member
    rw [within] at member
    split at member
    · rcases List.mem_cons.mp member with rfl | later
      · exact List.mem_cons_self
      · exact List.mem_cons_of_mem _ (ih _ s s' later)
    · rw [List.mem_singleton.mp member]
      exact List.mem_cons_self
  | acquire lock next ih => exact ih left s
  | release lock next ih => exact ih left s

theorem run_within_of_time (late : α) {left : Nat} {t : Task ι σ α} {s : σ} (short : t.time s ≤ left) :
    (t.within late left).run s = t.run s := by
  induction t generalizing left s with
  | done a => rfl
  | look next ih => exact ih s short
  | put s' next ih => exact ih short
  | pause time next ih =>
    rw [Task.time] at short
    have first : time ≤ left := by omega
    rw [within, if_pos first]
    exact ih (by omega)
  | acquire lock next ih => exact ih short
  | release lock next ih => exact ih short

-- What ends before the limit has no more pauses than the limit allows.
theorem time_le_or_late (late : α) (left : Nat) (t : Task ι σ α) (s : σ) :
    t.time s ≤ left ∨ ((t.within late left).run s).1 = late := by
  induction t generalizing left s with
  | done a => exact .inl (Nat.zero_le left)
  | look next ih => exact ih s left s
  | put s' next ih => exact ih left s'
  | pause time next ih =>
    rw [within, Task.time]
    split
    · exact (ih (left - time) s).imp_left fun short => by omega
    · exact .inr rfl
  | acquire lock next ih => exact ih left s
  | release lock next ih => exact ih left s

/-! ### Relations that tasks move along -/

variable {R : σ → σ → Prop} {s : σ}

-- Wherever the task is stopped, it has moved along the relation.
structure Moves (R : σ → σ → Prop) (t : Task ι σ α) (s : σ) : Prop where
  ends : R s (t.run s).2
  pauses : ∀ s' ∈ t.pauses s, R s s'

theorem moves_done (refl : ∀ s, R s s) (a : α) : Moves R (.done a : Task ι σ α) s :=
  ⟨refl s, fun _ none => absurd none List.not_mem_nil⟩

theorem Moves.look {next : σ → Task ι σ α} (moves : Moves R (next s) s) : Moves R (.look next) s :=
  ⟨moves.ends, moves.pauses⟩

theorem moves_act {f : σ → α × σ} (moves : R s (f s).2) : Moves R (.act f : Task ι σ α) s :=
  ⟨moves, fun _ none => absurd none List.not_mem_nil⟩

theorem Moves.bind {t : Task ι σ α} {f : α → Task ι σ β} (first : Moves R t s)
    (trans : ∀ a b c, R a b → R b c → R a c) (next : Moves R (f (t.run s).1) (t.run s).2) :
    Moves R (t.bind f) s where
  ends := by
    rw [run_bind]
    exact trans _ _ _ first.ends next.ends
  pauses s' member := by
    rw [pauses_bind, List.mem_append] at member
    rcases member with here | later
    · exact first.pauses s' here
    · exact trans _ _ _ first.ends (next.pauses s' later)

-- What a task with a limit does, whether the limit is reached or not.
theorem Moves.within {t : Task ι σ α} (moves : Moves R t s) (late : α) (left : Nat) :
    R s ((t.within late left).run s).2 := by
  rcases run_within_pauses late left t s with same | ⟨-, paused⟩
  · rw [same]
    exact moves.ends
  · exact moves.pauses _ paused

end Flowgate.Task
