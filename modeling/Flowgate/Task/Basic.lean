/-!
Tasks: computations over a state that may pause and may hold locks. A task run alone never waits
(`Task.run`); of a task with a limit on its pauses, `Task.within` keeps what was done when the limit
is reached and gives another result.
-/

namespace Flowgate

-- A computation over states `σ`, with locks named by `ι`, that ends in a value of `α`.
inductive Task (ι σ α : Type) where
  | done (a : α)
  | look (next : σ → Task ι σ α)
  | put (s : σ) (next : Task ι σ α)
  | pause (time : Nat) (next : Task ι σ α)
  | acquire (lock : ι) (next : Task ι σ α)
  | release (lock : ι) (next : Task ι σ α)

namespace Task

def bind : Task ι σ α → (α → Task ι σ β) → Task ι σ β
  | .done a, f => f a
  | .look next, f => .look fun s => (next s).bind f
  | .put s next, f => .put s (next.bind f)
  | .pause time next, f => .pause time (next.bind f)
  | .acquire lock next, f => .acquire lock (next.bind f)
  | .release lock next, f => .release lock (next.bind f)

instance : Monad (Task ι σ) where
  pure := .done
  bind := .bind

def current : Task ι σ σ := .look .done

def act (f : σ → α × σ) : Task ι σ α := .look fun s => .put (f s).2 (.done (f s).1)

def wait (time : Nat) : Task ι σ Unit := .pause time (.done ())

-- A task with a lock held from its start to its end.
def holding (lock : ι) (t : Task ι σ α) : Task ι σ α :=
  .acquire lock (t.bind fun a => .release lock (.done a))

def onPart (part : τ → σ) (update : σ → τ → τ) : Task ι σ α → Task ι τ α
  | .done a => .done a
  | .look next => .look fun t => (next (part t)).onPart part update
  | .put s next => .look fun t => .put (update s t) (next.onPart part update)
  | .pause time next => .pause time (next.onPart part update)
  | .acquire lock next => .acquire lock (next.onPart part update)
  | .release lock next => .release lock (next.onPart part update)

-- Stops a task at its first pause that goes beyond the time that is left. What it did before stays
-- done, and `late` is its result.
def within (late : α) : Nat → Task ι σ α → Task ι σ α
  | _, .done a => .done a
  | left, .look next => .look fun s => within late left (next s)
  | left, .put s next => .put s (within late left next)
  | left, .pause time next =>
    if time ≤ left then .pause time (within late (left - time) next)
    else .pause left (.done late)
  | left, .acquire lock next => .acquire lock (within late left next)
  | left, .release lock next => .release lock (within late left next)

-- The result of a task that runs alone, and the state after it.
def run : Task ι σ α → σ → α × σ
  | .done a, s => (a, s)
  | .look next, s => (next s).run s
  | .put s next, _ => next.run s
  | .pause _ next, s => next.run s
  | .acquire _ next, s => next.run s
  | .release _ next, s => next.run s

theorem run_bind (t : Task ι σ α) (f : α → Task ι σ β) (s : σ) :
    (t.bind f).run s = (f (t.run s).1).run (t.run s).2 := by
  induction t generalizing s with
  | done a => rfl
  | look next ih => exact ih s s
  | put s' next ih => exact ih s'
  | pause time next ih => exact ih s
  | acquire lock next ih => exact ih s
  | release lock next ih => exact ih s

theorem run_holding (lock : ι) (t : Task ι σ α) (s : σ) : (t.holding lock).run s = t.run s := by
  simp [holding, run, run_bind]

theorem run_onPart (part : τ → σ) (update : σ → τ → τ)
    (part_update : ∀ s t, part (update s t) = s) (t : Task ι σ α) (s : τ) :
    ((t.onPart part update).run s).1 = (t.run (part s)).1 ∧
      part ((t.onPart part update).run s).2 = (t.run (part s)).2 := by
  induction t generalizing s with
  | done a => exact ⟨rfl, rfl⟩
  | look next ih => exact ih (part s) s
  | put s' next ih =>
    have step := ih (update s' s)
    rw [part_update] at step
    exact step
  | pause time next ih => exact ih s
  | acquire lock next ih => exact ih s
  | release lock next ih => exact ih s

end Task

end Flowgate
