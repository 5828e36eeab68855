import Flowgate.Task.Basic

/-!
Two tasks at once. One of them runs until it pauses or waits for a lock that the other holds; then
the other one gets its turn. A lock that is released goes to the one that waits for it, which runs
on when its turn comes. When both are held up, time goes on to the end of the earlier pause.
-/

namespace Flowgate

inductive Side where
  | first
  | second
deriving DecidableEq

namespace Side

def other : Side → Side
  | .first => .second
  | .second => .first

end Side

namespace Task

-- Why a task does not run on at once.
inductive Status (ι : Type) where
  | ready
  | waiting (lock : ι)
  | sleeping (wake : Nat)
deriving DecidableEq

-- What two tasks share: the state, the time, whose turn it is, the locks with their holders, and
-- what holds each task up.
structure Shared (ι σ : Type) where
  state : σ
  now : Nat
  turn : Side
  held : List (ι × Side)
  first : Status ι
  second : Status ι

namespace Shared

def start (s : σ) : Shared ι σ :=
  { state := s, now := 0, turn := .first, held := [], first := .ready, second := .ready }

def status (s : Shared ι σ) : Side → Status ι
  | .first => s.first
  | .second => s.second

def setStatus (s : Shared ι σ) (side : Side) (status : Status ι) : Shared ι σ :=
  match side with
  | .first => { s with first := status }
  | .second => { s with second := status }

variable [DecidableEq ι]

def acquire (s : Shared ι σ) (side : Side) (lock : ι) : Shared ι σ :=
  if s.held.any (·.1 = lock) then s.setStatus side (.waiting lock)
  else { s with held := (lock, side) :: s.held }

-- Gives a lock back, or hands it to the other task if that one waits for it.
def release (s : Shared ι σ) (side : Side) (lock : ι) : Shared ι σ :=
  let held := s.held.filter (·.1 ≠ lock)
  if s.status side.other = .waiting lock then
    { s with held := (lock, side.other) :: held }.setStatus side.other .ready
  else { s with held }

-- Pauses a task. A pause of no time does not hold it up.
def sleep (s : Shared ι σ) (side : Side) (time : Nat) : Shared ι σ :=
  if time = 0 then s else s.setStatus side (.sleeping (s.now + time))

def wakeTime : Status ι → Option Nat
  | .sleeping time => some time
  | _ => none

-- Whose step is next, with the time and the turn that this makes: the one whose turn it is, the
-- other one, or the one that wakes first.
def next? (s : Shared ι σ) (firstEnded secondEnded : Bool) : Option (Side × Shared ι σ) :=
  let ended : Side → Bool := fun side => if side = .first then firstEnded else secondEnded
  let runs := fun side => s.status side = .ready && !ended side
  let wake := fun side (time : Nat) =>
    (side, { s with now := time, turn := side }.setStatus side .ready)
  if runs s.turn then some (s.turn, s)
  else if runs s.turn.other then some (s.turn.other, { s with turn := s.turn.other })
  else
    match wakeTime s.first, wakeTime s.second with
    | some a, some b => some (if a ≤ b then wake .first a else wake .second b)
    | some a, none => some (wake .first a)
    | none, some b => some (wake .second b)
    | none, none => none

end Shared

-- One task is what is left of another after a step.
inductive StepOf : Task ι σ α → Task ι σ α → Prop where
  | look (next : σ → Task ι σ α) (s : σ) : StepOf (next s) (.look next)
  | put (s : σ) (next : Task ι σ α) : StepOf next (.put s next)
  | pause (time : Nat) (next : Task ι σ α) : StepOf next (.pause time next)
  | acquire (lock : ι) (next : Task ι σ α) : StepOf next (.acquire lock next)
  | release (lock : ι) (next : Task ι σ α) : StepOf next (.release lock next)

theorem stepOf_wf : WellFounded (StepOf (ι := ι) (σ := σ) (α := α)) := by
  constructor
  intro t
  induction t with
  | done a => exact ⟨_, fun _ step => nomatch step⟩
  | look next ih => exact ⟨_, fun _ step => by cases step; exact ih _⟩
  | put s next ih => exact ⟨_, fun _ step => by cases step; exact ih⟩
  | pause time next ih => exact ⟨_, fun _ step => by cases step; exact ih⟩
  | acquire lock next ih => exact ⟨_, fun _ step => by cases step; exact ih⟩
  | release lock next ih => exact ⟨_, fun _ step => by cases step; exact ih⟩

instance : WellFoundedRelation (Task ι σ α) := ⟨StepOf, stepOf_wf⟩

def result? : Task ι σ α → Option α
  | .done a => some a
  | _ => none

def ended (t : Task ι σ α) : Bool := t.result?.isSome

-- Runs two tasks at once. A result is missing only if each waits for a lock of the other.
def together [DecidableEq ι] (s : Shared ι σ) (a : Task ι σ α) (b : Task ι σ β) :
    (Option α × Option β) × σ :=
  match s.next? a.ended b.ended with
  | none => ((a.result?, b.result?), s.state)
  | some (.first, s) =>
    match a with
    | .done a => ((some a, b.result?), s.state)
    | .look next => together s (next s.state) b
    | .put state next => together { s with state } next b
    | .pause time next => together (s.sleep .first time) next b
    | .acquire lock next => together (s.acquire .first lock) next b
    | .release lock next => together (s.release .first lock) next b
  | some (.second, s) =>
    match b with
    | .done b => ((a.result?, some b), s.state)
    | .look next => together s a (next s.state)
    | .put state next => together { s with state } a next
    | .pause time next => together (s.sleep .second time) a next
    | .acquire lock next => together (s.acquire .second lock) a next
    | .release lock next => together (s.release .second lock) a next
termination_by (a, b)
decreasing_by
  · exact Prod.Lex.left _ _ (.look _ _)
  · exact Prod.Lex.left _ _ (.put _ _)
  · exact Prod.Lex.left _ _ (.pause _ _)
  · exact Prod.Lex.left _ _ (.acquire _ _)
  · exact Prod.Lex.left _ _ (.release _ _)
  · exact Prod.Lex.right _ (.look _ _)
  · exact Prod.Lex.right _ (.put _ _)
  · exact Prod.Lex.right _ (.pause _ _)
  · exact Prod.Lex.right _ (.acquire _ _)
  · exact Prod.Lex.right _ (.release _ _)

end Task

end Flowgate
