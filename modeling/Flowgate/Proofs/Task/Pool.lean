import Flowgate.Task.Pair
import Mathlib.Data.List.Nodup
import Mathlib.Logic.Function.Basic

/-!
Parties at work on one state, in any order of turns. In its turn a party goes on over the pause or the
lock at which it stands and runs to the next one, so it is only there that others come in between.
Parties that hold one lock from their start to their end work one after the other.
-/

namespace Flowgate

namespace Task

variable {ι σ τ α β γ κ : Type}

theorem bind_assoc (t : Task ι σ α) (f : α → Task ι σ β) (g : β → Task ι σ γ) :
    (t.bind f).bind g = t.bind fun a => (f a).bind g := by
  induction t with
  | done a => rfl
  | look next ih => exact congrArg Task.look (funext ih)
  | put s next ih => exact congrArg (Task.put s) ih
  | pause time next ih => exact congrArg (Task.pause time) ih
  | acquire lock next ih => exact congrArg (Task.acquire lock) ih
  | release lock next ih => exact congrArg (Task.release lock) ih

theorem done_of_result {t : Task ι σ α} {a : α} (ended : t.result? = some a) : t = .done a := by
  cases t with
  | done b =>
    cases ended
    rfl
  | _ => cases ended

/-! ### Locks -/

-- The locks that a task takes and gives back are of a kind.
def Uses (kind : ι → Prop) : Task ι σ α → Prop
  | .done _ => True
  | .look next => ∀ s, (next s).Uses kind
  | .put _ next => next.Uses kind
  | .pause _ next => next.Uses kind
  | .acquire lock next => kind lock ∧ next.Uses kind
  | .release lock next => kind lock ∧ next.Uses kind

theorem Uses.bind {kind : ι → Prop} {t : Task ι σ α} {f : α → Task ι σ β} (first : t.Uses kind)
    (next : ∀ a, (f a).Uses kind) : (t.bind f).Uses kind := by
  induction t with
  | done a => exact next a
  | look rest ih => exact fun s => ih s (first s)
  | put s rest ih => exact ih first
  | pause time rest ih => exact ih first
  | acquire lock rest ih => exact ⟨first.1, ih first.2⟩
  | release lock rest ih => exact ⟨first.1, ih first.2⟩

theorem Uses.onPart {kind : ι → Prop} {t : Task ι σ α} (uses : t.Uses kind) (part : τ → σ)
    (update : σ → τ → τ) : (t.onPart part update).Uses kind := by
  induction t with
  | done a => trivial
  | look rest ih => exact fun s => ih (part s) (uses (part s))
  | put s rest ih => exact fun _ => ih uses
  | pause time rest ih => exact ih uses
  | acquire lock rest ih => exact ⟨uses.1, ih uses.2⟩
  | release lock rest ih => exact ⟨uses.1, ih uses.2⟩

theorem Uses.within {kind : ι → Prop} {t : Task ι σ α} (uses : t.Uses kind) (late : α) (left : Nat) :
    (t.within late left).Uses kind := by
  induction t generalizing left with
  | done a => trivial
  | look rest ih => exact fun s => ih s (uses s) left
  | put s rest ih => exact ih uses left
  | pause time rest ih =>
    rw [Task.within]
    split
    · exact ih uses _
    · trivial
  | acquire lock rest ih => exact ⟨uses.1, ih uses.2 left⟩
  | release lock rest ih => exact ⟨uses.1, ih uses.2 left⟩

/-! ### Turns -/

-- What is left of a task at its next pause or lock, and the state there.
def advance : Task ι σ α → σ → Task ι σ α × σ
  | .look next, s => (next s).advance s
  | .put s next, _ => next.advance s
  | .done a, s => (.done a, s)
  | .pause time next, s => (.pause time next, s)
  | .acquire lock next, s => (.acquire lock next, s)
  | .release lock next, s => (.release lock next, s)

inductive Rests : Task ι σ α → Prop
  | done (a : α) : Rests (.done a)
  | pause (time : Nat) (next : Task ι σ α) : Rests (.pause time next)
  | acquire (lock : ι) (next : Task ι σ α) : Rests (.acquire lock next)
  | release (lock : ι) (next : Task ι σ α) : Rests (.release lock next)

theorem rests_advance (t : Task ι σ α) (s : σ) : (t.advance s).1.Rests := by
  induction t generalizing s with
  | done a => exact .done a
  | look next ih => exact ih s s
  | put s' next ih => exact ih s'
  | pause time next => exact .pause time next
  | acquire lock next => exact .acquire lock next
  | release lock next => exact .release lock next

theorem run_advance (t : Task ι σ α) (s : σ) : (t.advance s).1.run (t.advance s).2 = t.run s := by
  induction t generalizing s with
  | look next ih => exact ih s s
  | put s' next ih => exact ih s'
  | _ => rfl

theorem Uses.advance {kind : ι → Prop} {t : Task ι σ α} (uses : t.Uses kind) (s : σ) :
    (t.advance s).1.Uses kind := by
  induction t generalizing s with
  | look next ih => exact ih s (uses s) s
  | put s' next ih => exact ih uses s'
  | _ => exact uses

-- A task that gives a lock back at its end.
def finishing (lock : ι) (t : Task ι σ α) : Task ι σ α := t.bind fun a => .release lock (.done a)

theorem holding_bind (lock : ι) (t : Task ι σ α) (f : α → β) :
    ((t.holding lock).bind fun a => .done (f a)) = (t.bind fun a => .done (f a)).holding lock := by
  show Task.acquire lock ((t.bind _).bind _) = Task.acquire lock ((t.bind _).bind _)
  rw [bind_assoc, bind_assoc]
  rfl

theorem advance_finishing (lock : ι) (t : Task ι σ α) (s : σ) :
    (t.finishing lock).advance s = ((t.advance s).1.finishing lock, (t.advance s).2) := by
  induction t generalizing s with
  | look next ih => exact ih s s
  | put s' next ih => exact ih s'
  | _ => rfl

theorem Rests.finishing {t : Task ι σ α} (rests : t.Rests) (lock : ι) : (t.finishing lock).Rests := by
  cases rests with
  | done a => exact .release lock (.done a)
  | pause time next => exact .pause time _
  | acquire other next => exact .acquire other _
  | release other next => exact .release other _

section

variable [DecidableEq ι]

-- What a party passes in its turn, with the holders of the locks before and after.
inductive Passes (k : κ) (held : ι → Option κ) :
    Task ι σ α → (ι → Option κ) → Task ι σ α → Prop
  | pause (time : Nat) (next : Task ι σ α) : Passes k held (.pause time next) held next
  | acquire {lock : ι} (free : held lock = none) (next : Task ι σ α) :
    Passes k held (.acquire lock next) (Function.update held lock (some k)) next
  | release (lock : ι) (next : Task ι σ α) :
    Passes k held (.release lock next) (Function.update held lock none) next

variable {k : κ} {held held' : ι → Option κ} {t rest : Task ι σ α}

theorem Passes.run (passes : Passes k held t held' rest) (s : σ) : rest.run s = t.run s := by
  cases passes with
  | pause time next => rfl
  | acquire free next => rfl
  | release lock next => rfl

theorem Passes.uses {kind : ι → Prop} (passes : Passes k held t held' rest) (uses : t.Uses kind) :
    rest.Uses kind ∧ ∀ lock, ¬kind lock → held' lock = held lock := by
  cases passes with
  | pause time next => exact ⟨uses, fun _ _ => rfl⟩
  | acquire free next =>
    refine ⟨uses.2, fun lock other => Function.update_of_ne ?_ _ _⟩
    rintro rfl
    exact other uses.1
  | release own next =>
    refine ⟨uses.2, fun lock other => Function.update_of_ne ?_ _ _⟩
    rintro rfl
    exact other uses.1

theorem Passes.finishing {lock : ι} (passes : Passes k held (t.finishing lock) held' rest) :
    (∃ a, t = .done a ∧ held' = Function.update held lock none ∧ rest = .done a) ∨
      ∃ rest', Passes k held t held' rest' ∧ rest = rest'.finishing lock := by
  cases t with
  | done a =>
    cases passes
    exact .inl ⟨a, rfl, rfl, rfl⟩
  | look next => cases passes
  | put s next => cases passes
  | pause time next =>
    cases passes
    exact .inr ⟨next, .pause time next, rfl⟩
  | acquire other next =>
    cases passes with
    | acquire free => exact .inr ⟨next, .acquire free next, rfl⟩
  | release other next =>
    cases passes
    exact .inr ⟨next, .release other next, rfl⟩

end

end Task

-- Parties with what is left of their tasks, and who holds each lock.
structure Pool (κ ι σ α : Type) where
  state : σ
  holder : ι → Option κ
  tasks : κ → Task ι σ α

namespace Pool

variable {κ ι σ α : Type}

def start (s : σ) (tasks : κ → Task ι σ α) : Pool κ ι σ α :=
  { state := s, holder := fun _ => none, tasks }

variable [DecidableEq κ]

def goOn (pool : Pool κ ι σ α) (k : κ) (held : ι → Option κ) (t : Task ι σ α) : Pool κ ι σ α where
  state := (t.advance pool.state).2
  holder := held
  tasks := Function.update pool.tasks k (t.advance pool.state).1

theorem goOn_finishing (pool : Pool κ ι σ α) (k : κ) (held : ι → Option κ) (lock : ι)
    (t : Task ι σ α) :
    pool.goOn k held (t.finishing lock) =
      { state := (t.advance pool.state).2
        holder := held
        tasks := Function.update pool.tasks k ((t.advance pool.state).1.finishing lock) } := by
  rw [goOn, Task.advance_finishing]

variable [DecidableEq ι]

-- The turn of a party, unless it has ended or waits for a lock.
def turn? (pool : Pool κ ι σ α) (k : κ) : Option (Pool κ ι σ α) :=
  match pool.tasks k with
  | .done _ => none
  | .pause _ next => some (pool.goOn k pool.holder next)
  | .acquire lock next =>
    if pool.holder lock = none then
      some (pool.goOn k (Function.update pool.holder lock (some k)) next)
    else none
  | .release lock next => some (pool.goOn k (Function.update pool.holder lock none) next)
  | t => some (pool.goOn k pool.holder t)

def follow (pool : Pool κ ι σ α) (turns : List κ) : Option (Pool κ ι σ α) := turns.foldlM turn? pool

variable {pool next last : Pool κ ι σ α} {k : κ} {turns : List κ}

theorem turn_passes (rests : (pool.tasks k).Rests) (turned : pool.turn? k = some next) :
    ∃ held t, Task.Passes k pool.holder (pool.tasks k) held t ∧ next = pool.goOn k held t := by
  unfold turn? at turned
  generalize pool.tasks k = t at rests turned ⊢
  cases rests with
  | done a => cases turned
  | pause time rest =>
    cases turned
    exact ⟨_, _, .pause time rest, rfl⟩
  | acquire lock rest =>
    dsimp only at turned
    split at turned
    · rename_i free
      cases turned
      exact ⟨_, _, .acquire free rest, rfl⟩
    · cases turned
  | release lock rest =>
    cases turned
    exact ⟨_, _, .release lock rest, rfl⟩

-- A party that has no turn stays as it is.
theorem turn_other {other : κ} (apart : k ≠ other) (turned : pool.turn? other = some next) :
    next.tasks k = pool.tasks k := by
  have kept (held : ι → Option κ) (t : Task ι σ α) :
      (pool.goOn other held t).tasks k = pool.tasks k :=
    Function.update_of_ne apart _ _
  unfold turn? at turned
  split at turned
  · cases turned
  · cases turned
    exact kept _ _
  · split at turned
    · cases turned
      exact kept _ _
    · cases turned
  · cases turned
    exact kept _ _
  · cases turned
    exact kept _ _

theorem follow_other (apart : k ∉ turns) (followed : pool.follow turns = some last) :
    last.tasks k = pool.tasks k := by
  induction turns generalizing pool with
  | nil =>
    cases followed
    rfl
  | cons other turns ih =>
    obtain ⟨next, turned, followed⟩ := Option.bind_eq_some_iff.mp followed
    rw [List.mem_cons, not_or] at apart
    exact (ih apart.2 followed).trans (turn_other apart.1 turned)

-- A party that has ended has no turn.
theorem follow_done {a : α} (ended : pool.tasks k = .done a) (followed : pool.follow turns = some last) :
    last.tasks k = .done a := by
  induction turns generalizing pool with
  | nil =>
    cases followed
    exact ended
  | cons other turns ih =>
    obtain ⟨next, turned, followed⟩ := Option.bind_eq_some_iff.mp followed
    have apart : k ≠ other := by
      rintro rfl
      rw [turn?, ended] at turned
      cases turned
    exact ih ((turn_other apart turned).trans ended) followed

end Pool

/-! ### Parties that hold a lock -/

-- How far a party is that holds a lock from its start to its end.
inductive Stage (ι σ α : Type) where
  | idle
  | busy (rest : Task ι σ α)
  | ended (a : α)

namespace Stage

variable {κ ι σ α : Type}

def task (lock : ι) (work : Task ι σ α) : Stage ι σ α → Task ι σ α
  | .idle => work.holding lock
  | .busy rest => rest.finishing lock
  | .ended a => .done a

variable [DecidableEq ι]

-- A turn of such a party, with the state and the holders of the locks before and after.
inductive Goes (k : κ) (lock : ι) (work : Task ι σ α) (s : σ) (held : ι → Option κ) :
    Stage ι σ α → σ → (ι → Option κ) → Stage ι σ α → Prop
  | begins (free : held lock = none) :
    Goes k lock work s held .idle (work.advance s).2 (Function.update held lock (some k))
      (.busy (work.advance s).1)
  | passes {rest t : Task ι σ α} {held' : ι → Option κ} (passes : Task.Passes k held rest held' t) :
    Goes k lock work s held (.busy rest) (t.advance s).2 held' (.busy (t.advance s).1)
  | ends (a : α) :
    Goes k lock work s held (.busy (.done a)) s (Function.update held lock none) (.ended a)

section

variable {k : κ} {lock : ι} {work : Task ι σ α} {s s' : σ} {held held' : ι → Option κ}
  {before after : Stage ι σ α} {kind : ι → Prop}

theorem Goes.rest (goes : Goes k lock work s held before s' held' after) (uses : work.Uses kind)
    (used : ∀ rest, before = .busy rest → rest.Uses kind) (apart : ¬kind lock)
    (holds : ∀ rest, before = .busy rest → held lock = some k) {rest : Task ι σ α}
    (busy : after = .busy rest) : rest.Rests ∧ rest.Uses kind ∧ held' lock = some k := by
  cases goes with
  | begins free =>
    cases busy
    exact ⟨Task.rests_advance _ _, uses.advance _, Function.update_self _ _ _⟩
  | passes passes =>
    cases busy
    obtain ⟨uses', others⟩ := passes.uses (used _ rfl)
    exact ⟨Task.rests_advance _ _, uses'.advance _, (others lock apart).trans (holds _ rfl)⟩
  | ends a => cases busy

-- A lock of another party stays with it.
theorem Goes.others (goes : Goes k lock work s held before s' held' after)
    (used : ∀ rest, before = .busy rest → rest.Uses kind)
    (holds : ∀ rest, before = .busy rest → held lock = some k) {other : κ} (differs : other ≠ k)
    {lock' : ι} (apart : ¬kind lock') (theirs : held lock' = some other) :
    held' lock' = some other := by
  have kept (new : Option κ) (mine : held lock ≠ some other) :
      Function.update held lock new lock' = some other := by
    rw [Function.update_of_ne, theirs]
    rintro rfl
    exact mine theirs
  cases goes with
  | begins free => exact kept _ (by simp [free])
  | passes passes => exact ((passes.uses (used _ rfl)).2 lock' apart).trans theirs
  | ends a => exact kept _ (by simpa [holds _ rfl] using differs.symm)

end

end Stage

-- The parties of a pool by their stages. The locks that they take at their work are of another kind.
structure Staged {κ ι σ α : Type} (kind : ι → Prop) (lock : κ → ι) (work : κ → Task ι σ α)
    (pool : Pool κ ι σ α) (stage : κ → Stage ι σ α) : Prop where
  tasks : ∀ k, pool.tasks k = (stage k).task (lock k) (work k)
  rests : ∀ k rest, stage k = .busy rest → rest.Rests ∧ rest.Uses kind
  holds : ∀ k rest, stage k = .busy rest → pool.holder (lock k) = some k

-- The works of some parties, one after the other, each with success.
def Ordered {κ ι σ : Type} (work : κ → Task ι σ Bool) : List κ → σ → σ → Prop
  | [], s, s' => s' = s
  | k :: order, s, s' => ∃ next, (work k).run s = (true, next) ∧ Ordered work order next s'

-- The parties that have not begun, in an order in which their works lead from one state to another.
structure Serial {κ ι σ : Type} (work : κ → Task ι σ Bool) (stage : κ → Stage ι σ Bool)
    (order : List κ) (s s' : σ) : Prop where
  nodup : order.Nodup
  idle : ∀ k, k ∈ order ↔ stage k = .idle
  ordered : Ordered work order s s'

namespace Serial

variable {κ ι σ : Type} [DecidableEq κ] {work : κ → Task ι σ Bool} {stage : κ → Stage ι σ Bool}
  {order : List κ} {s s' last : σ} {k : κ} {after : Stage ι σ Bool}

theorem of_update (serial : Serial work (Function.update stage k after) order s last)
    (began : stage k ≠ .idle) (begins : after ≠ .idle) : Serial work stage order s last := by
  refine ⟨serial.nodup, fun other => ?_, serial.ordered⟩
  rw [serial.idle]
  by_cases here : other = k
  · simp [here, began, begins]
  · simp [here]

theorem cons {rest : Task ι σ Bool}
    (serial : Serial work (Function.update stage k (.busy rest)) order s' last)
    (idle : stage k = .idle) (ran : (work k).run s = (true, s')) :
    Serial work stage (k :: order) s last := by
  have apart : k ∉ order := by
    rw [serial.idle]
    simp
  refine ⟨List.nodup_cons.mpr ⟨apart, serial.nodup⟩, fun other => ?_, s', ran, serial.ordered⟩
  rw [List.mem_cons, serial.idle]
  by_cases here : other = k
  · simp [here, idle]
  · simp [here]

end Serial

namespace Staged

variable {κ ι σ α : Type} {kind : ι → Prop} {lock : κ → ι}

theorem start (s : σ) (lock : κ → ι) (work : κ → Task ι σ α) :
    Staged kind lock work (.start s fun k => (work k).holding (lock k)) fun _ => .idle where
  tasks _ := rfl
  rests _ _ busy := by cases busy
  holds _ _ busy := by cases busy

theorem ended_of_done {work : κ → Task ι σ Bool} {pool : Pool κ ι σ Bool} {stage : κ → Stage ι σ Bool}
    (staged : Staged kind lock work pool stage) {k : κ} {b : Bool}
    (done : pool.tasks k = .done b) : stage k = .ended b := by
  have ended := staged.tasks k
  rw [done] at ended
  cases at_k : stage k with
  | idle =>
    rw [at_k] at ended
    cases ended
  | busy rest =>
    rw [at_k] at ended
    cases rest <;> cases ended
  | ended a =>
    rw [at_k] at ended
    cases ended
    rfl

-- A task that takes its lock has not begun, since its work does not take it.
theorem idle_of_holding {work : κ → Task ι σ α} {pool : Pool κ ι σ α} {stage : κ → Stage ι σ α}
    (apart : ∀ k, ¬kind (lock k)) (staged : Staged kind lock work pool stage) {k : κ}
    (waits : pool.tasks k = (work k).holding (lock k)) : stage k = .idle := by
  have here := staged.tasks k
  rw [waits] at here
  cases at_k : stage k with
  | idle => rfl
  | busy rest =>
    rw [at_k] at here
    obtain ⟨-, uses⟩ := staged.rests k rest at_k
    cases rest with
    | acquire other rest =>
      obtain rfl := (Task.acquire.inj here).1
      exact absurd uses.1 (apart k)
    | _ => cases here
  | ended a =>
    rw [at_k] at here
    cases here

theorem busy_unique {work : κ → Task ι σ Bool} {pool : Pool κ ι σ Bool} {stage : κ → Stage ι σ Bool}
    {own : ι} (staged : Staged kind lock work pool stage)
    (same : ∀ k, (∀ a, stage k ≠ .ended a) → lock k = own) {k other : κ} {rest rest' : Task ι σ Bool}
    (busy : stage k = .busy rest) (busy' : stage other = .busy rest') : k = other := by
  have held := staged.holds k rest busy
  have held' := staged.holds other rest' busy'
  rw [same k (by simp [busy])] at held
  rw [same other (by simp [busy']), held] at held'
  exact Option.some.inj held'

variable [DecidableEq κ] [DecidableEq ι]

section

variable {work : κ → Task ι σ α} {pool next : Pool κ ι σ α} {stage : κ → Stage ι σ α} {k : κ}

theorem goes (staged : Staged kind lock work pool stage) (turned : pool.turn? k = some next) :
    ∃ after, Stage.Goes k (lock k) (work k) pool.state pool.holder (stage k) next.state next.holder
        after ∧
      next.tasks = Function.update pool.tasks k (after.task (lock k) (work k)) := by
  have here := staged.tasks k
  cases at_k : stage k with
  | idle =>
    rw [at_k] at here
    obtain ⟨held, t, passes, rfl⟩ := Pool.turn_passes (here ▸ .acquire _ _) turned
    rw [here] at passes
    cases passes with
    | acquire free =>
      rw [← Task.finishing, Pool.goOn_finishing]
      exact ⟨_, .begins free, rfl⟩
  | busy rest =>
    rw [at_k] at here
    have rests := (staged.rests k rest at_k).1
    obtain ⟨held, t, passes, rfl⟩ := Pool.turn_passes (here ▸ rests.finishing (lock k)) turned
    rw [here] at passes
    rcases passes.finishing with ⟨a, rfl, rfl, rfl⟩ | ⟨rest', onward, rfl⟩
    · exact ⟨_, .ends a, rfl⟩
    · rw [Pool.goOn_finishing]
      exact ⟨_, .passes onward, rfl⟩
  | ended a =>
    rw [at_k] at here
    rw [Pool.turn?, here] at turned
    cases turned

theorem turn (apart : ∀ k, ¬kind (lock k)) (uses : ∀ k, (work k).Uses kind)
    (staged : Staged kind lock work pool stage) (turned : pool.turn? k = some next) :
    ∃ after, Stage.Goes k (lock k) (work k) pool.state pool.holder (stage k) next.state next.holder
        after ∧
      Staged kind lock work next (Function.update stage k after) := by
  obtain ⟨after, goes, tasks⟩ := staged.goes turned
  have used : ∀ rest, stage k = .busy rest → rest.Uses kind :=
    fun rest busy => (staged.rests k rest busy).2
  refine ⟨after, goes, fun other => ?_, fun other rest busy => ?_, fun other rest busy => ?_⟩
  · rw [tasks]
    by_cases here : other = k
    · subst here
      simp
    · simpa [here] using staged.tasks other
  · by_cases here : other = k
    · subst here
      rw [Function.update_self] at busy
      exact (goes.rest (uses other) used (apart other) (staged.holds other) busy).imp_right And.left
    · rw [Function.update_of_ne here] at busy
      exact staged.rests other rest busy
  · by_cases here : other = k
    · subst here
      rw [Function.update_self] at busy
      exact (goes.rest (uses other) used (apart other) (staged.holds other) busy).2.2
    · rw [Function.update_of_ne here] at busy
      exact goes.others used (staged.holds k) here (apart other) (staged.holds other rest busy)

end

section

variable {work : κ → Task ι σ Bool} {pool next last : Pool κ ι σ Bool} {stage : κ → Stage ι σ Bool}
  {turns : List κ} {own : ι}

-- Who holds the lock that all of them need has the turn.
theorem turn_of_busy (staged : Staged kind lock work pool stage)
    (same : ∀ k, (∀ a, stage k ≠ .ended a) → lock k = own) {k other : κ} {rest : Task ι σ Bool}
    (busy : stage k = .busy rest) (turned : pool.turn? other = some next) : k = other := by
  obtain ⟨after, goes, -⟩ := staged.goes turned
  generalize at_other : stage other = before at goes
  generalize next.state = s, next.holder = holder at goes
  cases goes with
  | begins free =>
    have held := staged.holds k rest busy
    rw [same k (by simp [busy])] at held
    rw [same other (by simp [at_other]), held] at free
    cases free
  | passes => exact staged.busy_unique same busy at_other
  | ends => exact staged.busy_unique same busy at_other

-- Where all that are left need the same lock, the one at work ends, and the others work in the order
-- in which they get the lock. The induction is on the turns.
theorem serial (apart : ∀ k, ¬kind (lock k)) (uses : ∀ k, (work k).Uses kind)
    (staged : Staged kind lock work pool stage)
    (same : ∀ k, (∀ a, stage k ≠ .ended a) → lock k = own) (followed : pool.follow turns = some last)
    (done : ∀ k, last.tasks k = .done true) :
    ((∀ k rest, stage k ≠ .busy rest) →
      ∃ order, order.head? = turns.head? ∧ Serial work stage order pool.state last.state) ∧
    ∀ k rest, stage k = .busy rest →
      ∃ order s, rest.run pool.state = (true, s) ∧ Serial work stage order s last.state := by
  induction turns generalizing pool stage with
  | nil =>
    cases followed
    have finished (k : κ) : stage k = .ended true := staged.ended_of_done (done k)
    exact ⟨fun _ => ⟨[], rfl, .nil, fun k => by simp [finished k], rfl⟩,
      fun k rest busy => by simp [finished k] at busy⟩
  | cons k turns ih =>
    obtain ⟨next, turned, rest⟩ := Option.bind_eq_some_iff.mp followed
    obtain ⟨after, goes, staged'⟩ := staged.turn apart uses turned
    have same' (other : κ) (left : ∀ a, Function.update stage k after other ≠ .ended a) :
        lock other = own := by
      by_cases here : other = k
      · subst here
        refine same other fun a at_other => ?_
        rw [at_other] at goes
        nomatch goes
      · refine same other ?_
        simpa [here] using left
    obtain ⟨quiet, onward⟩ := ih staged' same' rest
    generalize at_k : stage k = before at goes
    generalize reached : next.state = s', next.holder = holder at goes
    refine ⟨fun free => ?_, fun worker work' busy => ?_⟩
    · cases goes with
      | begins =>
        obtain ⟨order, s, ran, serial⟩ := onward k _ (Function.update_self _ _ _)
        rw [reached, Task.run_advance] at ran
        exact ⟨k :: order, rfl, serial.cons at_k ran⟩
      | passes => exact absurd at_k (free k _)
      | ends => exact absurd at_k (free k _)
    · obtain rfl := staged.turn_of_busy same busy turned
      rw [busy] at at_k
      subst at_k
      cases goes with
      | passes passes =>
        obtain ⟨order, s, ran, serial⟩ := onward worker _ (Function.update_self _ _ _)
        rw [reached, Task.run_advance, passes.run] at ran
        exact ⟨order, s, ran, serial.of_update (by simp [busy]) (by nofun)⟩
      | ends a =>
        have ended : next.tasks worker = .done a := by
          rw [staged'.tasks, Function.update_self, Stage.task]
        have succeeded := Pool.follow_done ended rest
        rw [done worker] at succeeded
        cases succeeded
        obtain ⟨order, -, serial⟩ := quiet fun other rest at_other => by
          by_cases here : other = worker
          · simp [here] at at_other
          · rw [Function.update_of_ne here] at at_other
            exact here (staged.busy_unique same at_other busy)
        rw [reached] at serial
        exact ⟨order, _, rfl, serial.of_update (by simp [busy]) (by nofun)⟩

end

end Staged

end Flowgate
