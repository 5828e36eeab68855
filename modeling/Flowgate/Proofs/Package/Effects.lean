import Flowgate.Package.Registry

/-!
What operations of the registry do to the catalog: a call of the package manager leaves it alone, an
operation that fails leaves it as it was, and so does a batch of archives of which none was
installed.
-/

namespace Flowgate

theorem Task.other_onPart (part : τ → σ) (update : σ → τ → τ) (other : τ → κ)
    (kept : ∀ s t, other (update s t) = other t) (t : Task ι σ α) (s : τ) :
    other ((t.onPart part update).run s).2 = other s := by
  induction t generalizing s with
  | done a => rfl
  | look next ih => exact ih (part s) s
  | put s' next ih => exact (ih (update s' s)).trans (kept s' s)
  | pause time next ih => exact ih s
  | acquire lock next ih => exact ih s
  | release lock next ih => exact ih s

namespace Package.Registry

-- The task leaves the catalog alone.
def Keeps (t : Job World α) : Prop := ∀ w, (t.run w).2.catalog = w.catalog

-- The task leaves the catalog alone unless it succeeds.
def KeepsOnError (t : Job World (Outcome α)) : Prop :=
  ∀ w e, (t.run w).1 = .error e → (t.run w).2.catalog = w.catalog

theorem keeps_done (a : α) : Keeps (.done a : Job World α) := fun _ => rfl

theorem Keeps.onError {t : Job World (Outcome α)} (keeps : Keeps t) : KeepsOnError t :=
  fun w _ _ => keeps w

theorem Keeps.bind {t : Job World α} {f : α → Job World β} (first : Keeps t)
    (next : ∀ a, Keeps (f a)) : Keeps (t.bind f) := by
  intro w
  rw [Task.run_bind, next _ _, first w]

theorem Keeps.bind_onError {t : Job World α} {f : α → Job World (Outcome β)} (first : Keeps t)
    (next : ∀ a, KeepsOnError (f a)) : KeepsOnError (t.bind f) := by
  intro w e failed
  rw [Task.run_bind] at failed ⊢
  rw [next _ _ e failed, first w]

theorem Keeps.holding {t : Job World α} (keeps : Keeps t) (lock : Lock) :
    Keeps (.holding lock t) := by
  intro w
  rw [Task.run_holding, keeps w]

theorem KeepsOnError.holding {t : Job World (Outcome α)} (keeps : KeepsOnError t) (lock : Lock) :
    KeepsOnError (.holding lock t) := by
  intro w e failed
  rw [Task.run_holding] at failed ⊢
  exact keeps w e failed

theorem keeps_look {next : World → Job World α} (keeps : ∀ w, Keeps (next w)) :
    Keeps (.look next) := fun w => keeps w w

theorem keepsOnError_look {next : World → Job World (Outcome α)}
    (keeps : ∀ w, KeepsOnError (next w)) : KeepsOnError (.look next) :=
  fun w e failed => keeps w w e failed

theorem keeps_onHost (t : Job Host α) : Keeps (onHost t) :=
  Task.other_onPart World.host (fun host w => { w with host }) World.catalog (fun _ _ => rfl) t

theorem keeps_inWorkspace (r : Registry) (what : String) (t : Job Host (Attempt α)) :
    Keeps (r.inWorkspace what t) :=
  (keeps_onHost _).holding _

theorem keeps_bounded (r : Registry) (what : String) (t : Job Host (Except IndexFault α)) :
    Keeps (r.bounded what t) :=
  (keeps_onHost _).bind fun _ => keeps_done _

theorem keepsOnError_remove (r : Registry) (name : String) : KeepsOnError (r.remove name) := by
  have forget : KeepsOnError
      ((changeCatalog (·.erase name)).bind fun () => (.done (.ok ()) : Job World (Outcome Unit))) := by
    intro w e failed
    cases failed
  refine KeepsOnError.holding (keepsOnError_look fun w => ?_) _
  refine Keeps.bind_onError (Keeps.holding (keeps_look fun _ => keeps_done _) _) fun listed => ?_
  cases listed with
  | error fault => exact (keeps_done _).onError
  | ok there =>
    cases there with
    | true =>
      refine (keeps_inWorkspace r _ _).bind_onError fun removed => ?_
      cases removed with
      | error fault => exact (keeps_done _).onError
      | ok done => exact forget
    | false =>
      by_cases known : Entries.contains w.catalog.modules name
      · simp only [known, if_true]
        exact forget
      · simp only [known]
        exact (keeps_done _).onError

theorem restore_host (r : Registry) (w : World) : (r.restore.run w).2.host = w.host := by
  unfold restore
  simp only [Task.run]
  cases r.listedSchemas w.host.files with
  | error fault => rfl
  | ok schemas => rfl

end Package.Registry

end Flowgate
