import Flowgate.Proofs.Package.Lookup
import Flowgate.Proofs.Package.Reached

/-!
The catalogs of a registry, whatever its package manager and its index do: each operation leaves the
catalog as it is, records a module under the identity of its name, or removes one.
-/

namespace Flowgate.Package

/-! ### Catalogs of some names -/

namespace Catalog

variable {c : Catalog}

-- Recorded from modules of finitely many names.
def Made (c : Catalog) : Prop := ∃ known : List String, c.Recorded (· ∈ known)

theorem Recorded.mono {names names' : String → Prop} (recorded : c.Recorded names)
    (wider : ∀ name, names name → names' name) : c.Recorded names' := by
  induction recorded with
  | empty => exact .empty
  | insert _ own among ih => exact .insert ih own (wider _ among)
  | erase _ name ih => exact .erase ih name

theorem made_empty : Made .empty := ⟨[], .empty⟩

theorem Made.insertAll (made : c.Made) {schemas : List Schema}
    (own : ∀ s ∈ schemas, s.id = .module s.name) : (c.insertAll schemas).Made := by
  obtain ⟨known, recorded⟩ := made
  have wide : c.Recorded (· ∈ known ++ schemas.map (·.name)) :=
    recorded.mono fun _ => List.mem_append_left _
  refine ⟨known ++ schemas.map (·.name), wide.insertAll own fun s member => ?_⟩
  exact List.mem_append_right _ (List.mem_map_of_mem member)

theorem Made.insert (made : c.Made) {s : Schema} (own : s.id = .module s.name) :
    (c.insert s).Made :=
  made.insertAll (List.forall_mem_singleton.mpr own)

theorem Made.erase (made : c.Made) (name : String) : (c.erase name).Made := by
  obtain ⟨known, recorded⟩ := made
  exact ⟨known, recorded.erase name⟩

end Catalog

/-! ### Operations -/

namespace Registry

variable {w : World}

theorem made_settle (r : Registry) (name : String) (isLocal : Bool) (giveUp : Host → Host)
    (made : w.catalog.Made) : (r.settle name isLocal giveUp w).2.catalog.Made := by
  unfold settle
  split
  · rename_i schema loaded
    exact made.insert (id_of_loadSchema loaded)
  · exact made

theorem made_adding (r : Registry) (name spec : String) {next : World → Outcome Schema × World}
    (made : w.catalog.Made) (continues : ∀ host, (next { w with host }).2.catalog.Made) :
    (r.adding name spec next w).2.catalog.Made := by
  unfold adding
  split
  · exact made
  · exact continues _

theorem made_install (r : Registry) (name : String) (version : Option String)
    (made : w.catalog.Made) : ((r.install name version).run w).2.catalog.Made := by
  rw [install_run]
  exact r.made_adding name _ made fun host => r.made_settle (w := { w with host }) name false _ made

theorem made_installArchive (r : Registry) (path : String) (made : w.catalog.Made) :
    ((r.installArchive path).run w).2.catalog.Made := by
  rw [installArchive_run]
  split
  · exact made
  · rename_i name host added
    exact r.made_settle (w := { w with host }) name true _ made

theorem made_installArchives (r : Registry) (paths : List String) (made : w.catalog.Made) :
    ((r.installArchives paths).run w).2.catalog.Made := by
  induction paths generalizing w with
  | nil => exact made
  | cons path paths ih =>
    have first := r.made_installArchive path made
    rw [installArchives, Task.run_bind, Task.run_bind]
    split
    · exact ih first
    · exact ih first

theorem made_change (r : Registry) (name version : String) (made : w.catalog.Made) :
    ((r.change name version).run w).2.catalog.Made := by
  rw [change, Task.run_holding, Task.run_bind]
  have listed := keeps_bounded r ("listing versions of '" ++ name ++ "'") (r.index.versions name) w
  generalize ((r.bounded ("listing versions of '" ++ name ++ "'")
    (r.index.versions name)).run w) = answer at listed
  obtain ⟨outcome, next⟩ := answer
  rw [← listed] at made
  cases outcome with
  | error e => exact made
  | ok versions =>
    dsimp only
    split
    · rw [Task.run, installing_run]
      refine r.made_adding name _ made fun host => ?_
      rw [loadOrRestore_run]
      exact r.made_settle (w := { next with host }) name false _ made
    · exact made

theorem made_remove (r : Registry) (name : String) (made : w.catalog.Made) :
    ((r.remove name).run w).2.catalog.Made := by
  rw [remove_run]
  split
  · exact made
  · split
    · split
      · exact made
      · exact made.erase name
    · split
      · exact made.erase name
      · exact made

theorem made_restore (r : Registry) (made : w.catalog.Made) :
    (r.restore.run w).2.catalog.Made := by
  unfold restore
  simp only [Task.run]
  cases listed : r.listedSchemas w.host.files with
  | error fault => exact made
  | ok schemas => exact made.insertAll (id_of_listedSchemas listed)

theorem made_after (r : Registry) (made : w.catalog.Made) (c : Call) : (r.after w c).catalog.Made := by
  cases c with
  | install name version => exact r.made_install name version made
  | installArchives paths => exact r.made_installArchives paths made
  | change name version => exact r.made_change name version made
  | remove name => exact r.made_remove name made

-- Whatever is asked of a registry that was started on a host, in any order.
theorem made_of_calls (r : Registry) (host : Host) (calls : List Call) :
    (calls.foldl r.after (r.restore.run { host, catalog := .empty }).2).catalog.Made := by
  have started : (r.restore.run { host, catalog := .empty }).2.catalog.Made :=
    r.made_restore Catalog.made_empty
  generalize (r.restore.run { host, catalog := .empty }).2 = w at started
  induction calls generalizing w with
  | nil => exact started
  | cons c calls ih => exact ih _ (r.made_after started c)

end Registry

end Flowgate.Package
