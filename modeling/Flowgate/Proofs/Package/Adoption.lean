import Flowgate.Proofs.Package.Interleaving

/-!
The package of an archive, whose name is known only when it lies in the workspace, and calls on that
package that come in between. Whatever the order, the catalog and the workspace agree in the end on
whether it is there and on what it has. But it is recorded as local without another look at its source:
if a call on it from the index came in after the archive and none after the record, the mark is wrong.
-/

namespace Flowgate.Package

open File (Place Tree)

/-! ### Parties -/

inductive Request where
  | install (version : Option String)
  | change (version : String)
  | remove

-- The two steps of an installation from an archive, and the calls on the package.
inductive Party (κ : Type) where
  | fetch
  | adopt
  | call (k : κ)
deriving DecidableEq

namespace Registry

def taskOf (r : Registry) (path name : String) (calls : κ → Request) : Party κ → Job World Bool
  | .fetch => succeeded (r.fetchArchive path)
  | .adopt => succeeded (r.adopt name)
  | .call k =>
    match calls k with
    | .install version => succeeded (r.install name version)
    | .change version => succeeded (r.change name version)
    | .remove => succeeded (r.remove name)

def lockOf (path name : String) : Party κ → Lock
  | .fetch => .package ("file:" ++ path)
  | _ => .package name

end Registry

/-! ### Agreement -/

-- The catalog has the package if the manifest lists it, and has it as it lies in the workspace.
structure Agrees (r : Registry) (name : String) (world : World) : Prop where
  listed : (world.catalog.module? name).isSome = (r.workspace.source? world.host.files name).isSome
  loaded : ∀ schema, world.catalog.module? name = some schema →
    r.loadSchema world.host.files name schema.isLocal = .ok schema

def isFile (source : String) : Bool := "file:".toList.isPrefixOf source.toList

-- What the catalog marks as local comes from a file, and nothing else does.
def Marked (w : Workspace) (name : String) (world : World) : Prop :=
  ∀ schema source, world.catalog.module? name = some schema →
    w.source? world.host.files name = some source → schema.isLocal = isFile source

variable {w : Workspace} {top : Place} {s : Stock} {secs : Nat} {name : String} {world next : World}
  {κ : Type} {calls : κ → Request} {path : String}

theorem isFile_range (version : String) : isFile ("^" ++ version) = false := by
  simp only [isFile, String.toList_append]
  rfl

namespace Registry

/-! ### Operations that succeed -/

theorem of_succeeded {t : Job World (Outcome α)} (done : (succeeded t).run world = (true, next)) :
    ∃ a, t.run world = (.ok a, next) := by
  rw [succeeded, Task.run_bind] at done
  cases ran : t.run world with
  | mk outcome after =>
    rw [ran] at done
    cases outcome with
    | ok a =>
      cases done
      exact ⟨a, rfl⟩
    | error e => cases done

theorem schema_of_loadSchema {r : Registry} {files : Tree} {isLocal : Bool} {schema : Schema}
    (done : r.loadSchema files name isLocal = .ok schema) :
    ∃ found, load files (r.workspace.packageDir name) = .ok found ∧
      schema = .ofManifest found.1 isLocal (some found.2) := by
  unfold loadSchema at done
  split at done
  · cases done
  · rename_i manifest loaded there
    cases done
    exact ⟨_, there, rfl⟩

-- What is declared is recorded under its name, and marked as it is asked for.
theorem agrees_of_records {host : Host} {isLocal : Bool}
    (records : (ofShelf w secs).Records name isLocal host world next)
    (declared : Declared w name host.files) :
    Agrees (ofShelf w secs) name next ∧ ∃ source, w.source? host.files name = some source ∧
      (Marked w name next ↔ isLocal = isFile source) := by
  obtain ⟨schema, loaded, rfl⟩ := records
  obtain ⟨found, there, rfl⟩ := schema_of_loadSchema loaded
  obtain ⟨own, source, listed⟩ := declared found there
  have here : (world.catalog.insert (.ofManifest found.1 isLocal (some found.2))).module? name
      = some (.ofManifest found.1 isLocal (some found.2)) := by
    rw [Catalog.module?_insert]
    exact if_pos own
  refine ⟨⟨?_, fun schema recorded => ?_⟩, source, listed, fun marked => ?_, ?_⟩
  · have listed' : (ofShelf w secs).workspace.source? host.files name = some source := listed
    simp only [here, listed', Option.isSome_some]
  · rw [here] at recorded
    cases recorded
    exact loaded
  · exact marked _ source here listed
  · intro same schema other recorded listed'
    rw [here] at recorded
    cases recorded
    rw [listed] at listed'
    cases listed'
    exact same

-- What is neither recorded nor listed.
theorem agrees_of_missing (secs : Nat) (world : World)
    (unrecorded : world.catalog.module? name = none)
    (unlisted : w.source? world.host.files name = none) :
    Agrees (ofShelf w secs) name world ∧ Marked w name world := by
  have unlisted' : (ofShelf w secs).workspace.source? world.host.files name = none := unlisted
  refine ⟨⟨?_, fun schema recorded => ?_⟩, fun schema _ recorded => ?_⟩
  · simp only [unrecorded, unlisted', Option.isSome_none]
  · rw [unrecorded] at recorded
    cases recorded
  · rw [unrecorded] at recorded
    cases recorded

-- The state after a call on the package that has succeeded.
structure Consistent (w : Workspace) (top : Place) (s : Stock) (secs : Nat) (name : String)
    (next : World) : Prop where
  kempt : Kempt w top s next.host
  keyed : next.catalog.Keyed
  agrees : Agrees (ofShelf w secs) name next
  marked : Marked w name next

theorem consistent_of_added (named : s.WellNamed) (kempt : Kempt w top s world.host)
    (keyed : world.catalog.Keyed) {spec : String}
    (own : ∀ q, s.shelf.resolve spec = .ok q → name = q.name) {host : Host}
    (added : (Shelf.add w spec).run world.host = (.ok (), host))
    (records : (ofShelf w secs).Records name false host world next) :
    Consistent w top s secs name next := by
  obtain ⟨q, files, resolved, puts, rfl⟩ := Shelf.run_add added
  rw [kempt.shelf] at resolved
  obtain ⟨kempt', declared, listed⟩ :=
    kempt.puts named (Stock.mem_of_resolve resolved) (own q resolved) puts
  obtain ⟨agrees, source, listed', marked⟩ := agrees_of_records records declared
  obtain ⟨schema, loaded, rfl⟩ := records
  have same : source = "^" ++ q.version := Option.some.inj (listed'.symm.trans listed)
  refine ⟨kempt', Catalog.keyed_insert keyed (id_of_loadSchema loaded), agrees, marked.mpr ?_⟩
  rw [same, isFile_range]

theorem consistent_of_removed (kempt : Kempt w top s world.host) (keyed : world.catalog.Keyed)
    (done : ((ofShelf w secs).remove name).run world = (.ok (), next)) :
    Consistent w top s secs name next := by
  obtain ⟨deps, grounded⟩ := kempt.grounded
  obtain ⟨shelf, catalog, grounded'⟩ := remove_ok grounded done
  obtain ⟨agrees, marked⟩ := agrees_of_missing secs next
    (by rw [catalog, Catalog.module?_erase, if_pos rfl])
    (by rw [grounded'.source?, Entries.get?_change, if_pos rfl])
  refine ⟨⟨shelf.trans kempt.shelf, _, grounded'⟩, ?_, agrees, marked⟩
  rw [catalog]
  exact Catalog.keyed_erase keyed name

theorem consistent_of_call (named : s.WellNamed) (package : PackageName name)
    (kempt : Kempt w top s world.host) (keyed : world.catalog.Keyed) (k : κ)
    (done : ((ofShelf w secs).taskOf path name calls (.call k)).run world = (true, next)) :
    Consistent w top s secs name next := by
  unfold taskOf at done
  dsimp only at done
  split at done
  · rename_i version _
    obtain ⟨schema, installed⟩ := of_succeeded done
    obtain ⟨host, added, records⟩ := run_install installed
    exact consistent_of_added named kempt keyed
      (fun q => Stock.name_of_installSpec named package.unversioned) added records
  · obtain ⟨schema, changed⟩ := of_succeeded done
    obtain ⟨versions, asked, host, listed, -, added, records⟩ := run_change changed
    obtain ⟨-, rfl⟩ := Prod.mk.inj listed
    exact consistent_of_added named kempt keyed (fun q => Stock.name_of_version named package) added
      records
  · obtain ⟨⟨⟩, removed⟩ := of_succeeded done
    exact consistent_of_removed kempt keyed removed

theorem run_adopt {r : Registry} {schema : Schema}
    (done : (r.adopt name).run world = (.ok schema, next)) :
    r.Records name true world.host world next := by
  rw [adopt, Task.run_holding] at done
  obtain ⟨middle, loaded, rfl⟩ := run_record done
  obtain ⟨found, rfl⟩ := run_loadOrRemove loaded
  exact ⟨schema, found, rfl⟩

-- Calls on the package, one after the other, after its record.
theorem consistent_of_ordered (named : s.WellNamed) (package : PackageName name)
    {work : Party κ → Job World Bool}
    (runs : ∀ k world, (work (.call k)).run world
      = ((ofShelf w secs).taskOf path name calls (.call k)).run world)
    {order : List (Party κ)} (ordered : Ordered work order world next)
    (are : ∀ party ∈ order, ∃ k, party = .call k) (some : order ≠ [])
    (kempt : Kempt w top s world.host) (keyed : world.catalog.Keyed) :
    Consistent w top s secs name next := by
  induction order generalizing world with
  | nil => exact absurd rfl some
  | cons party order ih =>
    obtain ⟨middle, ran, rest⟩ := ordered
    obtain ⟨k, rfl⟩ := are party List.mem_cons_self
    rw [runs] at ran
    have here := consistent_of_call named package kempt keyed k ran
    cases order with
    | nil =>
      obtain rfl : next = middle := rest
      exact here
    | cons later order =>
      exact ih rest (fun k member => are k (List.mem_cons_of_mem _ member)) (List.cons_ne_nil _ _)
        here.kempt here.keyed

/-! ### Interleavings -/

-- All but the one that puts the package there may leave it as it was.
def mayLeave : Party κ → Prop
  | .fetch => False
  | _ => True

theorem behaves (w : Workspace) (top : Place) (secs : Nat) (named : s.WellNamed) {p : Item}
    (found : s.shelf.findArchive path = .ok p) (calls : κ → Request) (party : Party κ) :
    ∃ work, Task.Behaves (workspaceGuard w top s p.name) (lockOf path p.name party) (mayLeave party)
      ((ofShelf w secs).taskOf path p.name calls party) work := by
  have package : PackageName p.name :=
    named.packages p (Stock.mem_of_archive? (Stock.archive?_of_findArchive found))
  cases party with
  | fetch =>
    refine behaves_fetchArchive named path fun q found' => ?_
    rw [found] at found'
    cases found'
    rfl
  | adopt => exact behaves_adopt package
  | call k =>
    unfold taskOf
    dsimp only
    split
    · exact behaves_install named package _
    · exact behaves_change named package _
    · exact behaves_remove package

theorem lockOf_ne (path name : String) (party : Party κ) : lockOf path name party ≠ .workspace := by
  cases party <;> simp [lockOf]

section

variable {work : Party κ → Job World Bool} {before after : List (Party κ)}
  {mid last : Pool (Party κ) Lock World Bool} {stage : Party κ → Stage Lock World Bool}

theorem lockOf_of_fetched (fetched : stage .fetch = .ended true) (party : Party κ)
    (left : ∀ b, stage party ≠ .ended b) : lockOf path name party = .package name := by
  cases party with
  | fetch => exact absurd fetched (left true)
  | adopt => rfl
  | call k => rfl

-- What is left when the record of a fetched package begins: calls that have not begun.
structure Poised (w : Workspace) (top : Place) (s : Stock) (path name : String)
    (work : Party κ → Job World Bool) (mid : Pool (Party κ) Lock World Bool)
    (stage : Party κ → Stage Lock World Bool) : Prop where
  staged : Staged (· = .workspace) (lockOf path name) work mid stage
  kempt : Kempt w top s mid.state.host
  keyed : mid.state.catalog.Keyed
  declared : Declared w name mid.state.host.files
  quiet : ∀ party rest, stage party ≠ .busy rest
  fetched : stage .fetch = .ended true

theorem poised [DecidableEq κ] (uses : ∀ party, (work party).Uses (· = .workspace))
    (heeds : ∀ party world, (workspaceGuard w top s name).order world →
      (work party).Heeds (workspaceGuard w top s name) none (mayLeave party) world)
    (order : (workspaceGuard w top s name).order world) (early : .adopt ∉ before)
    (first : (Pool.start world fun party => (work party).holding (lockOf path name party)).follow before
      = some mid)
    (fetched : mid.tasks .fetch = .done true) (second : mid.follow (.adopt :: after) = some last)
    (done : ∀ party, last.tasks party = .done true) :
    ∃ stage, Poised w top s path name work mid stage := by
  have begun : Guarded (workspaceGuard w top s name) (lockOf path name) work mayLeave
      (.start world fun party => (work party).holding (lockOf path name party)) (fun _ => .idle)
      (fun _ => none) mayLeave :=
    .start order heeds fun all => (all .fetch).elim
  obtain ⟨stage, entered, kept, guarded⟩ := begun.follow (lockOf_ne path name) uses first
  have at_fetch := guarded.staged.ended_of_done fetched
  have idle : stage .adopt = .idle :=
    guarded.staged.idle_of_holding (lockOf_ne path name) (Pool.follow_other early first)
  have quiet (party : Party κ) (rest : Job World Bool) : stage party ≠ .busy rest := by
    intro busy
    obtain ⟨next, turned, -⟩ := Option.bind_eq_some_iff.mp second
    obtain rfl := guarded.staged.turn_of_busy (lockOf_of_fetched at_fetch) busy turned
    rw [idle] at busy
    cases busy
  refine ⟨stage, guarded.staged, guarded.order.1, guarded.order.2, ?_, quiet, at_fetch⟩
  refine guarded.whole_of_quiet quiet (fun party waits => ?_) fun party b ended => ?_
  · cases party with
    | fetch =>
      rw [at_fetch] at waits
      cases waits
    | adopt => trivial
    | call k => trivial
  · have ended : mid.tasks party = .done b := by rw [guarded.staged.tasks, ended, Stage.task]
    have last := Pool.follow_done ended second
    rw [done] at last
    exact (Task.done.inj last).symm

-- The record comes first, and then the calls that are left.
theorem Poised.ordered [DecidableEq κ] (poised : Poised w top s path name work mid stage)
    (uses : ∀ party, (work party).Uses (· = .workspace))
    (second : mid.follow (.adopt :: after) = some last)
    (done : ∀ party, last.tasks party = .done true) :
    ∃ order next, (work .adopt).run mid.state = (true, next) ∧
      Ordered work order next last.state ∧ ∀ party, party ∈ order ↔
        ∃ k, party = .call k ∧ ∀ b, mid.tasks party ≠ .done b := by
  obtain ⟨order, head, serial⟩ := (poised.staged.serial (lockOf_ne path name) uses
    (lockOf_of_fetched poised.fetched) second done).1 poised.quiet
  obtain ⟨order, rfl⟩ : ∃ rest, order = .adopt :: rest := by
    cases order with
    | nil => cases head
    | cons party rest =>
      cases head
      exact ⟨rest, rfl⟩
  obtain ⟨next, ran, ordered⟩ := serial.ordered
  obtain ⟨once, -⟩ := List.nodup_cons.mp serial.nodup
  refine ⟨order, next, ran, ordered, fun party => ⟨fun member => ?_, fun waits => ?_⟩⟩
  · have idle := (serial.idle party).mp (List.mem_cons_of_mem _ member)
    cases party with
    | fetch =>
      rw [poised.fetched] at idle
      cases idle
    | adopt => exact absurd member once
    | call k =>
      refine ⟨k, rfl, fun b ended => ?_⟩
      rw [poised.staged.ended_of_done ended] at idle
      cases idle
  · obtain ⟨k, rfl, waits⟩ := waits
    have idle : stage (.call k) = .idle := by
      cases at_k : stage (.call k) with
      | idle => rfl
      | busy rest => exact absurd at_k (poised.quiet _ rest)
      | ended b => exact absurd (by rw [poised.staged.tasks, at_k, Stage.task]) (waits b)
    exact List.mem_of_ne_of_mem (by simp) ((serial.idle _).mpr idle)

end

theorem adopted (reached : Reached w world) [DecidableEq κ] {p : Item}
    (found : world.host.shelf.findArchive path = .ok p) {before after : List (Party κ)}
    {mid last : Pool (Party κ) Lock World Bool} (early : .adopt ∉ before)
    (first : (Pool.start world ((ofShelf w secs).taskOf path p.name calls)).follow before = some mid)
    (fetched : mid.tasks .fetch = .done true) (second : mid.follow (.adopt :: after) = some last)
    (done : ∀ party, last.tasks party = .done true) :
    Agrees (ofShelf w secs) p.name last.state ∧
      (Marked w p.name last.state ↔ (∃ k, ∀ b, mid.tasks (.call k) ≠ .done b) ∨
        ∃ source, w.source? mid.state.host.files p.name = some source ∧ isFile source = true) := by
  obtain ⟨top, orderly⟩ := reached.orderly
  obtain ⟨s, named, shelf⟩ := orderly.stocked
  rw [shelf] at found
  have package : PackageName p.name :=
    named.packages p (Stock.mem_of_archive? (Stock.archive?_of_findArchive found))
  choose work behaves using behaves w top secs named found calls
  have runs (party : Party κ) (world : World) :
      (work party).run world = ((ofShelf w secs).taskOf path p.name calls party).run world := by
    rw [(behaves party).holds, Task.run_holding]
  have uses (party : Party κ) := (behaves party).uses
  rw [funext fun party => (behaves party).holds] at first
  obtain ⟨stage, poised⟩ := poised uses (fun party => (behaves party).heeds)
    ⟨⟨shelf, orderly.grounded⟩, orderly.keyed⟩ early first fetched second done
  obtain ⟨order, next, ran, ordered, waiting⟩ := poised.ordered uses second done
  rw [runs] at ran
  obtain ⟨schema, recorded⟩ := of_succeeded ran
  have records := run_adopt recorded
  obtain ⟨agrees, source, listed, marked⟩ := agrees_of_records records poised.declared
  cases order with
  | nil =>
    -- The record comes last, and its mark goes by the source that it finds.
    obtain rfl : last.state = next := ordered
    have none (k : κ) : ¬∀ b, mid.tasks (.call k) ≠ .done b := fun waits =>
      absurd ((waiting (.call k)).mpr ⟨k, rfl, waits⟩) List.not_mem_nil
    rw [marked]
    refine ⟨agrees, fun same => .inr ⟨source, listed, same.symm⟩, ?_⟩
    rintro (⟨k, waits⟩ | ⟨source', listed', file⟩)
    · exact absurd waits (none k)
    · rw [listed] at listed'
      cases listed'
      exact file.symm
  | cons party order =>
    have are (party' : Party κ) (member : party' ∈ party :: order) : ∃ k, party' = .call k := by
      obtain ⟨k, same, -⟩ := (waiting party').mp member
      exact ⟨k, same⟩
    obtain ⟨schema, loaded, rfl⟩ := records
    have consistent : Consistent w top s secs p.name last.state :=
      consistent_of_ordered named package (fun k => runs (.call k)) ordered are
        (List.cons_ne_nil _ _) poised.kempt
        (Catalog.keyed_insert poised.keyed (id_of_loadSchema loaded))
    obtain ⟨k, rfl, waits⟩ := (waiting party).mp List.mem_cons_self
    exact ⟨consistent.agrees, fun _ => .inl ⟨k, waits⟩, fun _ => consistent.marked⟩

/-! ### An archive and a version from the index -/

def raced : Stock where
  published := [release "a" "2.0.0"]
  archives := [("a.tgz", release "a" "1.0.0")]
  delay := none

theorem wellNamed_raced : raced.WellNamed where
  packages p member :=
    .bare ((by decide : ∀ p ∈ raced.items, Plain p.name) p member)
      ((by decide : ∀ p ∈ raced.items, File.Names p.name) p member)
  nodes := by decide

-- An installation from the archive, and one other call.
def racing (request : Request) : Pool (Party Unit) Lock World Bool :=
  .start raced.world ((ofShelf { dir := "m" } 5).taskOf "a.tgz" "a" fun _ => request)

-- The call has its turns before or after the archive, and the record comes last.
def callFirst : List (Party Unit) :=
  [.call (), .call (), .call (), .call (), .fetch, .fetch, .fetch, .fetch]

def callBetween : List (Party Unit) :=
  [.fetch, .fetch, .fetch, .fetch, .call (), .call (), .call (), .call ()]

def allDone (pool : Pool (Party Unit) Lock World Bool) : Bool :=
  [.fetch, .adopt, .call ()].all fun party => (pool.tasks party).result? == some true

theorem done_of_allDone {pool : Pool (Party Unit) Lock World Bool} (all : allDone pool = true)
    (party : Party Unit) : pool.tasks party = .done true := by
  rw [allDone, List.all_eq_true] at all
  apply Task.done_of_result
  rw [← beq_iff_eq]
  apply all
  cases party <;> simp

theorem adopted_removed :
    ∃ mid last, (racing .remove).follow callFirst = some mid ∧
      mid.follow [.adopt, .adopt] = some last ∧ (∀ party, last.tasks party = .done true) ∧
      Agrees (ofShelf { dir := "m" } 5) "a" last.state ∧ Marked { dir := "m" } "a" last.state := by
  have ran : ((racing .remove).follow callFirst).map (fun mid =>
      ((mid.tasks .fetch).result?, Workspace.source? { dir := "m" } mid.state.host.files "a",
        (mid.follow [.adopt, .adopt]).map allDone))
      = some (some true, some "file:a.tgz", some true) := by
    decide +kernel
  obtain ⟨mid, first, rest⟩ := Option.map_eq_some_iff.mp ran
  obtain ⟨fetched, rest⟩ := Prod.mk.inj rest
  obtain ⟨listed, rest⟩ := Prod.mk.inj rest
  obtain ⟨last, second, all⟩ := Option.map_eq_some_iff.mp rest
  have done := done_of_allDone all
  have found : raced.world.host.shelf.findArchive "a.tgz" = .ok (release "a" "1.0.0") := rfl
  obtain ⟨agrees, marked⟩ := adopted wellNamed_raced.reached found (by decide) first
    (Task.done_of_result fetched) second done
  exact ⟨mid, last, first, second, done, agrees, marked.mpr (.inr ⟨_, listed, rfl⟩)⟩

-- The archive is in the workspace when the version from the index takes its place.
theorem mismarked :
    ∃ mid last, (racing (.install none)).follow callBetween = some mid ∧
      mid.follow [.adopt, .adopt] = some last ∧ (∀ party, last.tasks party = .done true) ∧
      ¬Marked { dir := "m" } "a" last.state := by
  have ran : ((racing (.install none)).follow callBetween).map (fun mid =>
      (mid.follow [.adopt, .adopt]).map fun last =>
        (allDone last, (last.state.catalog.module? "a").map (·.isLocal),
          Workspace.source? { dir := "m" } last.state.host.files "a"))
      = some (some (true, some true, some "^2.0.0")) := by
    decide +kernel
  obtain ⟨mid, first, rest⟩ := Option.map_eq_some_iff.mp ran
  obtain ⟨last, second, rest⟩ := Option.map_eq_some_iff.mp rest
  obtain ⟨all, rest⟩ := Prod.mk.inj rest
  obtain ⟨mark, listed⟩ := Prod.mk.inj rest
  obtain ⟨schema, recorded, isLocal⟩ := Option.map_eq_some_iff.mp mark
  refine ⟨mid, last, first, second, done_of_allDone all, fun marked => ?_⟩
  have same := marked schema _ recorded listed
  rw [isLocal] at same
  exact absurd same (by decide)

end Registry

end Flowgate.Package
