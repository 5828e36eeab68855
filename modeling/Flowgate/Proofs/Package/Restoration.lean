import Flowgate.Proofs.Package.Completion

/-!
Switches of a version that fail. If the package came from the index, which still gives it under its
version, and no call is stopped halfway, then the catalog, the dependencies and the files are as they
were before. What came from an archive is looked for in the index as well, and there it is lost.
-/

namespace Flowgate.Package

open File (Place Tree)

variable {w : Workspace} {top : Place} {t t' : Tree} {s : Stock} {secs : Nat} {world next : World}
  {name : String} {p : Item} {deps deps' : Entries String}

-- The catalog, the manifest and the directory agree on a version that the index gives again.
structure Restorable (w : Workspace) (name : String) (world : World) (p : Item) : Prop where
  recorded : (world.catalog.module? name).map (·.version) = some p.version
  offered : world.host.shelf.resolve (name ++ "@" ++ p.version) = .ok p
  kept : p.name = name ∧ p.Kept w world.host.files
  listed : w.source? world.host.files name = some ("^" ++ p.version)

/-! ### Other packages -/

theorem Item.Stored.congr (grounded : Grounded w top t deps) (grounded' : Grounded w top t' deps')
    (package : PackageName p.name) (same : ∀ q, top ++ way p.name <+: q → t'.at? q = t.at? q)
    (stored : p.Stored w t) : p.Stored w t' := by
  have found {path : String} {node : File.Node} (relative : File.isAbsolute path = false)
      (names : ∀ x ∈ File.steps path, File.Names x)
      (there : t.find (fileOf w p.name path) = .ok node) :
      t'.find (fileOf w p.name path) = .ok node := by
    obtain ⟨goal, located, here⟩ := File.Tree.find_eq_ok_iff.mp there
    obtain ⟨rfl, -⟩ := grounded.aims.locate (steps_inPackage w package relative)
      (names_inPackage package names) located
    have here' := here
    rw [← same _ (way_under top p.name _)] at here'
    have located' := locate_inPackage grounded.aims package relative names located grounded'.aims
      (grounded'.sound _ node here')
    exact File.Tree.find_eq_ok_iff.mpr ⟨_, located', here'⟩
  refine ⟨found relative_manifest names_manifest stored.manifest, fun node source there => ?_⟩
  obtain ⟨clean, old⟩ := stored.scripts node source there
  exact ⟨clean, found (relative_scriptFile node) (names_scriptFile clean) old⟩

theorem Restorable.package (orderly : Orderly w top world) (restorable : Restorable w name world p) :
    PackageName name := by
  obtain ⟨s, named, shelf⟩ := orderly.stocked
  obtain ⟨rfl, -⟩ := restorable.kept
  exact named.packages p (Stock.mem_of_resolve (shelf ▸ restorable.offered))

theorem Restorable.shift (orderly : Orderly w top world) (restorable : Restorable w name world p)
    {other : String} (apart : name ≠ other) (shift : Shift w top (· ≠ other) world next) :
    Restorable w name next p := by
  obtain ⟨deps, grounded⟩ := orderly.grounded
  obtain ⟨deps', grounded', spares⟩ := shift.host.moved deps grounded
  have package := restorable.package orderly
  have untouched := untouched_of_shift orderly shift package apart
  obtain ⟨rfl, kept⟩ := restorable.kept
  refine ⟨?_, ?_, ⟨rfl, ?_, ?_⟩, ?_⟩
  · rw [untouched.entry]
    exact restorable.recorded
  · rw [shift.host.shelf]
    exact restorable.offered
  · exact kept.stored.congr grounded grounded' package (spares.files p.name package apart)
  · rw [untouched.files]
    exact kept.exact
  · rw [untouched.source]
    exact restorable.listed

namespace Registry

-- A call of the package manager is in time, or it is stopped before it has done anything.
def Undivided (r : Registry) (h : Host) : Prop := r.Unhurried h ∨ r.limit < Shelf.pauseTime h

theorem call_late {r : Registry} {h : Host} (late : r.limit < Shelf.pauseTime h) (what : String)
    (next : Unit → Job Host (Attempt α)) :
    r.call what (Shelf.pause.bind next) h = (.error (.timedOut what r.timeoutSecs), h) := by
  have delayed : h.shelf.delay = some (Shelf.pauseTime h) := by
    unfold Shelf.pauseTime at late ⊢
    cases none : h.shelf.delay with
    | none => simp [none] at late
    | some time => rfl
  have paused : Shelf.pauseOn h.shelf = .wait (Shelf.pauseTime h) := by
    unfold Shelf.pauseOn
    rw [delayed]
  simp only [call, Shelf.pause, Task.bind, Task.within, Task.run, paused, Task.wait]
  rw [if_neg (Nat.not_le_of_lt late)]
  rfl

/-! ### Versions from the index -/

theorem restorable_of_records (grounded : Grounded w top world.host.files deps) (named : s.WellNamed)
    (among : p ∈ s.items) {files : Tree}
    (puts : Shelf.Puts w p ("^" ++ p.version) world.host.files files)
    (offered : world.host.shelf.resolve (p.name ++ "@" ++ p.version) = .ok p)
    (records : (ofShelf w secs).Records p.name false { world.host with files } world next) :
    Restorable w p.name next p := by
  obtain ⟨schema, loaded, rfl⟩ := records
  have package := named.packages p among
  have clean := named.nodes p among
  obtain ⟨grounded', stored, -⟩ := grounded.puts package clean puts
  obtain ⟨-, rfl⟩ := loadSchema_of_stored (i := { item := p, archive := none }) stored false loaded
  refine ⟨?_, offered, ⟨rfl, grounded.kept package clean puts⟩, ?_⟩
  · show ((world.catalog.insert _).module? p.name).map (·.version) = some p.version
    rw [Catalog.module?_insert]
    exact congrArg (Option.map Schema.version) (if_pos rfl)
  · show w.source? files p.name = _
    rw [grounded'.source?, Entries.get?_change, if_pos rfl]

theorem restorable_of_install (orderly : Orderly w top world) (unversioned : Unversioned name)
    {version : Option String} (resolved : world.host.shelf.resolve (installSpec name version) = .ok p)
    (offered : world.host.shelf.resolve (name ++ "@" ++ p.version) = .ok p) {schema : Schema}
    (done : ((ofShelf w secs).install name version).run world = (.ok schema, next)) :
    Restorable w name next p := by
  obtain ⟨s, named, shelf⟩ := orderly.stocked
  obtain ⟨deps, grounded⟩ := orderly.grounded
  obtain ⟨host, added, records⟩ := run_install done
  obtain ⟨q, files, resolved', puts, rfl⟩ := Shelf.run_add added
  rw [resolved] at resolved'
  cases resolved'
  rw [shelf] at resolved
  obtain rfl := Stock.name_of_installSpec named unversioned resolved
  exact restorable_of_records grounded named (Stock.mem_of_resolve resolved) puts offered records

theorem restorable_of_change (orderly : Orderly w top world) {version : String} {schema : Schema}
    (done : ((ofShelf w secs).change name version).run world = (.ok schema, next)) :
    ∃ p, Restorable w name next p := by
  obtain ⟨s, named, shelf⟩ := orderly.stocked
  obtain ⟨deps, grounded⟩ := orderly.grounded
  obtain ⟨versions, asked, host, listed, known, added, records⟩ := run_change done
  obtain ⟨versions', rfl⟩ := Prod.mk.inj listed
  cases versions'
  obtain ⟨p, files, resolved, puts, rfl⟩ := Shelf.run_add added
  have offered := resolved
  rw [shelf] at resolved known
  have package := Stock.package_of_versions named known
  obtain rfl := Stock.name_of_version named package resolved
  obtain ⟨-, found⟩ := (Stock.of_version named resolved).resolve_right package.ne_empty
  obtain ⟨-, -, rfl⟩ := Stock.mem_of_version? found
  exact ⟨p, restorable_of_records grounded named (Stock.mem_of_resolve resolved) puts offered records⟩

/-! ### Failures -/

-- What was put in place of a version gives way to it again.
theorem retreat_restores (grounded : Grounded w top world.host.files deps) (named : s.WellNamed)
    (shelf : world.host.shelf = s.shelf) (unhurried : (ofShelf w secs).Unhurried world.host)
    (restorable : Restorable w name world p) {q : Item} (among : q ∈ s.items) (same : q.name = name)
    {source : String} {files : Tree} (puts : Shelf.Puts w q source world.host.files files) :
    ∃ files', (ofShelf w secs).retreat name ((world.catalog.module? name).map (·.version))
        { world.host with files } = { world.host with files := files' } ∧
      Grounded w top files' deps ∧ p.Kept w files' := by
  obtain ⟨rfl, kept⟩ := restorable.kept
  have package : PackageName p.name := same ▸ named.packages q among
  have listed := restorable.listed
  rw [grounded.source?] at listed
  have offered := restorable.offered
  have offered' : s.shelf.resolve (p.name ++ "@" ++ p.version) = .ok p := shelf ▸ offered
  have clean := named.nodes p (Stock.mem_of_resolve offered')
  obtain ⟨grounded', stored, found⟩ :=
    grounded.puts (named.packages q among) (named.nodes q among) puts
  obtain ⟨files', ran, puts'⟩ := Grounded.add_completes (h := { world.host with files }) grounded'
    grounded.aims package clean kept.stored same stored found offered
  have inTime : (ofShelf w secs).call ("restoring '" ++ (p.name ++ "@" ++ p.version) ++ "'")
      ((ofShelf w secs).manager.add (p.name ++ "@" ++ p.version)) { world.host with files }
      = (.ok (), { world.host with files := files' }) :=
    (Unhurried.call (h := { world.host with files }) unhurried
      (Shelf.time_add w (p.name ++ "@" ++ p.version) { world.host with files })).trans ran
  refine ⟨files', ?_, ?_, grounded'.kept package clean puts'⟩
  · rw [restorable.recorded, retreat, inTime]
  · obtain ⟨grounded'', -, -⟩ := grounded'.puts package clean puts'
    have back : Entries.change (Entries.change deps q.name (some source)) p.name
        (some ("^" ++ p.version)) = deps := by
      apply Entries.ext grounded''.sorted grounded.sorted
      intro key
      rw [same, Entries.get?_change, Entries.get?_change]
      by_cases here : p.name = key
      · rw [if_pos here, ← here, listed]
      · rw [if_neg here, if_neg here]
    rwa [back] at grounded''

-- A version of which the files are in place again.
theorem traceless_of_restored (grounded : Grounded w top world.host.files deps)
    (shift : Shift w top (· ≠ name) world next) (catalog : next.catalog = world.catalog)
    (grounded' : Grounded w top next.host.files deps) (restorable : Restorable w name world p)
    (kept : p.Kept w next.host.files) : Traceless w world next where
  catalog := catalog
  listed := by
    rw [grounded.dependencies, grounded'.dependencies]
  files other package := by
    obtain ⟨rfl, before⟩ := restorable.kept
    by_cases here : other = p.name
    · rw [here, kept.exact, before.exact]
    · obtain ⟨deps', grounded'', spares⟩ := shift.host.moved deps grounded
      exact grounded.inside_congr grounded'' package (spares.files other package here)

theorem change_failed (orderly : Orderly w top world)
    (undivided : (ofShelf w secs).Undivided world.host) (restorable : Restorable w name world p)
    {version : String} (writes : version ∈ world.host.shelf.versions name →
      ((Shelf.add w (name ++ "@" ++ version)).run world.host).1 = .ok ())
    {e : ModuleError} (failed : ((ofShelf w secs).change name version).run world = (.error e, next)) :
    next = world ∨ (Traceless w world next ∧ next.host.shelf = world.host.shelf ∧
      p.Kept w next.host.files) := by
  obtain ⟨s, named, shelf⟩ := orderly.stocked
  obtain ⟨deps, grounded⟩ := orderly.grounded
  have shift : Shift w top (· ≠ name) world (((ofShelf w secs).change name version).run world).2 :=
    shift_change grounded named shelf version
  rw [failed] at shift
  rw [change_run] at failed
  split at failed
  · rename_i known
    rcases undivided with unhurried | late
    · obtain ⟨q, files, resolved, puts, host⟩ :=
        Shelf.run_add (Prod.ext (writes known) rfl : _ = (Except.ok (), _))
      have inTime : (ofShelf w secs).call ("installing '" ++ (name ++ "@" ++ version) ++ "'")
          ((ofShelf w secs).manager.add (name ++ "@" ++ version)) world.host
          = (.ok (), { world.host with files }) :=
        (unhurried.call (Shelf.time_add w (name ++ "@" ++ version) world.host)).trans
          (Prod.ext (writes known) host)
      rw [shelf] at known resolved
      have package := Stock.package_of_versions named known
      have same := (Stock.name_of_version named package resolved).symm
      obtain ⟨files', retreats, grounded', kept⟩ := retreat_restores grounded named shelf unhurried
        restorable (Stock.mem_of_resolve resolved) same puts
      rw [adding, inTime] at failed
      unfold settle at failed
      dsimp only at failed
      split at failed
      · cases failed
      · cases failed
        rw [retreats] at shift ⊢
        exact .inr ⟨traceless_of_restored grounded shift rfl grounded' restorable kept, rfl, kept⟩
    · have stopped := call_late late ("installing '" ++ (name ++ "@" ++ version) ++ "'")
        fun () => andThen (Shelf.find (·.resolve (name ++ "@" ++ version)))
          fun p => Shelf.put w p ("^" ++ p.version)
      have manager : (ofShelf w secs).manager.add (name ++ "@" ++ version)
          = Shelf.pause.bind fun () => andThen (Shelf.find (·.resolve (name ++ "@" ++ version)))
            fun p => Shelf.put w p ("^" ++ p.version) := rfl
      rw [adding, manager, stopped] at failed
      cases failed
      exact .inl rfl
  · cases failed
    exact .inl rfl

/-! ### Histories -/

theorem loadSchema_congr (stored : p.Stored w t) (stored' : p.Stored w t') (isLocal : Bool) :
    (ofShelf w secs).loadSchema t' p.name isLocal = (ofShelf w secs).loadSchema t p.name isLocal := by
  have dir : (ofShelf w secs).workspace.packageDir p.name = w.packageDir p.name := rfl
  have loaded : Package.load t' (w.packageDir p.name) = Package.load t (w.packageDir p.name) :=
    (Item.load_of_stored stored').trans (Item.load_of_stored stored).symm
  unfold loadSchema
  rw [dir, loaded]

theorem change_undone (reached : Reached w world)
    (undivided : (ofShelf w secs).Undivided world.host) :
    (∀ name version p schema next, Unversioned name →
      world.host.shelf.resolve (installSpec name version) = .ok p →
      world.host.shelf.resolve (name ++ "@" ++ p.version) = .ok p →
      ((ofShelf w secs).install name version).run world = (.ok schema, next) →
      Restorable w name next p) ∧
    (∀ name version schema next,
      ((ofShelf w secs).change name version).run world = (.ok schema, next) →
      ∃ p, Restorable w name next p) ∧
    ∀ name p, Restorable w name world p →
      (∀ other, name ≠ other →
        (Unversioned other → ∀ version,
          Restorable w name (((ofShelf w secs).install other version).run world).2 p) ∧
        ∀ version, Restorable w name (((ofShelf w secs).change other version).run world).2 p) ∧
      ∀ version e next,
        (version ∈ world.host.shelf.versions name →
          ((Shelf.add w (name ++ "@" ++ version)).run world.host).1 = .ok ()) →
        ((ofShelf w secs).change name version).run world = (.error e, next) →
        Traceless w world next ∧ Restorable w name next p ∧
          ∀ isLocal, (ofShelf w secs).loadSchema next.host.files name isLocal
            = (ofShelf w secs).loadSchema world.host.files name isLocal := by
  obtain ⟨top, orderly⟩ := reached.orderly
  obtain ⟨s, named, shelf⟩ := orderly.stocked
  obtain ⟨deps, grounded⟩ := orderly.grounded
  refine ⟨fun name version p schema next unversioned resolved offered done => ?_,
    fun name version schema next done => restorable_of_change orderly done,
    fun name p restorable => ⟨fun other apart => ⟨fun unversioned version => ?_, fun version => ?_⟩,
      fun version e next writes failed => ?_⟩⟩
  · exact restorable_of_install orderly unversioned resolved offered done
  · exact restorable.shift orderly apart (shift_install grounded named shelf unversioned version)
  · exact restorable.shift orderly apart (shift_change grounded named shelf version)
  · rcases change_failed orderly undivided restorable writes failed with
      rfl | ⟨traceless, shelf', kept'⟩
    · exact ⟨.refl w _, restorable, fun _ => rfl⟩
    · obtain ⟨rfl, kept⟩ := restorable.kept
      refine ⟨traceless, ⟨?_, ?_, ⟨rfl, kept'⟩, ?_⟩, fun isLocal => ?_⟩
      · rw [traceless.catalog]
        exact restorable.recorded
      · rw [shelf']
        exact restorable.offered
      · rw [Workspace.source?, traceless.listed]
        exact restorable.listed
      · exact loadSchema_congr kept.stored kept'.stored isLocal

-- A version without nodes does not take the place of the one that is there.
theorem change_undone_draft :
    Reached { dir := "m" } withDraft ∧ (ofShelf { dir := "m" } 5).Undivided withDraft.host ∧
      Restorable { dir := "m" } "a" withDraft (release "a" "1.0.0") ∧
      ∃ e next, ((ofShelf { dir := "m" } 5).change "a" "2.0.0").run withDraft = (.error e, next) ∧
        Traceless { dir := "m" } withDraft next := by
  have reached : Reached { dir := "m" } drafts.world := wellNamed_drafts.reached
  have reached' : Reached { dir := "m" } withDraft := .call reached 5 _
  have undivided : (ofShelf { dir := "m" } 5).Undivided drafts.world.host :=
    .inl (by decide : (0 : Nat) ≤ 5000)
  have ran :
      ((((ofShelf { dir := "m" } 5).install "a" (some "1.0.0")).run drafts.world).1.isOk,
        Shelf.pauseTime withDraft.host,
        ((Shelf.add { dir := "m" } "a@2.0.0").run withDraft.host).1.toOption,
        (((ofShelf { dir := "m" } 5).change "a" "2.0.0").run withDraft).1.isOk)
      = (true, 0, some (), false) := by
    decide +kernel
  obtain ⟨installed, rest⟩ := Prod.mk.inj ran
  obtain ⟨prompt, rest⟩ := Prod.mk.inj rest
  obtain ⟨added, failed⟩ := Prod.mk.inj rest
  obtain ⟨schema, done⟩ := done_eq installed
  obtain ⟨e, failed⟩ := failed_eq failed
  have restorable : Restorable { dir := "m" } "a" withDraft (release "a" "1.0.0") := by
    rw [withDraft, after]
    exact (change_undone reached undivided).1 "a" (some "1.0.0") _ schema _
      ⟨by decide, by decide⟩ rfl rfl done
  have undivided' : (ofShelf { dir := "m" } 5).Undivided withDraft.host := by
    left
    rw [Unhurried, prompt]
    exact Nat.zero_le _
  obtain ⟨-, undone⟩ := (change_undone reached' undivided').2.2 "a" _ restorable
  exact ⟨reached', undivided', restorable, e, _, failed,
    (undone "2.0.0" e _ (fun _ => ok_of_toOption added) failed).1⟩

/-! ### A package from an archive -/

def bundled : Stock where
  published := [release "a" "1.0.0", blank "a" "2.0.0"]
  archives := [("a.tgz", release "a" "1.0.0")]
  delay := none

theorem wellNamed_bundled : bundled.WellNamed where
  packages p member :=
    .bare ((by decide : ∀ p ∈ bundled.items, Plain p.name) p member)
      ((by decide : ∀ p ∈ bundled.items, File.Names p.name) p member)
  nodes := by decide

def withBundle : World :=
  (ofShelf { dir := "m" } 5).after bundled.world (.installArchives ["a.tgz"])

-- The index has the same version, but what is put back is no longer the package of the archive.
theorem source_lost :
    Reached { dir := "m" } withBundle ∧ (∃ s, withBundle.catalog.module? "a" = some s) ∧
      (∃ e, (((ofShelf { dir := "m" } 5).change "a" "2.0.0").run withBundle).1 = .error e) ∧
      ¬Traceless { dir := "m" } withBundle
        (((ofShelf { dir := "m" } 5).change "a" "2.0.0").run withBundle).2 := by
  have ran :
      ((withBundle.catalog.module? "a").isSome,
        Workspace.source? { dir := "m" } withBundle.host.files "a",
        (((ofShelf { dir := "m" } 5).change "a" "2.0.0").run withBundle).1.isOk,
        Workspace.source? { dir := "m" }
          (((ofShelf { dir := "m" } 5).change "a" "2.0.0").run withBundle).2.host.files "a")
      = (true, some "file:a.tgz", false, some "^1.0.0") := by
    decide +kernel
  obtain ⟨recorded, rest⟩ := Prod.mk.inj ran
  obtain ⟨before, rest⟩ := Prod.mk.inj rest
  obtain ⟨failed, after⟩ := Prod.mk.inj rest
  refine ⟨.call wellNamed_bundled.reached 5 _, Option.isSome_iff_exists.mp recorded,
    exists_error failed, fun traceless => ?_⟩
  rw [Workspace.source?, traceless.listed] at after
  rw [Workspace.source?, after] at before
  exact absurd before (by decide)

end Registry

end Flowgate.Package
