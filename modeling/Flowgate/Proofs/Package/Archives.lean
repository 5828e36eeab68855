import Flowgate.Proofs.File.Names
import Flowgate.Proofs.Package.Inventory

/-!
The package that a program installed from an archive, told by the lists of packages before and after
its run. One that was not listed before is told at once. One that was is looked for by the name of the
archive at the end of its source. So it is missed exactly if a package before it in the list comes from
a file whose longer name ends in that of the archive.
-/

namespace Flowgate

namespace Entries

-- What is found first is the least of all that could be found.
theorem find?_least {es : Entries β} (sorted : Sorted es) {test : String × β → Bool}
    {pair : String × β} (found : es.find? test = some pair) :
    ∀ other ∈ es, test other = true → other = pair ∨ pair.1 < other.1 := by
  obtain ⟨-, before, after, rfl, fails⟩ := List.find?_eq_some_iff_append.mp found
  intro other member passes
  rcases List.mem_append.mp member with there | there
  · have failed := fails other there
    rw [passes] at failed
    cases failed
  · rcases List.mem_cons.mp there with same | later
    · exact .inl same
    · exact .inr ((List.pairwise_cons.mp (List.pairwise_append.mp sorted).2.1).1 other later)

end Entries

namespace Package

namespace ToolKind

variable {w : Workspace} {forced : Option ToolKind} {h h' : Host} {before after : Entries String}
  {archive package fileName : String}

-- What becomes of the list when a package is installed from an archive: the package is listed with a
-- path of the archive's name, no other one is from a file of that name, and all others stay as they
-- were.
structure Installs (before after : Entries String) (package fileName : String) : Prop where
  others : ∀ name ≠ package, Entries.get? after name = Entries.get? before name
  source : ∃ dir, Entries.get? after package = some (dir ++ "/" ++ fileName)
  apart : ∀ name ≠ package, ∀ source, Entries.get? after name = some source →
    File.name? source ≠ some fileName

-- A package of the list has a source that ends in a text.
def EndsIn (deps : Entries String) (text name : String) : Prop :=
  ∃ source, Entries.get? deps name = some source ∧ text.toList <:+ source.toList

theorem Installs.endsIn (installs : Installs before after package fileName) :
    EndsIn after fileName package := by
  obtain ⟨dir, listed⟩ := installs.source
  refine ⟨_, listed, ?_⟩
  rw [String.toList_append]
  exact List.suffix_append _ _

-- Another package whose source ends so is from a file with a longer name.
theorem Installs.longer (installs : Installs before after package fileName)
    (named : File.name? archive = some fileName) {name : String} (other : name ≠ package)
    (ends : EndsIn after fileName name) :
    ∃ source more, Entries.get? after name = some source ∧ more ≠ "" ∧
      File.name? source = some (more ++ fileName) := by
  obtain ⟨source, listed, front, whole⟩ := ends
  have cut : source = String.ofList front ++ fileName := by
    apply String.toList_injective
    rw [String.toList_append, String.toList_ofList, whole]
  obtain ⟨more, ends⟩ := File.name?_append named (String.ofList front)
  rw [← cut] at ends
  refine ⟨source, more, listed, ?_, ends⟩
  rintro rfl
  rw [String.empty_append] at ends
  exact installs.apart name other source listed ends

/-! ### What the lists tell -/

theorem contains_of_mem (sorted : Entries.Sorted after)
    (installs : Installs before after package fileName) {pair : String × String}
    (member : pair ∈ after) (other : pair.1 ≠ package) :
    Entries.contains before pair.1 = true := by
  rw [Entries.contains, ← installs.others pair.1 other, Entries.get?_of_mem sorted member]
  rfl

theorem installedName?_fresh (sorted : Entries.Sorted after)
    (installs : Installs before after package fileName)
    (fresh : Entries.contains before package = false) :
    installedName? before after archive = some package := by
  have first : (after.find? fun pair => !Entries.contains before pair.1).map Prod.fst
      = some package := by
    obtain ⟨dir, listed⟩ := installs.source
    cases found : after.find? fun pair => !Entries.contains before pair.1 with
    | none =>
      have known := List.find?_eq_none.mp found _ (Entries.mem_of_get? listed)
      simp [fresh] at known
    | some pair =>
      have unknown := List.find?_some found
      by_contra other
      rw [contains_of_mem sorted installs (List.mem_of_find?_eq_some found)
        fun same => other (congrArg some same)] at unknown
      cases unknown
  rw [installedName?, Option.map_or, first]
  rfl

-- A package that was listed before: the first one whose source ends in the name is taken for it.
theorem installedName?_listed (sorted : Entries.Sorted after)
    (installs : Installs before after package fileName)
    (named : File.name? archive = some fileName)
    (old : Entries.contains before package = true) :
    ∃ name, installedName? before after archive = some name ∧ EndsIn after fileName name ∧
      ∀ other, EndsIn after fileName other → other = name ∨ name < other := by
  have none : (after.find? fun pair => !Entries.contains before pair.1) = none := by
    rw [List.find?_eq_none]
    intro pair member
    by_cases own : pair.1 = package
    · simp [own, old]
    · simp [contains_of_mem sorted installs member own]
  have full : fileName.isEmpty = false := by
    simpa using (File.names_of_name? named).1.1
  have whole : installedName? before after archive
      = (after.find? fun pair => fileName.toList.isSuffixOf pair.2.toList).map Prod.fst := by
    rw [installedName?, none, Option.none_or, named]
    simp only [Option.getD_some, full, Bool.not_false, Bool.true_and]
  obtain ⟨source, listed, ends⟩ := installs.endsIn
  cases found : after.find? fun pair => fileName.toList.isSuffixOf pair.2.toList with
  | none =>
    have not := List.find?_eq_none.mp found _ (Entries.mem_of_get? listed)
    exact absurd (List.isSuffixOf_iff_suffix.mpr ends) not
  | some pair =>
    have member := List.mem_of_find?_eq_some found
    have suffix : fileName.toList.isSuffixOf pair.2.toList = true := by
      simpa using List.find?_some found
    refine ⟨pair.1, by rw [whole, found]; rfl,
      ⟨pair.2, Entries.get?_of_mem sorted member, List.isSuffixOf_iff_suffix.mp suffix⟩, ?_⟩
    rintro other ⟨source', listed', ends'⟩
    have least := Entries.find?_least sorted found _ (Entries.mem_of_get? listed')
      (List.isSuffixOf_iff_suffix.mpr ends')
    exact least.imp_left (congrArg Prod.fst)

/-! ### Runs -/

-- The run of the program that adds an archive.
def archiveRun (w : Workspace) (forced : Option ToolKind) (archive : String) :
    Job Host (Attempt Unit) :=
  withKind w forced fun kind => launch w forced (kind.addArguments ++ [archive])

theorem addArchive_run (listed : w.dependencies h.files = .ok before)
    (ran : (archiveRun w forced archive).run h = (.ok (), h'))
    (listed' : w.dependencies h'.files = .ok after) {name : String}
    (told : installedName? before after archive = some name) :
    ((manager w forced).addArchive archive).run h = (.ok name, h') := by
  have read {host : Host} {deps : Entries String} (found : w.dependencies host.files = .ok deps) :
      (dependencies w).run host = (.ok deps, host) := by
    simp only [dependencies, Task.run, found, mapError_ok]
  have launched : (launch w forced ((forced.getD (w.toolKind h.files)).addArguments ++ [archive])).run h
      = (.ok (), h') := ran
  show (addArchive w forced archive).run h = _
  rw [addArchive, run_andThen_ok (read listed)]
  show (andThen _ _).run h = _
  rw [run_andThen_ok launched, run_andThen_ok (read listed'), told]
  rfl

-- The name is that of the package, or else the name of an earlier one whose archive is called alike.
theorem addArchive_name (installs : Installs before after package fileName)
    (named : File.name? archive = some fileName) (listed : w.dependencies h.files = .ok before)
    (ran : (archiveRun w forced archive).run h = (.ok (), h'))
    (listed' : w.dependencies h'.files = .ok after) :
    ∃ name, ((manager w forced).addArchive archive).run h = (.ok name, h') ∧
      (name = package ↔ ¬(Entries.contains before package = true ∧
        ∃ other < package, EndsIn after fileName other)) ∧
      (name ≠ package → name < package ∧ ∃ source more, Entries.get? after name = some source ∧
        more ≠ "" ∧ File.name? source = some (more ++ fileName)) := by
  have sorted := Workspace.sorted_dependencies listed'
  cases old : Entries.contains before package with
  | false =>
    have told : installedName? before after archive = some package :=
      installedName?_fresh sorted installs old
    exact ⟨package, addArchive_run listed ran listed' told, by simp, fun other => absurd rfl other⟩
  | true =>
    obtain ⟨name, told, ends, least⟩ := installedName?_listed sorted installs named old
    have below (other : name ≠ package) : name < package :=
      (least package installs.endsIn).resolve_left (Ne.symm other)
    refine ⟨name, addArchive_run listed ran listed' told, ?_,
      fun other => ⟨below other, installs.longer named other ends⟩⟩
    constructor
    · rintro rfl ⟨-, other, less, ends'⟩
      rcases least other ends' with rfl | more
      · exact String.lt_irrefl _ less
      · exact String.lt_irrefl _ (String.lt_trans less more)
    · intro first
      by_contra other
      exact first ⟨rfl, name, below other, ends⟩

/-! ### Two archives -/

-- The manifest of a list of packages.
def listText (deps : Entries String) : String :=
  let lines := deps.map fun (name, source) => "\"" ++ name ++ "\":\"" ++ source ++ "\""
  "\x7b\"dependencies\":\x7b" ++ ",".intercalate lines ++ "\x7d\x7d"

-- A workspace `m` with a list of packages, and a program whose run makes another list of it.
def relisting (before after : Entries String) : Host :=
  { releases.world.host with
    files := { nodes := [(["m"], .directory), (["m", "package.json"], .text (listText before))] }
    toolbox := { programs := ["npm"], log := []
                 runs := [{ ToolRun.nothing with written := [("package.json", listText after)] }] } }

-- The list before an archive is added, whether the run succeeds, and the list after it.
def observed (h : Host) (archive : String) :
    Option (Entries String) × Bool × Option (Entries String) :=
  let ran := (archiveRun { dir := "m" } none archive).run h
  ((Workspace.dependencies { dir := "m" } h.files).toOption, ran.1.isOk,
    (Workspace.dependencies { dir := "m" } ran.2.files).toOption)

theorem ran_of_observed (h : Host) (archive : String) {before after : Entries String}
    (seen : observed h archive = (some before, true, some after)) :
    Workspace.dependencies { dir := "m" } h.files = .ok before ∧
      ∃ h', (archiveRun { dir := "m" } none archive).run h = (.ok (), h') ∧
        Workspace.dependencies { dir := "m" } h'.files = .ok after := by
  obtain ⟨listed, rest⟩ := Prod.mk.inj seen
  obtain ⟨done, listed'⟩ := Prod.mk.inj rest
  obtain ⟨⟨⟩, ran⟩ := done_eq done
  exact ⟨ok_of_toOption listed, _, ran, ok_of_toOption listed'⟩

def archived (fileName : String) : String := "file:../archives" ++ "/" ++ fileName

theorem installs_second {other source former : String} (distinct : other ≠ package)
    (apart : File.name? source ≠ some fileName) :
    Installs [(other, source), (package, former)]
      [(other, source), (package, archived fileName)] package fileName := by
  have own : Entries.get? [(other, source), (package, archived fileName)] package
      = some (archived fileName) := by
    simp [Entries.get?, distinct]
  refine ⟨fun name differs => ?_, ⟨"file:../archives", own⟩, fun name differs text listed => ?_⟩
  · simp [Entries.get?, Ne.symm differs]
  · by_cases here : other = name
    · simp only [Entries.get?, here, if_true, Option.some.injEq] at listed
      exact listed ▸ apart
    · simp [Entries.get?, here, Ne.symm differs] at listed

-- The second package was listed from the index and comes from an archive now. The name of the first
-- one's archive is another one.
theorem addArchive_name_switched :
    let archive := "../archives/b-1.0.0.tgz"
    let before := [("a", archived "a-1.0.0.tgz"), ("b", "^1.0.0")]
    let after := [("a", archived "a-1.0.0.tgz"), ("b", archived "b-1.0.0.tgz")]
    let h := relisting before after
    ∃ h', Installs before after "b" "b-1.0.0.tgz" ∧ File.name? archive = some "b-1.0.0.tgz" ∧
      Workspace.dependencies { dir := "m" } h.files = .ok before ∧
      (archiveRun { dir := "m" } none archive).run h = (.ok (), h') ∧
      Workspace.dependencies { dir := "m" } h'.files = .ok after ∧
      ((manager { dir := "m" } none).addArchive archive).run h = (.ok "b", h') := by
  intro archive before after h
  have installs : Installs before after "b" "b-1.0.0.tgz" :=
    installs_second (by decide) (by decide +kernel)
  have named : File.name? archive = some "b-1.0.0.tgz" := by decide +kernel
  have seen : observed h archive = (some before, true, some after) := by decide +kernel
  obtain ⟨listed, h', ran, listed'⟩ := ran_of_observed h archive seen
  obtain ⟨name, added, told, -⟩ := addArchive_name installs named listed ran listed'
  have only : ¬∃ other < "b", EndsIn after "b-1.0.0.tgz" other := by
    rintro ⟨other, less, source, found, ends⟩
    by_cases first : "a" = other
    · simp only [after, Entries.get?, first, if_true, Option.some.injEq] at found
      rw [← found] at ends
      exact absurd ends (by decide)
    · have second : "b" ≠ other := fun same => absurd (same ▸ less) (String.lt_irrefl _)
      simp [after, Entries.get?, first, second] at found
  refine ⟨h', installs, named, listed, ran, listed', ?_⟩
  rw [added, told.mpr fun both => only both.2]

-- The name of the first one's archive ends in that of the second one's.
theorem addArchive_misnamed :
    let archive := "../archives/nodes-1.0.0.tgz"
    let before := [("@acme/nodes", archived "acme-nodes-1.0.0.tgz"), ("nodes", "^1.0.0")]
    let after := [("@acme/nodes", archived "acme-nodes-1.0.0.tgz"),
      ("nodes", archived "nodes-1.0.0.tgz")]
    let h := relisting before after
    ∃ h', Installs before after "nodes" "nodes-1.0.0.tgz" ∧
      File.name? archive = some "nodes-1.0.0.tgz" ∧
      Workspace.dependencies { dir := "m" } h.files = .ok before ∧
      (archiveRun { dir := "m" } none archive).run h = (.ok (), h') ∧
      Workspace.dependencies { dir := "m" } h'.files = .ok after ∧
      ((manager { dir := "m" } none).addArchive archive).run h = (.ok "@acme/nodes", h') := by
  intro archive before after h
  have installs : Installs before after "nodes" "nodes-1.0.0.tgz" :=
    installs_second (by decide) (by decide +kernel)
  have named : File.name? archive = some "nodes-1.0.0.tgz" := by decide +kernel
  have seen : observed h archive = (some before, true, some after) := by decide +kernel
  obtain ⟨listed, h', ran, listed'⟩ := ran_of_observed h archive seen
  have told : installedName? before after archive = some "@acme/nodes" := by decide +kernel
  exact ⟨h', installs, named, listed, ran, listed', addArchive_run listed ran listed' told⟩

end ToolKind

end Package

end Flowgate
