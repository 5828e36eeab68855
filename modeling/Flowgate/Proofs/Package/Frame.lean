import Flowgate.Proofs.Package.Reached

/-!
What an operation on one package leaves alone: whether it succeeds, fails or is stopped, every other
package keeps its entry in the catalog, its source in the manifest, its files and its controllers. The
name of an installation must not be one that the shelf takes for a name and a version.
-/

namespace Flowgate.Package

open File (Place)

variable {w : Workspace} {top : Place} {a b : World} {name other : String}

-- The source that the manifest lists for a package, if it can be read and lists one.
def Workspace.source? (w : Workspace) (t : File.Tree) (name : String) : Option String :=
  (w.dependencies t).toOption.bind (Entries.get? · name)

-- After an operation on one package, another one is as it was.
structure Untouched (w : Workspace) (name other : String) (a b : World) : Prop where
  entry : b.catalog.module? other = a.catalog.module? other
  source : w.source? b.host.files other = w.source? a.host.files other
  files : b.host.files.inside (w.packageDir other) = a.host.files.inside (w.packageDir other)
  controllers : Identity.module other ≠ Identity.module name →
    ∀ node, b.catalog.controller other node = a.catalog.controller other node

theorem Grounded.source? {t : File.Tree} {deps : Entries String} (grounded : Grounded w top t deps)
    (name : String) : w.source? t name = Entries.get? deps name := by
  rw [Workspace.source?, grounded.dependencies]
  rfl

theorem Grounded.inside_congr {t t' : File.Tree} {deps deps' : Entries String}
    (grounded : Grounded w top t deps) (grounded' : Grounded w top t' deps')
    (package : PackageName name) (same : ∀ p, top ++ way name <+: p → t'.at? p = t.at? p) :
    t'.inside (w.packageDir name) = t.inside (w.packageDir name) :=
  File.Tree.inside_congr grounded.aims grounded'.aims grounded.sound grounded'.sound
    (steps_packageDir w package.relative) (names_way package) (List.cons_ne_nil _ _) same

theorem untouched_of_shift (orderly : Orderly w top a) (shift : Shift w top (· ≠ name) a b)
    (package : PackageName other) (apart : other ≠ name) : Untouched w name other a b := by
  obtain ⟨deps, grounded⟩ := orderly.grounded
  obtain ⟨deps', grounded', spares⟩ := shift.host.moved deps grounded
  refine ⟨?_, ?_, grounded.inside_congr grounded' package (spares.files other package apart), ?_⟩
  · rcases shift.catalog with same | ⟨schema, -, named, inserted⟩
    · rw [same]
    · rw [not_not] at named
      rw [inserted, Catalog.module?_insert, if_neg (named ▸ apart.symm)]
  · rw [grounded.source?, grounded'.source?, spares.listed other apart]
  · intro identities node
    rcases shift.catalog with same | ⟨schema, own, named, inserted⟩
    · rw [same]
    · rw [not_not] at named
      rw [inserted]
      exact Catalog.controller_insert orderly.keyed own (named ▸ identities) node

namespace Registry

theorem others_untouched {world : World} (reached : Reached w world) (secs : Nat)
    (package : PackageName other) (apart : other ≠ name) :
    (Unversioned name → ∀ version,
      Untouched w name other world (((ofShelf w secs).install name version).run world).2) ∧
    ∀ version, Untouched w name other world (((ofShelf w secs).change name version).run world).2 := by
  obtain ⟨top, orderly⟩ := reached.orderly
  obtain ⟨s, named, shelf⟩ := orderly.stocked
  obtain ⟨deps, grounded⟩ := orderly.grounded
  constructor
  · intro unversioned version
    exact untouched_of_shift orderly (shift_install grounded named shelf unversioned version) package
      apart
  · intro version
    exact untouched_of_shift orderly (shift_change grounded named shelf version) package apart

end Registry

/-! ### Two versions on the shelf -/

def release (name version : String) : Item where
  name := name
  version := version
  nodes := [{ name := "n", kind := "Request", script := none }]

def releases : Stock where
  published := [release "a" "1.0.0", release "a" "2.0.0", release "b" "1.0.0"]
  archives := []
  delay := none

-- A shelf beside an empty workspace.
def Stock.world (s : Stock) : World where
  host := { files := .empty, shelf := s.shelf, toolbox := { programs := [], runs := [], log := [] } }
  catalog := .empty

theorem Stock.WellNamed.reached {s : Stock} (named : s.WellNamed) : Reached { dir := "m" } s.world :=
  .start s named rfl File.Tree.sound_empty vacant_empty rfl

theorem wellNamed_releases : releases.WellNamed where
  packages p member :=
    .bare ((by decide : ∀ p ∈ releases.items, Plain p.name) p member)
      ((by decide : ∀ p ∈ releases.items, File.Names p.name) p member)
  nodes := by decide

def withA : World := (Registry.ofShelf { dir := "m" } 5).after releases.world (.install "a" none)

theorem Registry.others_untouched_b :
    Reached { dir := "m" } withA ∧ PackageName "a" ∧ "a" ≠ "b" ∧ Unversioned "b" ∧
      Untouched { dir := "m" } "b" "a" withA
        (((ofShelf { dir := "m" } 5).install "b" none).run withA).2 := by
  have reached : Reached { dir := "m" } withA := .call wellNamed_releases.reached 5 _
  have package : PackageName "a" := .bare (by decide) (by decide)
  have package' : PackageName "b" := .bare (by decide) (by decide)
  exact ⟨reached, package, by decide, package'.unversioned,
    (others_untouched reached 5 package (by decide)).1 package'.unversioned none⟩

-- A name with a version in it: the installation fails, but the package has changed its version.
theorem Registry.touched_by_versioned :
    ¬Untouched { dir := "m" } "a@1.0.0" "a" withA
      (((ofShelf { dir := "m" } 5).install "a@1.0.0" none).run withA).2 := by
  intro untouched
  have sources :
      (Workspace.source? { dir := "m" } withA.host.files "a",
        Workspace.source? { dir := "m" }
          (((ofShelf { dir := "m" } 5).install "a@1.0.0" none).run withA).2.host.files "a")
      = (some "^2.0.0", some "^1.0.0") := by
    decide +kernel
  obtain ⟨before, after⟩ := Prod.mk.inj sources
  have same := untouched.source
  rw [before, after] at same
  exact absurd same (by decide)

end Flowgate.Package
