import Flowgate.Proofs.Package.References

/-!
Which pairs of a module and a node share an identity. The identity is the digest of one text, so two
pairs share it if the name of one module is that of the other with a dot and more after it, and the
node of the other starts with what is more. Apart from that, identities differ as long as digests do.
-/

namespace Flowgate.Package

namespace Identity

variable {texts : String → Prop} {m m' : String} {n n' : Option String}

-- The name of the node, empty if there is none.
def nodeText (node : Option String) : String := node.getD ""

-- The second module is named by the first one and, after a dot, by the beginning of its node; what
-- is left of the name of the node is the second node.
def Extends (m : String) (n : Option String) (m' : String) (n' : Option String) : Prop :=
  ∃ more, m' = reference m more ∧ nodeText n ≠ "" ∧ nodeText n = source more n'

theorem source_blank (m : String) (none : nodeText n = "") : source m n = m := by
  cases n with
  | none => rfl
  | some text =>
    obtain rfl : text = "" := none
    rfl

theorem source_some (m : String) (some : nodeText n ≠ "") :
    source m n = reference m (nodeText n) := by
  cases n with
  | none => exact absurd rfl some
  | some text =>
    have full : text.isEmpty = false := by simpa [nodeText] using some
    simp only [source, full, Bool.false_eq_true, if_false, nodeText, Option.getD_some, reference]

theorem source_reference (m more : String) (n : Option String) :
    source (reference m more) n = reference m (source more n) := by
  by_cases none : nodeText n = ""
  · rw [source_blank _ none, source_blank _ none]
  · rw [source_some _ none, source_some _ none, reference_assoc]

theorem Extends.source_eq (extends' : Extends m n m' n') : source m n = source m' n' := by
  obtain ⟨more, rfl, some, same⟩ := extends'
  rw [source_some m some, same, source_reference]

theorem source_congr (same : nodeText n = nodeText n') (m : String) : source m n = source m n' := by
  by_cases none : nodeText n = ""
  · rw [source_blank m none, source_blank m (same ▸ none)]
  · rw [source_some m none, source_some m (same ▸ none), same]

-- Two texts that are the same are cut at the same dot, or one of them at a dot before the other's.
theorem reference_eq {a b a' b' : String} (same : reference a b = reference a' b') :
    (a = a' ∧ b = b') ∨ (∃ more, a' = reference a more ∧ b = reference more b') ∨
      ∃ more, a = reference a' more ∧ b' = reference more b := by
  have chars := congrArg String.toList same
  have text {c d e : String} (whole : c.toList = d.toList ++ '.' :: e.toList) :
      c = reference d e :=
    String.toList_injective (whole.trans (toList_reference d e).symm)
  rw [toList_reference, toList_reference] at chars
  rcases Text.append_sep_eq chars with equal | ⟨more, front, back⟩ | ⟨more, front, back⟩
  · exact .inl equal
  · exact .inr (.inl ⟨more, text front, text back⟩)
  · exact .inr (.inr ⟨more, text front, text back⟩)

theorem source_eq_iff : source m n = source m' n' ↔
    (m = m' ∧ nodeText n = nodeText n') ∨ Extends m n m' n' ∨ Extends m' n' m n := by
  constructor
  · intro same
    by_cases none : nodeText n = "" <;> by_cases none' : nodeText n' = ""
    · rw [source_blank m none, source_blank m' none'] at same
      exact .inl ⟨same, none.trans none'.symm⟩
    · rw [source_blank m none, source_some m' none'] at same
      exact .inr (.inr ⟨nodeText n', same, none', (source_blank _ none).symm⟩)
    · rw [source_some m none, source_blank m' none'] at same
      exact .inr (.inl ⟨nodeText n, same.symm, none, (source_blank _ none').symm⟩)
    · rw [source_some m none, source_some m' none'] at same
      rcases reference_eq same with equal | ⟨more, longer, rest⟩ | ⟨more, longer, rest⟩
      · exact .inl equal
      · exact .inr (.inl ⟨more, longer, none, rest.trans (source_some more none').symm⟩)
      · exact .inr (.inr ⟨more, longer, none', rest.trans (source_some more none).symm⟩)
  · rintro (⟨rfl, same⟩ | longer | longer)
    · exact source_congr same m
    · exact longer.source_eq
    · exact longer.source_eq.symm

theorem of_eq_iff_source (distinct : Distinct texts) (hashed : texts (source m n))
    (hashed' : texts (source m' n')) : of m n = of m' n' ↔ source m n = source m' n' :=
  ⟨distinct _ _ hashed hashed', congrArg ofName⟩

theorem Extends.dot_mem (extends' : Extends m n m' n') : '.' ∈ m'.toList := by
  obtain ⟨more, rfl, -, -⟩ := extends'
  simp [toList_reference]

theorem Extends.dot_mem_node (extends' : Extends m n m' n') (some : nodeText n' ≠ "") :
    '.' ∈ (nodeText n).toList := by
  obtain ⟨more, -, -, same⟩ := extends'
  rw [same, source_some more some, toList_reference]
  simp

-- The dots show where the node begins: the names of the modules have none, or both are nodes whose
-- names have none.
def Legible (m : String) (n : Option String) (m' : String) (n' : Option String) : Prop :=
  ('.' ∉ m.toList ∧ '.' ∉ m'.toList) ∨
    (nodeText n ≠ "" ∧ nodeText n' ≠ "" ∧ '.' ∉ (nodeText n).toList ∧ '.' ∉ (nodeText n').toList)

theorem Legible.not_extends (legible : Legible m n m' n') :
    ¬Extends m n m' n' ∧ ¬Extends m' n' m n := by
  rcases legible with ⟨clean, clean'⟩ | ⟨some, some', clean, clean'⟩
  · exact ⟨fun longer => clean' longer.dot_mem, fun longer => clean longer.dot_mem⟩
  · exact ⟨fun longer => clean (longer.dot_mem_node some'),
      fun longer => clean' (longer.dot_mem_node some)⟩

-- A node goes with a module if its name is what the module has after the dot.
theorem extends_none_iff : Extends m n m' none ↔ nodeText n ≠ "" ∧ m' = reference m (nodeText n) := by
  constructor
  · rintro ⟨more, longer, some, same⟩
    rw [source_blank more rfl] at same
    exact ⟨some, same ▸ longer⟩
  · rintro ⟨some, longer⟩
    exact ⟨nodeText n, longer, some, (source_blank _ rfl).symm⟩

theorem not_extends_of_none : ¬Extends m none m' n' := by
  rintro ⟨-, -, some, -⟩
  exact some rfl

end Identity

/-! ### Packages -/

-- The texts that are hashed for the module and for its nodes.
def Schema.Hashed (texts : String → Prop) (s : Schema) : Prop :=
  texts s.name ∧ ∀ d ∈ s.nodes, texts (Identity.source s.name (some d.name))

theorem Schema.Built.node {s : Schema} (built : s.Built) :
    ∀ d ∈ s.nodes, d.id = .node s.name d.name := by
  obtain ⟨manifest, isLocal, loaded, rfl⟩ := built
  intro d member
  obtain ⟨entry, -, rfl⟩ := List.mem_map.mp member
  rfl

namespace Identity

theorem of_eq_iff {texts : String → Prop} (distinct : Distinct texts) :
    (∀ m n m' n', texts (source m n) → texts (source m' n') →
      (of m n = of m' n' ↔
        (m = m' ∧ nodeText n = nodeText n') ∨ Extends m n m' n' ∨ Extends m' n' m n) ∧
      (Legible m n m' n' → (of m n = of m' n' ↔ m = m' ∧ nodeText n = nodeText n'))) ∧
    ∀ s t : Schema, s.Built → t.Built → s.Hashed texts → t.Hashed texts → s.name ≠ t.name →
      s.id ≠ t.id ∧
      (∀ d ∈ s.nodes, d.id = t.id ↔ d.name ≠ "" ∧ t.name = reference s.name d.name) ∧
      ∀ d ∈ s.nodes, ∀ e ∈ t.nodes, d.id = e.id ↔
        Extends s.name (some d.name) t.name (some e.name) ∨
          Extends t.name (some e.name) s.name (some d.name) := by
  have pairs (m n m' n') (hashed : texts (source m n)) (hashed' : texts (source m' n')) :
      of m n = of m' n' ↔
        (m = m' ∧ nodeText n = nodeText n') ∨ Extends m n m' n' ∨ Extends m' n' m n :=
    (of_eq_iff_source distinct hashed hashed').trans source_eq_iff
  refine ⟨fun m n m' n' hashed hashed' => ⟨pairs m n m' n' hashed hashed', fun legible => ?_⟩, ?_⟩
  · rw [pairs m n m' n' hashed hashed']
    simp only [legible.not_extends.1, legible.not_extends.2, or_false]
  · rintro s t built built' ⟨hashed, nodes⟩ ⟨hashed', nodes'⟩ apart
    refine ⟨?_, fun d member => ?_, fun d member e member' => ?_⟩
    · rw [built.own, built'.own]
      exact fun same => apart (distinct _ _ hashed hashed' same)
    · rw [built.node d member, built'.own]
      refine (pairs _ _ _ none (nodes d member) hashed').trans ?_
      simp only [apart, false_and, false_or, not_extends_of_none, or_false, extends_none_iff,
        nodeText, Option.getD_some]
    · rw [built.node d member, built'.node e member']
      refine (pairs _ _ _ _ (nodes d member) (nodes' e member')).trans ?_
      simp only [apart, false_and, false_or]

-- A package with nodes that have no controllers.
def packageOf (name : String) (nodes : List String) : Schema :=
  .ofManifest
    { name, version := "1.0.0", description := none, author := .null,
      nodes := some (nodes.map fun node =>
        { name := node, kind := .request, controller := none, description := none,
          inputs := .null }) }
    false none

theorem hashed_packageOf {texts : List String} {name : String} {nodes : List String}
    (module : name ∈ texts) (listed : ∀ node ∈ nodes, source name (some node) ∈ texts) :
    (packageOf name nodes).Hashed (· ∈ texts) := by
  refine ⟨module, fun d member => ?_⟩
  obtain ⟨entry, among, rfl⟩ := List.mem_map.mp member
  obtain ⟨node, there, rfl⟩ := List.mem_map.mp among
  exact listed node there

-- Two packages with a node of one name.
theorem of_eq_iff_nodes :
    Distinct (· ∈ ["a", "a.n", "b", "b.n"]) ∧
      (packageOf "a" ["n"]).Hashed (· ∈ ["a", "a.n", "b", "b.n"]) ∧
      (packageOf "b" ["n"]).Hashed (· ∈ ["a", "a.n", "b", "b.n"]) ∧
      of "a" (some "n") ≠ of "b" (some "n") ∧
      ∀ d ∈ (packageOf "a" ["n"]).nodes, d.id ≠ (packageOf "b" ["n"]).id := by
  have distinct : Distinct (· ∈ ["a", "a.n", "b", "b.n"]) := distinct_of_nodup (by decide +kernel)
  have hashed : (packageOf "a" ["n"]).Hashed (· ∈ ["a", "a.n", "b", "b.n"]) :=
    hashed_packageOf (by decide) (by decide)
  have hashed' : (packageOf "b" ["n"]).Hashed (· ∈ ["a", "a.n", "b", "b.n"]) :=
    hashed_packageOf (by decide) (by decide)
  obtain ⟨pairs, packages⟩ := of_eq_iff distinct
  refine ⟨distinct, hashed, hashed', ?_, fun d member shared => ?_⟩
  · have legible : Legible "a" (some "n") "b" (some "n") := .inl ⟨by decide, by decide⟩
    have same := (pairs "a" (some "n") "b" (some "n") (by decide) (by decide)).2 legible
    exact fun shared => absurd (same.mp shared).1 (by decide)
  · obtain ⟨-, modules, -⟩ :=
      packages _ _ ⟨_, _, _, rfl⟩ ⟨_, _, _, rfl⟩ hashed hashed' (show "a" ≠ "b" by decide)
    have longer := ((modules d member).mp shared).2
    have chars : ("b" : String).toList = "a".toList ++ '.' :: d.name.toList :=
      (congrArg String.toList longer).trans (toList_reference _ _)
    exact absurd (List.cons.inj chars).1 (by decide)

-- The node `b` of the package `a` is found as the package `a.b`.
theorem of_eq_iff_clash :
    Distinct (· ∈ ["a", "a.b"]) ∧ of "a" (some "b") = of "a.b" none ∧
      (packageOf "a" ["b"]).Built ∧ (packageOf "a" ["b"]).Hashed (· ∈ ["a", "a.b"]) ∧
      (packageOf "a.b" []).Built ∧ (packageOf "a.b" []).Hashed (· ∈ ["a", "a.b"]) ∧
      ∃ d ∈ (packageOf "a" ["b"]).nodes, d.id = (packageOf "a.b" []).id := by
  refine ⟨distinct_pair (by decide +kernel), rfl, ⟨_, _, _, rfl⟩, ?_, ⟨_, _, _, rfl⟩, ?_, ?_⟩
  · exact hashed_packageOf (by decide) (by decide)
  · exact hashed_packageOf (by decide) (by decide)
  · exact ⟨_, List.mem_singleton_self _, rfl⟩

end Identity

end Flowgate.Package
