import Flowgate.Proofs.Package.History
import Flowgate.Proofs.Text.Pieces

/-!
References to nodes. The text `module.node` is cut at its last dot. So it leads to the node of the
module whatever dots the name of the module has, as long as the name of the node has none.
-/

namespace Flowgate.Package

-- The text that refers to a node of a module.
def reference (module node : String) : String := module ++ "." ++ node

theorem toList_reference (module node : String) :
    (reference module node).toList = module.toList ++ '.' :: node.toList := by
  simp [reference, String.toList_append]

theorem reference_assoc (a b c : String) :
    reference a (reference b c) = reference (reference a b) c := by
  simp [reference, String.append_assoc]

theorem splitLast_reference (module : String) {node : String} (clean : '.' ∉ node.toList) :
    Text.splitLast '.' (reference module node) = some (module, node) :=
  Text.splitLast_eq_some.mpr ⟨toList_reference module node, clean⟩

namespace Catalog

variable {names : String → Prop} {c : Catalog}

theorem resolve_of_clean (c : Catalog) (module : String) {node : String}
    (clean : '.' ∉ node.toList) :
    c.resolve (some (reference module node)) = c.controller module node := by
  simp only [resolve, Option.bind_some, splitLast_reference module clean]

theorem controller_eq (distinct : Identity.Distinct names) (recorded : c.Recorded names)
    {module : String} (known : names module) (node : String) :
    c.controller module node = .orNoop ((c.module? module).map (·.controller node)) := by
  rw [controller, find?_module distinct recorded known]
  cases c.module? module <;> rfl

theorem resolve_reference (distinct : Identity.Distinct names) (recorded : c.Recorded names)
    {module : String} {s : Schema} (held : c.module? module = some s) (node : String) :
    c.controller module node = s.controller node ∧
    ('.' ∉ node.toList → c.resolve (some (reference module node)) = c.controller module node) ∧
    -- With dots in its name, it is a node of another module that the text refers to.
    ∀ front last, node = reference front last → '.' ∉ last.toList →
      c.resolve (some (reference module node)) = c.controller (reference module front) last ∧
      (names (reference module front) → c.resolve (some (reference module node))
        = .orNoop ((c.module? (reference module front)).map (·.controller last))) := by
  have known : names module := by
    obtain ⟨rfl, -, among⟩ := (recorded.indexed distinct).named module s held
    exact among
  refine ⟨?_, c.resolve_of_clean module, ?_⟩
  · rw [controller_eq distinct recorded known, held]
    rfl
  · rintro front last rfl clean
    have onward : c.resolve (some (reference module (reference front last)))
        = c.controller (reference module front) last := by
      rw [reference_assoc]
      exact c.resolve_of_clean _ clean
    refine ⟨onward, fun known => ?_⟩
    rw [onward, controller_eq distinct recorded known]

-- A package with one node, whose script always fails.
def failing (name node : String) : Schema :=
  .ofManifest
    { name, version := "1.0.0", description := none, author := .null,
      nodes := some [{ name := node, kind := .request, controller := some "fail.lua",
                       description := none, inputs := .null }] }
    false
    (some { package := name, nodeNames := [node], scripts := [(node, "error('boom')")] })

theorem resolve_reference_scoped :
    Identity.Distinct (· ∈ ["@s/a.b", "@s/a.b.x"]) ∧
      (empty.insert (failing "@s/a.b" "n")).Recorded (· ∈ ["@s/a.b", "@s/a.b.x"]) ∧
      (empty.insert (failing "@s/a.b" "n")).module? "@s/a.b" = some (failing "@s/a.b" "n") ∧
      (empty.insert (failing "@s/a.b" "n")).resolve (some "@s/a.b.n")
        = .script "@s/a.b.n" "error('boom')" ∧
      (empty.insert (failing "@s/a.b" "n")).resolve (some "@s/a.b.x.n") = .noop := by
  have distinct : Identity.Distinct (· ∈ ["@s/a.b", "@s/a.b.x"]) :=
    Identity.distinct_pair (by decide +kernel)
  have recorded : (empty.insert (failing "@s/a.b" "n")).Recorded (· ∈ ["@s/a.b", "@s/a.b.x"]) :=
    Recorded.empty.insert rfl List.mem_cons_self
  have held : (empty.insert (failing "@s/a.b" "n")).module? "@s/a.b"
      = some (failing "@s/a.b" "n") := rfl
  refine ⟨distinct, recorded, held, ?_, ?_⟩
  · obtain ⟨own, agrees, -⟩ := resolve_reference distinct recorded held "n"
    exact (agrees (by decide)).trans own
  · obtain ⟨-, -, dotted⟩ := resolve_reference distinct recorded held "x.n"
    exact (dotted "x" "n" rfl (by decide)).2 (by decide)

-- The declared node is found by its module and name, but the reference is one to a package `a.x`.
theorem resolve_reference_dotted :
    Identity.Distinct (· ∈ ["a", "a.x"]) ∧
      (empty.insert (failing "a" "x.y")).Recorded (· ∈ ["a", "a.x"]) ∧
      (empty.insert (failing "a" "x.y")).module? "a" = some (failing "a" "x.y") ∧
      "x.y" ∈ (failing "a" "x.y").nodes.map (·.name) ∧
      (empty.insert (failing "a" "x.y")).controller "a" "x.y" = .script "a.x.y" "error('boom')" ∧
      (empty.insert (failing "a" "x.y")).resolve (some (reference "a" "x.y")) = .noop := by
  have distinct : Identity.Distinct (· ∈ ["a", "a.x"]) :=
    Identity.distinct_pair (by decide +kernel)
  have recorded : (empty.insert (failing "a" "x.y")).Recorded (· ∈ ["a", "a.x"]) :=
    Recorded.empty.insert rfl List.mem_cons_self
  refine ⟨distinct, recorded, rfl, List.mem_singleton_self _, ?_, ?_⟩
  · rw [controller_eq distinct recorded List.mem_cons_self]
    rfl
  · have cut : reference "a" "x.y" = reference "a.x" "y" := rfl
    rw [cut, resolve_of_clean _ _ (by decide),
      controller_eq distinct recorded (List.mem_cons_of_mem _ (List.mem_singleton_self _))]
    rfl

end Catalog

end Flowgate.Package
