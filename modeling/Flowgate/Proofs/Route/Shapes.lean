import Flowgate.Proofs.Route.Paths
import Mathlib.Tactic.Common

/-!
Accepted shapes. The check of a set of paths keeps one name for each prefix, so after equal
segments two accepted paths name their parameters alike.
-/

namespace Flowgate.Route

theorem eq_of_param? {segment name : String} (declared : param? segment = some name) :
    segment = ":" ++ name := by
  unfold param? at declared
  split at declared
  · rename_i cs chars
    cases declared
    apply String.toList_injective
    simp [chars]
  · cases declared

-- The parameters of some segments, each with the blanked prefix before it.
def declared (before : List String) : List String → List (String × String)
  | [] => []
  | segment :: rest =>
    let later := declared (before ++ [blanked segment]) rest
    match param? segment with
    | none => later
    | some name => ("/".intercalate before, name) :: later

theorem mem_declared {segment name : String} (named : param? segment = some name)
    (before common rest : List String) :
    ("/".intercalate (before ++ common.map blanked), name)
      ∈ declared before (common ++ segment :: rest) := by
  induction common generalizing before with
  | nil => simp [declared, named]
  | cons first common ih =>
    have there := ih (before ++ [blanked first])
    rw [List.append_assoc, List.singleton_append] at there
    rw [List.cons_append, List.map_cons, declared]
    split
    · exact there
    · exact List.mem_cons_of_mem _ there

-- The namings that a check has met: one name for a prefix.
def OneName (namings : List Naming) : Prop :=
  ∀ a ∈ namings, ∀ b ∈ namings, a.shape = b.shape → a.name = b.name

-- What a successful check adds to the namings, and what it has seen of the segments.
structure Checked (before segments : List String) (namings next : List Naming) : Prop where
  kept : ∀ n ∈ namings, n ∈ next
  oneName : OneName namings → OneName next
  recorded : ∀ pair ∈ declared before segments,
    isParamName pair.2 = true ∧ ∃ n ∈ next, n.shape = pair.1 ∧ n.name = pair.2

theorem Checked.literal {before rest : List String} {segment : String}
    {namings next : List Naming} (plain : param? segment = none)
    (checked : Checked (before ++ [blanked segment]) rest namings next) :
    Checked before (segment :: rest) namings next := by
  refine ⟨checked.kept, checked.oneName, ?_⟩
  intro pair member
  rw [declared, plain] at member
  exact checked.recorded pair member

theorem Checked.param {before rest : List String} {segment name : String} {n : Naming}
    {namings middle next : List Naming} (named : param? segment = some name)
    (proper : isParamName name = true) (grown : ∀ m ∈ namings, m ∈ middle)
    (one : OneName namings → OneName middle) (here : n ∈ middle)
    (shape : n.shape = "/".intercalate before) (same : n.name = name)
    (checked : Checked (before ++ [blanked segment]) rest middle next) :
    Checked before (segment :: rest) namings next := by
  refine ⟨fun m member => checked.kept m (grown m member), fun h => checked.oneName (one h), ?_⟩
  intro pair member
  rw [declared, named] at member
  rcases List.mem_cons.mp member with rfl | there
  · exact ⟨proper, n, checked.kept n here, shape, same⟩
  · exact checked.recorded pair there

theorem oneName_cons {namings : List Naming} {n : Naming}
    (fresh : namings.find? (·.shape = n.shape) = none) (one : OneName namings) :
    OneName (n :: namings) := by
  have apart : ∀ m ∈ namings, m.shape ≠ n.shape := by simpa using fresh
  intro a left b right same
  rcases List.mem_cons.mp left with rfl | there <;>
    rcases List.mem_cons.mp right with rfl | there'
  · rfl
  · exact absurd same.symm (apart b there')
  · exact absurd same (apart a there)
  · exact one a there b there' same

theorem checkSegments_checked {key path : String} (segments before seen : List String)
    (namings next : List Naming)
    (passed : checkSegments key path before seen segments namings = .ok next) :
    Checked before segments namings next := by
  induction segments generalizing before seen namings with
  | nil =>
    cases passed
    exact ⟨fun n member => member, fun h => h, fun pair member => by cases member⟩
  | cons segment rest ih =>
    unfold checkSegments at passed
    split at passed
    · rename_i plain
      exact .literal plain (ih _ _ _ passed)
    · rename_i name named
      split at passed
      · cases passed
      · rename_i proper
        have proper : isParamName name = true := by
          simp only [Bool.or_eq_true, Bool.not_eq_true', not_or, Bool.not_eq_false] at proper
          exact proper.1
        dsimp only at passed
        split at passed
        · rename_i first found
          split at passed
          · cases passed
          · rename_i same
            have shape : first.shape = "/".intercalate before := by
              simpa using List.find?_some found
            exact .param named proper (fun _ member => member) (fun h => h)
              (List.mem_of_find?_eq_some found) shape (not_not.mp same) (ih _ _ _ passed)
        · rename_i fresh
          exact .param named proper (fun _ member => List.mem_cons_of_mem _ member)
            (oneName_cons fresh) List.mem_cons_self rfl rfl (ih _ _ _ passed)

-- What a path set has to be for a router to hold it.
structure WellShaped (es : List (Endpoint κ)) : Prop where
  full : ∀ e ∈ es, hasEmptySegment e.path = false
  named : ∀ e ∈ es, ∀ pair ∈ declared [] (segments e.path), isParamName pair.2 = true
  oneName : ∀ e ∈ es, ∀ f ∈ es, ∀ shape a b, (shape, a) ∈ declared [] (segments e.path) →
    (shape, b) ∈ declared [] (segments f.path) → a = b

theorem checkPaths_checked (es : List (Endpoint κ)) (namings : List Naming)
    (passed : checkPaths es namings = .ok ()) (one : OneName namings) :
    ∃ final, (∀ n ∈ namings, n ∈ final) ∧ OneName final ∧ ∀ e ∈ es,
      hasEmptySegment e.path = false ∧ ∀ pair ∈ declared [] (segments e.path),
        isParamName pair.2 = true ∧ ∃ n ∈ final, n.shape = pair.1 ∧ n.name = pair.2 := by
  induction es generalizing namings with
  | nil => exact ⟨namings, fun _ member => member, one, fun e member => by cases member⟩
  | cons e es ih =>
    unfold checkPaths checkPath at passed
    by_cases empty : hasEmptySegment e.path
    · rw [if_pos empty] at passed
      cases passed
    · rw [if_neg empty] at passed
      cases step : checkSegments e.key e.path [] [] (segments e.path) namings with
      | error fault => rw [step] at passed; cases passed
      | ok next =>
        rw [step] at passed
        have checked := checkSegments_checked _ _ _ _ _ step
        obtain ⟨final, kept, oneFinal, rest⟩ := ih next passed (checked.oneName one)
        refine ⟨final, fun n member => kept n (checked.kept n member), oneFinal, ?_⟩
        intro f member
        rcases List.mem_cons.mp member with rfl | there
        · refine ⟨by simpa using empty, ?_⟩
          intro pair found
          obtain ⟨proper, n, there, facts⟩ := checked.recorded pair found
          exact ⟨proper, n, kept n there, facts⟩
        · exact rest f there

theorem wellShaped_of_checkShapes {es : List (Endpoint κ)} (passed : checkShapes es = .ok ()) :
    WellShaped es := by
  have start : OneName [] := fun a left => by cases left
  obtain ⟨final, _, one, all⟩ := checkPaths_checked es [] passed start
  refine ⟨fun e member => (all e member).1, fun e member pair found =>
    ((all e member).2 pair found).1, ?_⟩
  intro e left f right shape a b first second
  obtain ⟨_, n, there, sameShape, rfl⟩ := (all e left).2 _ first
  obtain ⟨_, m, there', sameShape', rfl⟩ := (all f right).2 _ second
  exact one n there m there' (sameShape.trans sameShape'.symm)

-- Two accepted paths that go the same way up to a parameter in both name it alike.
theorem WellShaped.param_eq {es : List (Endpoint κ)} (shaped : WellShaped es)
    {e f : Endpoint κ} (left : e ∈ es) (right : f ∈ es) {common ps qs : List String}
    {s t : String} (here : segments e.path = common ++ s :: ps)
    (there : segments f.path = common ++ t :: qs)
    (first : (param? s).isSome) (second : (param? t).isSome) : s = t := by
  obtain ⟨a, named⟩ := Option.isSome_iff_exists.mp first
  obtain ⟨b, named'⟩ := Option.isSome_iff_exists.mp second
  have one := shaped.oneName e left f right ("/".intercalate (common.map blanked)) a b
    (here ▸ mem_declared named [] common ps) (there ▸ mem_declared named' [] common qs)
  rw [eq_of_param? named, eq_of_param? named', one]

theorem WellShaped.isParamName {es : List (Endpoint κ)} (shaped : WellShaped es) {e : Endpoint κ}
    (member : e ∈ es) {s name : String} (there : s ∈ segments e.path)
    (named : param? s = some name) : Route.isParamName name = true := by
  obtain ⟨common, rest, split⟩ := List.append_of_mem there
  exact shaped.named e member _ (split ▸ mem_declared named [] common rest)

end Flowgate.Route
