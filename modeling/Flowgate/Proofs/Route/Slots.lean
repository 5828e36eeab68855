import Flowgate.Proofs.Route.Keys
import Flowgate.Proofs.Route.Templates
import Flowgate.Route.Router

/-!
Slots of a router: one for each accepted path, with exactly the endpoints of that path in their
order.
-/

namespace Flowgate.Route

theorem Slot.add_parts {slot next : Slot κ} {e : Endpoint κ} (added : slot.add e = .ok next) :
    next.path = slot.path ∧
      next.methods = slot.methods ++ [e].filter (fun f => !servesAll f.method) ∧
      next.others.toList = slot.others.toList ++ [e].filter fun f => servesAll f.method := by
  unfold Slot.add at added
  by_cases all : servesAll e.method
  · rw [if_pos all] at added
    cases taken : slot.others with
    | some other => simp [taken] at added
    | none =>
      simp only [taken, Option.isSome_none, Bool.false_eq_true, if_false] at added
      cases added
      simp [all]
  · rw [if_neg all] at added
    cases added
    simp [all]

namespace Router

def freshSlot (path : String) : Slot κ := { path, methods := [], others := none }

-- An endpoint goes to the slot of its template, or to a new one at the end.
theorem addTo_cases {slots next : List (Slot κ)} {e : Endpoint κ} (added : addTo slots e = .ok next) :
    (∃ before slot after slot', slots = before ++ slot :: after ∧
      template slot.path = template e.path ∧ slot.add e = .ok slot' ∧
      next = before ++ slot' :: after) ∨
    ((∀ slot ∈ slots, template slot.path ≠ template e.path) ∧
      ∃ slot', (freshSlot e.path).add e = .ok slot' ∧ next = slots ++ [slot']) := by
  induction slots generalizing next with
  | nil =>
    rw [addTo] at added
    cases fresh : Slot.add { path := e.path, methods := [], others := none } e with
    | error fault => rw [fresh] at added; cases added
    | ok slot' =>
      rw [fresh] at added
      cases added
      exact .inr ⟨fun _ member => absurd member List.not_mem_nil, slot', fresh, rfl⟩
  | cons slot rest ih =>
    rw [addTo] at added
    by_cases same : template slot.path = template e.path
    · rw [if_pos same] at added
      cases here : slot.add e with
      | error fault => rw [here] at added; cases added
      | ok slot' =>
        rw [here] at added
        cases added
        exact .inl ⟨[], slot, rest, slot', rfl, same, here, rfl⟩
    · rw [if_neg same] at added
      cases there : addTo rest e with
      | error fault => rw [there] at added; cases added
      | ok next' =>
        rw [there] at added
        cases added
        rcases ih there with ⟨before, found, after, slot', rfl, same', here, rfl⟩ |
          ⟨none, slot', here, rfl⟩
        · exact .inl ⟨slot :: before, found, after, slot', rfl, same', here, rfl⟩
        · refine .inr ⟨?_, slot', here, rfl⟩
          intro other member
          rcases List.mem_cons.mp member with rfl | member
          · exact same
          · exact none other member

-- The endpoints of a template with and without a method of their own.
def here (done : List (Endpoint κ)) (t : String) : List (Endpoint κ) :=
  done.filter fun e => template e.path = t

structure SlotHolds (done : List (Endpoint κ)) (slot : Slot κ) : Prop where
  path : ∃ e ∈ done, slot.path = e.path
  methods : slot.methods = (here done (template slot.path)).filter fun e => !servesAll e.method
  others : slot.others.toList = (here done (template slot.path)).filter fun e => servesAll e.method

structure Holds (done : List (Endpoint κ)) (slots : List (Slot κ)) : Prop where
  distinct : slots.Pairwise fun a b => template a.path ≠ template b.path
  known : ∀ e ∈ done, (knownMethods.contains e.method || servesAll e.method) = true
  found : ∀ e ∈ done, ∃ slot ∈ slots, template slot.path = template e.path
  slot : ∀ slot ∈ slots, SlotHolds done slot

theorem here_snoc (done : List (Endpoint κ)) (e : Endpoint κ) (t : String) :
    here (done ++ [e]) t = here done t ++ if template e.path = t then [e] else [] := by
  unfold here
  rw [List.filter_append]
  by_cases same : template e.path = t <;> simp [same]

theorem SlotHolds.snoc_other {done : List (Endpoint κ)} {slot : Slot κ} (holds : SlotHolds done slot)
    {e : Endpoint κ} (other : template slot.path ≠ template e.path) :
    SlotHolds (done ++ [e]) slot := by
  obtain ⟨f, member, same⟩ := holds.path
  refine ⟨⟨f, List.mem_append_left _ member, same⟩, ?_, ?_⟩
  · rw [here_snoc, if_neg (Ne.symm other), List.append_nil]
    exact holds.methods
  · rw [here_snoc, if_neg (Ne.symm other), List.append_nil]
    exact holds.others

theorem SlotHolds.snoc_same {done : List (Endpoint κ)} {slot next : Slot κ} {e : Endpoint κ}
    (path : ∃ f ∈ done ++ [e], slot.path = f.path)
    (methods : slot.methods = (here done (template slot.path)).filter fun e => !servesAll e.method)
    (others : slot.others.toList
      = (here done (template slot.path)).filter fun e => servesAll e.method)
    (same : template slot.path = template e.path) (added : slot.add e = .ok next) :
    SlotHolds (done ++ [e]) next := by
  obtain ⟨samePath, newMethods, newOthers⟩ := Slot.add_parts added
  refine ⟨samePath ▸ path, ?_, ?_⟩
  · rw [newMethods, methods, samePath, here_snoc, if_pos same.symm, List.filter_append]
  · rw [newOthers, others, samePath, here_snoc, if_pos same.symm, List.filter_append]

theorem holds_addEndpoint {done : List (Endpoint κ)} {slots next : List (Slot κ)} {e : Endpoint κ}
    (holds : Holds done slots) (added : addEndpoint slots e = .ok next) :
    Holds (done ++ [e]) next := by
  unfold addEndpoint at added
  split at added
  case isFalse => cases added
  rename_i knownHere
  have known : ∀ f ∈ done ++ [e],
      (knownMethods.contains f.method || servesAll f.method) = true := by
    intro f member
    rcases List.mem_append.mp member with there | there
    · exact holds.known f there
    · obtain rfl := List.mem_singleton.mp there
      exact knownHere
  rcases addTo_cases added with ⟨before, slot, after, slot', rfl, same, step, rfl⟩ |
    ⟨none, slot', step, rfl⟩
  · obtain ⟨samePath, _, _⟩ := Slot.add_parts step
    have parts := List.pairwise_append.mp holds.distinct
    have afterParts := List.pairwise_cons.mp parts.2.1
    refine ⟨?_, known, ?_, ?_⟩
    · refine List.pairwise_append.mpr ⟨parts.1, List.pairwise_cons.mpr ⟨?_, afterParts.2⟩, ?_⟩
      · intro other member
        rw [samePath]
        exact afterParts.1 other member
      · intro first left second right
        rcases List.mem_cons.mp right with rfl | right
        · rw [samePath]
          exact parts.2.2 first left slot List.mem_cons_self
        · exact parts.2.2 first left second (List.mem_cons_of_mem _ right)
    · intro f member
      rcases List.mem_append.mp member with there | there
      · obtain ⟨found, at', equal⟩ := holds.found f there
        rcases List.mem_append.mp at' with left | right
        · exact ⟨found, List.mem_append_left _ left, equal⟩
        · rcases List.mem_cons.mp right with rfl | right
          · exact ⟨slot', by simp, by rw [samePath, equal]⟩
          · exact ⟨found, by simp [right], equal⟩
      · obtain rfl := List.mem_singleton.mp there
        exact ⟨slot', by simp, by rw [samePath, same]⟩
    · intro other member
      rcases List.mem_append.mp member with left | right
      · have apart := parts.2.2 other left slot List.mem_cons_self
        exact (holds.slot other (List.mem_append_left _ left)).snoc_other (same ▸ apart)
      · rcases List.mem_cons.mp right with rfl | right
        · have old := holds.slot slot (by simp)
          obtain ⟨f, there, equal⟩ := old.path
          exact .snoc_same ⟨f, List.mem_append_left _ there, equal⟩ old.methods old.others same step
        · have apart := (afterParts.1 other right).symm
          exact (holds.slot other (by simp [right])).snoc_other (same ▸ apart)
  · obtain ⟨samePath, _, _⟩ := Slot.add_parts step
    have nothing : here done (template e.path) = [] := by
      rw [here, List.filter_eq_nil_iff]
      intro f member same
      obtain ⟨found, at', equal⟩ := holds.found f member
      exact none found at' (equal.trans (of_decide_eq_true same))
    refine ⟨?_, known, ?_, ?_⟩
    · refine List.pairwise_append.mpr ⟨holds.distinct, List.pairwise_singleton _ _, ?_⟩
      intro first left second right
      obtain rfl := List.mem_singleton.mp right
      rw [samePath]
      exact none first left
    · intro f member
      rcases List.mem_append.mp member with there | there
      · obtain ⟨found, at', equal⟩ := holds.found f there
        exact ⟨found, List.mem_append_left _ at', equal⟩
      · obtain rfl := List.mem_singleton.mp there
        exact ⟨slot', by simp, congrArg template samePath⟩
    · intro other member
      rcases List.mem_append.mp member with left | right
      · exact (holds.slot other left).snoc_other (none other left)
      · obtain rfl := List.mem_singleton.mp right
        have path : (freshSlot e.path : Slot κ).path = e.path := rfl
        refine SlotHolds.snoc_same ⟨e, by simp, path⟩ ?_ ?_ (congrArg template path) step
        · rw [path, nothing]
          rfl
        · rw [path, nothing]
          rfl

theorem holds_nil : Holds ([] : List (Endpoint κ)) [] :=
  ⟨.nil, fun _ none => absurd none List.not_mem_nil, fun _ none => absurd none List.not_mem_nil,
    fun _ none => absurd none List.not_mem_nil⟩

theorem holds_foldlM {es done : List (Endpoint κ)} {slots final : List (Slot κ)}
    (holds : Holds done slots) (built : es.foldlM addEndpoint slots = .ok final) :
    Holds (done ++ es) final := by
  induction es generalizing done slots with
  | nil =>
    cases built
    rwa [List.append_nil]
  | cons e es ih =>
    rw [List.foldlM_cons] at built
    cases step : addEndpoint slots e with
    | error fault => rw [step] at built; cases built
    | ok next =>
      rw [step] at built
      have whole := ih (holds_addEndpoint holds step) built
      rwa [List.append_assoc, List.singleton_append] at whole

-- The endpoints of a slot's template are those of its path.
theorem Holds.path_eq_iff {done : List (Endpoint κ)} {slots : List (Slot κ)}
    (holds : Holds done slots) (shaped : WellShaped done) (canonical : ∀ e ∈ done, Canonical e.path)
    {slot : Slot κ} (member : slot ∈ slots) {e : Endpoint κ} (there : e ∈ done) :
    template e.path = template slot.path ↔ e.path = slot.path := by
  obtain ⟨f, there', path⟩ := (holds.slot slot member).path
  rw [path]
  exact ⟨shaped.path_of_template canonical there there', congrArg template⟩

theorem Holds.here_eq {done : List (Endpoint κ)} {slots : List (Slot κ)} (holds : Holds done slots)
    (shaped : WellShaped done) (canonical : ∀ e ∈ done, Canonical e.path) {slot : Slot κ}
    (member : slot ∈ slots) :
    here done (template slot.path) = done.filter fun e => e.path = slot.path := by
  unfold here
  apply List.filter_congr
  intro e there
  exact decide_eq_decide.mpr (holds.path_eq_iff shaped canonical member there)

-- All that is known of a router that was built.
structure Built (es : List (Endpoint κ)) (router : Router κ) : Prop where
  unique : (es.map Endpoint.key).Nodup
  shaped : WellShaped es
  holds : Holds es router.slots

-- A set of endpoints fails a check, or what it is built into is up to the host.
theorem ofEndpoints_cases (es : List (Endpoint κ)) :
    (∃ e, ofEndpoints es = .error (.rejected e)) ∨
    ∃ slots, Built es { slots } ∧ ofEndpoints es
      = match slots.findSome? fun slot => refusal? slot.path with
        | some refusal => .error (.refused refusal)
        | none => .ok { slots } := by
  unfold ofEndpoints
  cases unique : ensureUnique (es.map Endpoint.key) with
  | error e => exact .inl ⟨e, rfl⟩
  | ok _ =>
    cases shapes : checkShapes es with
    | error e => exact .inl ⟨e, rfl⟩
    | ok _ =>
      cases added : es.foldlM addEndpoint [] with
      | error e => exact .inl ⟨e, rfl⟩
      | ok slots =>
        have holds := holds_foldlM holds_nil added
        rw [List.nil_append] at holds
        exact .inr ⟨slots,
          ⟨nodup_of_ensureUnique unique, wellShaped_of_checkShapes shapes, holds⟩, rfl⟩

theorem built_of_ofEndpoints {es : List (Endpoint κ)} {router : Router κ}
    (made : ofEndpoints es = .ok router) : Built es router := by
  rcases ofEndpoints_cases es with ⟨e, rejected⟩ | ⟨slots, built, outcome⟩
  · rw [rejected] at made
    cases made
  · rw [outcome] at made
    split at made
    · cases made
    · cases made
      exact built

end Router

end Flowgate.Route
