import Flowgate.Proofs.Route.Registration
import Flowgate.Proofs.Traversal

/-!
Which sets of routes a router is built from. The checks go through the routes once and keep the first
name after each prefix; what they accept are the sets whose routes fit together two by two, so the
order of the routes has no say. Beyond that only the number of parameters of a path counts.
-/

namespace Flowgate.Route

-- Where two paths go the same way up to a parameter in both, they name it alike.
def Aligned (xs ys : List String) : Prop :=
  ∀ before s rest before' t rest', xs = before ++ s :: rest → ys = before' ++ t :: rest' →
    before.map blanked = before'.map blanked →
    ∀ name name', param? s = some name → param? t = some name' → name = name'

structure Acceptable (es : List (Endpoint κ)) : Prop where
  unique : es.Pairwise fun e f => e.key ≠ f.key
  full : ∀ e ∈ es, Plain e.path
  named : ∀ e ∈ es, ∀ s ∈ segments e.path, ∀ name, param? s = some name →
    name ≠ "" ∧ '\x7b' ∉ name.toList ∧ '\x7d' ∉ name.toList ∧ '*' ∉ name.toList
  distinct : ∀ e ∈ es, ((segments e.path).filterMap param?).Nodup
  aligned : ∀ e ∈ es, ∀ f ∈ es, Aligned (segments e.path) (segments f.path)
  known : ∀ e ∈ es, e.method ∈
    ["GET", "POST", "PUT", "PATCH", "DELETE", "HEAD", "OPTIONS", "TRACE", "ALL", "ANY"]
  one : ∀ e ∈ es, ∀ f ∈ es, e.path = f.path → e.method = "ALL" → f.method ≠ "ANY"

variable {es : List (Endpoint κ)} {router : Router κ}

theorem Acceptable.perm {fs : List (Endpoint κ)} (accepted : Acceptable es) (perm : es.Perm fs) :
    Acceptable fs := by
  have back {e : Endpoint κ} (member : e ∈ fs) : e ∈ es := perm.mem_iff.mpr member
  refine ⟨?_, ?_, ?_, ?_, ?_, ?_, ?_⟩
  · exact (perm.pairwise_iff fun apart => Ne.symm apart).mp accepted.unique
  · exact fun e member => accepted.full e (back member)
  · exact fun e member => accepted.named e (back member)
  · exact fun e member => accepted.distinct e (back member)
  · exact fun e left f right => accepted.aligned e (back left) f (back right)
  · exact fun e member => accepted.known e (back member)
  · exact fun e left f right => accepted.one e (back left) f (back right)

/-! ### Single paths -/

theorem isParamName_iff {name : String} : isParamName name = true ↔
    name ≠ "" ∧ '\x7b' ∉ name.toList ∧ '\x7d' ∉ name.toList ∧ '*' ∉ name.toList := by
  have chars : (name.toList.any fun c => c = '\x7b' || c = '\x7d' || c = '*') = false ↔
      '\x7b' ∉ name.toList ∧ '\x7d' ∉ name.toList ∧ '*' ∉ name.toList := by
    simp only [List.any_eq_false, Bool.or_eq_true, decide_eq_true_eq, not_or]
    constructor
    · intro apart
      exact ⟨fun there => (apart _ there).1.1 rfl, fun there => (apart _ there).1.2 rfl,
        fun there => (apart _ there).2 rfl⟩
    · rintro ⟨opening, closing, star⟩ c member
      refine ⟨⟨?_, ?_⟩, ?_⟩ <;> rintro rfl <;> contradiction
  simp [isParamName, chars]

theorem plain_iff {path : String} (canonical : Canonical path) :
    Plain path ↔ hasEmptySegment path = false := by
  by_cases root : path = "/"
  · subst root
    exact ⟨fun _ => by decide, fun _ => .inl rfl⟩
  · obtain ⟨body, rfl, trimmed⟩ := canonical
    have start : Text.trimStart (· == '/') ("/" ++ body) = body := by
      rw [Text.trimStart, String.toList_append]
      show String.ofList (('/' :: body.toList).dropWhile _) = body
      rw [List.dropWhile_cons_of_pos rfl, Text.dropWhile_of_first trimmed.first,
        String.ofList_toList]
    have cut := Router.requestSegments?_slash body
    simp [Plain, hasEmptySegment, root, start, cut]

theorem isDeclared_iff {before xs : List String} {shape name : String} :
    (shape, name) ∈ declared before xs ↔ ∃ common s rest, xs = common ++ s :: rest ∧
      param? s = some name ∧ shape = "/".intercalate (before ++ common.map blanked) := by
  constructor
  · intro member
    induction xs generalizing before with
    | nil => cases member
    | cons x xs ih =>
      have later (there : (shape, name) ∈ declared (before ++ [blanked x]) xs) :
          ∃ common s rest, x :: xs = common ++ s :: rest ∧ param? s = some name ∧
            shape = "/".intercalate (before ++ common.map blanked) := by
        obtain ⟨common, s, rest, rfl, named, same⟩ := ih there
        exact ⟨x :: common, s, rest, rfl, named, by simpa using same⟩
      rw [declared] at member
      split at member
      · exact later member
      · rename_i found
        rcases List.mem_cons.mp member with here | there
        · obtain ⟨rfl, rfl⟩ := Prod.mk.inj here
          exact ⟨[], x, xs, rfl, found, by simp⟩
        · exact later there
  · rintro ⟨common, s, rest, rfl, named, rfl⟩
    exact mem_declared named before common rest

theorem blanked_proper {path : String} : ∀ t ∈ (segments path).map blanked,
    t ≠ "" ∧ '/' ∉ t.toList := by
  intro t member
  obtain ⟨s, there, rfl⟩ := List.mem_map.mp member
  unfold blanked
  split
  · exact ⟨by decide, by decide⟩
  · exact segments_proper path s there

-- The shape of what stands before a segment tells its parts.
theorem blanked_before_inj {path path' s s' : String} {before before' rest rest' : List String}
    (split : segments path = before ++ s :: rest) (split' : segments path' = before' ++ s' :: rest')
    (same : "/".intercalate (before.map blanked) = "/".intercalate (before'.map blanked)) :
    before.map blanked = before'.map blanked := by
  have proper {path s : String} {before rest : List String}
      (split : segments path = before ++ s :: rest) :
      ∀ t ∈ before.map blanked, t ≠ "" ∧ '/' ∉ t.toList := by
    intro t member
    apply @blanked_proper path
    rw [split, List.map_append]
    exact List.mem_append_left _ member
  exact Text.intercalate_inj (proper split) (proper split') same

/-! ### Shapes -/

theorem Acceptable.wellShaped (accepted : Acceptable es) (canonical : ∀ e ∈ es, Canonical e.path) :
    WellShaped es := by
  refine ⟨?_, ?_, ?_⟩
  · exact fun e member => (plain_iff (canonical e member)).mp (accepted.full e member)
  · rintro e member ⟨shape, name⟩ found
    obtain ⟨common, s, rest, split, named, -⟩ := isDeclared_iff.mp found
    have there : s ∈ segments e.path := by simp [split]
    exact isParamName_iff.mpr (accepted.named e member s there name named)
  · intro e left f right shape a b first second
    obtain ⟨common, s, rest, split, named, rfl⟩ := isDeclared_iff.mp first
    obtain ⟨common', t, rest', split', named', same⟩ := isDeclared_iff.mp second
    have prefixes := blanked_before_inj split split' same
    exact accepted.aligned e left f right _ _ _ _ _ _ split split' prefixes a b named named'

theorem WellShaped.aligned (shaped : WellShaped es) :
    ∀ e ∈ es, ∀ f ∈ es, Aligned (segments e.path) (segments f.path) := by
  intro e left f right before s rest before' t rest' split split' same name name' named named'
  apply shaped.oneName e left f right ("/".intercalate (before.map blanked)) name name'
  · exact isDeclared_iff.mpr ⟨before, s, rest, split, named, rfl⟩
  · exact isDeclared_iff.mpr ⟨before', t, rest', split', named', by rw [same, List.nil_append]⟩

-- A check that passes has met no parameter twice.
theorem checkSegments_distinct {key path : String} {xs before seen : List String}
    {namings next : List Naming}
    (passed : checkSegments key path before seen xs namings = .ok next) :
    (xs.filterMap param?).Nodup ∧ ∀ name ∈ xs.filterMap param?, name ∉ seen := by
  induction xs generalizing before seen namings with
  | nil => simp
  | cons x xs ih =>
    unfold checkSegments at passed
    split at passed
    · rename_i plain
      simpa [plain] using ih passed
    · rename_i name found
      split at passed
      · cases passed
      · rename_i fresh
        have unseen : name ∉ seen := by
          intro there
          simp [there] at fresh
        suffices later : (xs.filterMap param?).Nodup ∧
            ∀ other ∈ xs.filterMap param?, other ∉ name :: seen by
          obtain ⟨nodup, apart⟩ := later
          rw [List.filterMap_cons_some found]
          refine ⟨List.nodup_cons.mpr ⟨fun there => apart name there (by simp), nodup⟩, ?_⟩
          intro other member
          rcases List.mem_cons.mp member with rfl | there
          · exact unseen
          · exact fun old => apart other there (List.mem_cons_of_mem _ old)
        dsimp only at passed
        split at passed
        · split at passed
          · cases passed
          · exact ih passed
        · exact ih passed

theorem checkPaths_distinct {namings : List Naming} (passed : checkPaths es namings = .ok ()) :
    ∀ e ∈ es, ((segments e.path).filterMap param?).Nodup := by
  induction es generalizing namings with
  | nil => simp
  | cons e es ih =>
    unfold checkPaths checkPath at passed
    split at passed
    · cases passed
    · cases step : checkSegments e.key e.path [] [] (segments e.path) namings with
      | error fault =>
        rw [step] at passed
        cases passed
      | ok next =>
        rw [step] at passed
        intro f member
        rcases List.mem_cons.mp member with rfl | there
        · exact (checkSegments_distinct step).1
        · exact ih passed f there

-- Every naming comes from a route of the set.
def NamedIn (es : List (Endpoint κ)) (namings : List Naming) : Prop :=
  ∀ n ∈ namings, ∃ e ∈ es, (n.shape, n.name) ∈ declared [] (segments e.path)

-- The induction is on the segments to the right; those to the left are `common`.
theorem checkSegments_ok (shaped : WellShaped es) {e : Endpoint κ} (member : e ∈ es)
    {key path : String} {xs common seen : List String} {namings : List Naming}
    (split : segments e.path = common ++ xs) (nodup : (xs.filterMap param?).Nodup)
    (unseen : ∀ name ∈ xs.filterMap param?, name ∉ seen) (known : NamedIn es namings) :
    ∃ next, checkSegments key path (common.map blanked) seen xs namings = .ok next ∧
      NamedIn es next := by
  induction xs generalizing common seen namings with
  | nil => exact ⟨namings, rfl, known⟩
  | cons x xs ih =>
    have onward : segments e.path = (common ++ [x]) ++ xs := by simpa using split
    have shapes : common.map blanked ++ [blanked x] = (common ++ [x]).map blanked := by simp
    unfold checkSegments
    cases found : param? x with
    | none =>
      dsimp only
      rw [List.filterMap_cons_none found] at nodup unseen
      rw [shapes]
      exact ih onward nodup unseen known
    | some name =>
      rw [List.filterMap_cons_some found] at nodup unseen
      obtain ⟨once, rest⟩ := List.nodup_cons.mp nodup
      have proper : isParamName name = true :=
        shaped.isParamName member (by simp [split]) found
      have fresh : name ∉ seen := unseen name (by simp)
      have later : ∀ other ∈ xs.filterMap param?, other ∉ name :: seen := by
        intro other there old
        rcases List.mem_cons.mp old with rfl | old
        · exact once there
        · exact unseen other (by simp [there]) old
      have here : ("/".intercalate (common.map blanked), name) ∈ declared [] (segments e.path) :=
        isDeclared_iff.mpr ⟨common, x, xs, split, found, by simp⟩
      have passes : (!isParamName name || seen.contains name) = false := by simp [proper, fresh]
      simp only [passes, Bool.false_eq_true, if_false]
      cases first : namings.find? (·.shape = "/".intercalate (common.map blanked)) with
      | some n =>
        obtain ⟨f, there, its⟩ := known n (List.mem_of_find?_eq_some first)
        have shape : n.shape = "/".intercalate (common.map blanked) := by
          simpa using List.find?_some first
        have same : n.name = name := by
          apply shaped.oneName f there e member _ _ _ its
          rw [shape]
          exact here
        simp only [same, ne_eq, not_true, if_false, shapes]
        exact ih onward rest later known
      | none =>
        simp only [shapes]
        apply ih onward rest later
        intro n among
        rcases List.mem_cons.mp among with rfl | old
        · exact ⟨e, member, here⟩
        · exact known n old

theorem checkPaths_ok (shaped : WellShaped es)
    (distinct : ∀ e ∈ es, ((segments e.path).filterMap param?).Nodup) {left : List (Endpoint κ)}
    {namings : List Naming} (among : ∀ e ∈ left, e ∈ es) (known : NamedIn es namings) :
    checkPaths left namings = .ok () := by
  induction left generalizing namings with
  | nil => rfl
  | cons e left ih =>
    have member := among e List.mem_cons_self
    have full := shaped.full e member
    obtain ⟨next, passed, known'⟩ : ∃ next, checkPath e namings = .ok next ∧ NamedIn es next := by
      simp only [checkPath, full, Bool.false_eq_true, if_false]
      exact checkSegments_ok shaped member (List.nil_append _).symm (distinct e member) (by simp) known
    simp only [checkPaths, passed]
    exact ih (fun f there => among f (List.mem_cons_of_mem _ there)) known'

theorem checkShapes_ok_iff : checkShapes es = .ok () ↔
      WellShaped es ∧ ∀ e ∈ es, ((segments e.path).filterMap param?).Nodup := by
  constructor
  · intro passed
    exact ⟨wellShaped_of_checkShapes passed, checkPaths_distinct passed⟩
  · rintro ⟨shaped, distinct⟩
    have start : NamedIn es [] := fun n none => absurd none List.not_mem_nil
    exact checkPaths_ok shaped distinct (fun _ member => member) start

/-! ### Methods -/

namespace Router

theorem isServed_iff {method : String} :
    (knownMethods.contains method || servesAll method) = true ↔ method ∈
      ["GET", "POST", "PUT", "PATCH", "DELETE", "HEAD", "OPTIONS", "TRACE", "ALL", "ANY"] := by
  simp [knownMethods, servesAll, or_assoc]

-- An endpoint finds no place only where another one already serves all methods.
theorem addTo_error {slots : List (Slot κ)} {e : Endpoint κ} {fault : Error}
    (failed : addTo slots e = .error fault) :
    servesAll e.method = true ∧
      ∃ slot ∈ slots, template slot.path = template e.path ∧ slot.others.isSome = true := by
  induction slots with
  | nil =>
    unfold addTo Slot.add at failed
    split at failed <;> cases failed
  | cons slot slots ih =>
    rw [addTo] at failed
    by_cases same : template slot.path = template e.path
    · rw [if_pos same, Slot.add] at failed
      split at failed
      · rename_i all
        split at failed
        · rename_i taken
          exact ⟨all, slot, List.mem_cons_self, same, taken⟩
        · cases failed
      · cases failed
    · rw [if_neg same] at failed
      cases rest : addTo slots e with
      | ok next =>
        rw [rest] at failed
        cases failed
      | error fault' =>
        rw [rest] at failed
        cases failed
        obtain ⟨all, other, there, found⟩ := ih rest
        exact ⟨all, other, List.mem_cons_of_mem _ there, found⟩

theorem Holds.all_of_taken {done : List (Endpoint κ)} {slots : List (Slot κ)}
    (holds : Holds done slots) {slot : Slot κ} (member : slot ∈ slots)
    (taken : slot.others.isSome = true) :
    ∃ f ∈ done, template f.path = template slot.path ∧ servesAll f.method = true := by
  obtain ⟨f, there⟩ := Option.isSome_iff_exists.mp taken
  have among : f ∈ slot.others.toList := by simp [there]
  rw [(holds.slot slot member).others, List.mem_filter, here, List.mem_filter] at among
  obtain ⟨⟨inDone, path⟩, all⟩ := among
  exact ⟨f, inDone, of_decide_eq_true path, all⟩

-- Two endpoints of one path that serve all methods are the same route twice, or ALL and ANY.
theorem Acceptable.not_both (accepted : Acceptable es) {before after : List (Endpoint κ)}
    {e f : Endpoint κ} (split : es = before ++ e :: after) (there : f ∈ before)
    (path : f.path = e.path) (all : servesAll e.method = true) : servesAll f.method = false := by
  have left : f ∈ es := by simp [split, there]
  have right : e ∈ es := by simp [split]
  have apart : f.key ≠ e.key := by
    have unique := accepted.unique
    rw [split, List.pairwise_append] at unique
    exact unique.2.2 f there e List.mem_cons_self
  have methods : f.method ≠ e.method := by
    intro same
    exact apart (by rw [Endpoint.key, Endpoint.key, same, path])
  by_contra other
  simp only [Bool.not_eq_false, servesAll, Bool.or_eq_true, decide_eq_true_eq] at other all
  rcases other with first | first <;> rcases all with second | second
  · exact methods (first.trans second.symm)
  · exact accepted.one f left e right path first second
  · exact accepted.one e right f left path.symm second first
  · exact methods (first.trans second.symm)

-- The induction is on the endpoints that are still to be added.
theorem foldlM_addEndpoint_ok (accepted : Acceptable es) (canonical : ∀ e ∈ es, Canonical e.path)
    {done left : List (Endpoint κ)} (split : es = done ++ left) {slots : List (Slot κ)}
    (holds : Holds done slots) : ∃ final, left.foldlM addEndpoint slots = .ok final := by
  induction left generalizing done slots with
  | nil => exact ⟨slots, rfl⟩
  | cons e left ih =>
    have member : e ∈ es := by simp [split]
    have served := isServed_iff.mpr (accepted.known e member)
    have place : ∃ next, addTo slots e = .ok next := by
      cases added : addTo slots e with
      | ok next => exact ⟨next, rfl⟩
      | error fault =>
        obtain ⟨all, slot, among, same, taken⟩ := addTo_error added
        obtain ⟨f, there, path, all'⟩ := holds.all_of_taken among taken
        have paths : f.path = e.path := by
          apply (accepted.wellShaped canonical).path_of_template canonical _ member
          · exact path.trans same
          · simp [split, there]
        have none := Acceptable.not_both accepted split there paths all
        rw [all'] at none
        cases none
    obtain ⟨next, added⟩ := place
    have step : addEndpoint slots e = .ok next := by
      simp only [addEndpoint, served, if_true]
      exact added
    obtain ⟨final, rest⟩ := ih (by simpa using split) (holds_addEndpoint holds step)
    refine ⟨final, ?_⟩
    rw [List.foldlM_cons, step]
    exact rest

/-! ### Routers -/

-- A set that is acceptable passes every check.
theorem Acceptable.built (accepted : Acceptable es) (canonical : ∀ e ∈ es, Canonical e.path) :
    ∃ slots, Built es { slots } ∧ ofEndpoints es
      = match slots.findSome? fun slot => refusal? slot.path with
        | some refusal => .error (.refused refusal)
        | none => .ok { slots } := by
  have shaped := accepted.wellShaped canonical
  have keys : (es.map Endpoint.key).Nodup := List.pairwise_map.mpr accepted.unique
  have shapes := checkShapes_ok_iff.mpr ⟨shaped, accepted.distinct⟩
  obtain ⟨slots, added⟩ := foldlM_addEndpoint_ok accepted canonical (List.nil_append es).symm holds_nil
  have holds := holds_foldlM holds_nil added
  refine ⟨slots, ⟨keys, shaped, holds⟩, ?_⟩
  simp only [ofEndpoints, ensureUnique_of_nodup keys, shapes, added, mapError_ok]
  rfl

-- What is built into slots at all is acceptable.
theorem Built.acceptable (built : Built es router)
    (canonical : ∀ e ∈ es, Canonical e.path)
    (distinct : ∀ e ∈ es, ((segments e.path).filterMap param?).Nodup) : Acceptable es := by
  refine ⟨List.pairwise_map.mp built.unique, ?_, ?_, distinct, built.shaped.aligned, ?_, ?_⟩
  · exact fun e member => (plain_iff (canonical e member)).mpr (built.shaped.full e member)
  · intro e member s there name named
    exact isParamName_iff.mp (built.shaped.isParamName member there named)
  · exact fun e member => isServed_iff.mp (built.holds.known e member)
  · intro e left f right path all any
    obtain ⟨slot, among, same⟩ := built.holds.found e left
    have others := (built.holds.slot slot among).others
    have inOthers {g : Endpoint κ} (member : g ∈ es) (path : g.path = e.path)
        (all : servesAll g.method = true) : g ∈ slot.others.toList := by
      rw [others, List.mem_filter, here, List.mem_filter]
      exact ⟨⟨member, decide_eq_true (by rw [path, same])⟩, all⟩
    have first := inOthers left rfl (by simp [servesAll, all])
    have second := inOthers right path.symm (by simp [servesAll, any])
    rw [Option.mem_toList] at first second
    have both : e = f := Option.some.inj (first.symm.trans second)
    exact absurd (all.symm.trans ((congrArg Endpoint.method both).trans any)) (by decide)

theorem distinct_of_not_rejected
    (passed : ∀ e, ofEndpoints es ≠ .error (.rejected e)) :
    ∀ e ∈ es, ((segments e.path).filterMap param?).Nodup := by
  cases shapes : checkShapes es with
  | ok _ => exact checkPaths_distinct shapes
  | error fault =>
    unfold ofEndpoints at passed
    rw [shapes] at passed
    cases unique : ensureUnique (es.map Endpoint.key) with
    | ok _ =>
      rw [unique] at passed
      exact absurd rfl (passed fault)
    | error other =>
      rw [unique] at passed
      exact absurd rfl (passed other)

theorem rejected_of_not_acceptable (canonical : ∀ e ∈ es, Canonical e.path)
    (unfit : ¬Acceptable es) : ∃ e, ofEndpoints es = .error (.rejected e) := by
  rcases ofEndpoints_cases es with rejected | ⟨slots, built, outcome⟩
  · exact rejected
  · refine absurd (built.acceptable canonical (distinct_of_not_rejected fun e rejected => ?_)) unfit
    rw [outcome] at rejected
    split at rejected <;> cases rejected

-- Whether the host can register a path, apart from literals that start with an asterisk.
def Spacious (e : Endpoint κ) : Prop := ((segments e.path).filterMap param?).length ≤ 25

-- No segment of any path starts with an asterisk.
def Unstarred (es : List (Endpoint κ)) : Prop :=
  ∀ e ∈ es, ∀ s ∈ segments e.path, s.toList.head? ≠ some '*'

theorem refusal?_of_unstarred (unstarred : Unstarred es) {e : Endpoint κ} (member : e ∈ es) :
    refusal? e.path = none ↔ Spacious e := by
  constructor
  · exact fun free => length_of_refusal? free
  · intro spacious
    cases refused : refusal? e.path with
    | none => rfl
    | some refusal =>
      rcases overlooked_of_refusal? refused with ⟨s, there, star⟩ | crowded
      · exact absurd star (unstarred e member s there)
      · exact absurd spacious (Nat.not_le_of_lt crowded)

-- Every slot has the path of an endpoint, and every endpoint has a slot of its path.
theorem Built.refusals (built : Built es router) (canonical : ∀ e ∈ es, Canonical e.path)
    (unstarred : Unstarred es) :
    (router.slots.findSome? fun slot => refusal? slot.path) = none ↔ ∀ e ∈ es, Spacious e := by
  rw [List.findSome?_eq_none_iff]
  constructor
  · intro free e member
    obtain ⟨slot, among, same⟩ := built.holds.found e member
    obtain ⟨f, there, path⟩ := (built.holds.slot slot among).path
    have paths : f.path = e.path := by
      apply built.shaped.path_of_template canonical there member
      rw [← path, same]
    have none := free slot among
    rw [path, paths] at none
    exact (refusal?_of_unstarred unstarred member).mp none
  · intro spacious slot among
    obtain ⟨f, there, path⟩ := (built.holds.slot slot among).path
    rw [path]
    exact (refusal?_of_unstarred unstarred there).mpr (spacious f there)

theorem ofEndpoints_ok_iff (canonical : ∀ e ∈ es, Canonical e.path) (unstarred : Unstarred es) :
    (∃ router, ofEndpoints es = .ok router) ↔ Acceptable es ∧ ∀ e ∈ es, Spacious e := by
  constructor
  · rintro ⟨router, made⟩
    have accepted : Acceptable es := by
      by_contra unfit
      obtain ⟨e, rejected⟩ := rejected_of_not_acceptable canonical unfit
      rw [rejected] at made
      cases made
    obtain ⟨slots, built, outcome⟩ := Acceptable.built accepted canonical
    refine ⟨accepted, (built.refusals canonical unstarred).mp ?_⟩
    rw [outcome] at made
    split at made
    · cases made
    · assumption
  · rintro ⟨accepted, spacious⟩
    obtain ⟨slots, built, outcome⟩ := Acceptable.built accepted canonical
    have free := (built.refusals canonical unstarred).mpr spacious
    dsimp only at free
    rw [free] at outcome
    exact ⟨_, outcome⟩

theorem crowded_of_refusal? (unstarred : Unstarred es) {e : Endpoint κ} (member : e ∈ es)
    {refusal : Refusal} (refused : refusal? e.path = some refusal) : refusal = .crowded := by
  unfold refusal? at refused
  split at refused
  · rename_i wild
    rw [isWildcard, segments_template, List.any_map] at wild
    obtain ⟨s, there, star⟩ := List.any_eq_true.mp wild
    have head := (head?_templateSegment s '*' (by decide)).mp (of_decide_eq_true star)
    exact absurd head.2 (unstarred e member s there)
  · split at refused <;> cases refused
    rfl

-- What fits together but is too long is left to the host.
theorem Acceptable.refused (accepted : Acceptable es) (canonical : ∀ e ∈ es, Canonical e.path)
    (unstarred : Unstarred es) (long : ∃ e ∈ es, ¬Spacious e) :
    ofEndpoints es = .error (.refused .crowded) := by
  obtain ⟨slots, built, outcome⟩ := Acceptable.built accepted canonical
  have refusals := built.refusals canonical unstarred
  dsimp only at refusals
  cases found : slots.findSome? fun slot => refusal? slot.path with
  | none =>
    obtain ⟨e, member, more⟩ := long
    exact absurd (refusals.mp found e member) more
  | some refusal =>
    obtain ⟨slot, among, refused⟩ := List.exists_of_findSome?_eq_some found
    obtain ⟨f, there, path⟩ := (built.holds.slot slot among).path
    rw [path] at refused
    obtain rfl := crowded_of_refusal? unstarred there refused
    simpa only [found] using outcome

theorem ofGroup_ok_iff (g : Group κ) (unstarred : Unstarred g.endpoints) :
    ((∃ router, ofGroup g = .ok router) ↔
      Acceptable g.endpoints ∧ ∀ e ∈ g.endpoints, Spacious e) ∧
    (¬Acceptable g.endpoints → ∃ e, ofGroup g = .error (.rejected e)) ∧
    (Acceptable g.endpoints → (∃ e ∈ g.endpoints, ¬Spacious e) →
      ofGroup g = .error (.refused .crowded)) ∧
    ∀ h : Group κ, g.endpoints.Perm h.endpoints →
      ((∃ router, ofGroup g = .ok router) ↔ ∃ router, ofGroup h = .ok router) := by
  have canonical := canonical_endpoints g
  have accepts := ofEndpoints_ok_iff canonical unstarred
  refine ⟨accepts, rejected_of_not_acceptable canonical, fun accepted long => ?_, fun h perm => ?_⟩
  · exact Acceptable.refused accepted canonical unstarred long
  · have back {e : Endpoint κ} : e ∈ h.endpoints ↔ e ∈ g.endpoints := perm.mem_iff.symm
    have accepts' : (∃ router, ofGroup h = .ok router) ↔
        Acceptable h.endpoints ∧ ∀ e ∈ h.endpoints, Spacious e := by
      apply ofEndpoints_ok_iff (canonical_endpoints h)
      exact fun e member => unstarred e (back.mp member)
    rw [accepts']
    refine accepts.trans (and_congr ⟨fun fit => fit.perm perm, fun fit => fit.perm perm.symm⟩ ?_)
    simp only [back]

-- A path with a method of its own and the rest, in a group and out of it.
def orders : Group String :=
  [.group "/orders" [.route "GET" ":id" "one" none, .route "ALL" "/:id/" "rest" none],
    .route "ANY" "/:region/orders" "all" none]

def reordered : Group String :=
  [.route "ANY" "/:region/orders" "all" none, .route "GET" "/orders/:id" "one" none,
    .route "ALL" "/orders/:id" "rest" none]

theorem ofGroup_ok_orders :
    Unstarred orders.endpoints ∧ orders.endpoints.Perm reordered.endpoints ∧
      Acceptable orders.endpoints ∧ (∀ e ∈ orders.endpoints, Spacious e) ∧
      ∃ router, ofGroup reordered = .ok router := by
  have unstarred : Unstarred orders.endpoints := by
    unfold Unstarred
    decide +kernel
  have perm : orders.endpoints.Perm reordered.endpoints :=
    List.perm_append_singleton _ (orders.endpoints.take 2)
  obtain ⟨accepts, -, -, permuted⟩ := ofGroup_ok_iff orders unstarred
  have made : ∃ router, ofGroup orders = .ok router := by
    have builds : (ofGroup orders).toOption.isSome = true := by decide +kernel
    obtain ⟨router, built⟩ := Option.isSome_iff_exists.mp builds
    exact ⟨router, ok_of_toOption built⟩
  obtain ⟨accepted, spacious⟩ := accepts.mp made
  exact ⟨unstarred, perm, accepted, spacious, (permuted reordered perm).mp made⟩

-- One route, with a parameter for each letter.
def letters : Group String :=
  [.route "GET" ("/:a/:b/:c/:d/:e/:f/:g/:h/:i/:j/:k/:l/:m/:n/:o/:p/:q/:r/:s/:t/:u/:v/:w/:x/:y/:z")
    "rest" none]

theorem refused_letters :
    Unstarred letters.endpoints ∧ Acceptable letters.endpoints ∧
      ofGroup letters = .error (.refused .crowded) := by
  have refused : ofGroup letters = .error (.refused .crowded) := by
    have fault : (match ofGroup letters with
        | .error (.refused refusal) => some refusal
        | _ => none) = some .crowded := by
      decide +kernel
    split at fault
    · rename_i refusal outcome
      rw [outcome, Option.some.inj fault]
    · cases fault
  refine ⟨?_, ?_, refused⟩
  · unfold Unstarred
    decide +kernel
  · by_contra unfit
    obtain ⟨e, rejected⟩ := rejected_of_not_acceptable (canonical_endpoints letters) unfit
    cases refused.symm.trans rejected

end Router

end Flowgate.Route
