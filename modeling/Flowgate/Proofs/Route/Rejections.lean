import Flowgate.Proofs.Route.Acceptance

/-!
What the errors about a set of routes say. The checks go through the routes with a memory of what they
met before, and an error names what they remember or what they look at. What it says is so, but for one
case: where a route for all methods comes after one for any method, the error gives the name of the
later route twice and leaves out the earlier one.
-/

namespace Flowgate.Route

/-! ### What an error says -/

-- What the error says about the routes of the set is so.
inductive Blames (es : List (Endpoint κ)) : Error → Prop
  | conflict {report : Entries Nat} (some : report ≠ []) (once : report.names.Nodup)
      (counted : ∀ key count, (key, count) ∈ report ↔
        count = (es.map Endpoint.key).count key ∧ 2 ≤ count) : Blames es (.conflict report)
  | emptySegment {e : Endpoint κ} (member : e ∈ es) (empty : ¬Plain e.path) :
      Blames es (.compilation e.key "empty path segment")
  -- The parameter has no proper name, or the name of one to its left.
  | parameter {e : Endpoint κ} {before after : List String} {segment name : String}
      (member : e ∈ es) (split : segments e.path = before ++ segment :: after)
      (named : param? segment = some name)
      (unfit : name = "" ∨ '\x7b' ∈ name.toList ∨ '\x7d' ∈ name.toList ∨ '*' ∈ name.toList ∨
        name ∈ before.filterMap param?) :
      Blames es (.compilation e.key ("invalid or repeated path parameter '" ++ segment ++ "'"))
  | method {e : Endpoint κ} (member : e ∈ es) (unknown : e.method ∉
      ["GET", "POST", "PUT", "PATCH", "DELETE", "HEAD", "OPTIONS", "TRACE", "ALL", "ANY"]) :
      Blames es (.unsupportedMethod e.method)
  -- Two paths go the same way up to a parameter and name it differently.
  | naming {e f : Endpoint κ} {before rest before' rest' : List String} {s t name name' : String}
      (left : e ∈ es) (right : f ∈ es) (other : e.path ≠ f.path)
      (split : segments e.path = before ++ s :: rest)
      (split' : segments f.path = before' ++ t :: rest')
      (same : before.map blanked = before'.map blanked)
      (named : param? s = some name) (named' : param? t = some name') (differ : name ≠ name') :
      Blames es (.ambiguous e.path f.path)
  | others {e f : Endpoint κ} (left : e ∈ es) (right : f ∈ es) (path : e.path = f.path)
      (all : e.method = "ALL") (any : f.method = "ANY") : Blames es (.ambiguous e.key f.key)

-- An earlier route for any method is not named; the later one for all methods is, twice.
inductive Misnames (es : List (Endpoint κ)) : Error → Prop
  | others {before between after : List (Endpoint κ)} {e f : Endpoint κ}
      (split : es = before ++ e :: (between ++ f :: after)) (path : e.path = f.path)
      (any : e.method = "ANY") (all : f.method = "ALL") : Misnames es (.ambiguous f.key f.key)

variable {es : List (Endpoint κ)} {fault : Error}

theorem Blames.apart {first second : String} (blames : Blames es (.ambiguous first second)) :
    first ≠ second := by
  cases blames with
  | naming _ _ other => exact other
  | @others e f _ _ path all any =>
    intro same
    rw [Endpoint.key, Endpoint.key, all, any, path, key, key, String.append_left_inj] at same
    exact absurd same (by decide)

theorem Misnames.same {first second : String} (misnames : Misnames es (.ambiguous first second)) :
    first = second := by
  cases misnames
  rfl

theorem Misnames.not_blames (misnames : Misnames es fault) : ¬Blames es fault := by
  cases misnames
  exact fun blames => blames.apart rfl

/-! ### Shapes -/

-- What the check remembers comes from a route of the set.
def KeptFrom (es : List (Endpoint κ)) (namings : List Naming) : Prop :=
  ∀ n ∈ namings, ∃ e ∈ es, n.path = e.path ∧ (n.shape, n.name) ∈ declared [] (segments e.path)

-- What the check of one path gives: more to remember, or an error that is so.
def Verdict (es : List (Endpoint κ)) : Except Error (List Naming) → Prop
  | .ok next => KeptFrom es next
  | .error fault => Blames es fault

-- A name that was kept for the same prefix belongs to another path.
theorem blames_of_kept {e : Endpoint κ} (member : e ∈ es) {before after : List String}
    {segment name : String} (split : segments e.path = before ++ segment :: after)
    (named : param? segment = some name) {n : Naming} {f : Endpoint κ} (there : f ∈ es)
    (path : n.path = f.path) (kept : (n.shape, n.name) ∈ declared [] (segments f.path))
    (shape : n.shape = "/".intercalate (before.map blanked)) (differ : n.name ≠ name) :
    Blames es (.ambiguous n.path e.path) := by
  obtain ⟨before', s, after', split', named', shape'⟩ := isDeclared_iff.mp kept
  have same : before'.map blanked = before.map blanked := by
    apply blanked_before_inj split' split
    rw [← shape, shape', List.nil_append]
  rw [path]
  refine .naming there member ?_ split' split same named' named differ
  intro alike
  rw [alike, split] at split'
  have lengths : before.length = before'.length := by
    simpa using (congrArg List.length same).symm
  obtain ⟨-, tails⟩ := List.append_inj split' lengths
  obtain ⟨rfl, -⟩ := List.cons.inj tails
  rw [named] at named'
  exact differ (Option.some.inj named').symm

-- The induction is on the segments to the right; those to the left are `before`.
theorem verdict_checkSegments {e : Endpoint κ} (member : e ∈ es) {xs before seen : List String}
    {namings : List Naming} (split : segments e.path = before ++ xs)
    (met : ∀ name ∈ seen, name ∈ before.filterMap param?) (kept : KeptFrom es namings) :
    Verdict es (checkSegments e.key e.path (before.map blanked) seen xs namings) := by
  induction xs generalizing before seen namings with
  | nil => exact kept
  | cons x xs ih =>
    have onward : segments e.path = (before ++ [x]) ++ xs := by simpa using split
    have shapes : before.map blanked ++ [blanked x] = (before ++ [x]).map blanked := by simp
    unfold checkSegments
    cases named : param? x with
    | none =>
      dsimp only
      rw [shapes]
      apply ih onward _ kept
      intro name there
      simpa [named] using met name there
    | some name =>
      have met' : ∀ other ∈ name :: seen, other ∈ (before ++ [x]).filterMap param? := by
        intro other there
        rcases List.mem_cons.mp there with rfl | old
        · simp [named]
        · simpa [named] using Or.inl (met other old)
      dsimp only
      split
      · rename_i unfit
        apply Blames.parameter member split named
        simp only [Bool.or_eq_true, Bool.not_eq_true', List.contains_iff_mem] at unfit
        rcases unfit with improper | again
        · have not := mt isParamName_iff.mpr (by simpa using improper)
          grind
        · simp [met name again]
      · split
        · rename_i n found
          obtain ⟨f, there, path, its⟩ := kept n (List.mem_of_find?_eq_some found)
          have shape : n.shape = "/".intercalate (before.map blanked) := by
            simpa using List.find?_some found
          split
          · rename_i differ
            exact blames_of_kept member split named there path its shape differ
          · rw [shapes]
            exact ih onward met' kept
        · rw [shapes]
          apply ih onward met'
          intro n among
          rcases List.mem_cons.mp among with rfl | old
          · exact ⟨e, member, rfl, isDeclared_iff.mpr ⟨before, x, xs, split, named, by simp⟩⟩
          · exact kept n old

theorem verdict_checkPath (canonical : ∀ e ∈ es, Canonical e.path) {e : Endpoint κ} (member : e ∈ es)
    {namings : List Naming} (kept : KeptFrom es namings) : Verdict es (checkPath e namings) := by
  unfold checkPath
  split
  · rename_i empty
    apply Blames.emptySegment member
    rw [plain_iff (canonical e member), empty]
    exact Bool.noConfusion
  · exact verdict_checkSegments member (List.nil_append _).symm (by simp) kept

theorem blames_of_checkPaths (canonical : ∀ e ∈ es, Canonical e.path) {left : List (Endpoint κ)}
    (among : ∀ e ∈ left, e ∈ es) {namings : List Naming} (kept : KeptFrom es namings)
    (failed : checkPaths left namings = .error fault) : Blames es fault := by
  induction left generalizing namings with
  | nil => cases failed
  | cons e left ih =>
    have verdict := verdict_checkPath canonical (among e List.mem_cons_self) kept
    rw [checkPaths] at failed
    cases checked : checkPath e namings with
    | error fault' =>
      rw [checked] at failed verdict
      cases failed
      exact verdict
    | ok next =>
      rw [checked] at failed verdict
      exact ih (fun f there => among f (List.mem_cons_of_mem _ there)) verdict failed

/-! ### Methods -/

namespace Router

-- The first endpoint that cannot be added, and what was built before it.
theorem foldlM_error {left : List (Endpoint κ)} {slots : List (Slot κ)}
    (failed : left.foldlM addEndpoint slots = .error fault) :
    ∃ before e after slots', left = before ++ e :: after ∧
      before.foldlM addEndpoint slots = .ok slots' ∧ addEndpoint slots' e = .error fault := by
  induction left generalizing slots with
  | nil => cases failed
  | cons e left ih =>
    rw [List.foldlM_cons] at failed
    cases added : addEndpoint slots e with
    | error fault' =>
      rw [added] at failed
      cases failed
      exact ⟨[], e, left, slots, rfl, rfl, added⟩
    | ok next =>
      rw [added] at failed
      obtain ⟨before, f, after, slots', rfl, built, stopped⟩ := ih failed
      refine ⟨e :: before, f, after, slots', rfl, ?_, stopped⟩
      rw [List.foldlM_cons, added]
      exact built

theorem fault_of_addTo {slots : List (Slot κ)} {e : Endpoint κ}
    (failed : addTo slots e = .error fault) : fault = .ambiguous ("ALL " ++ e.path) e.key := by
  have own {slot : Slot κ} (failed : slot.add e = .error fault) :
      fault = .ambiguous ("ALL " ++ e.path) e.key := by
    unfold Slot.add at failed
    split at failed
    · split at failed
      · exact (Except.error.inj failed).symm
      · cases failed
    · cases failed
  induction slots with
  | nil =>
    rw [addTo] at failed
    cases added : Slot.add { path := e.path, methods := [], others := none } e with
    | ok slot => rw [added] at failed; cases failed
    | error fault' =>
      rw [added] at failed
      cases failed
      exact own added
  | cons slot slots ih =>
    rw [addTo] at failed
    split at failed
    · cases added : slot.add e with
      | ok slot' => rw [added] at failed; cases failed
      | error fault' =>
        rw [added] at failed
        cases failed
        exact own added
    · cases added : addTo slots e with
      | ok next => rw [added] at failed; cases failed
      | error fault' =>
        rw [added] at failed
        cases failed
        exact ih added

theorem key_all (path : String) : key "ALL" path = "ALL " ++ path := by
  rw [key]
  rfl

-- Of two routes of one path that serve all methods, one is for all and the other for any.
theorem all_or_any {e f : Endpoint κ} (apart : f.key ≠ e.key) (path : f.path = e.path)
    (left : servesAll f.method = true) (right : servesAll e.method = true) :
    (f.method = "ALL" ∧ e.method = "ANY") ∨ (f.method = "ANY" ∧ e.method = "ALL") := by
  have methods : f.method ≠ e.method := by
    intro same
    exact apart (by rw [Endpoint.key, Endpoint.key, same, path])
  simp only [servesAll, Bool.or_eq_true, decide_eq_true_eq] at left right
  grind

theorem blames_or_misnames_of_added (canonical : ∀ e ∈ es, Canonical e.path)
    (unique : (es.map Endpoint.key).Nodup) (shaped : WellShaped es)
    (failed : es.foldlM addEndpoint [] = .error fault) : Blames es fault ∨ Misnames es fault := by
  obtain ⟨done, e, after, slots, rfl, built, stopped⟩ := foldlM_error failed
  have holds := holds_foldlM holds_nil built
  rw [List.nil_append] at holds
  have member : e ∈ done ++ e :: after := by simp
  unfold addEndpoint at stopped
  split at stopped
  · have told := fault_of_addTo stopped
    obtain ⟨all, slot, among, same, taken⟩ := addTo_error stopped
    obtain ⟨f, there, template, all'⟩ := holds.all_of_taken among taken
    have member' : f ∈ done ++ e :: after := List.mem_append_left _ there
    have path : f.path = e.path :=
      shaped.path_of_template canonical member' member (template.trans same)
    have apart : f.key ≠ e.key :=
      (List.pairwise_append.mp (List.pairwise_map.mp unique)).2.2 f there e List.mem_cons_self
    rcases all_or_any apart path all' all with ⟨first, second⟩ | ⟨first, second⟩
    · have named : f.key = "ALL " ++ e.path := by rw [Endpoint.key, first, path, key_all]
      rw [told, ← named]
      exact .inl (.others member' member path first second)
    · have named : e.key = "ALL " ++ e.path := by rw [Endpoint.key, second, key_all]
      obtain ⟨before, between, rfl⟩ := List.append_of_mem there
      rw [told, ← named]
      exact .inr (.others (List.append_assoc _ _ _) path first second)
  · rename_i unknown
    cases stopped
    exact .inl (.method member (mt isServed_iff.mpr unknown))

theorem blames_or_misnames (canonical : ∀ e ∈ es, Canonical e.path)
    (failed : ofEndpoints es = .error (.rejected fault)) : Blames es fault ∨ Misnames es fault := by
  unfold ofEndpoints at failed
  by_cases unique : (es.map Endpoint.key).Nodup
  · rw [ensureUnique_of_nodup unique] at failed
    cases shapes : checkShapes es with
    | error fault' =>
      rw [shapes] at failed
      cases failed
      exact .inl (blames_of_checkPaths canonical (fun _ => id) (fun _ none => by cases none) shapes)
    | ok _ =>
      rw [shapes] at failed
      cases added : es.foldlM addEndpoint [] with
      | error fault' =>
        rw [added] at failed
        cases failed
        exact blames_or_misnames_of_added canonical unique (wellShaped_of_checkShapes shapes) added
      | ok slots =>
        rw [added] at failed
        dsimp only [bind, Except.bind, mapError_ok] at failed
        split at failed <;> cases failed
  · rw [ensureUnique_of_not_nodup unique] at failed
    cases failed
    refine .inl (.conflict ?_ (Entries.nodup_names (sorted_duplicates _)) (mem_duplicates _))
    exact fun none => unique ((duplicates_eq_nil_iff _).mp none)

theorem ofGroup_error (g : Group κ) (failed : ofGroup g = .error (.rejected fault)) :
    Blames g.endpoints fault ↔ ¬Misnames g.endpoints fault := by
  constructor
  · exact fun blames misnames => misnames.not_blames blames
  · exact (blames_or_misnames (canonical_endpoints g) failed).resolve_right

/-! ### Two sets that are turned down -/

def rejection? : Except Fault (Router κ) → Option Error
  | .error (.rejected e) => some e
  | _ => none

theorem rejected_of {result : Except Fault (Router κ)} (told : rejection? result = some fault) :
    result = .error (.rejected fault) := by
  unfold rejection? at told
  split at told
  · rw [Option.some.inj told]
  · cases told

-- The two paths go the same way, and each has a name of its own for what comes next.
def members : Group String :=
  [.route "GET" "/teams/:team" "one" none, .route "POST" "/teams/:id/members" "add" none]

theorem ofGroup_error_members :
    let fault : Error := .ambiguous "/teams/:team" "/teams/:id/members"
    ofGroup members = .error (.rejected fault) ∧ ¬Misnames members.endpoints fault ∧
      Blames members.endpoints fault := by
  intro fault
  have failed : ofGroup members = .error (.rejected fault) := rejected_of (by decide +kernel)
  have apart : ¬Misnames members.endpoints fault := fun misnames =>
    absurd misnames.same (by decide)
  exact ⟨failed, apart, (ofGroup_error members failed).mpr apart⟩

-- A route for any method, and then one for all of them.
def rest : Group String :=
  [.route "ANY" "/x" "any" none, .route "ALL" "/x" "all" none]

theorem rest_misnamed :
    let fault : Error := .ambiguous "ALL /x" "ALL /x"
    ofGroup rest = .error (.rejected fault) ∧ ¬Blames rest.endpoints fault := by
  intro fault
  exact ⟨rejected_of (by decide +kernel), fun blames => blames.apart rfl⟩

end Router

end Flowgate.Route
