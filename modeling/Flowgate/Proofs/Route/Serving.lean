import Flowgate.Proofs.Route.Precedence

/-!
What a router answers, read off the flat list of its endpoints: the best path that fits the request,
and on it the endpoint of the method. Neither the order of the endpoints nor the groups that they
came from have a say.
-/

namespace Flowgate.Route

open Json (Value)

-- The endpoint of a path for a method: the method's own, for HEAD the one of GET, or the one that
-- serves all other methods.
def onPath (es : List (Endpoint κ)) (path method : String) : Option (Endpoint κ) :=
  (es.find? fun e => e.path = path ∧ e.method = method).or
    ((if method = "HEAD" then es.find? fun e => e.path = path ∧ e.method = "GET" else none).or
      (es.find? fun e => e.path = path ∧ servesAll e.method))

-- The answer on a path that fits, given the endpoint for the method if there is one.
def prescribed (invoke : κ → Value → Except String Unit) (r : Http.Request) :
    Option (Endpoint κ) → Router.Answer κ
  | none => { response := .bare 405, called := none }
  | some e =>
    if r.isTooLarge then { response := .bare 413, called := none }
    else
      { response := match invoke e.handler (Router.inputsOf e r) with
          | .ok () => .bare 204
          | .error message => (Http.Response.error 422 message).forMethod r.method
        called := some (e.handler, Router.inputsOf e r) }

namespace Router

variable {es : List (Endpoint κ)} {router : Router κ}

theorem forMethod_bare (method : String) (status : Nat) :
    (Http.Response.bare status).forMethod method = .bare status := by
  unfold Http.Response.forMethod
  split <;> rfl

theorem serve_of_slot {invoke : κ → Value → Except String Unit} {r : Http.Request} {slot : Slot κ}
    (found : router.slot? r.uri.path = some slot) :
    router.serve invoke r = prescribed invoke r (slot.endpoint? r.method) := by
  unfold serve
  rw [found]
  dsimp only
  cases slot.endpoint? r.method with
  | none => rfl
  | some e =>
    unfold prescribed dispatch
    dsimp only
    split
    · rw [forMethod_bare]
    · dsimp only
      cases invoke e.handler (inputsOf e r) with
      | ok _ => dsimp only; rw [forMethod_bare]
      | error message => rfl

/-! ### Slots and endpoints -/

theorem Built.slot_path (built : Built es router) (canonical : ∀ e ∈ es, Canonical e.path)
    {slot : Slot κ} (member : slot ∈ router.slots) {e : Endpoint κ} (there : e ∈ es) :
    template e.path = template slot.path ↔ e.path = slot.path :=
  built.holds.path_eq_iff built.shaped canonical member there

theorem Built.here_eq (built : Built es router) (canonical : ∀ e ∈ es, Canonical e.path)
    {slot : Slot κ} (member : slot ∈ router.slots) :
    here es (template slot.path) = es.filter fun e => e.path = slot.path :=
  built.holds.here_eq built.shaped canonical member

theorem find?_others (slot : Slot κ) {found : List (Endpoint κ)}
    (others : slot.others.toList = found.filter fun e => servesAll e.method) :
    slot.others = found.find? fun e => servesAll e.method := by
  rw [← List.head?_filter, ← others]
  cases slot.others <;> rfl

-- The endpoints of a slot, found in it or in its part of the whole list.
theorem endpoint?_eq {slot : Slot κ} {found : List (Endpoint κ)}
    (methods : slot.methods = found.filter fun e => !servesAll e.method)
    (others : slot.others.toList = found.filter fun e => servesAll e.method) (method : String) :
    slot.endpoint? method = (found.find? (·.method = method)).or
      ((if method = "HEAD" then found.find? (·.method = "GET") else none).or
        (found.find? fun e => servesAll e.method)) := by
  have own (m : String) (single : servesAll m = false) :
      slot.methods.find? (·.method = m) = found.find? (·.method = m) := by
    rw [methods, List.find?_filter]
    congr 1
    funext e
    by_cases same : e.method = m <;> simp [same, single]
  unfold Slot.endpoint?
  rw [find?_others slot others, own "GET" (by decide)]
  cases all : servesAll method with
  | false => rw [own method all]
  | true =>
    have notHead : method ≠ "HEAD" := by
      rintro rfl
      exact absurd all (by decide)
    have none : slot.methods.find? (·.method = method) = none := by
      rw [methods, List.find?_filter, List.find?_eq_none]
      intro e _ here
      simp only [decide_eq_true_eq] at here
      simp [here.2, all] at here
    rw [none, if_neg notHead, Option.none_or, Option.none_or]
    cases first : found.find? (·.method = method) with
    | none => rw [Option.none_or]
    | some e =>
      -- A request may carry the method of the endpoint for all others; it is the same endpoint.
      have member : e ∈ slot.others.toList := by
        rw [others, List.mem_filter]
        have same : e.method = method := by simpa using List.find?_some first
        exact ⟨List.mem_of_find?_eq_some first, same ▸ all⟩
      rw [← find?_others slot others]
      simpa using member

theorem Built.endpoint?_onPath (built : Built es router) (canonical : ∀ e ∈ es, Canonical e.path)
    {slot : Slot κ} (member : slot ∈ router.slots) (method : String) :
    slot.endpoint? method = onPath es slot.path method := by
  have holds := built.holds.slot slot member
  have here := built.here_eq canonical member
  have methods := holds.methods
  have others := holds.others
  rw [here] at methods others
  rw [endpoint?_eq methods others]
  unfold onPath
  simp only [List.find?_filter, Bool.decide_and, Bool.decide_eq_true]

theorem Built.slot?_eq_none (built : Built es router) {raw : String} (plain : Plain raw) (nothing : ∀ e ∈ es, ¬Fits e.path raw) :
    router.slot? raw = none := by
  unfold slot?
  cases read : requestSegments? raw with
  | none => rfl
  | some given =>
    show search _ given = none
    cases found : search (router.slots.map fun slot => (piecesOf slot.path, slot)) given with
    | none => rfl
    | some slot =>
      obtain ⟨ps, member, fits, _⟩ := search_eq_some found
      obtain ⟨slot, there, same⟩ := List.mem_map.mp member
      cases same
      obtain ⟨e, there', path⟩ := (built.holds.slot slot there).path
      rw [path] at fits
      exact absurd ((matches_iff_fits plain read).mp fits) (nothing e there')

theorem Built.slot?_eq_some (built : Built es router) (canonical : ∀ e ∈ es, Canonical e.path)
    {raw : String} (plain : Plain raw) {e : Endpoint κ} (there : e ∈ es)
    (fits : Fits e.path raw) :
    ∃ slot ∈ router.slots, router.slot? raw = some slot ∧ Best es raw slot.path := by
  obtain ⟨rest, rfl⟩ := eq_slash_of_head fits.1
  have read := requestSegments?_slash rest
  obtain ⟨home, atHome, same⟩ := built.holds.found e there
  have homePath := (built.slot_path canonical atHome there).mp same.symm
  unfold slot?
  rw [read]
  show ∃ slot ∈ router.slots, search _ _ = some slot ∧ _
  cases found : search (router.slots.map fun slot => (piecesOf slot.path, slot))
      (Text.pieces '/' rest) with
  | none =>
    have member := List.mem_map_of_mem (f := fun slot => (piecesOf slot.path, slot)) atHome
    refine absurd ((matches_iff_fits plain read).mpr fits) ?_
    rw [homePath]
    exact search_eq_none found member
  | some slot =>
    obtain ⟨ps, member, matched, first⟩ := search_eq_some found
    obtain ⟨slot, atSlot, equal⟩ := List.mem_map.mp member
    cases equal
    obtain ⟨f, there', path⟩ := (built.holds.slot slot atSlot).path
    have fitsSlot := (matches_iff_fits plain read).mp matched
    refine ⟨slot, atSlot, rfl, ⟨f, there', path.symm⟩, fitsSlot, ?_⟩
    intro g there'' fits' ne
    rw [path] at ne fitsSlot ⊢
    rcases built.shaped.outranks_or canonical there' there'' fitsSlot fits' (Ne.symm ne) with
      above | below
    · exact above
    · obtain ⟨other, atOther, same⟩ := built.holds.found g there''
      have otherPath := (built.slot_path canonical atOther there'').mp same.symm
      have matched' := (matches_iff_fits plain read).mpr fits'
      have lower := literalFirst_of_outranks fits' fitsSlot below
      rw [otherPath] at matched' lower
      rcases first _ _ (List.mem_map_of_mem atOther) matched' with equal | upper
      · rw [equal, path] at lower
        exact absurd lower lower.asymm
      · rw [path] at upper
        exact absurd lower upper.asymm

theorem mem_of_onPath {path method : String} {e : Endpoint κ}
    (found : onPath es path method = some e) : e ∈ es ∧ e.path = path := by
  have of_find {p : Endpoint κ → Bool} (found : es.find? p = some e)
      (path' : p e = true → e.path = path) : e ∈ es ∧ e.path = path :=
    ⟨List.mem_of_find?_eq_some found, path' (List.find?_some found)⟩
  unfold onPath at found
  rw [Option.or_eq_some_iff, Option.or_eq_some_iff] at found
  rcases found with own | ⟨-, head | ⟨-, all⟩⟩
  · exact of_find own (by simp +contextual)
  · split at head
    · exact of_find head (by simp +contextual)
    · cases head
  · exact of_find all (by simp +contextual)

-- The router has the endpoint answer the request.
def Sends (router : Router κ) (r : Http.Request) (e : Endpoint κ) : Prop :=
  ∃ slot, router.slot? r.uri.path = some slot ∧ slot.endpoint? r.method = some e

theorem Built.mem_of_sends (built : Built es router) (canonical : ∀ e ∈ es, Canonical e.path)
    {r : Http.Request} {e : Endpoint κ} (sent : router.Sends r e) :
    e ∈ es ∧ Admits e.path r.uri.path := by
  obtain ⟨slot, home, found⟩ := sent
  obtain ⟨member, admitted⟩ := admits_of_slot? home
  rw [built.endpoint?_onPath canonical member] at found
  obtain ⟨there, path⟩ := mem_of_onPath found
  exact ⟨there, path ▸ admitted⟩

-- A handler is called for an endpoint that the request is sent to, with the inputs made for it.
theorem sends_of_called {invoke : κ → Value → Except String Unit} {r : Http.Request}
    {call : κ × Value} (called : (router.serve invoke r).called = some call) :
    ∃ e, router.Sends r e ∧ (e.handler, inputsOf e r) = call := by
  cases home : router.slot? r.uri.path with
  | none => simp [serve, home] at called
  | some slot =>
    rw [serve_of_slot home] at called
    cases found : slot.endpoint? r.method with
    | none => simp [found, prescribed] at called
    | some e =>
      simp only [found, prescribed] at called
      split at called
      · cases called
      · exact ⟨e, ⟨slot, home, found⟩, Option.some.inj called⟩

/-! ### Order -/

theorem find?_perm {xs ys : List α} (perm : xs.Perm ys) {p : α → Bool}
    (one : ∀ a ∈ xs, ∀ b ∈ xs, p a = true → p b = true → a = b) : xs.find? p = ys.find? p := by
  cases left : xs.find? p with
  | none =>
    rw [List.find?_eq_none] at left
    exact (List.find?_eq_none.mpr fun a member => left a (perm.mem_iff.mpr member)).symm
  | some a =>
    have member := List.mem_of_find?_eq_some left
    have holds := List.find?_some left
    cases right : ys.find? p with
    | none =>
      rw [List.find?_eq_none] at right
      exact absurd holds (right a (perm.mem_iff.mp member))
    | some b =>
      have member' := perm.mem_iff.mpr (List.mem_of_find?_eq_some right)
      rw [one a member b member' holds (List.find?_some right)]

theorem Built.one_of_method (built : Built es router) (path method : String) :
    ∀ a ∈ es, ∀ b ∈ es, decide (a.path = path ∧ a.method = method) = true →
      decide (b.path = path ∧ b.method = method) = true → a = b := by
  intro a left b right here there
  obtain ⟨path1, method1⟩ := of_decide_eq_true here
  obtain ⟨path2, method2⟩ := of_decide_eq_true there
  apply List.inj_on_of_nodup_map built.unique left right
  rw [Endpoint.key, Endpoint.key, path1, path2, method1, method2]

theorem Built.one_for_all (built : Built es router) (path : String) :
    ∀ a ∈ es, ∀ b ∈ es, decide (a.path = path ∧ servesAll a.method) = true →
      decide (b.path = path ∧ servesAll b.method) = true → a = b := by
  intro a left b right here there
  obtain ⟨path1, all1⟩ := of_decide_eq_true here
  obtain ⟨path2, all2⟩ := of_decide_eq_true there
  obtain ⟨slot, member, same⟩ := built.holds.found a left
  have others := (built.holds.slot slot member).others
  rw [same, path1] at others
  have inOthers (e : Endpoint κ) (there : e ∈ es) (path' : e.path = path)
      (all : servesAll e.method = true) : e ∈ slot.others.toList := by
    rw [others, List.mem_filter, Router.here, List.mem_filter]
    exact ⟨⟨there, by simp [path']⟩, all⟩
  have one := inOthers a left path1 all1
  have two := inOthers b right path2 all2
  rw [Option.mem_toList] at one two
  exact Option.some.inj (one.symm.trans two)

theorem Built.onPath_perm (built : Built es router) {fs : List (Endpoint κ)} (perm : es.Perm fs)
    (path method : String) : onPath es path method = onPath fs path method := by
  unfold onPath
  rw [find?_perm perm (built.one_of_method path method),
    find?_perm perm (built.one_of_method path "GET"), find?_perm perm (built.one_for_all path)]

theorem Built.serve_eq (built : Built es router) (canonical : ∀ e ∈ es, Canonical e.path)
    (invoke : κ → Value → Except String Unit) {r : Http.Request} (plain : Plain r.uri.path)
    {path : String} (best : Best es r.uri.path path) :
    router.serve invoke r = prescribed invoke r (onPath es path r.method) := by
  obtain ⟨e, there, rfl⟩ := best.there
  obtain ⟨slot, member, found, best'⟩ := built.slot?_eq_some canonical plain there best.fits
  rw [serve_of_slot found, built.endpoint?_onPath canonical member, best.unique best']

theorem Built.serve_none (built : Built es router) (invoke : κ → Value → Except String Unit) {r : Http.Request} (plain : Plain r.uri.path)
    (nothing : ∀ e ∈ es, ¬Fits e.path r.uri.path) :
    router.serve invoke r = { response := .bare 404, called := none } := by
  unfold serve
  rw [built.slot?_eq_none plain nothing]

theorem built_of_ofGroup {g : Group κ} (made : ofGroup g = .ok router) :
    Built g.endpoints router :=
  built_of_ofEndpoints made

theorem serve_flat {g : Group κ} (made : ofGroup g = .ok router)
    (invoke : κ → Value → Except String Unit) {r : Http.Request} (plain : Plain r.uri.path) :
    ((∀ e ∈ g.endpoints, ¬Fits e.path r.uri.path) →
      router.serve invoke r = { response := .bare 404, called := none }) ∧
    ((∃ e ∈ g.endpoints, Fits e.path r.uri.path) →
      ∃ path, Best g.endpoints r.uri.path path ∧
        (∀ other, Best g.endpoints r.uri.path other → other = path) ∧
        router.serve invoke r = prescribed invoke r (onPath g.endpoints path r.method)) ∧
    ∀ (g' : Group κ) (router' : Router κ), ofGroup g' = .ok router' →
      g.endpoints.Perm g'.endpoints → router'.serve invoke r = router.serve invoke r := by
  have built := built_of_ofGroup made
  have canonical := canonical_endpoints g
  refine ⟨built.serve_none invoke plain, ?_, ?_⟩
  · rintro ⟨e, there, fits⟩
    obtain ⟨slot, member, found, best⟩ := built.slot?_eq_some canonical plain there fits
    exact ⟨slot.path, best, fun other best' => best.unique best',
      built.serve_eq canonical invoke plain best⟩
  · intro g' router' made' perm
    have built' := built_of_ofGroup made'
    have canonical' := canonical_endpoints g'
    by_cases some : ∃ e ∈ g.endpoints, Fits e.path r.uri.path
    · obtain ⟨e, there, fits⟩ := some
      obtain ⟨slot, _, _, best⟩ := built.slot?_eq_some canonical plain there fits
      have best' := best.of_mem fun f => perm.mem_iff
      rw [built.serve_eq canonical invoke plain best, built'.serve_eq canonical' invoke plain best',
        built.onPath_perm perm]
    · have none : ∀ e ∈ g.endpoints, ¬Fits e.path r.uri.path :=
        fun e there fits => some ⟨e, there, fits⟩
      rw [built.serve_none invoke plain none, built'.serve_none invoke plain
        fun e there => none e (perm.mem_iff.mpr there)]

def users : Group String :=
  [.route "GET" "/users/:id" "one" none,
   .group "users/" [.route "GET" "me" "self" none, .route "ANY" "/:id/" "rest" none]]

def headSelf : Http.Request :=
  { method := "HEAD", uri := { path := "/users/me", query := none }, contentType := none,
    body := [] }

-- Both paths fit, the literal one is chosen, and HEAD is served by its GET endpoint.
theorem serve_flat_users :
    ∃ router, ofGroup users = .ok router ∧ Plain headSelf.uri.path ∧
      ∃ path, Best users.endpoints headSelf.uri.path path ∧
        router.serve (fun _ _ => .ok ()) headSelf
          = prescribed (fun _ _ => .ok ()) headSelf (onPath users.endpoints path "HEAD") := by
  have made : ∃ router, ofGroup users = .ok router := by
    have builds : (ofGroup users).toOption.isSome = true := by decide +kernel
    cases made : ofGroup users with
    | error fault => rw [made] at builds; cases builds
    | ok router => exact ⟨router, rfl⟩
  have plain : Plain headSelf.uri.path := by
    refine .inr fun given read => ?_
    obtain rfl : ["users", "me"] = given := Option.some.inj read
    decide
  obtain ⟨router, made⟩ := made
  have fits : Fits "/users/:id" headSelf.uri.path :=
    ⟨rfl, .cons (.inr rfl) (.cons (.inl rfl) .nil)⟩
  have there : ∃ e ∈ users.endpoints, Fits e.path headSelf.uri.path :=
    ⟨{ method := "GET", path := "/users/:id", handler := "one" }, .head _, fits⟩
  obtain ⟨path, best, _, answer⟩ := (serve_flat made (fun _ _ => .ok ()) plain).2.1 there
  exact ⟨router, made, plain, path, best, answer⟩

end Router

end Flowgate.Route
