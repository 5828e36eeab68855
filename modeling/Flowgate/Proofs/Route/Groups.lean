import Flowgate.Proofs.Route.Paths

/-!
Groups as they are built: by additions of routes and of groups, which were built in the same way. The
routes of the tree of additions have addresses, and a group flattens to all of them in the order of
their addresses, each with the path of the prefixes above it and its own.
-/

namespace Flowgate.Route

-- What is added to a group: a route, or a group below a prefix with what was added to that.
inductive Addition (κ : Type) where
  | on (method path : String) (handler : κ) (origin : Option Origin)
  | mount (path : String) (additions : List (Addition κ))

mutual

def Addition.addTo (g : Group κ) : Addition κ → Group κ
  | .on method path handler origin => g.on method path handler origin
  | .mount path additions => g.mount path (Group.add .empty additions)

-- The group after some additions, made one after the other.
def Group.add (g : Group κ) : List (Addition κ) → Group κ
  | [] => g
  | addition :: rest => Group.add (addition.addTo g) rest

end

def Group.built (additions : List (Addition κ)) : Group κ := Group.add .empty additions

/-! ### Routes of the tree -/

-- A route of the tree of additions: the places that lead to it from the top, the prefixes of the
-- groups that it is in, the outermost first, and what was added.
structure Leaf (κ : Type) where
  address : List Nat
  prefixes : List String
  method : String
  path : String
  handler : κ

-- The same route, seen from one group further out.
def Leaf.below (place : Nat) (path : String) (leaf : Leaf κ) : Leaf κ :=
  { leaf with address := place :: leaf.address, prefixes := path :: leaf.prefixes }

inductive Leaf.In : List (Addition κ) → Leaf κ → Prop
  | here {additions : List (Addition κ)} {place : Nat} {method path : String} {handler : κ}
      {origin : Option Origin} (found : additions[place]? = some (.on method path handler origin)) :
      In additions { address := [place], prefixes := [], method, path, handler }
  | deeper {additions inner : List (Addition κ)} {place : Nat} {path : String} {leaf : Leaf κ}
      (found : additions[place]? = some (.mount path inner)) (inside : In inner leaf) :
      In additions (leaf.below place path)

-- What a route of the tree is served as.
def Leaf.endpoint (leaf : Leaf κ) : Endpoint κ where
  method := Text.asciiUpper leaf.method
  path := nested (leaf.prefixes ++ [leaf.path])
  handler := leaf.handler

mutual

def Addition.leaves (place : Nat) : Addition κ → List (Leaf κ)
  | .on method path handler _ =>
    [{ address := [place], prefixes := [], method, path, handler }]
  | .mount path additions => (leavesFrom 0 additions).map (Leaf.below place path)

-- The routes of some additions, of which the first one stands at a place.
def leavesFrom (place : Nat) : List (Addition κ) → List (Leaf κ)
  | [] => []
  | addition :: rest => addition.leaves place ++ leavesFrom (place + 1) rest

end

/-! ### What is flattened -/

section

variable {additions rest : List (Addition κ)} {leaf : Leaf κ} {place : Nat}

-- What an addition puts at the end of a group.
def Addition.entry : Addition κ → Entry κ
  | .on method path handler origin => .route (Text.asciiUpper method) path handler origin
  | .mount path additions => .group path (Group.built additions)

theorem Group.add_eq (g : Group κ) (additions : List (Addition κ)) :
    Group.add g additions = g ++ additions.map Addition.entry := by
  induction additions generalizing g with
  | nil => simp [Group.add]
  | cons addition rest ih =>
    rw [Group.add, ih, List.map_cons]
    cases addition <;> simp [Addition.addTo, Addition.entry, Group.on, Group.mount, Group.built]

theorem Group.built_eq (additions : List (Addition κ)) :
    Group.built additions = additions.map Addition.entry :=
  Group.add_eq .empty additions

-- The leaves of a group give its endpoints below any prefixes.
def Leaf.endpointBelow (above : List String) (leaf : Leaf κ) : Endpoint κ where
  method := Text.asciiUpper leaf.method
  path := nested (above ++ leaf.prefixes ++ [leaf.path])
  handler := leaf.handler

mutual

theorem endpointsBelow_entry (above : List String) (place : Nat) (addition : Addition κ) :
    addition.entry.endpointsBelow (nested above)
      = (addition.leaves place).map (Leaf.endpointBelow above) := by
  cases addition with
  | on method path handler origin =>
    simp [Addition.entry, Entry.endpointsBelow, Addition.leaves, Leaf.endpointBelow, join_below]
  | mount path additions =>
    rw [Addition.entry, Entry.endpointsBelow, Group.built_eq, join_below,
      endpointsBelow_entries (above ++ [path]) 0 additions, Addition.leaves, List.map_map]
    refine List.map_congr_left fun leaf _ => ?_
    simp [Leaf.endpointBelow, Leaf.below]

theorem endpointsBelow_entries (above : List String) (place : Nat) (additions : List (Addition κ)) :
    endpointsBelow (nested above) (additions.map Addition.entry)
      = (leavesFrom place additions).map (Leaf.endpointBelow above) := by
  cases additions with
  | nil => rfl
  | cons addition rest =>
    rw [List.map_cons, endpointsBelow, leavesFrom, List.map_append,
      endpointsBelow_entry above place addition, endpointsBelow_entries above (place + 1) rest]

end

/-! ### The leaves -/

mutual

theorem Addition.in_of_mem {additions : List (Addition κ)} {place : Nat} (addition : Addition κ)
    (found : additions[place]? = some addition) :
    ∀ leaf ∈ addition.leaves place, leaf.In additions := by
  cases addition with
  | on method path handler origin =>
    intro leaf member
    rw [Addition.leaves, List.mem_singleton] at member
    subst member
    exact .here found
  | mount path inner =>
    intro leaf member
    rw [Addition.leaves, List.mem_map] at member
    obtain ⟨leaf, inside, rfl⟩ := member
    exact .deeper found (in_of_mem_leavesFrom inner (fun i => by rw [Nat.zero_add]) leaf inside)

theorem in_of_mem_leavesFrom {additions : List (Addition κ)} {place : Nat}
    (rest : List (Addition κ)) (onward : ∀ i, additions[place + i]? = rest[i]?) :
    ∀ leaf ∈ leavesFrom place rest, leaf.In additions := by
  cases rest with
  | nil => simp [leavesFrom]
  | cons addition rest =>
    intro leaf member
    rw [leavesFrom] at member
    rcases List.mem_append.mp member with here | there
    · exact Addition.in_of_mem addition (onward 0) leaf here
    · refine in_of_mem_leavesFrom rest (fun i => ?_) leaf there
      rw [Nat.add_right_comm]
      exact onward (i + 1)

end

theorem mem_leavesFrom {addition : Addition κ} {i : Nat} (found : additions[i]? = some addition)
    (member : leaf ∈ addition.leaves (place + i)) : leaf ∈ leavesFrom place additions := by
  induction additions generalizing place i with
  | nil => cases found
  | cons first rest ih =>
    rw [leavesFrom]
    cases i with
    | zero =>
      cases found
      exact List.mem_append_left _ member
    | succ i =>
      apply List.mem_append_right
      refine ih (i := i) found ?_
      rwa [Nat.add_right_comm]

theorem Leaf.In.mem (inside : leaf.In additions) : leaf ∈ leavesFrom 0 additions := by
  induction inside with
  | here found =>
    refine mem_leavesFrom found ?_
    rw [Nat.zero_add, Addition.leaves]
    exact List.mem_singleton_self _
  | deeper found _ ih =>
    refine mem_leavesFrom found ?_
    rw [Nat.zero_add, Addition.leaves]
    exact List.mem_map_of_mem ih

theorem Addition.address_of_mem {addition : Addition κ} (member : leaf ∈ addition.leaves place) :
    ∃ onward, leaf.address = place :: onward := by
  cases addition with
  | on method path handler origin =>
    rw [Addition.leaves, List.mem_singleton] at member
    exact ⟨[], by rw [member]⟩
  | mount path inner =>
    rw [Addition.leaves, List.mem_map] at member
    obtain ⟨leaf, -, rfl⟩ := member
    exact ⟨leaf.address, rfl⟩

theorem address_of_mem_leavesFrom (member : leaf ∈ leavesFrom place additions) :
    ∃ first onward, leaf.address = first :: onward ∧ place ≤ first := by
  induction additions generalizing place with
  | nil => cases member
  | cons addition rest ih =>
    rw [leavesFrom] at member
    rcases List.mem_append.mp member with here | there
    · obtain ⟨onward, address⟩ := Addition.address_of_mem here
      exact ⟨place, onward, address, Nat.le_refl _⟩
    · obtain ⟨first, onward, address, later⟩ := ih there
      exact ⟨first, onward, address, Nat.le_of_succ_le later⟩

mutual

theorem Addition.ordered_leaves (place : Nat) (addition : Addition κ) :
    (addition.leaves place).Pairwise fun a b => a.address < b.address := by
  cases addition with
  | on method path handler origin =>
    rw [Addition.leaves]
    exact List.pairwise_singleton _ _
  | mount path inner =>
    rw [Addition.leaves, List.pairwise_map]
    refine (ordered_leavesFrom 0 inner).imp fun {a b} less => ?_
    exact List.cons_lt_cons_iff.mpr (.inr ⟨rfl, less⟩)

theorem ordered_leavesFrom (place : Nat) (additions : List (Addition κ)) :
    (leavesFrom place additions).Pairwise fun a b => a.address < b.address := by
  cases additions with
  | nil => exact List.Pairwise.nil
  | cons addition rest =>
    rw [leavesFrom, List.pairwise_append]
    refine ⟨addition.ordered_leaves place, ordered_leavesFrom (place + 1) rest, ?_⟩
    intro a here b there
    obtain ⟨onward, address⟩ := Addition.address_of_mem here
    obtain ⟨first, onward', address', later⟩ := address_of_mem_leavesFrom there
    rw [address, address']
    exact List.cons_lt_cons_iff.mpr (.inl later)

end

/-! ### Flattening -/

-- All routes of a tree, each once, in the order in which a walk from the top meets them.
structure Listing (additions : List (Addition κ)) (leaves : List (Leaf κ)) : Prop where
  all : ∀ leaf, leaf ∈ leaves ↔ leaf.In additions
  ordered : leaves.Pairwise fun a b => a.address < b.address

theorem listing (additions : List (Addition κ)) : Listing additions (leavesFrom 0 additions) where
  all leaf := by
    constructor
    · exact in_of_mem_leavesFrom additions (fun i => by rw [Nat.zero_add]) leaf
    · exact Leaf.In.mem
  ordered := ordered_leavesFrom 0 additions

theorem endpoints_built (additions : List (Addition κ)) :
    (Group.built additions).endpoints = (leavesFrom 0 additions).map Leaf.endpoint := by
  have root : nested [] = "/" := by decide
  rw [Group.endpoints, Group.built_eq, ← root, endpointsBelow_entries [] 0 additions]
  rfl

-- A group in a group may as well be added to the outer one, below both prefixes.
theorem endpoints_mount_mount (outer middle inner : Group κ) (p q : String) :
    (outer.mount p (middle.mount q inner)).endpoints
      = ((outer.mount p middle).mount (join p q) inner).endpoints := by
  rw [Group.endpoints_mount, Group.endpoints_mount, Group.endpoints_mount, Group.mount,
    endpointsBelow_append, endpointsBelow, endpointsBelow, Entry.endpointsBelow, List.append_nil,
    List.append_assoc, join_assoc]

-- The third and the fourth part are about all texts and about all canonical paths.
theorem flattened (additions : List (Addition κ)) :
    (∃ leaves, Listing additions leaves ∧
      (Group.built additions).endpoints = leaves.map Leaf.endpoint) ∧
    (∀ e ∈ (Group.built additions).endpoints, Canonical e.path) ∧
    (∀ a b c : String, join (join a b) c = join a (join b c)) ∧
    (∀ path, Canonical path → join "/" path = path ∧ join path "/" = path) ∧
    ∀ (outer middle inner : Group κ) (p q : String),
      (outer.mount p (middle.mount q inner)).endpoints
        = ((outer.mount p middle).mount (join p q) inner).endpoints := by
  refine ⟨⟨_, listing additions, endpoints_built additions⟩, canonical_endpoints _, join_assoc, ?_,
    endpoints_mount_mount⟩
  intro path canonical
  rw [join_root, join_root_right, nested_of_canonical canonical]
  exact ⟨rfl, rfl⟩

end

-- Three levels. The last prefix is nothing but slashes, and adds nothing to a path.
theorem flattened_api :
    let additions : List (Addition Nat) :=
      [.on "get" "/" 0 none,
       .mount "/api/" [.mount "orders" [.on "GET" "" 1 none, .on "GET" "/:id" 2 none],
         .mount "//" [.on "delete" "users/:id/" 3 none]]]
    (∃ leaves, Listing additions leaves ∧
      (Group.built additions).endpoints = leaves.map Leaf.endpoint) ∧
    (Group.built additions).keys
      = ["GET /", "GET /api/orders", "GET /api/orders/:id", "DELETE /api/users/:id"] ∧
    (∀ e ∈ (Group.built additions).endpoints, Canonical e.path) ∧
    join "/" "/api/orders" = "/api/orders" ∧ join "/api/orders" "/" = "/api/orders" := by
  intro additions
  obtain ⟨listed, canonical, -, unit, -⟩ := flattened additions
  have orders : Canonical "/api/orders" := by
    have joined := canonical_join "/api/" "orders"
    rwa [show join "/api/" "orders" = "/api/orders" from by decide +kernel] at joined
  exact ⟨listed, by decide +kernel, canonical, unit _ orders⟩

end Flowgate.Route
