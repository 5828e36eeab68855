import Flowgate.Proofs.Route.Filling
import Flowgate.Proofs.Route.Keys

/-!
Conflicts between compiled routes. They are found by key, the text `METHOD /path`. A key tells what
the method and the path are unless the method holds a space and a slash after it, which it never does
when it comes from a compact spec. So conflicts are exactly the repeated pairs of a method and a path
wherever no method is of that kind.
-/

namespace Flowgate.Route

def Endpoint.target (e : Endpoint κ) : Target := { method := e.method, path := e.path }

/-! ### Keys -/

theorem toList_key (method path : String) :
    (key method path).toList = method.toList ++ ' ' :: path.toList := by
  simp [key, String.toList_append]

theorem key_assoc (a b c : String) : key (key a b) c = key a (key b c) := by
  simp [key, String.append_assoc]

-- The method of the one is the method of the other, a space and the beginning of its path, and what
-- is left of that path after one more space is the path of the one.
def Target.Straddles (a b : Target) : Prop :=
  ∃ middle, a.method = Route.key b.method middle ∧ b.path = Route.key middle a.path

-- One key for both.
def Target.Alike (a b : Target) : Prop := a = b ∨ a.Straddles b ∨ b.Straddles a

theorem Target.Straddles.key_eq {a b : Target} (straddles : a.Straddles b) : a.key = b.key := by
  obtain ⟨middle, front, back⟩ := straddles
  rw [Target.key, Target.key, front, back, key_assoc]

theorem Target.key_eq_iff {a b : Target} : a.key = b.key ↔ a.Alike b := by
  constructor
  · intro same
    have chars := congrArg String.toList same
    have text {c d e : String} (whole : c.toList = d.toList ++ ' ' :: e.toList) :
        c = Route.key d e :=
      String.toList_injective (whole.trans (toList_key d e).symm)
    rw [Target.key, Target.key, toList_key, toList_key] at chars
    rcases Text.append_sep_eq chars with ⟨method, path⟩ | ⟨more, front, back⟩ | ⟨more, front, back⟩
    · obtain ⟨_, _⟩ := a
      obtain ⟨_, _⟩ := b
      cases method
      cases path
      exact .inl rfl
    · exact .inr (.inr ⟨more, text front, text back⟩)
    · exact .inr (.inl ⟨more, text front, text back⟩)
  · rintro (rfl | straddles | straddles)
    · rfl
    · exact straddles.key_eq
    · exact straddles.key_eq.symm

instance (a b : Target) : Decidable (a.Alike b) := decidable_of_iff _ Target.key_eq_iff

/-! ### What specs compile to -/

-- A space with a slash after it.
def Spaced (method : String) : Prop := ∃ front back, method = front ++ " /" ++ back

theorem head_path_of_compile {spec : Spec} {t : Target} (compiled : spec.compile = .ok t) :
    t.path.toList.head? = some '/' := by
  cases spec with
  | compact text =>
    rw [Spec.compile] at compiled
    split at compiled
    · cases compiled
    · split at compiled
      · cases compiled
      · rw [← Except.ok.inj compiled]
        exact head_rooted _
  | structured method endpoint params =>
    rw [Spec.compile] at compiled
    rw [← Except.ok.inj compiled]
    exact head_rooted _

theorem space_not_mem_of_compact {text : String} {t : Target}
    (compiled : (Spec.compact text).compile = .ok t) : ' ' ∉ t.method.toList := by
  rw [Spec.compile] at compiled
  split at compiled
  · cases compiled
  · rename_i method path cut
    split at compiled
    · cases compiled
    · have clean := (Text.splitFirst_eq_some.mp cut).2
      rw [← Except.ok.inj compiled, Target.of]
      refine Text.space_not_mem_asciiUpper ?_
      rw [Text.trim, String.toList_ofList]
      exact mt Text.mem_of_mem_stripEnds clean

theorem Spaced.space_mem {method : String} (spaced : Spaced method) : ' ' ∈ method.toList := by
  obtain ⟨front, back, rfl⟩ := spaced
  simp [String.toList_append]

-- The beginning of the other path starts with its slash.
theorem Target.Straddles.spaced {a b : Target} (straddles : a.Straddles b)
    (rooted : b.path.toList.head? = some '/') : Spaced a.method := by
  obtain ⟨middle, front, back⟩ := straddles
  rw [back, toList_key] at rooted
  cases chars : middle.toList with
  | nil =>
    rw [chars] at rooted
    cases rooted
  | cons c rest =>
    rw [chars] at rooted
    obtain rfl : c = '/' := by simpa using rooted
    refine ⟨b.method, String.ofList rest, String.toList_injective ?_⟩
    rw [front, toList_key, chars]
    simp [String.toList_append]

/-! ### Reports -/

theorem not_nodup_map_iff {f : α → β} {xs : List α} :
    ¬(xs.map f).Nodup ↔ ∃ (i j : Nat) (a b : α), i ≠ j ∧ xs[i]? = some a ∧ xs[j]? = some b ∧
      f a = f b := by
  rw [List.nodup_iff_getElem?_ne_getElem?]
  constructor
  · intro twice
    simp only [not_forall, not_not, List.length_map, List.getElem?_map] at twice
    obtain ⟨i, j, before, inside, same⟩ := twice
    rw [List.getElem?_eq_getElem inside,
      List.getElem?_eq_getElem (Nat.lt_trans before inside)] at same
    exact ⟨i, j, _, _, Nat.ne_of_lt before, List.getElem?_eq_getElem _, List.getElem?_eq_getElem _,
      Option.some.inj same⟩
  · rintro ⟨i, j, a, b, apart, first, second, same⟩ once
    have clash {i j : Nat} {a b : α} (before : i < j) (first : xs[i]? = some a)
        (second : xs[j]? = some b) (same : f a = f b) : False := by
      obtain ⟨inside, -⟩ := List.getElem?_eq_some_iff.mp second
      refine once i j before (by rwa [List.length_map]) ?_
      rw [List.getElem?_map, List.getElem?_map, first, second, Option.map_some, Option.map_some,
        same]
    rcases Nat.lt_or_gt_of_ne apart with before | after
    · exact clash before first second same
    · exact clash after second first same.symm

section

variable {es : List (Endpoint κ)}

-- The check for unique keys finds the routes that are alike, and reports nothing else.
structure Detects (alike : Target → Target → Prop) [DecidableRel alike]
    (es : List (Endpoint κ)) : Prop where
  fails : (∃ fault, ensureUnique (es.map Endpoint.key) = .error fault) ↔
    ∃ (i j : Nat) (a b : Endpoint κ), i ≠ j ∧ es[i]? = some a ∧ es[j]? = some b ∧
      alike a.target b.target
  conflict : ∀ fault, ensureUnique (es.map Endpoint.key) = .error fault →
    ∃ report : Entries Nat, fault = .conflict report ∧ report.names.Nodup ∧
      ∀ key count, (key, count) ∈ report ↔ ∃ a ∈ es, a.key = key ∧
        count = es.countP (fun b => decide (alike a.target b.target)) ∧ 2 ≤ count
  -- One entry of the report stands for those that are alike, and for no others.
  apart : ∀ a ∈ es, ∀ b ∈ es, a.key = b.key ↔ alike a.target b.target
  unordered : ∀ fs : List (Endpoint κ), es.Perm fs →
    ensureUnique (fs.map Endpoint.key) = ensureUnique (es.map Endpoint.key)

theorem ensureUnique_error_iff {keys : List String} :
    (∃ fault, ensureUnique keys = .error fault) ↔ ¬keys.Nodup := by
  constructor
  · rintro ⟨fault, failed⟩ once
    rw [ensureUnique_of_nodup once] at failed
    cases failed
  · intro twice
    exact ⟨_, ensureUnique_of_not_nodup twice⟩

theorem count_keys {alike : Target → Target → Prop} [DecidableRel alike]
    (apart : ∀ a ∈ es, ∀ b ∈ es, a.key = b.key ↔ alike a.target b.target) {a : Endpoint κ}
    (member : a ∈ es) :
    (es.map Endpoint.key).count a.key = es.countP fun b => decide (alike a.target b.target) := by
  rw [List.count, List.countP_map]
  refine List.countP_congr fun b there => ?_
  rw [Function.comp_apply, beq_iff_eq, decide_eq_true_iff, ← apart a member b there]
  exact eq_comm

-- Everything but when routes have one key is a question of counting.
theorem detects_of_apart {alike : Target → Target → Prop} [DecidableRel alike]
    (apart : ∀ a ∈ es, ∀ b ∈ es, a.key = b.key ↔ alike a.target b.target) : Detects alike es where
  fails := by
    rw [ensureUnique_error_iff, not_nodup_map_iff]
    constructor
    · rintro ⟨i, j, a, b, other, first, second, same⟩
      have related := apart a (List.mem_of_getElem? first) b (List.mem_of_getElem? second)
      exact ⟨i, j, a, b, other, first, second, related.mp same⟩
    · rintro ⟨i, j, a, b, other, first, second, same⟩
      have related := apart a (List.mem_of_getElem? first) b (List.mem_of_getElem? second)
      exact ⟨i, j, a, b, other, first, second, related.mpr same⟩
  conflict fault failed := by
    have twice := ensureUnique_error_iff.mp ⟨fault, failed⟩
    rw [ensureUnique_of_not_nodup twice] at failed
    refine ⟨_, (Except.error.inj failed).symm, Entries.nodup_names (sorted_duplicates _), ?_⟩
    intro key count
    rw [mem_duplicates]
    constructor
    · rintro ⟨rfl, many⟩
      have occurs := List.count_pos_iff.mp (Nat.lt_of_lt_of_le Nat.zero_lt_two many)
      obtain ⟨a, member, rfl⟩ := List.mem_map.mp occurs
      exact ⟨a, member, rfl, count_keys apart member, many⟩
    · rintro ⟨a, member, rfl, rfl, many⟩
      exact ⟨(count_keys apart member).symm, many⟩
  apart := apart
  unordered fs perm := ensureUnique_perm (perm.map Endpoint.key).symm

-- The first part is about all compiled routes, the second about those whose keys can be read.
theorem ensureUnique_compiled (compiled : ∀ e ∈ es, ∃ spec : Spec, spec.compile = .ok e.target) :
    Detects Target.Alike es ∧
    ((∀ e ∈ es, ¬Spaced e.method) → Detects Eq es) ∧
    ∀ e ∈ es, (∃ text, (Spec.compact text).compile = .ok e.target) → ¬Spaced e.method := by
  have keys (a b : Endpoint κ) : a.key = b.key ↔ a.target.Alike b.target :=
    Target.key_eq_iff (a := a.target) (b := b.target)
  have rooted : ∀ e ∈ es, e.path.toList.head? = some '/' := fun e member =>
    (compiled e member).elim fun _ done => head_path_of_compile done
  refine ⟨detects_of_apart fun a _ b _ => keys a b, fun legible => ?_, ?_⟩
  · refine detects_of_apart fun a member b member' => (keys a b).trans ⟨?_, .inl⟩
    rintro (same | straddles | straddles)
    · exact same
    · exact absurd (straddles.spaced (rooted b member')) (legible a member)
    · exact absurd (straddles.spaced (rooted a member)) (legible b member')
  · rintro e - ⟨text, done⟩ spaced
    exact space_not_mem_of_compact done spaced.space_mem

-- One route twice, all from compact specs.
theorem ensureUnique_compiled_twice :
    let es : List (Endpoint Unit) := [⟨"GET", "/x", ()⟩, ⟨"POST", "/x", ()⟩, ⟨"GET", "/x", ()⟩]
    (∀ e ∈ es, ∃ spec : Spec, spec.compile = .ok e.target) ∧ (∀ e ∈ es, ¬Spaced e.method) ∧
      Detects Target.Alike es ∧ Detects Eq es ∧
      ensureUnique (es.map Endpoint.key) = .error (.conflict [("GET /x", 2)]) := by
  intro es
  have texts : ∀ e ∈ es, ∃ text, (Spec.compact text).compile = .ok e.target := by
    intro e member
    simp only [es, List.mem_cons, List.not_mem_nil, or_false] at member
    rcases member with rfl | rfl | rfl
    · exact ⟨"GET /x", by decide +kernel⟩
    · exact ⟨"POST /x", by decide +kernel⟩
    · exact ⟨"GET /x", by decide +kernel⟩
  have compiled : ∀ e ∈ es, ∃ spec : Spec, spec.compile = .ok e.target := fun e member =>
    (texts e member).elim fun text done => ⟨.compact text, done⟩
  obtain ⟨all, legible, compact⟩ := ensureUnique_compiled compiled
  have methods : ∀ e ∈ es, ¬Spaced e.method := fun e member => compact e member (texts e member)
  exact ⟨compiled, methods, all, legible methods, by decide +kernel⟩

-- A method with a space and a slash in it, which a structured spec may give, makes one key of two
-- routes that are different in both.
theorem ensureUnique_straddling :
    let es : List (Endpoint Unit) := [⟨"GET", "/A /b", ()⟩, ⟨"GET /A", "/b", ()⟩]
    (Spec.compact "GET /A /b").compile = .ok ⟨"GET", "/A /b"⟩ ∧
    (Spec.ofFields (some "GET /A") (some "b") []).compile = .ok ⟨"GET /A", "/b"⟩ ∧
    (es.map Endpoint.target).Nodup ∧
    ensureUnique (es.map Endpoint.key) = .error (.conflict [("GET /A /b", 2)]) := by
  decide +kernel

end

end Flowgate.Route
