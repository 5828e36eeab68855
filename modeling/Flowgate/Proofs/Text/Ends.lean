import Flowgate.Text.Blank

/-!
Texts without strippable ends. Stripping reaches such a text, leaves one alone, and does not see
what is stripped anyway. Writing a text in upper case keeps its blanks.
-/

namespace Flowgate.Text

-- Neither the first nor the last character would be stripped.
structure Trimmed (strip : Char → Bool) (cs : List Char) : Prop where
  first : ∀ c, cs.head? = some c → strip c = false
  last : ∀ c, cs.getLast? = some c → strip c = false

theorem dropWhile_first (strip : Char → Bool) (cs : List Char) :
    ∀ c, (cs.dropWhile strip).head? = some c → strip c = false := by
  intro c found
  cases rest : cs.dropWhile strip with
  | nil => simp [rest] at found
  | cons d ds =>
    obtain rfl : d = c := by simpa [rest] using found
    exact head_dropWhile_false rest

theorem dropWhile_of_first {strip : Char → Bool} {cs : List Char}
    (first : ∀ c, cs.head? = some c → strip c = false) : cs.dropWhile strip = cs := by
  cases cs with
  | nil => rfl
  | cons c cs => simp [first c rfl]

theorem dropWhile_suffix_last (strip : Char → Bool) (cs : List Char) (c : Char)
    (found : (cs.dropWhile strip).getLast? = some c) : cs.getLast? = some c := by
  obtain ⟨before, equal⟩ := List.dropWhile_suffix (l := cs) strip
  rw [← equal, List.getLast?_append, found]
  rfl

theorem stripEnds_trimmed (strip : Char → Bool) (cs : List Char) :
    Trimmed strip (stripEnds strip cs) := by
  refine ⟨?_, ?_⟩
  · intro c found
    rw [stripEnds, List.head?_reverse] at found
    have last := dropWhile_suffix_last strip _ c found
    rw [List.getLast?_reverse] at last
    exact dropWhile_first strip cs c last
  · intro c found
    rw [stripEnds, List.getLast?_reverse] at found
    exact dropWhile_first strip _ c found

theorem stripEnds_of_trimmed {strip : Char → Bool} {cs : List Char} (trimmed : Trimmed strip cs) :
    stripEnds strip cs = cs := by
  have back : cs.reverse.dropWhile strip = cs.reverse := by
    apply dropWhile_of_first
    intro c found
    exact trimmed.last c (by rwa [List.head?_reverse] at found)
  rw [stripEnds, dropWhile_of_first trimmed.first, back, List.reverse_reverse]

theorem mem_of_mem_stripEnds {strip : Char → Bool} {cs : List Char} {c : Char}
    (member : c ∈ stripEnds strip cs) : c ∈ cs := by
  have back := (List.dropWhile_sublist strip).mem (List.mem_reverse.mp member)
  exact (List.dropWhile_sublist strip).mem (List.mem_reverse.mp back)

theorem mem_dropWhile {strip : Char → Bool} {cs : List Char} {c : Char} (member : c ∈ cs)
    (kept : strip c = false) : c ∈ cs.dropWhile strip := by
  induction cs with
  | nil => cases member
  | cons d cs ih =>
    by_cases gone : strip d = true
    · rw [List.dropWhile_cons_of_pos gone]
      rcases List.mem_cons.mp member with rfl | there
      · simp [kept] at gone
      · exact ih there
    · rwa [List.dropWhile_cons_of_neg gone]

-- Only what is stripped can be lost.
theorem mem_stripEnds {strip : Char → Bool} {cs : List Char} {c : Char} (member : c ∈ cs)
    (kept : strip c = false) : c ∈ stripEnds strip cs := by
  have front := List.mem_reverse.mpr (mem_dropWhile member kept)
  exact List.mem_reverse.mpr (mem_dropWhile front kept)

theorem stripEnds_cons {strip : Char → Bool} {c : Char} (blank : strip c = true)
    (cs : List Char) : stripEnds strip (c :: cs) = stripEnds strip cs := by
  rw [stripEnds, List.dropWhile_cons_of_pos blank, stripEnds]

/-! ### Slashes -/

theorem trimSlashes_trimmed (s : String) : Trimmed (· == '/') (trimSlashes s).toList := by
  rw [trimSlashes, String.toList_ofList]
  exact stripEnds_trimmed _ _

theorem trimSlashes_of_trimmed {s : String} (trimmed : Trimmed (· == '/') s.toList) :
    trimSlashes s = s := by
  rw [trimSlashes, stripEnds_of_trimmed trimmed, String.ofList_toList]

theorem trimSlashes_slash (s : String) : trimSlashes ("/" ++ s) = trimSlashes s := by
  rw [trimSlashes, trimSlashes, String.toList_append]
  exact congrArg String.ofList (stripEnds_cons rfl _)

/-! ### Blanks -/

theorem trim_trimmed (s : String) : Trimmed isBlank (trim s).toList := by
  rw [trim, String.toList_ofList]
  exact stripEnds_trimmed _ _

theorem trim_trim (s : String) : trim (trim s) = trim s := by
  rw [trim, stripEnds_of_trimmed (trim_trimmed s), String.ofList_toList]

theorem isBlank_of_visible {c : Char} (low : 32 < c.toNat) (high : c.toNat < 127) :
    isBlank c = false := by
  simp only [isBlank, blankRanges, List.any_cons, List.any_nil, Bool.or_false,
    Bool.or_eq_false_iff, Bool.and_eq_false_iff, decide_eq_false_iff_not]
  omega

/-! ### Upper case -/

-- A letter `a` to `z` moves to its place among `A` to `Z`, and nothing else moves.
theorem toUpper_cases (c : Char) :
    (97 ≤ c.toNat ∧ c.toNat ≤ 122 ∧ c.toUpper.toNat = c.toNat - 32) ∨
      (¬(97 ≤ c.toNat ∧ c.toNat ≤ 122) ∧ c.toUpper = c) := by
  unfold Char.toUpper
  split
  · rename_i bounds
    have low : 97 ≤ c.toNat := bounds.1
    have high : c.toNat ≤ 122 := bounds.2
    refine .inl ⟨low, high, ?_⟩
    show (c.val + ('A'.val - 'a'.val)).toNat = _
    rw [UInt32.toNat_add]
    show (c.toNat + 4294967264) % 4294967296 = _
    omega
  · rename_i bounds
    exact .inr ⟨bounds, rfl⟩

theorem not_lower_toUpper (c : Char) : ¬('a' ≤ c.toUpper ∧ c.toUpper ≤ 'z') := by
  intro bounds
  have low : 97 ≤ c.toUpper.toNat := bounds.1
  have high : c.toUpper.toNat ≤ 122 := bounds.2
  rcases toUpper_cases c with ⟨-, small, moved⟩ | ⟨other, same⟩
  · omega
  · rw [same] at low high
    exact other ⟨low, high⟩

theorem toUpper_toUpper (c : Char) : c.toUpper.toUpper = c.toUpper := by
  rcases toUpper_cases c.toUpper with ⟨low, high, -⟩ | ⟨-, same⟩
  · exact absurd ⟨low, high⟩ (not_lower_toUpper c)
  · exact same

theorem toUpper_eq_space {c : Char} (upper : c.toUpper = ' ') : c = ' ' := by
  rcases toUpper_cases c with ⟨low, high, moved⟩ | ⟨-, same⟩
  · have space : c.toUpper.toNat = 32 := by rw [upper]; rfl
    omega
  · exact same ▸ upper

theorem isBlank_toUpper (c : Char) : isBlank c.toUpper = isBlank c := by
  rcases toUpper_cases c with ⟨low, high, moved⟩ | ⟨-, same⟩
  · rw [isBlank_of_visible (c := c) (by omega) (by omega),
      isBlank_of_visible (c := c.toUpper) (by omega) (by omega)]
  · rw [same]

theorem space_not_mem_asciiUpper {s : String} (clean : ' ' ∉ s.toList) :
    ' ' ∉ (asciiUpper s).toList := by
  rw [asciiUpper, String.toList_ofList]
  intro member
  obtain ⟨c, there, upper⟩ := List.mem_map.mp member
  exact clean (toUpper_eq_space upper ▸ there)

theorem not_lower_asciiUpper (s : String) :
    ∀ c ∈ (asciiUpper s).toList, ¬('a' ≤ c ∧ c ≤ 'z') := by
  intro c member
  rw [asciiUpper, String.toList_ofList] at member
  obtain ⟨d, -, rfl⟩ := List.mem_map.mp member
  exact not_lower_toUpper d

theorem asciiUpper_asciiUpper (s : String) : asciiUpper (asciiUpper s) = asciiUpper s := by
  rw [asciiUpper, asciiUpper, String.toList_ofList, List.map_map]
  exact congrArg String.ofList (List.map_congr_left fun c _ => toUpper_toUpper c)

theorem eq_empty_of_asciiUpper {s : String} (empty : asciiUpper s = "") : s = "" := by
  have chars := congrArg String.toList empty
  rw [asciiUpper, String.toList_ofList] at chars
  exact String.toList_eq_nil_iff.mp (List.map_eq_nil_iff.mp chars)

theorem trimmed_asciiUpper {s : String} (trimmed : Trimmed isBlank s.toList) :
    Trimmed isBlank (asciiUpper s).toList := by
  rw [asciiUpper, String.toList_ofList]
  constructor
  · intro c found
    rw [List.head?_map] at found
    obtain ⟨d, first, rfl⟩ := Option.map_eq_some_iff.mp found
    rw [isBlank_toUpper]
    exact trimmed.first d first
  · intro c found
    rw [List.getLast?_map] at found
    obtain ⟨d, last, rfl⟩ := Option.map_eq_some_iff.mp found
    rw [isBlank_toUpper]
    exact trimmed.last d last

end Flowgate.Text
