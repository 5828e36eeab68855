/-!
White space and trimming. A character is blank when it has the Unicode property White_Space:
the no-break and ideographic spaces count, the zero-width ones do not. Trimming removes blanks
from both ends of a text and nothing from its inside.
-/

namespace Flowgate.Text

-- The ranges of the property, both ends included.
def blankRanges : List (Nat × Nat) :=
  [(0x09, 0x0D), (0x20, 0x20), (0x85, 0x85), (0xA0, 0xA0), (0x1680, 0x1680), (0x2000, 0x200A),
   (0x2028, 0x2029), (0x202F, 0x202F), (0x205F, 0x205F), (0x3000, 0x3000)]

def isBlank (c : Char) : Bool :=
  blankRanges.any fun (low, high) => low ≤ c.toNat && c.toNat ≤ high

-- Removes from both ends the characters that `strip` selects.
def stripEnds (strip : Char → Bool) (cs : List Char) : List Char :=
  ((cs.dropWhile strip).reverse.dropWhile strip).reverse

def trim (s : String) : String := String.ofList (stripEnds isBlank s.toList)

def trimSlashes (s : String) : String := String.ofList (stripEnds (· == '/') s.toList)

def trimStart (strip : Char → Bool) (s : String) : String :=
  String.ofList (s.toList.dropWhile strip)

def trimEnd (strip : Char → Bool) (s : String) : String :=
  String.ofList ((s.toList.reverse.dropWhile strip).reverse)

-- Upper-cases the letters `a` to `z` and leaves every other character alone.
def asciiUpper (s : String) : String := String.ofList (s.toList.map Char.toUpper)

theorem head_dropWhile_false {strip : Char → Bool} :
    ∀ {cs : List Char} {c : Char} {rest : List Char},
      cs.dropWhile strip = c :: rest → strip c = false
  | d :: ds, c, rest, h => by
    by_cases hd : strip d
    · rw [List.dropWhile_cons_of_pos hd] at h
      exact head_dropWhile_false h
    · rw [List.dropWhile_cons_of_neg hd] at h
      cases h
      simpa using hd

end Flowgate.Text
