import Flowgate.Json.Printer
import Flowgate.Json.Reader
import Mathlib.Data.List.TakeDrop
import Mathlib.Tactic.Common

/-!
Strings and integers that are written read back as they are, whatever follows, as long as it does
not continue a number. What the reader takes for an integer has 64 bits.
-/

namespace Flowgate.Json

/-! ### Strings -/

theorem hexDigit?_hexDigits : ∀ n < 16, Text.hexDigit? (Text.hexDigits.getD n '0') = some n := by
  decide

theorem hexQuad?_hexOfByte {n : Nat} (small : n < 0x20) :
    hexQuad? '0' '0' (Text.hexDigits.getD (n / 16) '0') (Text.hexDigits.getD (n % 16) '0')
      = some n := by
  have zero : Text.hexDigit? '0' = some 0 := by decide
  have high := hexDigit?_hexDigits (n / 16) (by omega)
  have low := hexDigit?_hexDigits (n % 16) (by omega)
  simp only [hexQuad?, zero, high, low, Option.bind_eq_bind, Option.bind_some, Option.pure_def,
    Option.some.injEq]
  omega

theorem stringBody_plain {c : Char} (quote : c ≠ '"') (slash : c ≠ '\\') (printed : ¬c.toNat < 0x20)
    (done rest : List Char) : stringBody done (c :: rest) = stringBody (c :: done) rest := by
  rw [stringBody.eq_def]
  split
  · contradiction
  · rename_i equal
    exact absurd (List.cons.inj equal).1 quote
  · rename_i equal
    exact absurd (List.cons.inj equal).1 slash
  · rename_i equal
    exact absurd (List.cons.inj equal).1 slash
  · rename_i equal
    obtain ⟨rfl, rfl⟩ := List.cons.inj equal
    rw [if_neg printed]

theorem stringBody_short {e c : Char} (short : shortEscape? e = some c) (done rest : List Char) :
    stringBody done ('\\' :: e :: rest) = stringBody (c :: done) rest := by
  have notUnicode : e ≠ 'u' := by
    rintro rfl
    cases short
  rw [stringBody, short]
  intro a b c d tail equal
  exact (notUnicode equal).elim

theorem stringBody_unicode {n : Nat} (small : n < 0x20) (done rest : List Char) :
    stringBody done (['\\', 'u', '0', '0'] ++ Text.hexOfByte (UInt8.ofNat n) ++ rest)
      = stringBody (Char.ofNat n :: done) rest := by
  have byte : (UInt8.ofNat n).toNat = n := by
    rw [UInt8.toNat_ofNat']
    omega
  have high : isHighSurrogate n = false := by
    simp only [isHighSurrogate, Bool.and_eq_false_imp, decide_eq_true_eq]
    omega
  have low : isLowSurrogate n = false := by
    simp only [isLowSurrogate, Bool.and_eq_false_imp, decide_eq_true_eq]
    omega
  simp only [Text.hexOfByte, byte, List.cons_append, List.nil_append]
  rw [stringBody, hexQuad?_hexOfByte small]
  simp only [high, low, Bool.false_eq_true, if_false]

theorem stringBody_escapedChar (done : List Char) (c : Char) (rest : List Char) :
    stringBody done (escapedChar c ++ rest) = stringBody (c :: done) rest := by
  have code {n : Nat} (same : c.toNat = n) : c = Char.ofNat n := by rw [← same, Char.ofNat_toNat]
  unfold escapedChar
  by_cases quote : c = '"'
  · rw [if_pos quote, quote]
    exact stringBody_short rfl done rest
  rw [if_neg quote]
  by_cases slash : c = '\\'
  · rw [if_pos slash, slash]
    exact stringBody_short rfl done rest
  rw [if_neg slash]
  by_cases line : c = '\n'
  · rw [if_pos line, line]
    exact stringBody_short rfl done rest
  rw [if_neg line]
  by_cases carriage : c = '\r'
  · rw [if_pos carriage, carriage]
    exact stringBody_short rfl done rest
  rw [if_neg carriage]
  by_cases tab : c = '\t'
  · rw [if_pos tab, tab]
    exact stringBody_short rfl done rest
  rw [if_neg tab]
  by_cases back : c.toNat = 0x08
  · rw [if_pos back, code back]
    exact stringBody_short rfl done rest
  rw [if_neg back]
  by_cases form : c.toNat = 0x0C
  · rw [if_pos form, code form]
    exact stringBody_short rfl done rest
  rw [if_neg form]
  by_cases small : c.toNat < 0x20
  · rw [if_pos small, stringBody_unicode small, Char.ofNat_toNat]
  · rw [if_neg small]
    exact stringBody_plain quote slash small done rest

theorem stringBody_escaped (cs done rest : List Char) :
    stringBody done (cs.flatMap escapedChar ++ '"' :: rest)
      = .ok (String.ofList (done.reverse ++ cs), rest) := by
  induction cs generalizing done with
  | nil => rw [List.flatMap_nil, List.nil_append, stringBody, List.append_nil]
  | cons c cs ih =>
    rw [List.flatMap_cons, List.append_assoc, stringBody_escapedChar, ih, List.reverse_cons,
      List.append_assoc]
    rfl

theorem scalar_stringText (s : String) (rest : List Char) :
    scalar (stringText s ++ rest) = .ok (.string s, rest) := by
  have opened : stringText s ++ rest
      = '"' :: (s.toList.flatMap escapedChar ++ '"' :: rest) := by
    simp [stringText]
  have body := stringBody_escaped s.toList [] rest
  rw [List.reverse_nil, List.nil_append, String.ofList_toList] at body
  rw [opened, scalar, body]
  rfl

/-! ### Numbers -/

-- What follows a value: nothing that a number could go on with.
def Delimited (rest : List Char) : Prop :=
  ∀ c, rest.head? = some c → c.isDigit = false ∧ c ≠ '.' ∧ c ≠ 'e' ∧ c ≠ 'E'

theorem delimited_nil : Delimited [] := fun _ found => by cases found

theorem delimited_cons {c : Char}
    (ends : c.isDigit = false ∧ c ≠ '.' ∧ c ≠ 'e' ∧ c ≠ 'E') (rest : List Char) :
    Delimited (c :: rest) := by
  intro d found
  cases found
  exact ends

-- An integer of 64 bits, signed or not.
def Wide (n : Int) : Prop := -(largestNegative : Int) ≤ n ∧ n ≤ largestSignificand

theorem digits_run {run rest : List Char} (nonempty : run ≠ []) (run_digits : ∀ c ∈ run, c.isDigit)
    (ends : Delimited rest) : digits (run ++ rest) = some (run, rest) := by
  have taken : (run ++ rest).takeWhile Char.isDigit = run := by
    rw [List.takeWhile_append_of_pos run_digits]
    cases rest with
    | nil => simp
    | cons c rest => simp [(ends c rfl).1]
  have left : (run ++ rest).dropWhile Char.isDigit = rest := by
    rw [List.dropWhile_append_of_pos run_digits]
    cases rest with
    | nil => rfl
    | cons c rest => simp [(ends c rfl).1]
  rw [digits, List.span_eq_takeWhile_dropWhile, taken, left]
  simp [nonempty]

theorem head_toDigits {n : Nat} (positive : 0 < n) : (Nat.toDigits 10 n).head? ≠ some '0' := by
  induction n using Nat.strongRecOn with
  | ind n ih =>
    by_cases small : n < 10
    · rw [Nat.toDigits_of_lt_base small]
      simp only [List.head?_cons, ne_eq, Option.some.injEq, Nat.digitChar_eq_zero]
      omega
    · rw [Nat.toDigits_of_base_le (by omega) (by omega), List.head?_append,
        List.head?_eq_some_head Nat.toDigits_ne_nil, Option.some_or,
        ← List.head?_eq_some_head Nat.toDigits_ne_nil]
      exact ih (n / 10) (by omega) (by omega)

theorem no_leading_zero (n : Nat) :
    ¬((Nat.toDigits 10 n).head? = some '0' ∧ (Nat.toDigits 10 n).length > 1) := by
  rintro ⟨zero, long⟩
  rcases Nat.eq_zero_or_pos n with rfl | positive
  · rw [Nat.toDigits_zero] at long
    exact absurd long (by decide)
  · exact head_toDigits positive zero

theorem le_ofDigitChars (cs : List Char) (n : Nat) : n ≤ Nat.ofDigitChars 10 cs n := by
  induction cs generalizing n with
  | nil => exact Nat.le_of_eq Nat.ofDigitChars_nil.symm
  | cons c cs ih =>
    rw [Nat.ofDigitChars_cons]
    exact Nat.le_trans (by omega) (ih _)

theorem gather_eq {limit n : Nat} {cs : List Char} (fits : Nat.ofDigitChars 10 cs n ≤ limit) :
    gather limit n cs = (Nat.ofDigitChars 10 cs n, []) := by
  induction cs generalizing n with
  | nil => rw [gather, Nat.ofDigitChars_nil]
  | cons c cs ih =>
    have next : n * 10 + digitValue c = 10 * n + (c.toNat - '0'.toNat) := by
      rw [digitValue, Nat.mul_comm]
    rw [Nat.ofDigitChars_cons, ← next] at fits ⊢
    have least := le_ofDigitChars cs (n * 10 + digitValue c)
    rw [gather, if_neg (by omega)]
    exact ih fits

theorem gather_le {limit n : Nat} (fits : n ≤ limit) (cs : List Char) :
    (gather limit n cs).1 ≤ limit := by
  induction cs generalizing n with
  | nil => exact fits
  | cons c cs ih =>
    rw [gather]
    split
    · exact fits
    · exact ih (by omega)

-- The parts of a number after its sign.
theorem numeral_parts {rest : List Char} (n : Nat) (ends : Delimited rest) :
    digits (Nat.toDigits 10 n ++ rest) = some (Nat.toDigits 10 n, rest) ∧
      ((Nat.toDigits 10 n).head? = some '0' && decide ((Nat.toDigits 10 n).length > 1)) = false ∧
      numeralPlaces rest = some ([], rest) ∧ numeralExponent rest = some (none, rest) := by
  refine ⟨?_, ?_, ?_, ?_⟩
  · exact digits_run Nat.toDigits_ne_nil
      (fun c member => Nat.isDigit_of_mem_toDigits (by omega) (by omega) member) ends
  · have zero := no_leading_zero n
    simpa using zero
  · cases rest with
    | nil => rfl
    | cons c rest =>
      rw [numeralPlaces]
      rintro tail equal
      exact (ends c rfl).2.1 (List.cons.inj equal).1
  · cases rest with
    | nil => rfl
    | cons c rest => simp [numeralExponent, ends c rfl]

theorem numeral_positive {rest : List Char} (n : Nat) (ends : Delimited rest) :
    numeral (Nat.toDigits 10 n ++ rest) = some
      ({ negative := false, whole := Nat.toDigits 10 n, places := [], exponent := none }, rest) := by
  obtain ⟨run, alone, places, exponent⟩ := numeral_parts n ends
  have signless : ∀ tail, Nat.toDigits 10 n ++ rest ≠ '-' :: tail := by
    intro tail equal
    have heads := congrArg List.head? equal
    rw [List.head?_append, List.head?_eq_some_head Nat.toDigits_ne_nil] at heads
    have first : (Nat.toDigits 10 n).head Nat.toDigits_ne_nil = '-' := Option.some.inj heads
    have digit := Nat.isDigit_of_mem_toDigits (by omega) (by omega)
      (List.head_mem (l := Nat.toDigits 10 n) Nat.toDigits_ne_nil)
    rw [first] at digit
    exact absurd digit (by decide)
  unfold numeral
  split
  rename_i negative cs sign
  split at sign
  · rename_i tail equal
    exact absurd equal (signless tail)
  · cases sign
    simp only [run, places, exponent, alone, Option.bind_eq_bind, Option.bind_some, Option.pure_def,
      Bool.false_eq_true, if_false]

theorem numeral_negative {rest : List Char} (n : Nat) (ends : Delimited rest) :
    numeral ('-' :: (Nat.toDigits 10 n ++ rest)) = some
      ({ negative := true, whole := Nat.toDigits 10 n, places := [], exponent := none }, rest) := by
  obtain ⟨run, alone, places, exponent⟩ := numeral_parts n ends
  unfold numeral
  simp only [run, places, exponent, alone, Option.bind_eq_bind, Option.bind_some, Option.pure_def,
    Bool.false_eq_true, if_false]

theorem readNumber_integer {n : Int} (wide : Wide n) {rest : List Char} (ends : Delimited rest) :
    readNumber ((toString n).toList ++ rest) = .ok (.integer n, rest) := by
  obtain ⟨above, below⟩ := wide
  have gathered {m : Nat} (small : m ≤ largestSignificand) :
      gather largestSignificand 0 (Nat.toDigits 10 m) = (m, []) := by
    have value : Nat.ofDigitChars 10 (Nat.toDigits 10 m) 0 = m := Nat.ofDigitChars_ten_toDigits
    rw [gather_eq (by rw [value]; exact small), value]
  rw [Int.toString_eq_repr, Int.repr_eq_if, readNumber]
  by_cases positive : 0 ≤ n
  · have all := gathered (m := n.toNat) (by omega)
    rw [if_pos positive, Nat.toList_repr, numeral_positive n.toNat ends]
    simp only [Numeral.value?, all, List.isEmpty_nil, Bool.not_false, if_true,
      Int.toNat_of_nonneg positive]
  · have size : largestNegative ≤ largestSignificand := by decide
    have all := gathered (m := (-n).toNat) (by omega)
    have bounds : 1 ≤ (-n).toNat ∧ (-n).toNat ≤ largestNegative := by omega
    have opened : ("-" ++ (-n).toNat.repr).toList ++ rest
        = '-' :: (Nat.toDigits 10 (-n).toNat ++ rest) := by
      simp
    rw [if_neg positive, opened, numeral_negative (-n).toNat ends]
    simp [Numeral.value?, all, bounds]
    omega

theorem Numeral.wide_of_value? {m : Numeral} {n : Int} (value : m.value? = some (.integer n)) :
    Wide n := by
  obtain ⟨negative, whole, places, exponent⟩ := m
  have bound : (gather largestSignificand 0 whole).1 ≤ largestSignificand :=
    gather_le (Nat.zero_le _) whole
  cases places with
  | nil =>
    cases exponent with
    | none =>
      simp only [Numeral.value?] at value
      split at value
      · split at value
        · cases value
          exact ⟨by omega, by omega⟩
        · split at value
          · rename_i bounds
            simp only [Bool.and_eq_true, decide_eq_true_eq] at bounds
            cases value
            have size : largestNegative ≤ largestSignificand := by decide
            exact ⟨by omega, by omega⟩
          · cases value
      · simp at value
    | some e =>
      simp only [Numeral.value?] at value
      split at value
      · simp at value
      · split at value <;> simp at value
  | cons c places =>
    cases exponent with
    | none => simp [Numeral.value?] at value
    | some e =>
      simp only [Numeral.value?] at value
      split at value
      · simp at value
      · split at value <;> simp at value

theorem wide_of_readNumber {cs rest : List Char} {n : Int}
    (done : readNumber cs = .ok (.integer n, rest)) : Wide n := by
  unfold readNumber at done
  cases parts : numeral cs with
  | none => simp [parts] at done
  | some found =>
    obtain ⟨m, left⟩ := found
    cases value : m.value? with
    | none => simp [parts, value] at done
    | some number =>
      simp only [parts, value, Except.ok.injEq, Prod.mk.injEq] at done
      obtain ⟨rfl, -⟩ := done
      exact m.wide_of_value? value

end Flowgate.Json
