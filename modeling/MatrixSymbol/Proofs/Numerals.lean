/-
Whole numbers at the start of a text.

* `Text.StartsWithNumber`: a decimal digit, after any blanks and at most one sign;
* `Number.ofIntegerText?_isSome_iff`: reading the number at the start of a text finds one exactly
  in these texts.
-/
import MatrixSymbol.Number.Decimal
import MatrixSymbol.Proofs.Layout

namespace MatrixSymbol

namespace Text

/-- A text starts with a whole number: after any blanks, and a sign if there is one, comes a decimal
digit. -/
def StartsWithNumber (text : String) : Prop :=
  ∃ blanks sign digit rest, text.toList = blanks ++ (sign ++ digit :: rest)
    ∧ (∀ c ∈ blanks, isBlank c = true) ∧ (sign = [] ∨ sign = ['+'] ∨ sign = ['-'])
    ∧ digit.isDigit = true

/-- What follows a sign, if there is one. -/
def afterSign : List Char → List Char
  | '-' :: rest => rest
  | '+' :: rest => rest
  | chars => chars

/-- Only a sign is left out. -/
lemma exists_sign (chars : List Char) :
    ∃ sign, chars = sign ++ afterSign chars ∧ (sign = [] ∨ sign = ['+'] ∨ sign = ['-']) := by
  unfold afterSign
  split
  · exact ⟨['-'], rfl, .inr (.inr rfl)⟩
  · exact ⟨['+'], rfl, .inr (.inl rfl)⟩
  · exact ⟨[], rfl, .inl rfl⟩

/-- The blanks beyond ASCII. -/
lemma le_of_mem_wideBlanks : ∀ n ∈ wideBlanks, 0xA0 ≤ n := by decide

/-- A digit is neither a sign nor a blank. -/
lemma ne_of_isDigit {c : Char} (h : c.isDigit = true) :
    c ≠ '-' ∧ c ≠ '+' ∧ isBlank c = false := by
  have hrange : 48 ≤ c.toNat ∧ c.toNat ≤ 57 := by
    simpa [Char.isDigit, UInt32.le_iff_toNat_le] using h
  refine ⟨?_, ?_, ?_⟩
  · rintro rfl
    exact absurd hrange (by decide)
  · rintro rfl
    exact absurd hrange (by decide)
  · have hspace : c.toNat ≠ 0x20 := by omega
    have hcontrol : ¬ c.toNat ≤ 0x0D := by omega
    have hwide : wideBlanks.contains c.toNat = false := by
      rw [List.contains_eq_mem, decide_eq_false_iff_not]
      exact fun hmem => absurd (le_of_mem_wideBlanks _ hmem) (by omega)
    rw [isBlank, isBlankCode, decide_eq_false hspace, decide_eq_false hcontrol, hwide,
      Bool.and_false]
    rfl

/-- A digit that follows a sign, or none, is left. -/
lemma afterSign_append {sign : List Char} (hsign : sign = [] ∨ sign = ['+'] ∨ sign = ['-'])
    {digit : Char} (hdigit : digit.isDigit = true) (rest : List Char) :
    afterSign (sign ++ digit :: rest) = digit :: rest := by
  obtain ⟨hminus, hplus, -⟩ := ne_of_isDigit hdigit
  obtain rfl | rfl | rfl := hsign
  · rw [List.nil_append, afterSign]
    · rintro _ ⟨⟩
      exact hminus rfl
    · rintro _ ⟨⟩
      exact hplus rfl
  · rfl
  · rfl

/-- Skipping blanks leads to the sign, or to the digit if there is none. -/
lemma dropWhile_blanks {blanks sign : List Char} (hblanks : ∀ c ∈ blanks, isBlank c = true)
    (hsign : sign = [] ∨ sign = ['+'] ∨ sign = ['-']) {digit : Char}
    (hdigit : digit.isDigit = true) (rest : List Char) :
    (blanks ++ (sign ++ digit :: rest)).dropWhile isBlank = sign ++ digit :: rest := by
  rw [List.dropWhile_append_of_pos hblanks]
  refine dropWhile_eq_self fun c hc => ?_
  obtain rfl | rfl | rfl := hsign
  · obtain rfl : digit = c := Option.some.inj hc
    exact (ne_of_isDigit hdigit).2.2
  · obtain rfl : '+' = c := Option.some.inj hc
    decide
  · obtain rfl : '-' = c := Option.some.inj hc
    decide

end Text

namespace Number

/-- A number is found where a digit comes next after the blanks and the sign. -/
lemma ofIntegerText?_isSome {text : String} :
    (ofIntegerText? text).isSome = true
      ↔ (Text.afterSign (text.toList.dropWhile Text.isBlank)).takeWhile Char.isDigit ≠ [] := by
  rw [ofIntegerText?]
  generalize text.toList.dropWhile Text.isBlank = chars
  split
  next negative body hsigned =>
    have hbody : Text.afterSign chars = body := by
      fun_cases Text.afterSign chars with
      | case1 rest => exact congrArg Prod.snd hsigned
      | case2 rest => exact congrArg Prod.snd hsigned
      | case3 => split at hsigned <;> simp_all
    rw [hbody]
    split
    next hnone => exact iff_of_false Bool.false_ne_true (not_not_intro hnone)
    next hsome => exact iff_of_true rfl hsome

/-- **A number is found at the start of a text exactly if the text starts with one.** -/
theorem ofIntegerText?_isSome_iff {text : String} :
    (ofIntegerText? text).isSome = true ↔ Text.StartsWithNumber text := by
  rw [ofIntegerText?_isSome]
  constructor
  · intro hdigits
    obtain ⟨sign, hsplit, hsign⟩ := Text.exists_sign (text.toList.dropWhile Text.isBlank)
    cases hbody : Text.afterSign (text.toList.dropWhile Text.isBlank) with
    | nil => exact absurd (by rw [hbody]; rfl) hdigits
    | cons digit rest =>
      refine ⟨text.toList.takeWhile Text.isBlank, sign, digit, rest, ?_, ?_, hsign, ?_⟩
      · rw [← hbody, ← hsplit, List.takeWhile_append_dropWhile]
      · exact fun c hc => List.mem_takeWhile_imp hc
      · by_contra hdigit
        rw [hbody, List.takeWhile_cons_of_neg hdigit] at hdigits
        exact hdigits rfl
  · rintro ⟨blanks, sign, digit, rest, htext, hblanks, hsign, hdigit⟩
    rw [htext, Text.dropWhile_blanks hblanks hsign hdigit, Text.afterSign_append hsign hdigit,
      List.takeWhile_cons_of_pos hdigit]
    exact List.cons_ne_nil _ _

end Number

end MatrixSymbol
