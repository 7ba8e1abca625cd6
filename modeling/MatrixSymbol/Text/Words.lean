/-
Texts as 16-bit words.

Any words make a text.  A word of the high surrogates with one of the low surrogates behind it is
one character; every other word is a character by itself, a surrogate without its partner included.
So a text may hold what no string holds, and two texts may join to fewer characters than they
have.

* `Text.Words`: a text; `Text.ofString`: that of a string;
* `Text.characters`: the characters of a text, in order;
* `Text.toString?`: the string of a text, if there is one; `Text.toString?_ofString`: the text of a
  string has that string;
* `Text.Stray`: a text that is no string.
-/

namespace MatrixSymbol

namespace Text

/-! ### Words -/

/-- A text, as the 16-bit words that it is made of. -/
abbrev Words : Type := List UInt16

/-- Whether a word is a high surrogate, the first one of a character of two words. -/
def isHigh (w : UInt16) : Bool := 0xD800 ≤ w.toNat && w.toNat < 0xDC00

/-- Whether a word is a low surrogate, the second one of such a character. -/
def isLow (w : UInt16) : Bool := 0xDC00 ≤ w.toNat && w.toNat < 0xE000

/-- The words of a character of a string. -/
def ofChar (c : Char) : Words :=
  if c.toNat < 0x10000 then [.ofNat c.toNat]
  else
    let beyond := c.toNat - 0x10000
    [.ofNat (0xD800 + beyond / 0x400), .ofNat (0xDC00 + beyond % 0x400)]

/-- The words of a string. -/
def ofString (s : String) : Words := s.toList.flatMap ofChar

/-- The words of two strings in a row. -/
theorem ofString_append (s t : String) : ofString (s ++ t) = ofString s ++ ofString t := by
  rw [ofString, ofString, ofString, String.toList_append, List.flatMap_append]

/-! ### Characters -/

/-- The characters of a text, in order. -/
def characters : Words → List Words
  | [] => []
  | [w] => [[w]]
  | v :: w :: rest =>
    if isHigh v && isLow w then [v, w] :: characters rest else [v] :: characters (w :: rest)

/-- The character of a string that has the given words. A surrogate by itself is none. -/
def char? : Words → Option Char
  | [w] => if isHigh w || isLow w then none else some (Char.ofNat w.toNat)
  | [v, w] => some (Char.ofNat (0x10000 + (v.toNat - 0xD800) * 0x400 + (w.toNat - 0xDC00)))
  | _ => none

/-- The string of a text, if every surrogate has its partner. -/
def toString? (ws : Words) : Option String := ((characters ws).mapM char?).map String.ofList

/-- A text that is no string. -/
abbrev Stray : Type := { ws : Words // toString? ws = none }

/-- A word that is no high surrogate is a character by itself. -/
theorem characters_cons {w : UInt16} (h : isHigh w = false) (rest : Words) :
    characters (w :: rest) = [w] :: characters rest := by
  cases rest with
  | nil => rfl
  | cons v rest => simp [characters, h]

/-- Two surrogates in their order are a character. -/
theorem characters_pair {v w : UInt16} (hv : isHigh v = true) (hw : isLow w = true)
    (rest : Words) : characters (v :: w :: rest) = [v, w] :: characters rest := by
  simp [characters, hv, hw]

/-! ### Strings -/

/-- The words of a character of a string are read first, and as one character. -/
theorem characters_ofChar_append (c : Char) (rest : Words) :
    characters (ofChar c ++ rest) = ofChar c :: characters rest := by
  have hvalid : c.toNat < 0xD800 ∨ 0xDFFF < c.toNat ∧ c.toNat < 0x110000 := c.valid
  rw [ofChar]
  split
  · refine characters_cons ?_ rest
    simp only [isHigh, UInt16.toNat_ofNat', Bool.and_eq_false_iff, decide_eq_false_iff_not]
    omega
  · refine characters_pair ?_ ?_ rest
    · simp only [isHigh, UInt16.toNat_ofNat', Bool.and_eq_true, decide_eq_true_eq]
      omega
    · simp only [isLow, UInt16.toNat_ofNat', Bool.and_eq_true, decide_eq_true_eq]
      omega

/-- A character of a string is found by its words. -/
theorem char?_ofChar (c : Char) : char? (ofChar c) = some c := by
  have hvalid : c.toNat < 0xD800 ∨ 0xDFFF < c.toNat ∧ c.toNat < 0x110000 := c.valid
  rw [ofChar]
  split
  · have hword : (UInt16.ofNat c.toNat).toNat = c.toNat := by
      rw [UInt16.toNat_ofNat']
      omega
    have hsingle : (isHigh (.ofNat c.toNat) || isLow (.ofNat c.toNat)) = false := by
      simp only [isHigh, isLow, hword, Bool.or_eq_false_iff, Bool.and_eq_false_iff,
        decide_eq_false_iff_not]
      omega
    rw [char?, hsingle, if_neg Bool.false_ne_true, hword, Char.ofNat_toNat]
  · have hsum : 0x10000 + ((0xD800 + (c.toNat - 0x10000) / 0x400) % 2 ^ 16 - 0xD800) * 0x400
        + ((0xDC00 + (c.toNat - 0x10000) % 0x400) % 2 ^ 16 - 0xDC00) = c.toNat := by
      omega
    rw [char?, UInt16.toNat_ofNat', UInt16.toNat_ofNat', hsum, Char.ofNat_toNat]

/-- The characters of the text of a string are those of the string. -/
theorem characters_flatMap (cs : List Char) : characters (cs.flatMap ofChar) = cs.map ofChar := by
  induction cs with
  | nil => rfl
  | cons c cs ih => rw [List.flatMap_cons, characters_ofChar_append, ih, List.map_cons]

/-- **The text of a string has that string.** -/
theorem toString?_ofString (s : String) : toString? (ofString s) = some s := by
  have hchars : ∀ cs : List Char, (cs.map ofChar).mapM char? = some cs := by
    intro cs
    induction cs with
    | nil => rfl
    | cons c cs ih => rw [List.map_cons, List.mapM_cons, char?_ofChar, ih]; rfl
  rw [toString?, ofString, characters_flatMap, hchars, Option.map_some, String.ofList_toList]

end Text

end MatrixSymbol
