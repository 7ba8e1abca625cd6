/-
Pictures of bitmaps, printed and read (`toString` and `BitMatrix.parse`, section 2 of the
specification).

A printed row is read back cell by cell only if its characters stay what they are when they stand
next to each other: on and off can be surrogates that join.

* `Bitmap.rowText`, `Bitmap.printed`: the characters of a printed row, and the lines of a printed
  bitmap; `Bitmap.shows_toText`: the printed text shows them;
* `Text.ShowsRows`: a text shows rows of characters; `Text.showsRows_iff`: every text shows one
  picture;
* `Bitmap.parse_of_showsRows`: reading a text reads its rows; `Bitmap.parse_printed_iff`: a printed
  bitmap is read back exactly if no neighbours in its rows join;
* `Bitmap.parse_laid_out`: a printed bitmap is read back from any layout of its lines, unless
  neighbours join; and which texts are read, and as what;
* `Bitmap.parse_joined`: a bitmap that is not read back.
-/
import MatrixSymbol.Proofs.Characters
import MatrixSymbol.Proofs.Layout
import MatrixSymbol.Proofs.Rows

namespace MatrixSymbol

/-! ### Rows of characters -/

namespace Text

/-- A text shows rows of characters: each row is a content on a line of its own, cut into
characters. -/
def ShowsRows (text : Words) (rows : List (List Words)) : Prop :=
  Shows text (rows.map List.flatten) ∧ ∀ row ∈ rows, (∀ c ∈ row, IsCharacter c) ∧ Apart row

/-- **Every text shows one picture**, made of the characters of its contents. -/
theorem showsRows_iff {text : Words} {contents : List Words} (h : Shows text contents)
    {rows : List (List Words)} : ShowsRows text rows ↔ rows = contents.map characters := by
  constructor
  · rintro ⟨hshows, hrows⟩
    obtain rfl : contents = rows.map List.flatten :=
      (shows_iff.mp h).trans (shows_iff.mp hshows).symm
    rw [List.map_map]
    refine ((List.map_congr_left fun row hrow => ?_).trans (List.map_id rows)).symm
    exact characters_flatten (hrows row hrow).1 (hrows row hrow).2
  · rintro rfl
    constructor
    · have hflatten : (contents.map characters).map List.flatten = contents := by
        rw [List.map_map]
        exact (List.map_congr_left fun ws _ => flatten_characters ws).trans (List.map_id contents)
      rwa [hflatten]
    · rintro row hrow
      obtain ⟨ws, -, rfl⟩ := List.mem_map.mp hrow
      exact ⟨isCharacter_of_mem_characters ws, apart_characters ws⟩

/-- Rows take no more characters than the text has words. -/
lemma ShowsRows.length_le {text : Words} {rows : List (List Words)} (h : ShowsRows text rows) :
    rows.flatten.length ≤ text.length := by
  have hrows := (showsRows_iff h.1).mp h
  have hle := h.1.length_le
  generalize rows.map List.flatten = contents at hrows hle
  subst hrows
  refine le_trans ?_ hle
  clear hle h
  induction contents with
  | nil => exact le_rfl
  | cons ws contents ih =>
    rw [List.map_cons, List.flatten_cons, List.flatten_cons, List.length_append,
      List.length_append]
    exact Nat.add_le_add (length_characters_le ws) ih

/-- No row is empty. -/
lemma ShowsRows.ne_nil {text : Words} {rows : List (List Words)} (h : ShowsRows text rows) :
    ∀ row ∈ rows, row ≠ [] := by
  rintro row hrow rfl
  exact ne_nil_of_shows h.1 _ (List.mem_map_of_mem hrow) rfl

end Text

namespace Bitmap

open Text (Words)

/-! ### Printing -/

/-- The characters of a printed row. -/
def rowText (on off : Words) (row : List Bool) : List Words :=
  row.map fun value => if value then on else off

/-- The lines of a printed bitmap. -/
def printed (b : Bitmap) (on off : Words) : List Words :=
  b.toRows.map fun row => (rowText on off row).flatten

/-- The printed text consists of these lines. -/
lemma toText_eq (b : Bitmap) (on off : Words) :
    b.toText on off = [lineFeed].intercalate (b.printed on off) := by
  rw [toText, printed]
  exact congrArg ([lineFeed].intercalate ·) (List.map_congr_left fun row _ => List.flatMap_def)

section Printing

variable {on off : Words}

/-- A cell is printed as one of the two texts. -/
lemma forall_mem_rowText {p : Words → Prop} (hon : p on) (hoff : p off) (row : List Bool) :
    ∀ c ∈ rowText on off row, p c := by
  intro c hc
  obtain ⟨value, -, rfl⟩ := List.mem_map.mp hc
  cases value
  · exact hoff
  · exact hon

lemma ne_nil_of_isCharacter {c : Words} (h : Text.IsCharacter c) : c ≠ [] := by
  cases h <;> exact List.cons_ne_nil _ _

/-- **The printed text shows its lines**, unless a cell is printed as a blank. -/
theorem shows_toText (b : Bitmap) (hon : Text.IsCharacter on) (hoff : Text.IsCharacter off)
    (hinked : ∀ w ∈ on, Text.isBlankWord w = false)
    (hinked' : ∀ w ∈ off, Text.isBlankWord w = false) :
    Text.Shows (b.toText on off) (b.printed on off) := by
  have hmem : ∀ line ∈ b.printed on off,
      line ≠ [] ∧ ∀ w ∈ line, Text.isBlankWord w = false := by
    intro line hline
    obtain ⟨row, hrow, rfl⟩ := List.mem_map.mp hline
    constructor
    · -- a row has a cell, and what that prints is not empty
      obtain ⟨value, row, rfl⟩ := List.exists_cons_of_length_pos
        (b.width_pos.trans_eq (b.length_of_mem_toRows row hrow).symm)
      intro hnil
      have hfilled : ∀ c ∈ rowText on off (value :: row), c ≠ [] :=
        @forall_mem_rowText on off (· ≠ []) (ne_nil_of_isCharacter hon)
          (ne_nil_of_isCharacter hoff) _
      exact hfilled _ List.mem_cons_self (List.append_eq_nil_iff.mp hnil).1
    · intro w hw
      obtain ⟨c, hc, hw⟩ := List.mem_flatten.mp hw
      exact @forall_mem_rowText on off (fun c => ∀ w ∈ c, Text.isBlankWord w = false) hinked hinked'
        row c hc w hw
  refine ⟨b.printed on off, ?_, ?_, b.toText_eq on off, ?_⟩
  · rw [printed, Ne, List.map_eq_nil_iff, ← List.length_eq_zero_iff, b.length_toRows]
    exact b.height_pos.ne'
  · intro line hline hfeed
    exact absurd ((hmem line hline).2 _ hfeed) (by decide)
  · exact Text.laid_self fun line hline => .of_forall (hmem line hline).1 (hmem line hline).2

end Printing

/-! ### Reading -/

/-- The cells that rows of characters stand for. -/
def marked (on : Words) (rows : List (List Words)) : List (List Bool) :=
  rows.map fun row => row.map fun c => decide (c = on)

/-- **Reading a text reads its rows.** -/
theorem parse_of_showsRows {text : Words} {rows : List (List Words)}
    (h : Text.ShowsRows text rows) (on : Words) : parse text on = ofRows (marked on rows) := by
  have hrows := (Text.showsRows_iff h.1).mp h
  rw [Text.shows_iff.mp h.1] at hrows
  rw [parse, pictureRows, hrows, marked, List.map_map]
  rfl

/-- The characters of a printed row stand for its cells. -/
lemma marked_rowText {on off : Words} (hne : on ≠ off) (rows : List (List Bool)) :
    marked on (rows.map (rowText on off)) = rows := by
  have hcell : ∀ value : Bool, decide ((if value then on else off) = on) = value := fun value => by
    cases value
    · exact decide_eq_false hne.symm
    · exact decide_eq_true rfl
  rw [marked, List.map_map]
  refine (List.map_congr_left fun row _ => ?_).trans (List.map_id _)
  rw [Function.comp_apply, rowText, List.map_map]
  exact (List.map_congr_left fun value _ => hcell value).trans (List.map_id _)

lemma length_flatten_marked (on : Words) (rows : List (List Words)) :
    (marked on rows).flatten.length = rows.flatten.length := by
  rw [marked, ← List.map_flatten, List.length_map]

section Reading

variable {text on : Words} {rows : List (List Words)} (h : Text.ShowsRows text rows)
include h

/-- **Which texts are a fault.** -/
theorem parse_eq_error_iff :
    (∃ fault, parse text on = .error fault ∧ fault.name = "RangeError")
      ↔ rows = [] ∨ (∃ row ∈ rows, ∃ row' ∈ rows, row.length ≠ row'.length)
        ∨ capacity < rows.flatten.length := by
  have hne : ∀ row ∈ marked on rows, row ≠ [] := by
    intro row hrow hnil
    obtain ⟨chars, hchars, rfl⟩ := List.mem_map.mp hrow
    exact h.ne_nil chars hchars (List.map_eq_nil_iff.mp hnil)
  have hsame : (∀ row ∈ marked on rows, ∀ row' ∈ marked on rows, row.length = row'.length)
      ↔ ∀ row ∈ rows, ∀ row' ∈ rows, row.length = row'.length := by
    simp only [marked, List.forall_mem_map, List.length_map]
  have hok := exists_ofRows_iff hne
  rw [hsame, length_flatten_marked, Ne, marked, List.map_eq_nil_iff, ← marked,
    ← parse_of_showsRows h] at hok
  have herror : (∃ fault, parse text on = .error fault ∧ fault.name = "RangeError")
      ↔ ¬ ∃ b, parse text on = .ok b := by
    constructor
    · rintro ⟨fault, hfault, -⟩ ⟨b, hb⟩
      rw [hfault] at hb
      cases hb
    · intro hnone
      cases hparse : parse text on with
      | error fault =>
        rw [parse_of_showsRows h] at hparse
        exact ⟨fault, rfl, name_of_ofRows hparse⟩
      | ok b => exact absurd ⟨b, hparse⟩ hnone
  rw [herror, hok]
  simp only [not_and_or, not_forall, not_le, not_not, exists_prop]

/-- **What a text is read as.** -/
theorem parse_spec {b : Bitmap} (hparse : parse text on = .ok b) :
    b.height = rows.length
      ∧ ∀ y row, rows[y]? = some row → row.length = b.width
        ∧ ∀ x c, row[x]? = some c → b.isOn x y = decide (c = on) := by
  rw [parse_of_showsRows h] at hparse
  obtain ⟨hheight, hrows, hon⟩ := ofRows_spec hparse
  rw [marked, List.length_map] at hheight
  refine ⟨hheight, fun y row hrow => ?_⟩
  have hwidth : row.length = b.width := by
    have hmarked := hrows _ (List.mem_map.mpr ⟨row, List.mem_of_getElem? hrow, rfl⟩)
    rwa [List.length_map] at hmarked
  refine ⟨hwidth, fun x c hc => ?_⟩
  have hx : x < b.width := hwidth ▸ (List.getElem?_eq_some_iff.mp hc).1
  have hy : y < b.height := hheight ▸ (List.getElem?_eq_some_iff.mp hrow).1
  rw [hon x hx y hy, marked, List.getD_eq_getElem?_getD, List.getD_eq_getElem?_getD,
    List.getElem?_map, hrow, Option.map_some, Option.getD_some, List.getElem?_map, hc]
  rfl

end Reading

/-- **A printed bitmap is read back exactly if no neighbours in its rows join.**  If some do, their
row has fewer characters than the bitmap has columns. -/
theorem parse_printed_iff (b : Bitmap) {on off : Words} (hon : Text.IsCharacter on)
    (hoff : Text.IsCharacter off) (hne : on ≠ off) {text : Words}
    (h : Text.Shows text (b.printed on off)) :
    parse text on = .ok b ↔ ∀ row ∈ b.toRows, Text.Apart (rowText on off row) := by
  have hchars : ∀ row, ∀ c ∈ rowText on off row, Text.IsCharacter c :=
    forall_mem_rowText hon hoff
  constructor
  · intro hparse row hrow
    by_contra hjoined
    have hrows := (Text.showsRows_iff h).mpr rfl
    have hfewer := Text.length_characters_flatten_lt (hchars row) hjoined
    obtain ⟨y, hy⟩ := List.mem_iff_getElem?.mp hrow
    have hwidth := ((parse_spec hrows hparse).2 y (Text.characters (rowText on off row).flatten) (by
      rw [List.getElem?_map, printed, List.getElem?_map, hy]
      rfl)).1
    rw [hwidth, rowText, List.length_map, b.length_of_mem_toRows row hrow] at hfewer
    exact lt_irrefl _ hfewer
  · intro happart
    have hrows : Text.ShowsRows text (b.toRows.map (rowText on off)) := by
      constructor
      · rwa [List.map_map]
      · intro row hrow
        obtain ⟨cells, hcells, rfl⟩ := List.mem_map.mp hrow
        exact ⟨hchars cells, happart cells hcells⟩
    rw [parse_of_showsRows hrows, marked_rowText hne, b.ofRows_toRows]

/-- **A printed bitmap is read back from any layout of its lines.**  Let a bitmap be printed with
two different characters that are not blank.  Its lines are the contents of the printed text; and
any text with these contents is read as the bitmap, whatever blanks stand around them and whatever
blank lines between them, exactly if no row has a high surrogate alone directly before a low one
alone.

Every text shows rows of characters, and no others, with no more characters than it has words.
Reading it is a range fault exactly if there are none, or two of different length, or more cells
than can be stored; there is no other fault.  Otherwise there is a cell for each character, which is
on where the character is the given one. -/
theorem parse_laid_out :
    (∀ (b : Bitmap) (on off : Words), Text.IsCharacter on → Text.IsCharacter off → on ≠ off →
      (∀ w ∈ on, Text.isBlankWord w = false) → (∀ w ∈ off, Text.isBlankWord w = false) →
      ∃ contents, b.toText on off = [lineFeed].intercalate contents
        ∧ Text.Shows (b.toText on off) contents
        ∧ ∀ text, Text.Shows text contents →
          (parse text on = .ok b ↔ ∀ row ∈ b.toRows,
            Text.Apart (row.map fun value => if value then on else off)))
    ∧ ∀ text on : Words, ∃ rows,
      (∀ others, Text.ShowsRows text others ↔ others = rows)
        ∧ rows.flatten.length ≤ text.length
        ∧ ((∃ fault, parse text on = .error fault ∧ fault.name = "RangeError")
          ↔ rows = [] ∨ (∃ row ∈ rows, ∃ row' ∈ rows, row.length ≠ row'.length)
            ∨ capacity < rows.flatten.length)
        ∧ (∀ fault, parse text on = .error fault → fault.name = "RangeError")
        ∧ ∀ b, parse text on = .ok b → b.height = rows.length
          ∧ ∀ y row, rows[y]? = some row → row.length = b.width
            ∧ ∀ x c, row[x]? = some c → b.isOn x y = decide (c = on) := by
  constructor
  · intro b on off hon hoff hne hinked hinked'
    exact ⟨b.printed on off, b.toText_eq on off, b.shows_toText hon hoff hinked hinked',
      fun text h => b.parse_printed_iff hon hoff hne h⟩
  · intro text on
    have hshows := Text.shows_iff.mpr (rfl : _ = ((lines text).map Text.trim).filter (!·.isEmpty))
    have hrows := (Text.showsRows_iff hshows).mpr rfl
    refine ⟨_, fun others => Text.showsRows_iff hshows, hrows.length_le, parse_eq_error_iff hrows,
      ?_, fun b hparse => parse_spec hrows hparse⟩
    intro fault hfault
    rw [parse_of_showsRows hrows] at hfault
    exact name_of_ofRows hfault

/-- A square of four cells, on along the diagonal. -/
def diagonal : Bitmap := .ofFn 2 2 Nat.two_pos Nat.two_pos (by decide) fun x y => x == y

/-- The square, printed with a high surrogate for on and a pair of surrogates for off, is read back
from a text with carriage returns, blanks of its own and blank lines. -/
theorem parse_laid_out_diagonal :
    Text.IsCharacter [0xD83D] ∧ Text.IsCharacter (Text.ofString "😀")
      ∧ [0xD83D] ≠ Text.ofString "😀" ∧ (∀ w ∈ [0xD83D], Text.isBlankWord w = false)
      ∧ (∀ w ∈ Text.ofString "😀", Text.isBlankWord w = false)
      ∧ parse (Text.ofString "\r\n\t " ++ [0xD83D] ++ Text.ofString "😀\r\n\n 😀" ++ [0xD83D, 0x0A])
          [0xD83D] = .ok diagonal := by
  have hpair : Text.IsCharacter (Text.ofString "😀") := .pair (by decide +kernel) (by decide +kernel)
  have hne : [0xD83D] ≠ Text.ofString "😀" := by decide +kernel
  have hwords : Text.ofString "😀" = [0xD83D, 0xDE00] := by decide +kernel
  have hinked : ∀ w ∈ [(0xD83D : UInt16)], Text.isBlankWord w = false :=
    List.forall_mem_singleton.mpr rfl
  have hinked' : ∀ w ∈ Text.ofString "😀", Text.isBlankWord w = false := by
    rw [hwords]
    exact List.forall_mem_cons.mpr ⟨rfl, List.forall_mem_singleton.mpr rfl⟩
  obtain ⟨contents, -, hprinted, hparse⟩ := parse_laid_out.1 diagonal [0xD83D]
    (Text.ofString "😀") (.single _) hpair hne hinked hinked'
  refine ⟨.single _, hpair, hne, hinked, hinked', (hparse _ (Text.shows_iff.mpr ?_)).mpr ?_⟩
  · rw [Text.shows_iff.mp hprinted]
    decide +kernel
  · have hrows : diagonal.toRows.map (rowText [0xD83D] (Text.ofString "😀"))
        = [Text.characters [0xD83D, 0xD83D, 0xDE00], Text.characters [0xD83D, 0xDE00, 0xD83D]] := by
      decide +kernel
    have happart : ∀ row ∈ diagonal.toRows.map (rowText [0xD83D] (Text.ofString "😀")),
        Text.Apart row := by
      rw [hrows, List.forall_mem_cons, List.forall_mem_singleton]
      exact ⟨Text.apart_characters _, Text.apart_characters _⟩
    exact List.forall_mem_map.mp happart

/-- **Surrogates that join are not read back.**  A row of two cells, printed with a high surrogate
for on and a low one for off, is one character, which is read as one cell that is off. -/
theorem parse_joined :
    ∃ b, ofRows [[true, false]] = .ok b
      ∧ b.toText [0xD83D] [0xDE00] = Text.ofString "😀"
      ∧ (∃ b', parse (b.toText [0xD83D] [0xDE00]) [0xD83D] = .ok b' ∧ b'.toRows = [[false]])
      ∧ ¬ ∀ on off : Words, Text.IsCharacter on → Text.IsCharacter off → on ≠ off →
        (∀ w ∈ on, Text.isBlankWord w = false) → (∀ w ∈ off, Text.isBlankWord w = false) →
        parse (b.toText on off) on = .ok b := by
  have hrows : ofRows [[true, false]]
      = .ok (ofFn 2 1 Nat.two_pos Nat.one_pos (by decide) fun x _ => x == 0) := rfl
  have hparse : parse (Text.ofString "😀") [0xD83D]
      = .ok (ofFn 1 1 Nat.one_pos Nat.one_pos (by decide) fun _ _ => false) := rfl
  have htext : (ofFn 2 1 Nat.two_pos Nat.one_pos (by decide) fun x _ => x == 0).toText [0xD83D]
      [0xDE00] = Text.ofString "😀" := by decide +kernel
  refine ⟨_, hrows, htext, ⟨_, htext ▸ hparse, by decide +kernel⟩, fun h => ?_⟩
  have hback := h [0xD83D] [0xDE00] (.single _) (.single _) (by decide)
    (List.forall_mem_singleton.mpr rfl) (List.forall_mem_singleton.mpr rfl)
  rw [htext, hparse] at hback
  exact absurd (congrArg Bitmap.width (Except.ok.inj hback)) (by decide)

end Bitmap

end MatrixSymbol
