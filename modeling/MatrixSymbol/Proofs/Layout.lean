/-
Contents laid out on lines of text.

* `Text.Framed`: a content has a word, and none of its ends is blank;
* `Text.Laid`: contents laid out on lines, with blanks around them and blank lines between them;
  `Text.Shows`: a text whose lines show contents in this way;
* `Text.trim_padded`, `Text.exists_padded`: trimming takes the blanks around a content, and no more;
* `Text.laid_iff`, `Text.shows_iff`: the contents of a text are its trimmed lines, without the blank
  ones.
-/
import Mathlib.Data.List.TakeWhile
import Mathlib.Tactic
import MatrixSymbol.Bitmap.Picture

namespace MatrixSymbol

/-! ### Lines -/

namespace Bitmap

/-- Lines are what lies between line feeds. -/
lemma lines_eq_splitOn (text : Text.Words) : lines text = text.splitOn lineFeed := by
  induction text with
  | nil => rfl
  | cons w text ih =>
    rw [List.splitOn_cons_eq_if_modifyHead, ← ih, lines, List.foldr_cons, ← lines]
    by_cases hw : w = lineFeed
    · rw [if_pos hw, if_pos (beq_iff_eq.mpr hw)]
    · rw [if_neg hw, if_neg (mt beq_iff_eq.mp hw)]
      have hne : lines text ≠ [] := ih ▸ List.splitOn_ne_nil _ _
      cases hlines : lines text with
      | nil => exact absurd hlines hne
      | cons line more => rfl

/-- No line has a line feed in it. -/
lemma lineFeed_not_mem_lines (text : Text.Words) : ∀ line ∈ lines text, lineFeed ∉ line := by
  induction text with
  | nil => simp [lines]
  | cons w text ih =>
    rw [lines, List.foldr_cons, ← lines]
    by_cases hw : w = lineFeed
    · rw [if_pos hw, List.forall_mem_cons]
      exact ⟨List.not_mem_nil, ih⟩
    · rw [if_neg hw]
      cases hlines : lines text with
      | nil => simpa using Ne.symm hw
      | cons line more =>
        rw [hlines, List.forall_mem_cons] at ih
        rw [List.forall_mem_cons, List.mem_cons, not_or]
        exact ⟨⟨Ne.symm hw, ih.1⟩, ih.2⟩

end Bitmap

namespace Text

/-! ### Contents on lines -/

/-- Nothing but blanks. -/
def AllBlank (line : Words) : Prop := ∀ w ∈ line, isBlankWord w = true

/-- A content without blanks around it. -/
structure Framed (content : Words) : Prop where
  ne_nil : content ≠ []
  head : ∀ w ∈ content.head?, isBlankWord w = false
  last : ∀ w ∈ content.getLast?, isBlankWord w = false

/-- Contents in order on lines: each has a line of its own, with any blanks around it, and there may
be any blank lines before, between and after them. -/
inductive Laid : List Words → List Words → Prop where
  | nil : Laid [] []
  | blank {contents lines : List Words} {line : Words} :
    AllBlank line → Laid contents lines → Laid contents (line :: lines)
  | padded {contents lines : List Words} {before content after : Words} :
    AllBlank before → Framed content → AllBlank after → Laid contents lines →
      Laid (content :: contents) ((before ++ content ++ after) :: lines)

/-- A content without any blanks. -/
lemma Framed.of_forall {content : Words} (hne : content ≠ [])
    (h : ∀ w ∈ content, isBlankWord w = false) : Framed content where
  ne_nil := hne
  head w hw := h w (List.mem_of_mem_head? hw)
  last w hw := h w (List.mem_of_mem_getLast? hw)

/-- Contents are laid out on lines by themselves. -/
lemma laid_self {contents : List Words} (h : ∀ content ∈ contents, Framed content) :
    Laid contents contents := by
  induction contents with
  | nil => exact .nil
  | cons content contents ih =>
    obtain ⟨hcontent, hcontents⟩ := List.forall_mem_cons.mp h
    have hlaid : Laid (content :: contents) (([] ++ content ++ []) :: contents) :=
      .padded (fun w hw => absurd hw List.not_mem_nil) hcontent
        (fun w hw => absurd hw List.not_mem_nil) (ih hcontents)
    rwa [List.nil_append, List.append_nil] at hlaid

/-- A text whose lines show contents. -/
def Shows (text : Words) (contents : List Words) : Prop :=
  ∃ lines ≠ [], (∀ line ∈ lines, Bitmap.lineFeed ∉ line)
    ∧ text = [Bitmap.lineFeed].intercalate lines ∧ Laid contents lines

/-! ### Trimming -/

lemma dropWhile_eq_self {α : Type} {p : α → Bool} {l : List α} (h : ∀ a ∈ l.head?, p a = false) :
    l.dropWhile p = l := by
  cases l with
  | nil => rfl
  | cons a l => exact List.dropWhile_cons_of_neg (by rw [h a rfl]; exact Bool.false_ne_true)

/-- A blank line is trimmed to nothing. -/
lemma trim_of_allBlank {line : Words} (h : AllBlank line) : trim line = [] := by
  have hnil : line.dropWhile isBlankWord = [] := List.dropWhile_eq_nil_iff.mpr h
  rw [trim, hnil]
  rfl

/-- **Trimming takes the blanks around a content.** -/
theorem trim_padded {before content after : Words} (hbefore : AllBlank before)
    (hcontent : Framed content) (hafter : AllBlank after) :
    trim (before ++ content ++ after) = content := by
  have hhead : ∀ w ∈ (content ++ after).head?, isBlankWord w = false := by
    rw [List.head?_append_of_ne_nil _ hcontent.ne_nil]
    exact hcontent.head
  have hlast : ∀ w ∈ content.reverse.head?, isBlankWord w = false := by
    rw [List.head?_reverse]
    exact hcontent.last
  rw [trim, List.append_assoc, List.dropWhile_append_of_pos hbefore, dropWhile_eq_self hhead,
    List.reverse_append,
    List.dropWhile_append_of_pos fun w hw => hafter w (List.mem_reverse.mp hw),
    dropWhile_eq_self hlast, List.reverse_reverse]

lemma head?_dropWhile {p : UInt16 → Bool} (l : Words) :
    ∀ w ∈ (l.dropWhile p).head?, p w = false := by
  intro w hw
  have h := List.head?_dropWhile_not p l
  rw [Option.mem_def.mp hw] at h
  simpa using h

/-- **A line is blank, or trimming leaves a content with blanks around it.** -/
theorem exists_padded (line : Words) :
    AllBlank line ∨ Framed (trim line) ∧ ∃ before after, AllBlank before ∧ AllBlank after
      ∧ line = before ++ trim line ++ after := by
  set rest := line.dropWhile isBlankWord with hrest
  have hsplit : line.takeWhile isBlankWord ++ rest = line := List.takeWhile_append_dropWhile
  have hsplit' : trim line ++ (rest.reverse.takeWhile isBlankWord).reverse = rest := by
    rw [trim, ← List.reverse_append, List.takeWhile_append_dropWhile, List.reverse_reverse]
  have hbefore : AllBlank (line.takeWhile isBlankWord) := fun w hw => List.mem_takeWhile_imp hw
  have hafter : AllBlank (rest.reverse.takeWhile isBlankWord).reverse := fun w hw =>
    List.mem_takeWhile_imp (List.mem_reverse.mp hw)
  by_cases hnil : trim line = []
  · refine .inl fun w hw => ?_
    rw [← hsplit, ← hsplit', hnil, List.nil_append] at hw
    exact (List.mem_append.mp hw).elim (hbefore w) (hafter w)
  · refine .inr ⟨⟨hnil, fun w hw => ?_, fun w hw => ?_⟩, _, _, hbefore, hafter, ?_⟩
    · refine head?_dropWhile line w ?_
      rw [← hrest, ← hsplit', List.head?_append_of_ne_nil _ hnil]
      exact hw
    · refine head?_dropWhile rest.reverse w ?_
      rw [← List.head?_reverse] at hw
      rwa [trim, List.reverse_reverse] at hw
    · rw [List.append_assoc, hsplit', hsplit]

/-! ### The contents of a text -/

/-- **The contents of lines are what trimming leaves of them**, where it leaves anything. -/
theorem laid_iff {contents lines : List Words} :
    Laid contents lines ↔ contents = (lines.map trim).filter (!·.isEmpty) := by
  constructor
  · intro h
    induction h with
    | nil => rfl
    | blank hline h ih =>
      rw [List.map_cons, trim_of_allBlank hline, ih]
      rfl
    | padded hbefore hcontent hafter h ih =>
      rw [List.map_cons, trim_padded hbefore hcontent hafter, List.filter_cons_of_pos, ih]
      rw [Bool.not_eq_true', List.isEmpty_eq_false_iff]
      exact hcontent.ne_nil
  · rintro rfl
    induction lines with
    | nil => exact .nil
    | cons line lines ih =>
      rw [List.map_cons]
      obtain hblank | ⟨hframed, before, after, hbefore, hafter, hline⟩ := exists_padded line
      · rw [trim_of_allBlank hblank]
        exact .blank hblank ih
      · rw [List.filter_cons_of_pos]
        · conv in (line :: lines) => rw [hline]
          exact .padded hbefore hframed hafter ih
        · rw [Bool.not_eq_true', List.isEmpty_eq_false_iff]
          exact hframed.ne_nil

/-- **The contents of a text are its trimmed lines, without the blank ones.** -/
theorem shows_iff {text : Words} {contents : List Words} :
    Shows text contents
      ↔ contents = ((Bitmap.lines text).map trim).filter (!·.isEmpty) := by
  rw [← laid_iff]
  constructor
  · rintro ⟨lines, hne, hlineFeed, htext, hlaid⟩
    rwa [htext, Bitmap.lines_eq_splitOn, List.splitOn_intercalate _ hlineFeed hne]
  · intro h
    refine ⟨_, ?_, Bitmap.lineFeed_not_mem_lines text, ?_, h⟩
    · rw [Bitmap.lines_eq_splitOn]
      exact List.splitOn_ne_nil _ _
    · rw [Bitmap.lines_eq_splitOn, List.intercalate_splitOn]

lemma ne_nil_of_shows {text : Words} {contents : List Words} (h : Shows text contents) :
    ∀ content ∈ contents, content ≠ [] := by
  intro content hcontent hnil
  rw [shows_iff.mp h] at hcontent
  have hfilter := (List.mem_filter.mp hcontent).2
  rw [hnil] at hfilter
  cases hfilter

/-- Contents take no more words than their lines. -/
lemma Laid.length_le {contents lines : List Words} (h : Laid contents lines) :
    contents.flatten.length ≤ lines.flatten.length := by
  induction h with
  | nil => exact le_rfl
  | blank hline h ih =>
    rw [List.flatten_cons, List.length_append]
    omega
  | padded hbefore hcontent hafter h ih =>
    rw [List.flatten_cons, List.flatten_cons, List.length_append, List.length_append,
      List.length_append, List.length_append]
    omega

/-- Line feeds between lines only add words. -/
lemma length_flatten_le_intercalate (lines : List Words) :
    lines.flatten.length ≤ ([Bitmap.lineFeed].intercalate lines).length := by
  induction lines with
  | nil => exact le_rfl
  | cons line lines ih =>
    cases lines with
    | nil => rw [List.intercalate_singleton, List.flatten_singleton]
    | cons line' lines =>
      rw [List.intercalate_cons_cons, List.flatten_cons, List.length_append, List.length_append,
        List.length_append]
      omega

lemma Shows.length_le {text : Words} {contents : List Words} (h : Shows text contents) :
    contents.flatten.length ≤ text.length := by
  obtain ⟨lines, -, -, htext, hlaid⟩ := h
  rw [htext]
  exact hlaid.length_le.trans (length_flatten_le_intercalate lines)

end Text

end MatrixSymbol
