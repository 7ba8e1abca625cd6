/-
The characters of texts.

A text is cut from its start, so that two surrogates in their order always end up in one character.
Characters that are put in a row are therefore found again unless a high surrogate stands alone
before a low one that stands alone.

* `Text.IsCharacter`: a single word, or a pair of surrogates;
* `Text.Joins`: two characters that are one when they stand next to each other; `Text.Apart`: a row
  of characters without such neighbours;
* `Text.characters_eq_iff`: a text has one decomposition into characters without neighbours that
  join, and this is how it is cut;
* `Text.characters_flatten`, `Text.length_characters_flatten_lt`: characters in a row are found
  again if no neighbours join, and are fewer if some do.
-/
import Mathlib.Tactic
import MatrixSymbol.Text.Words

namespace MatrixSymbol

namespace Text

/-! ### Characters -/

/-- A character of a text: a single word, or a high surrogate and a low one. -/
inductive IsCharacter : Words → Prop where
  | single (w : UInt16) : IsCharacter [w]
  | pair {v w : UInt16} : isHigh v = true → isLow w = true → IsCharacter [v, w]

/-- Two characters that join to one: a high surrogate alone, and then a low one alone. -/
def Joins (c d : Words) : Prop :=
  ∃ v w, isHigh v = true ∧ isLow w = true ∧ c = [v] ∧ d = [w]

/-- Characters in a row of which no neighbours join. -/
def Apart (cs : List Words) : Prop := cs.IsChain fun c d => ¬ Joins c d

/-- No surrogate is high and low. -/
lemma isLow_of_isHigh {w : UInt16} (h : isHigh w = true) : isLow w = false := by
  simp only [isHigh, isLow, Bool.and_eq_true, Bool.and_eq_false_iff, decide_eq_true_eq,
    decide_eq_false_iff_not] at h ⊢
  omega

lemma isHigh_of_isLow {w : UInt16} (h : isLow w = true) : isHigh w = false := by
  cases hhigh : isHigh w with
  | false => rfl
  | true => exact absurd h (by rw [isLow_of_isHigh hhigh]; exact Bool.false_ne_true)

/-- A word is a character by itself unless it joins with the next one. -/
lemma characters_cons_of_head {w : UInt16} {rest : Words}
    (h : isHigh w = true → ∀ v ∈ rest.head?, isLow v = false) :
    characters (w :: rest) = [w] :: characters rest := by
  cases hhigh : isHigh w with
  | false => exact characters_cons hhigh rest
  | true =>
    cases rest with
    | nil => rfl
    | cons v rest => rw [characters, hhigh, h hhigh v rfl]; rfl

/-! ### The decomposition of a text -/

/-- Nothing is lost, and nothing added. -/
lemma flatten_characters (ws : Words) : (characters ws).flatten = ws := by
  fun_induction characters ws with
  | case1 => rfl
  | case2 w => rfl
  | case3 v w rest hpair ih => rw [List.flatten_cons, ih]; rfl
  | case4 v w rest hpair ih => rw [List.flatten_cons, ih]; rfl

lemma isCharacter_of_mem_characters (ws : Words) : ∀ c ∈ characters ws, IsCharacter c := by
  fun_induction characters ws with
  | case1 => exact fun c hc => absurd hc List.not_mem_nil
  | case2 w => exact List.forall_mem_singleton.mpr (.single w)
  | case3 v w rest hpair ih =>
    rw [Bool.and_eq_true] at hpair
    exact List.forall_mem_cons.mpr ⟨.pair hpair.1 hpair.2, ih⟩
  | case4 v w rest hpair ih => exact List.forall_mem_cons.mpr ⟨.single v, ih⟩

/-- There are no more characters than words. -/
lemma length_characters_le (ws : Words) : (characters ws).length ≤ ws.length := by
  fun_induction characters ws with
  | case1 => exact le_rfl
  | case2 w => exact le_rfl
  | case3 v w rest hpair ih => exact Nat.succ_le_succ (ih.trans (Nat.le_succ _))
  | case4 v w rest hpair ih => exact Nat.succ_le_succ ih

/-- The first character starts with the first word. -/
lemma head?_characters {w : UInt16} {rest : Words} :
    ∀ c ∈ (characters (w :: rest)).head?, c.head? = some w := by
  cases rest with
  | nil => rintro c ⟨⟩; rfl
  | cons v rest =>
    rw [characters]
    split
    · rintro c ⟨⟩; rfl
    · rintro c ⟨⟩; rfl

/-- Neighbours in a text do not join: they would be one character. -/
lemma apart_characters (ws : Words) : Apart (characters ws) := by
  fun_induction characters ws with
  | case1 => exact .nil
  | case2 w => exact .singleton [w]
  | case3 v w rest hpair ih =>
    refine List.isChain_cons.mpr ⟨?_, ih⟩
    rintro d - ⟨_, _, -, -, ⟨⟩, -⟩
  | case4 v w rest hpair ih =>
    refine List.isChain_cons.mpr ⟨?_, ih⟩
    rintro d hd ⟨v', w', hv, hw, hsingle, rfl⟩
    have hfirst := head?_characters _ hd
    rw [List.head?_cons, Option.some.injEq] at hfirst
    obtain rfl := List.singleton_inj.mp hsingle
    exact hpair (by rw [hv, ← hfirst, hw]; rfl)

/-- A character is read first, and as it is, unless it joins with the next one. -/
lemma characters_append_flatten {c : Words} {cs : List Words} (hc : IsCharacter c)
    (hcs : ∀ d ∈ cs, IsCharacter d) (hnext : ∀ d ∈ cs.head?, ¬ Joins c d) :
    characters (c ++ cs.flatten) = c :: characters cs.flatten := by
  cases hc with
  | pair hv hw => exact characters_pair hv hw _
  | single v =>
    refine characters_cons_of_head fun hv w hw => ?_
    cases cs with
    | nil => cases hw
    | cons d cs =>
      cases hcs d List.mem_cons_self with
      | pair hhigh _ =>
        cases hw
        exact isLow_of_isHigh hhigh
      | single w' =>
        cases hw
        rw [← Bool.not_eq_true]
        exact fun hlow => hnext _ rfl ⟨v, w, hv, hlow, rfl, rfl⟩

/-- **Characters in a row are found again** if no neighbours join. -/
theorem characters_flatten {cs : List Words} (hcs : ∀ c ∈ cs, IsCharacter c)
    (happart : Apart cs) : characters cs.flatten = cs := by
  induction cs with
  | nil => rfl
  | cons c cs ih =>
    obtain ⟨hc, hrest⟩ := List.forall_mem_cons.mp hcs
    obtain ⟨hnext, happart⟩ := List.isChain_cons.mp happart
    rw [List.flatten_cons, characters_append_flatten hc hrest hnext, ih hrest happart]

/-- **A text is cut in one way only**: into characters of which no neighbours join. -/
theorem characters_eq_iff {ws : Words} {cs : List Words} :
    characters ws = cs ↔ cs.flatten = ws ∧ (∀ c ∈ cs, IsCharacter c) ∧ Apart cs := by
  constructor
  · rintro rfl
    exact ⟨flatten_characters ws, isCharacter_of_mem_characters ws, apart_characters ws⟩
  · rintro ⟨rfl, hcs, happart⟩
    exact characters_flatten hcs happart

/-! ### Characters in a row -/

section Row

variable {cs : List Words} (hcs : ∀ c ∈ cs, IsCharacter c)
include hcs

/-- They are never more than were put there. -/
lemma length_characters_flatten_le : (characters cs.flatten).length ≤ cs.length := by
  induction cs with
  | nil => exact le_rfl
  | cons c cs ih =>
    obtain ⟨hc, hrest⟩ := List.forall_mem_cons.mp hcs
    have hle := ih hrest
    by_cases hnext : ∀ d ∈ cs.head?, ¬ Joins c d
    · rw [List.flatten_cons, characters_append_flatten hc hrest hnext]
      exact Nat.succ_le_succ hle
    · -- the two that join are one character now, of which the second was one before
      push Not at hnext
      obtain ⟨_, hd, v, w, hv, hw, rfl, rfl⟩ := hnext
      obtain ⟨cs, rfl⟩ := List.head?_eq_some_iff.mp hd
      rw [List.flatten_cons, List.singleton_append, characters_cons (isHigh_of_isLow hw)] at hle
      rw [List.flatten_cons, List.flatten_cons, List.singleton_append, List.singleton_append,
        characters_pair hv hw]
      exact hle.trans (Nat.le_succ _)

/-- **They are fewer if neighbours join.** -/
theorem length_characters_flatten_lt (hjoined : ¬ Apart cs) :
    (characters cs.flatten).length < cs.length := by
  induction cs with
  | nil => exact absurd .nil hjoined
  | cons c cs ih =>
    obtain ⟨hc, hrest⟩ := List.forall_mem_cons.mp hcs
    by_cases hnext : ∀ d ∈ cs.head?, ¬ Joins c d
    · have hlater : ¬ Apart cs := fun h => hjoined (List.isChain_cons.mpr ⟨hnext, h⟩)
      rw [List.flatten_cons, characters_append_flatten hc hrest hnext]
      exact Nat.succ_lt_succ (ih hrest hlater)
    · push Not at hnext
      obtain ⟨_, hd, v, w, hv, hw, rfl, rfl⟩ := hnext
      obtain ⟨cs, rfl⟩ := List.head?_eq_some_iff.mp hd
      have hle := length_characters_flatten_le (List.forall_mem_cons.mp hrest).2
      rw [List.flatten_cons, List.flatten_cons, List.singleton_append, List.singleton_append,
        characters_pair hv hw]
      exact Nat.succ_lt_succ (Nat.lt_succ_of_le hle)

end Row

end Text

end MatrixSymbol
