/-
Letters in either case.

Of the capitals outside ASCII one alone has a small form inside it, the sign of the kelvin.  So a
text is lowered to a word of ASCII letter by letter, and where a capital has two small forms, by its
place in a word, neither of them matters here.

* `Text.IsForm`: an ASCII character, or the capital of an ASCII letter; `Text.toLower_eq_iff`: the
  characters that ASCII lowers to it;
* `Text.IsPlain`: ASCII characters that are no capitals; `Text.lowerChar_eq_iff`: the characters
  that are lowered to one of them;
* `Text.Spells`, `Text.lowercase_eq_iff`: the texts that are lowered to a plain word;
* `Text.Holds`, `Text.mentions_iff`: the texts that mention a plain word in either case.
-/
import Mathlib.Tactic
import MatrixSymbol.Text.Lowercase
import MatrixSymbol.Text.Search

namespace MatrixSymbol

namespace Text

/-! ### Characters -/

/-- A character of ASCII that is no capital. -/
def IsPlain (d : Char) : Prop := 0 < d.toNat ∧ d.toNat < 128 ∧ ¬ (65 ≤ d.toNat ∧ d.toNat ≤ 90)

instance : DecidablePred IsPlain := fun d =>
  inferInstanceAs (Decidable (0 < d.toNat ∧ d.toNat < 128 ∧ ¬ (65 ≤ d.toNat ∧ d.toNat ≤ 90)))

/-- A character is another one, or its capital, if that is a small letter of ASCII. -/
def IsForm (c d : Char) : Prop :=
  c = d ∨ 97 ≤ d.toNat ∧ d.toNat ≤ 122 ∧ c.toNat + 32 = d.toNat

/-- The sign of the kelvin, whose small form is the letter `k`. -/
def kelvin : Char := Char.ofNat 0x212A

lemma toNat_toLower (c : Char) :
    c.toLower.toNat = if 65 ≤ c.toNat ∧ c.toNat ≤ 90 then c.toNat + 32 else c.toNat := by
  have hcapital : (c.val ≥ 'A'.val ∧ c.val ≤ 'Z'.val) ↔ 65 ≤ c.toNat ∧ c.toNat ≤ 90 := by
    rw [ge_iff_le, UInt32.le_iff_toNat_le, UInt32.le_iff_toNat_le]
    rfl
  by_cases h : 65 ≤ c.toNat ∧ c.toNat ≤ 90
  · have hlower : c.toLower.toNat = (c.val + ('a'.val - 'A'.val)).toNat :=
      congrArg Char.toNat (dif_pos (hcapital.mpr h))
    have hadd : (c.val + ('a'.val - 'A'.val)).toNat = (c.toNat + 32) % 2 ^ 32 :=
      UInt32.toNat_add _ _
    rw [if_pos h, hlower, hadd, Nat.mod_eq_of_lt (by omega)]
  · rw [if_neg h]
    exact congrArg Char.toNat (dif_neg (mt hcapital.mp h))

/-- The character of a number, if there is one. -/
lemma toNat_ofNat {n : ℕ} (hvalid : n.isValidChar) : (Char.ofNat n).toNat = n :=
  congrArg Char.toNat (dif_pos hvalid)

/-- **A character is lowered to a plain one within ASCII** if it is one of its forms. -/
theorem toLower_eq_iff {c d : Char} (hd : IsPlain d) : c.toLower = d ↔ IsForm c d := by
  have hext : ∀ a b : Char, a = b ↔ a.toNat = b.toNat := fun a b =>
    ⟨congrArg Char.toNat, fun h => by rw [← Char.ofNat_toNat a, h, Char.ofNat_toNat]⟩
  obtain ⟨hpos, hascii, hsmall⟩ := hd
  rw [hext, toNat_toLower, IsForm, hext]
  split_ifs <;> omega

/-! ### Capitals by runs -/

/-- **Of the capitals outside ASCII the kelvin alone has a small form inside it.** -/
theorem run_cases : ∀ run ∈ caseRuns, run = (65, 90, 1, 32) ∨ run = (0x212A, 0x212A, 1, -8383)
    ∨ 128 ≤ run.1 ∧ 128 ≤ run.1 + run.2.2.2 := by
  decide +kernel

/-- A character beyond ASCII is not plain, nor is what stands for one that does not exist. -/
lemma not_isPlain_ofNat {n : ℕ} (h : 128 ≤ n) : ¬ IsPlain (Char.ofNat n) := by
  rintro ⟨hpos, hascii, -⟩
  by_cases hvalid : n.isValidChar
  · rw [toNat_ofNat hvalid] at hascii
    omega
  · have hnone : (Char.ofNat n).toNat = 0 := congrArg Char.toNat (dif_neg hvalid)
    omega

/-- A plain character is in no run. -/
lemma isInRun_eq_false {d : Char} (hd : IsPlain d) {run : ℕ × ℕ × ℕ × ℤ} (hrun : run ∈ caseRuns) :
    isInRun d.toNat run = false := by
  obtain ⟨-, hascii, hsmall⟩ := hd
  rw [Bool.eq_false_iff, isInRun, ne_eq, Bool.and_eq_true, Bool.and_eq_true, decide_eq_true_eq,
    decide_eq_true_eq]
  rintro ⟨hin, -⟩
  obtain rfl | rfl | hbeyond := run_cases run hrun
  · exact hsmall hin
  · omega
  · omega

/-- **The characters with a plain small form** are those of its two forms, and the kelvin. -/
theorem lowerChar_eq_iff {c d : Char} (hd : IsPlain d) :
    lowerChar c = [d] ↔ IsForm c d ∨ c = kelvin ∧ d = 'k' := by
  constructor
  · intro h
    rw [lowerChar] at h
    split_ifs at h with hdotted
    · cases h
    · split at h
      · next run hfind =>
        have hsmall : d = Char.ofNat (c.toNat + run.2.2.2).toNat := (List.singleton_inj.mp h).symm
        have hin := List.find?_some hfind
        rw [isInRun, Bool.and_eq_true, Bool.and_eq_true, decide_eq_true_eq,
          decide_eq_true_eq] at hin
        obtain ⟨⟨hlow, hhigh⟩, -⟩ := hin
        -- the run of the ASCII capitals, the kelvin, or a run whose small forms are not in ASCII
        obtain rfl | rfl | ⟨-, hbeyond⟩ := run_cases run (List.mem_of_find?_eq_some hfind)
        · dsimp only at hlow hhigh hsmall
          have hplace : d.toNat = c.toNat + 32 := by
            have hsum : ((c.toNat : ℤ) + 32).toNat = c.toNat + 32 := by omega
            rw [hsmall, hsum, toNat_ofNat (Or.inl (by omega))]
          exact Or.inl (Or.inr (by omega))
        · dsimp only at hlow hhigh
          have hkelvin : c.toNat = 0x212A := by omega
          rw [hkelvin] at hsmall
          exact Or.inr ⟨by rw [← Char.ofNat_toNat c, hkelvin, kelvin], hsmall⟩
        · refine absurd hd (hsmall ▸ not_isPlain_ofNat ?_)
          omega
      · exact Or.inl (Or.inl (List.singleton_inj.mp h))
  · rintro ((rfl | ⟨hlow, hhigh, hcapital⟩) | ⟨rfl, rfl⟩)
    · have hnone : caseRuns.find? (isInRun c.toNat) = none := by
        rw [List.find?_eq_none]
        intro run hrun
        rw [isInRun_eq_false hd hrun]
        exact Bool.false_ne_true
      have hascii := hd.2.1
      rw [lowerChar, if_neg (by omega), hnone]
    · have hfind : caseRuns.find? (isInRun c.toNat) = some (65, 90, 1, 32) := by
        refine List.find?_cons_of_pos ?_
        rw [isInRun, Nat.mod_one]
        simp only [Bool.and_eq_true, decide_eq_true_eq, BEq.rfl, and_true]
        omega
      have hsmall : ((c.toNat : ℤ) + 32).toNat = d.toNat := by omega
      rw [lowerChar, if_neg (by omega), hfind]
      dsimp only
      rw [hsmall, Char.ofNat_toNat]
    · decide

/-! ### Words -/

/-- Relations that agree on plain characters relate the same texts to a plain word. -/
lemma forall₂_congr_of_plain {R S : Char → Char → Prop}
    (h : ∀ c d, IsPlain d → (R c d ↔ S c d)) {chars word : List Char}
    (hword : ∀ d ∈ word, IsPlain d) : List.Forall₂ R chars word ↔ List.Forall₂ S chars word := by
  induction word generalizing chars with
  | nil => rw [List.forall₂_nil_right_iff, List.forall₂_nil_right_iff]
  | cons d word ih =>
    obtain ⟨hd, hrest⟩ := List.forall_mem_cons.mp hword
    simp only [List.forall₂_cons_right_iff, h _ _ hd, ih hrest]

/-- A character has one small form, but for the one that has a letter and a mark above it. -/
lemma lowerChar_cases (c : Char) :
    (∃ d, lowerChar c = [d]) ∨ lowerChar c = ['i', Char.ofNat 0x307] := by
  rw [lowerChar]
  split_ifs
  · exact Or.inr rfl
  · split
    · exact Or.inl ⟨_, rfl⟩
    · exact Or.inl ⟨_, rfl⟩

/-- A plain word comes from a character for each of its own. -/
lemma flatMap_lowerChar_eq_iff {chars word : List Char} (hword : ∀ d ∈ word, IsPlain d) :
    chars.flatMap lowerChar = word ↔ List.Forall₂ (fun c d => lowerChar c = [d]) chars word := by
  constructor
  · intro h
    induction chars generalizing word with
    | nil =>
      subst h
      exact List.Forall₂.nil
    | cons c chars ih =>
      rw [List.flatMap_cons] at h
      obtain ⟨d, hd⟩ | hmark := lowerChar_cases c
      · rw [hd, List.singleton_append] at h
        subst h
        exact List.Forall₂.cons hd (ih (fun e he => hword e (List.mem_cons_of_mem d he)) rfl)
      -- the mark is not plain, so the word cannot hold it
      · have hmem : Char.ofNat 0x307 ∈ word := by
          rw [← h, hmark]
          simp
        exact absurd (hword _ hmem) (not_isPlain_ofNat (by norm_num))
  · intro h
    induction h with
    | nil => rfl
    | cons hd _ ih =>
      rw [List.flatMap_cons, hd, ih fun e he => hword e (List.mem_cons_of_mem _ he),
        List.singleton_append]

/-- A word is plain if its characters are. -/
def IsPlainWord (word : String) : Prop := ∀ d ∈ word.toList, IsPlain d

instance : DecidablePred IsPlainWord := fun word =>
  decidable_of_iff (word.toList.all (fun d => decide (IsPlain d)) = true)
    (by simp only [List.all_eq_true, decide_eq_true_eq, IsPlainWord])

/-- A text spells a word: it has its letters in either case, or the sign of the kelvin for a `k`. -/
def Spells (text word : String) : Prop :=
  List.Forall₂ (fun c d => IsForm c d ∨ c = kelvin ∧ d = 'k') text.toList word.toList

/-- **The texts that are lowered to a plain word** are those that spell it. -/
theorem lowercase_eq_iff {text word : String} (hword : IsPlainWord word) :
    lowercase text = word ↔ Spells text word := by
  have hlists : lowercase text = word ↔ text.toList.flatMap lowerChar = word.toList := by
    rw [lowercase, ← String.toList_inj, String.toList_ofList]
  rw [hlists, flatMap_lowerChar_eq_iff hword]
  exact forall₂_congr_of_plain (fun c d hd => lowerChar_eq_iff hd) hword

/-- The characters from every position on are the tails of a text. -/
lemma mem_suffixes {chars rest : List Char} : rest ∈ suffixes chars ↔ rest <:+ chars := by
  induction chars with
  | nil => rw [suffixes, List.mem_singleton, List.suffix_nil]
  | cons c chars ih => rw [suffixes, List.mem_cons, ih, List.suffix_cons_iff]

/-- A text holds a word: the letters of the word follow each other somewhere in it, in either
case. -/
def Holds (text word : String) : Prop :=
  ∃ before stretch after,
    text.toList = before ++ stretch ++ after ∧ List.Forall₂ IsForm stretch word.toList

/-- **A text mentions a plain word exactly if it holds it.** -/
theorem mentions_iff {text word : String} (hword : IsPlainWord word) :
    mentions word text = true ↔ Holds text word := by
  have hwithin : mentions word text = true ↔ word.toList <:+: text.toList.map Char.toLower := by
    rw [mentions, List.any_eq_true, List.infix_iff_prefix_suffix]
    simp only [mem_suffixes, List.isPrefixOf_iff_prefix, and_comm]
  have hforms : ∀ stretch : List Char,
      stretch.map Char.toLower = word.toList ↔ List.Forall₂ IsForm stretch word.toList := by
    intro stretch
    rw [← List.forall₂_eq_eq_eq, List.forall₂_map_left_iff]
    exact forall₂_congr_of_plain (fun c d hd => toLower_eq_iff hd) hword
  rw [hwithin]
  constructor
  · rintro ⟨before, after, h⟩
    obtain ⟨front, after', htext, hfront, -⟩ := List.map_eq_append_iff.mp h.symm
    obtain ⟨before', stretch, rfl, -, hstretch⟩ := List.map_eq_append_iff.mp hfront
    exact ⟨before', stretch, after', htext, (hforms stretch).mp hstretch⟩
  · rintro ⟨before, stretch, after, htext, hstretch⟩
    refine ⟨before.map Char.toLower, after.map Char.toLower, ?_⟩
    rw [htext, List.map_append, List.map_append, (hforms stretch).mpr hstretch]

end Text

end MatrixSymbol
