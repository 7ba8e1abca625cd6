/-
Places in a sequence, packed into one number and unpacked (`toDecodedPayload`, section 3.6 of the
specification).

The position of a symbol is a 32-bit word, the index in its upper 28 bits and the count less one in
its lowest four, as long as the two fit.

* `Payload.placeOf_isSome_iff`, `Payload.eq_of_placeOf`: where a place is reported, and which;
* `SequencePlace.index`, `SequencePlace.last`: the two parts of a position;
* `Payload.word`: the word that is packed; `Payload.toNat_word_mod`, `Payload.toNat_word_div`: its
  parts;
* `Sighting.IsAt`: whole numbers for the index and the count; `Payload.Fits`: the range in which the
  two are kept;
* `Payload.place_kept_iff`, `Payload.exists_fits_of_nonneg`: what is kept is exactly what fits, and
  every position that is not negative belongs to a place that fits;
* `Payload.positions_determine`: so a position determines a place that fits, and any other place is
  mistaken for one unless its position is negative.
-/
import MatrixSymbol.Payload
import MatrixSymbol.Proofs.Exactness
import MatrixSymbol.Proofs.Numerals

namespace MatrixSymbol

/-! ### Words of whole numbers -/

namespace Number

lemma zero_le_of_toRat? {x : Number} {q : ℚ} (h : x.toRat? = some q) (hq : 0 ≤ q) :
    (0 : Number).le x = true := by
  cases x with
  | finite q' =>
    obtain rfl : q' = q := Option.some.inj h
    exact decide_eq_true hq
  | negZero => rfl
  | infinite _ | nan => cases h

lemma zero_lt_of_toRat? {x : Number} {q : ℚ} (h : x.toRat? = some q) (hq : 0 < q) :
    (0 : Number).lt x = true := by
  cases x with
  | finite q' =>
    obtain rfl : q' = q := Option.some.inj h
    exact decide_eq_true hq
  | negZero => exact absurd (Option.some.inj h) hq.ne
  | infinite _ | nan => cases h

/-- The word of a whole number. -/
lemma toWord_of_toRat? {x : Number} {z : ℤ} (h : x.toRat? = some (z : ℚ)) :
    x.toWord = BitVec.ofInt 32 z := by
  have htruncate : truncate (z : ℚ) = z := by
    rw [truncate, ← Int.cast_neg, Rat.floor_intCast, Rat.floor_intCast, neg_neg, ite_self]
  rw [toWord, h]
  exact congrArg (BitVec.ofInt 32) htruncate

/-- The word of a natural number of at most 32 binary digits has its value. -/
lemma toNat_toWord {x : Number} {n : ℕ} (h : x.toRat? = some (n : ℚ)) (hn : n < 2 ^ 32) :
    x.toWord.toNat = n := by
  rw [toWord_of_toRat? (z := n) (by exact_mod_cast h), BitVec.ofInt_natCast, BitVec.toNat_ofNat,
    Nat.mod_eq_of_lt hn]

/-- One less than a positive number is exact, and so is its word. -/
lemma toNat_toWord_sub_one {x : Number} {n : ℕ} (h : x.toRat? = some (n : ℚ)) (hpos : 0 < n)
    (hn : n < 2 ^ 32) : (x - 1).toWord.toNat = n - 1 := by
  obtain ⟨m, rfl⟩ := Nat.exists_eq_add_one.mpr hpos
  have hx : x = ofInt (m + (1 : ℕ)) := by
    cases x with
    | finite q =>
      rw [Option.some.inj h, ofInt]
      push_cast
      rfl
    | negZero => exact absurd (Option.some.inj h).symm (by positivity)
    | infinite _ | nan => cases h
  have hsub : x - 1 = ofInt m := by
    rw [hx]
    exact ofInt_sub_ofNat 1 (isExact_of_lt (by omega))
  rw [hsub]
  exact toNat_toWord (by rfl) (by omega)

end Number

/-! ### The parts of a position -/

namespace SequencePlace

/-- The upper bits of a position, shifted down with its sign: the index, if it was kept. -/
def index (place : SequencePlace) : ℤ := (place.position.toWord.sshiftRight 4).toInt

/-- The lowest four bits of a position: the count less one, if it was kept. -/
def last (place : SequencePlace) : ℤ := (place.position.toWord &&& 15#32).toInt

end SequencePlace

namespace Payload

/-- A place is reported where the index is not negative, the count is positive, and the name of the
sequence starts with a number. -/
lemma placeOf_isSome_iff {found : Sighting} :
    (placeOf found).isSome = true
      ↔ (0 : Number).le found.index = true ∧ (0 : Number).lt found.size = true
        ∧ Text.StartsWithNumber found.sequence := by
  rw [placeOf, ← Number.ofIntegerText?_isSome_iff, ← and_assoc, ← Bool.and_eq_true]
  split_ifs with h
  · rw [Option.isSome_map, and_iff_right h]
  · simp [h]

/-- Which place it is. -/
lemma eq_of_placeOf {found : Sighting} {place : SequencePlace} (h : placeOf found = some place) :
    place.position = .ofInt (position found.index found.size)
      ∧ Number.ofIntegerText? found.sequence = some place.parity := by
  rw [placeOf] at h
  split_ifs at h
  obtain ⟨parity, hparity, rfl⟩ := Option.map_eq_some_iff.mp h
  exact ⟨rfl, hparity⟩

/-- The word that is packed. -/
def word (index size : Number) : BitVec 32 := (index.toWord <<< 4) ||| (size - 1).toWord

lemma toNat_shiftLeft_four (a : BitVec 32) : (a <<< 4).toNat = 16 * (a.toNat % 2 ^ 28) := by
  rw [BitVec.toNat_shiftLeft, Nat.shiftLeft_eq]
  omega

/-- The lowest four bits are those of the count less one. -/
lemma toNat_word_mod (index size : Number) :
    (word index size).toNat % 16 = (size - 1).toWord.toNat % 16 := by
  rw [word, BitVec.toNat_or, toNat_shiftLeft_four, show 16 = 2 ^ 4 by norm_num,
    Nat.or_mod_two_pow, Nat.mul_mod_right, Nat.zero_or]

/-- The other bits are those of the index, of which the first four are lost, if the count less one
has at most four bits. -/
lemma toNat_word_div (index size : Number) (h : (size - 1).toWord.toNat < 16) :
    (word index size).toNat / 16 = index.toWord.toNat % 2 ^ 28 := by
  rw [word, BitVec.toNat_or, toNat_shiftLeft_four, show 16 = 2 ^ 4 by norm_num,
    Nat.or_div_two_pow, Nat.mul_div_cancel_left _ (by norm_num), Nat.div_eq_of_lt h, Nat.or_zero]

variable {found : Sighting} {place : SequencePlace}

/-- The word is read back from a position. -/
lemma toWord_of_placeOf (h : placeOf found = some place) :
    place.position.toWord = word found.index found.size := by
  rw [(eq_of_placeOf h).1, Number.toWord_of_toRat? (z := position found.index found.size) rfl]
  exact BitVec.ofInt_toInt

lemma index_of_placeOf (h : placeOf found = some place) :
    place.index = (word found.index found.size).toInt / 16 := by
  rw [SequencePlace.index, toWord_of_placeOf h, BitVec.toInt_sshiftRight, Int.shiftRight_eq_div_pow]
  rfl

lemma last_of_placeOf (h : placeOf found = some place) :
    place.last = (word found.index found.size).toNat % 16 := by
  have hand : (word found.index found.size &&& 15#32).toNat
      = (word found.index found.size).toNat % 16 := by
    rw [BitVec.toNat_and]
    exact Nat.and_two_pow_sub_one_eq_mod _ 4
  rw [SequencePlace.last, toWord_of_placeOf h, BitVec.toInt_eq_toNat_cond, hand, if_pos (by omega)]
  norm_cast

end Payload

/-! ### Places that are kept -/

/-- The index and the count that a sighting reports are the whole numbers `i` and `s`, and the name
of the sequence starts with its parity. -/
structure Sighting.IsAt (found : Sighting) (i s : ℕ) : Prop where
  toRat?_index : found.index.toRat? = some (i : ℚ)
  toRat?_size : found.size.toRat? = some (s : ℚ)
  startsWithNumber : Text.StartsWithNumber found.sequence

/-- The same sighting at another place. -/
def Sighting.move (found : Sighting) (i s : ℕ) : Sighting :=
  { found with index := .ofNat i, size := .ofNat s }

namespace Payload

variable {found : Sighting} {place : SequencePlace} {i s : ℕ}

/-- The index has at most 27 binary digits, and the count less one at most four. -/
def Fits (i s : ℕ) : Prop := i < 2 ^ 27 ∧ 0 < s ∧ s ≤ 16

instance : Decidable (Fits i s) := inferInstanceAs (Decidable (_ ∧ _))

/-- A place is reported for whole numbers, of which the count is positive. -/
lemma exists_placeOf (h : found.IsAt i s) (hs : 0 < s) : ∃ place, placeOf found = some place := by
  refine Option.isSome_iff_exists.mp (placeOf_isSome_iff.mpr ⟨?_, ?_, h.startsWithNumber⟩)
  · exact Number.zero_le_of_toRat? h.toRat?_index i.cast_nonneg
  · exact Number.zero_lt_of_toRat? h.toRat?_size (by exact_mod_cast hs)

/-- The word of a place that fits. -/
lemma toNat_word_of_fits (h : found.IsAt i s) (hfits : Fits i s) :
    (word found.index found.size).toNat = 16 * i + (s - 1) := by
  obtain ⟨hi, hs, hle⟩ := hfits
  have hindex := Number.toNat_toWord h.toRat?_index (by omega)
  have hsize := Number.toNat_toWord_sub_one h.toRat?_size hs (by omega)
  have hdiv := toNat_word_div found.index found.size (by omega)
  have hmod := toNat_word_mod found.index found.size
  omega

/-- **What is kept is what fits.**  The upper bits are 28 with the sign, and the lowest ones are
four, so that nothing else can be read back. -/
lemma place_kept_iff (h : found.IsAt i s) (hs : 0 < s) (hplace : placeOf found = some place) :
    place.index = i ∧ place.last = s - 1 ↔ Fits i s := by
  have hsigned := BitVec.toInt_eq_toNat_cond (word found.index found.size)
  have hlt := (word found.index found.size).isLt
  rw [index_of_placeOf hplace, last_of_placeOf hplace]
  constructor
  · rintro ⟨hindex, hlast⟩
    refine ⟨?_, hs, ?_⟩ <;> omega
  · intro hfits
    have hword := toNat_word_of_fits h hfits
    obtain ⟨hi, -, hle⟩ := hfits
    rw [hsigned, if_pos (by omega)]
    constructor <;> omega

/-- The place of a word that is not negative: its upper bits and its lowest four. -/
lemma exists_fits_of_nonneg {w : BitVec 32} (h : 0 ≤ w.toInt) :
    ∃ i s, Fits i s ∧ 16 * i + (s - 1) = w.toNat := by
  have hlt := w.isLt
  rw [BitVec.toInt_eq_toNat_cond] at h
  refine ⟨w.toNat / 16, w.toNat % 16 + 1, ⟨?_, by omega, by omega⟩, by omega⟩
  split_ifs at h <;> omega

/-- A sighting that has been moved is at its new place. -/
lemma isAt_move (found : Sighting) (h : Text.StartsWithNumber found.sequence) (i s : ℕ) :
    (found.move i s).IsAt i s where
  toRat?_index := by rw [Sighting.move, Number.ofNat_eq_finite]; rfl
  toRat?_size := by rw [Sighting.move, Number.ofNat_eq_finite]; rfl
  startsWithNumber := h

/-- A sighting is given the place of another one if their words and the parities are the same. -/
lemma placeOf_move (hplace : placeOf found = some place) (hfits : Fits i s)
    (hword : 16 * i + (s - 1) = (word found.index found.size).toNat) :
    placeOf (found.move i s) = some place := by
  obtain ⟨hposition, hparity⟩ := eq_of_placeOf hplace
  have hstarts : Text.StartsWithNumber found.sequence :=
    Number.ofIntegerText?_isSome_iff.mp (Option.isSome_of_mem hparity)
  have hat := isAt_move found hstarts i s
  obtain ⟨place', hplace'⟩ := exists_placeOf hat hfits.2.1
  obtain ⟨hposition', hparity'⟩ := eq_of_placeOf hplace'
  have hwords : word (found.move i s).index (found.move i s).size = word found.index found.size :=
    BitVec.eq_of_toNat_eq ((toNat_word_of_fits hat hfits).trans hword)
  rw [hplace', Option.some.injEq, SequencePlace.mk.injEq]
  refine ⟨?_, Option.some.inj (hparity'.symm.trans hparity)⟩
  rw [hposition, hposition']
  exact congrArg (fun w => Number.ofInt w.toInt) hwords

/-- **Which places survive packing.**  For whole numbers, of which the count is positive, a position
is reported; index and count are read back from it exactly if they fit.  So a position determines
the place among those that fit.  Of any other place that is accepted, of whole numbers or not, the
position is negative, or else it is also that of a place that fits. -/
theorem positions_determine :
    (∀ (found : Sighting) (i s : ℕ), found.IsAt i s → 0 < s →
      ∃ place, (ofSighting found).place = some place
        ∧ (place.index = i ∧ place.last = s - 1 ↔ Fits i s))
    ∧ (∀ (found found' : Sighting) (i s i' s' : ℕ) (place place' : SequencePlace),
      found.IsAt i s → found'.IsAt i' s' → Fits i s → Fits i' s' →
      (ofSighting found).place = some place → (ofSighting found').place = some place' →
      place.position = place'.position → i = i' ∧ s = s')
    ∧ ∀ (found : Sighting) (place : SequencePlace), (ofSighting found).place = some place →
      (¬ ∃ i s, found.IsAt i s ∧ Fits i s) →
      ∃ n, place.position = .ofInt n
        ∧ (n < 0 ∨ ∃ i s, Fits i s ∧ ¬ found.IsAt i s ∧ (found.move i s).IsAt i s
          ∧ (ofSighting (found.move i s)).place = some place) := by
  refine ⟨fun found i s h hs => ?_, fun found found' i s i' s' place place' h h' hfits hfits'
    hplace hplace' hposition => ?_, fun found place hplace hout => ?_⟩
  · obtain ⟨place, hplace⟩ := exists_placeOf h hs
    exact ⟨place, hplace, place_kept_iff h hs hplace⟩
  · obtain ⟨hindex, hlast⟩ := (place_kept_iff h hfits.2.1 hplace).mpr hfits
    obtain ⟨hindex', hlast'⟩ := (place_kept_iff h' hfits'.2.1 hplace').mpr hfits'
    rw [SequencePlace.index, hposition, ← SequencePlace.index] at hindex
    rw [SequencePlace.last, hposition, ← SequencePlace.last] at hlast
    omega
  · refine ⟨_, (eq_of_placeOf hplace).1, ?_⟩
    obtain hneg | hnonneg := lt_or_ge (position found.index found.size) 0
    · exact .inl hneg
    · obtain ⟨i, s, hfits, hword⟩ := exists_fits_of_nonneg hnonneg
      have hstarts : Text.StartsWithNumber found.sequence :=
        (placeOf_isSome_iff.mp (Option.isSome_of_mem hplace)).2.2
      exact .inr ⟨i, s, hfits, fun h => hout ⟨i, s, h, hfits⟩, isAt_move found hstarts i s,
        placeOf_move hplace hfits hword⟩

/-- A sighting that tells nothing but its place in a sequence of parity 42. -/
def blankSighting (i s : ℕ) : Sighting where
  text := ""
  bytes := []
  corners := ⟨⟨0, 0⟩, ⟨0, 0⟩, ⟨0, 0⟩, ⟨0, 0⟩⟩
  isValid := true
  report := ""
  level := ""
  isReflected := false
  index := .ofNat i
  size := .ofNat s
  sequence := "42"
  symbol := none

lemma isAt_blankSighting (i s : ℕ) : (blankSighting i s).IsAt i s :=
  isAt_move (blankSighting i s)
    ⟨[], [], '4', ['2'], (by decide : "42".toList = ['4', '2']), by rintro _ ⟨⟩, .inl rfl, rfl⟩ i s

/-- The second of three symbols is told from the fourth of one.  The first of seventeen has the
position 16, and is mistaken for another one. -/
theorem positions_determine_near_range :
    (∃ place place', (ofSighting (blankSighting 1 3)).place = some place
      ∧ (place.index = (1 : ℕ) ∧ place.last = (3 : ℕ) - 1)
      ∧ (ofSighting (blankSighting 3 1)).place = some place' ∧ place.position ≠ place'.position)
    ∧ (ofSighting (blankSighting 0 17)).place = some ⟨.ofInt 16, 42⟩
    ∧ ∃ i s, Fits i s ∧ ¬ (blankSighting 0 17).IsAt i s
      ∧ ((blankSighting 0 17).move i s).IsAt i s
      ∧ (ofSighting ((blankSighting 0 17).move i s)).place = some ⟨.ofInt 16, 42⟩ := by
  have hplace : (ofSighting (blankSighting 0 17)).place = some ⟨.ofInt 16, 42⟩ := by decide +kernel
  refine ⟨?_, hplace, ?_⟩
  · obtain ⟨place, hplace, hkept⟩ :=
      positions_determine.1 _ 1 3 (isAt_blankSighting 1 3) (by decide)
    obtain ⟨place', hplace', -⟩ := positions_determine.1 _ 3 1 (isAt_blankSighting 3 1) (by decide)
    refine ⟨place, place', hplace, hkept.mpr (by decide), hplace', fun hposition => ?_⟩
    have hsame := positions_determine.2.1 _ _ 1 3 3 1 place place' (isAt_blankSighting 1 3)
      (isAt_blankSighting 3 1) (by decide) (by decide) hplace hplace' hposition
    exact absurd hsame.1 (by decide)
  · have hout : ¬ ∃ i s, (blankSighting 0 17).IsAt i s ∧ Fits i s := by
      rintro ⟨i, s, hat, hfits⟩
      have hsize : ((17 : ℕ) : ℚ) = s :=
        Option.some.inj ((isAt_blankSighting 0 17).toRat?_size.symm.trans hat.toRat?_size)
      have hs : 17 = s := by exact_mod_cast hsize
      exact absurd hfits.2.2 (by omega)
    obtain ⟨n, hn, hneg | hother⟩ := positions_determine.2.2 _ _ hplace hout
    · have h : (16 : ℚ) = n := Number.finite.inj hn
      have h' : (16 : ℤ) = n := by exact_mod_cast h
      omega
    · exact hother

end Payload

end MatrixSymbol
