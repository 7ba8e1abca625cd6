/-
Every scan ends, at the change that reaches its limit or at the edge (`scanTransitions`, section 3.1
of the specification).

A walk that moves at all leaves the bitmap, whatever its direction (`Ray.exists_stays_iff`).  What a
scan finds on the way is told by the positions at which the colour changes: how many there are
before the edge, and which of them is the last one wanted.

* `Scan.Change`: a colour differs from the one before it; `Scan.changesAfter_map_range`,
  `Scan.exists_change`: changes are counted by position, and enough of them hold the wanted one;
* `Scan.count_map_range_of_change`, `Scan.count_map_range_of_lt`: what a scan finds among colours
  that are given by position;
* `Scan.along_limit_or_edge`: what a scan of a bitmap finds, from any start and in any direction.
-/
import Mathlib.Data.Nat.Nth
import MatrixSymbol.Proofs.Transitions

namespace MatrixSymbol

/-! ### Changes by position -/

namespace Scan

/-- The colour before a position.  What comes before the first one is taken to be dark. -/
def before (colour : ℕ → Bool) : ℕ → Bool
  | 0 => true
  | k + 1 => colour k

/-- The colour at a position differs from the one before it. -/
def Change (colour : ℕ → Bool) (k : ℕ) : Prop := colour k ≠ before colour k

instance (colour : ℕ → Bool) : DecidablePred (Change colour) :=
  fun k => inferInstanceAs (Decidable (colour k ≠ before colour k))

variable {colour : ℕ → Bool}

lemma getLastD_map_range (colour : ℕ → Bool) (n : ℕ) :
    ((List.range n).map colour).getLastD true = before colour n := by
  cases n with
  | zero => rfl
  | succ n =>
    rw [List.range_succ, List.map_append, List.map_singleton, List.getLastD_concat, before]

/-- Changes are counted by their positions. -/
lemma changesAfter_map_range (colour : ℕ → Bool) (n : ℕ) :
    changesAfter true ((List.range n).map colour) = Nat.count (Change colour) n := by
  induction n with
  | zero => rfl
  | succ n ih =>
    rw [List.range_succ, List.map_append, List.map_singleton, changesAfter_append, ih,
      getLastD_map_range, Nat.count_succ]
    by_cases hchange : Change colour n
    · rw [if_pos hchange, changesAfter, if_neg hchange, changesAfter]
    · rw [if_neg hchange, changesAfter, if_pos (not_not.mp hchange), changesAfter]

/-- Among enough changes there is the one that reaches the limit: all but one of those that are
wanted come before it. -/
lemma exists_change {limit n : ℕ} (hpos : 0 < limit) (hmany : limit ≤ Nat.count (Change colour) n) :
    ∃ k < n, Change colour k ∧ Nat.count (Change colour) k + 1 = limit := by
  have hlt : limit - 1 < Nat.count (Change colour) n := by omega
  have hcard := fun hf => hlt.trans_le (Nat.count_le_card (p := Change colour) hf n)
  refine ⟨Nat.nth (Change colour) (limit - 1), Nat.nth_lt_of_lt_count hlt, Nat.nth_mem _ hcard, ?_⟩
  rw [Nat.count_nth hcard, Nat.sub_add_cancel hpos]

/-- A scan stops at the change that reaches the limit. -/
lemma count_map_range_of_change {limit n k : ℕ} (hk : k < n) (hchange : Change colour k)
    (hcount : Nat.count (Change colour) k + 1 = limit) :
    count limit ((List.range n).map colour) = ⟨limit, k, false⟩ := by
  obtain ⟨rest, rfl⟩ := Nat.exists_eq_add_of_lt hk
  rw [Nat.add_assoc, List.range_add, List.range_succ_eq_map, List.map_cons, List.map_append,
    List.map_cons, Nat.add_zero, count_eq_of_change, List.length_map, List.length_range]
  · rw [changesAfter_map_range, hcount]
  · rwa [getLastD_map_range]

/-- With too few changes it runs off, and has counted all of them. -/
lemma count_map_range_of_lt {limit n : ℕ} (hfew : Nat.count (Change colour) n < limit) :
    count limit ((List.range n).map colour) = ⟨Nat.count (Change colour) n, n, true⟩ := by
  rw [← changesAfter_map_range] at hfew ⊢
  rw [count_eq_of_lt hfew, List.length_map, List.length_range]

/-! ### Scans of a bitmap -/

/-- **A scan ends at the change that reaches its limit, or at the edge.**  Start, direction and
limit are whole numbers, of which the direction is not zero and the limit is positive; the start may
lie outside the bitmap.  Let the walk stay inside for `n` positions, which are at most as many as
the longer side has pixels.  If the colour changes at enough of them, the scan has seen as many
changes as the limit says, and has gone to the last of these; otherwise it has seen all there are,
and has gone `n` steps and off the bitmap.  So it runs off exactly if it has seen fewer changes than
the limit, it takes no more steps than the longer side has pixels, and it is never a fault. -/
theorem along_limit_or_edge (b : Bitmap) {x y : Number} {d : Direction} {limit : Number}
    {i j di dj : ℤ} {l : ℕ} (hx : x.toInt? = some i) (hy : y.toInt? = some j)
    (hdx : d.dx.toInt? = some di) (hdy : d.dy.toInt? = some dj) (hlimit : limit.toNat? = some l)
    (hmoves : di ≠ 0 ∨ dj ≠ 0) (hpos : 1 ≤ l) :
    ∃ n ≤ max b.width b.height, (∀ k, Ray.Stays b i j di dj k ↔ k < n)
      ∧ ∃ scan, along b x y d limit = .ok scan
        ∧ (l ≤ Nat.count (Change (Ray.pixel b i j di dj)) n →
          ∃ k < n, Change (Ray.pixel b i j di dj) k
            ∧ Nat.count (Change (Ray.pixel b i j di dj)) k + 1 = l ∧ scan = ⟨l, k, false⟩)
        ∧ (Nat.count (Change (Ray.pixel b i j di dj)) n < l →
          scan = ⟨Nat.count (Change (Ray.pixel b i j di dj)) n, n, true⟩)
        ∧ scan.distance ≤ max b.width b.height
        ∧ (scan.reachedEdge = true ↔ scan.transitions < l) := by
  obtain ⟨n, hn, hstays, hcolours⟩ := Ray.exists_stays_iff b i j hmoves
  have halong : along b x y d limit
      = .ok (count l ((List.range n).map (Ray.pixel b i j di dj))) := by
    rw [along, hx, hy, hdx, hdy, ← hcolours]
    simp only [ofRay, limitOf, hlimit, Ray.cast, Option.getD_some]
  refine ⟨n, hn, hstays, _, halong, ?_⟩
  by_cases hmany : l ≤ Nat.count (Change (Ray.pixel b i j di dj)) n
  · obtain ⟨k, hk, hchange, hcount⟩ := exists_change hpos hmany
    rw [count_map_range_of_change hk hchange hcount]
    refine ⟨fun _ => ⟨k, hk, hchange, hcount, rfl⟩, fun hfew => absurd hmany (not_le.mpr hfew),
      (hk.trans_le hn).le, ?_⟩
    simp
  · rw [count_map_range_of_lt (not_le.mp hmany)]
    exact ⟨fun h => absurd h hmany, fun _ => rfl, hn, by simpa using hmany⟩

/-- One dark pixel, a leap of a column and two rows away from the light last one. -/
def leap : Bitmap :=
  Bitmap.ofFn 5 7 (by decide) (by decide) (by decide) fun x y => x == 3 && y == 4

/-- From the last pixel four positions lie on the way back in such leaps.  The colour changes at the
first three of them, since a scan starts in the dark. -/
theorem along_limit_or_edge_leap :
    (Number.ofInt 4).toInt? = some 4 ∧ (Number.ofInt 6).toInt? = some 6
    ∧ (Number.ofInt (-1)).toInt? = some (-1) ∧ (Number.ofInt (-2)).toInt? = some (-2)
    ∧ (Number.ofNat 3).toNat? = some 3 ∧ (-1 : ℤ) ≠ 0 ∧ 1 ≤ 3
    ∧ (∀ k, Ray.Stays leap 4 6 (-1) (-2) k ↔ k < 4)
    ∧ ∃ k < 4, Change (Ray.pixel leap 4 6 (-1) (-2)) k
      ∧ Nat.count (Change (Ray.pixel leap 4 6 (-1) (-2))) k + 1 = 3
      ∧ along leap (.ofInt 4) (.ofInt 6) ⟨.ofInt (-1), .ofInt (-2)⟩ (.ofNat 3)
        = .ok ⟨3, k, false⟩ := by
  obtain ⟨n, -, hstays, scan, halong, hmany, -⟩ :=
    @along_limit_or_edge leap (.ofInt 4) (.ofInt 6) ⟨.ofInt (-1), .ofInt (-2)⟩ (.ofNat 3) 4 6 (-1)
      (-2) 3 (by decide) (by decide) (by decide) (by decide) (by decide) (Or.inl (by decide))
      (by decide)
  have hin : Ray.Stays leap 4 6 (-1) (-2) 3 := by unfold Ray.Stays; decide
  have hout : ¬ Ray.Stays leap 4 6 (-1) (-2) 4 := by unfold Ray.Stays; decide
  rw [hstays] at hin hout
  obtain rfl : n = 4 := by omega
  obtain ⟨k, hk, hchange, hcount, rfl⟩ := hmany (by decide)
  exact ⟨by decide, by decide, by decide, by decide, by decide, by decide, by decide, hstays, k, hk,
    hchange, hcount, halong⟩

end Scan

end MatrixSymbol
