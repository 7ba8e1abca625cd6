/-
A bitmap as a store of cells (`get` and `set`, section 2 of the specification).

Cells are set by arbitrary numbers, one call after the other.  A call that goes to no cell is a
fault, and the bitmap stays as it is.

* `Setting`: a call that sets a cell; `Setting.GoesTo`: the cell that it goes to;
  `Setting.last?`: the value that the calls of a run last gave to a cell;
* `Bitmap.locate_eq_ok_iff`, `Bitmap.set_eq_error_iff`: which calls go to a cell, and which are
  faults;
* `Bitmap.after`, `Bitmap.run`: the bitmap after a call, and after a run of calls;
* `Bitmap.isOn_after`, `Bitmap.isOn_run`: what a call does to the view, and what a run does;
* `Bitmap.foldlM_eq_run`, `Bitmap.run_blank`: a loop of calls is a run of calls, and what it leaves
  on if it sets cells of a blank bitmap on;
* `Bitmap.get_run`: a new bitmap holds in every cell what that was last set to.
-/
import Mathlib.Tactic
import MatrixSymbol.Proofs.Rows

namespace MatrixSymbol

/-! ### Whole numbers -/

namespace Number

/-- A number is read as an integer exactly if that is what it stands for; a negative zero stands for
zero. -/
lemma toInt?_eq_some_iff {x : Number} {z : ℤ} : x.toInt? = some z ↔ x.toRat? = some (z : ℚ) := by
  cases x with
  | finite q =>
    rw [toInt?, toRat?, Option.some.injEq]
    by_cases hden : q.den = 1
    · rw [if_pos hden, Option.some.injEq, ← Rat.coe_int_num_of_den_eq_one hden, Rat.num_intCast,
        Int.cast_inj]
    · rw [if_neg hden]
      refine ⟨fun h => absurd h (by simp), fun h => absurd ?_ hden⟩
      rw [h, Rat.den_intCast]
  | negZero =>
    rw [toInt?, toRat?, Option.some.injEq, Option.some.injEq]
    exact_mod_cast Iff.rfl
  | infinite s => simp [toInt?, toRat?]
  | nan => simp [toInt?, toRat?]

/-- The same for natural numbers. -/
lemma toNat?_eq_some_iff {x : Number} {n : ℕ} :
    x.toNat? = some n ↔ x.toRat? = some (n : ℚ) := by
  rw [← Int.cast_natCast, ← toInt?_eq_some_iff, toNat?]
  cases x.toInt? with
  | none => simp
  | some z =>
    cases z with
    | ofNat k => simp
    | negSucc k => simp

end Number

/-! ### Calls -/

/-- A call that sets a cell. -/
structure Setting where
  x : Number
  y : Number
  value : Bool
  deriving DecidableEq, Repr

namespace Setting

/-- A call goes to the cell whose coordinates its numbers stand for. -/
def GoesTo (s : Setting) (i j : ℕ) : Prop := s.x.toRat? = some (i : ℚ) ∧ s.y.toRat? = some (j : ℚ)

instance (s : Setting) (i j : ℕ) : Decidable (s.GoesTo i j) :=
  inferInstanceAs (Decidable (s.x.toRat? = some (i : ℚ) ∧ s.y.toRat? = some (j : ℚ)))

/-- The value that the calls of a run last gave to a cell, if any of them went there. -/
def last? (calls : List Setting) (i j : ℕ) : Option Bool :=
  (calls.reverse.find? fun s => s.GoesTo i j).map value

/-- A call goes to one cell only. -/
lemma GoesTo.eq {s : Setting} {i j i' j' : ℕ} (h : s.GoesTo i j) (h' : s.GoesTo i' j') :
    i = i' ∧ j = j' :=
  ⟨by exact_mod_cast Option.some.inj (h.1.symm.trans h'.1),
    by exact_mod_cast Option.some.inj (h.2.symm.trans h'.2)⟩

/-- A call with natural numbers goes to the cell of these coordinates. -/
lemma goesTo_ofNat (i j : ℕ) (value : Bool) :
    (⟨.ofNat i, .ofNat j, value⟩ : Setting).GoesTo i j :=
  ⟨Number.toNat?_eq_some_iff.mp (Number.toNat?_ofNat i),
    Number.toNat?_eq_some_iff.mp (Number.toNat?_ofNat j)⟩

/-- The last call counts if it goes to the cell. -/
lemma last?_append_singleton (calls : List Setting) (s : Setting) (i j : ℕ) :
    last? (calls ++ [s]) i j = if s.GoesTo i j then some s.value else last? calls i j := by
  rw [last?, List.reverse_append, List.reverse_singleton, List.singleton_append, List.find?_cons]
  by_cases h : s.GoesTo i j
  · simp [h]
  · simp [h, last?]

/-- If all calls set their cells on, the cells that they go to are on in the end. -/
lemma getD_last? {calls : List Setting} (h : ∀ s ∈ calls, s.value = true) (i j : ℕ) (on : Bool) :
    (last? calls i j).getD on = (decide (∃ s ∈ calls, s.GoesTo i j) || on) := by
  rw [last?]
  cases hfind : calls.reverse.find? fun s => s.GoesTo i j with
  | none =>
    have hnone : ¬ ∃ s ∈ calls, s.GoesTo i j := by
      rintro ⟨s, hs, hgoes⟩
      have := List.find?_eq_none.mp hfind s (List.mem_reverse.mpr hs)
      exact this (decide_eq_true hgoes)
    rw [decide_eq_false hnone]
    rfl
  | some s =>
    have hs : s ∈ calls := List.mem_reverse.mp (List.mem_of_find?_eq_some hfind)
    have hgoes := List.find?_some hfind
    rw [decide_eq_true_eq] at hgoes
    rw [decide_eq_true ⟨s, hs, hgoes⟩, Option.map_some, Option.getD_some, h s hs]
    rfl

end Setting

namespace Bitmap

variable {b : Bitmap}

/-- Two numbers are found at a cell exactly if they stand for its coordinates. -/
lemma locate_eq_ok_iff {x y : Number} {c : Cell} :
    b.locate x y = .ok c
      ↔ c.x < b.width ∧ c.y < b.height
        ∧ x.toRat? = some (c.x : ℚ) ∧ y.toRat? = some (c.y : ℚ) := by
  rw [← Number.toNat?_eq_some_iff, ← Number.toNat?_eq_some_iff, locate]
  constructor
  · intro h
    split at h
    · next i j hi hj =>
      split_ifs at h with hin
      obtain rfl := Except.ok.inj h
      exact ⟨hin.1, hin.2, hi, hj⟩
    · cases h
  · rintro ⟨hx, hy, hi, hj⟩
    rw [hi, hj]
    exact if_pos ⟨hx, hy⟩

/-- If they are not found, the fault names them. -/
lemma eq_outside_of_locate {x y : Number} {fault : Fault} (h : b.locate x y = .error fault) :
    fault = .outside x y b.width b.height := by
  rw [locate] at h
  split at h
  · split_ifs at h
    exact (Except.error.inj h).symm
  · exact (Except.error.inj h).symm

/-- If they are not found, they stand for no cell. -/
lemma not_goesTo_of_locate {s : Setting} {fault : Fault} (h : b.locate s.x s.y = .error fault)
    {i j : ℕ} (hi : i < b.width) (hj : j < b.height) : ¬ s.GoesTo i j := by
  intro hs
  rw [(@locate_eq_ok_iff b s.x s.y ⟨i, j⟩).mpr ⟨hi, hj, hs⟩] at h
  cases h

/-- **A call is a fault exactly if it goes to no cell of the bitmap.** -/
theorem set_eq_error_iff {s : Setting} {fault : Fault} :
    b.set s.x s.y s.value = .error fault
      ↔ fault = .outside s.x s.y b.width b.height
        ∧ ¬ ∃ i < b.width, ∃ j < b.height, s.GoesTo i j := by
  rw [set]
  cases hlocate : b.locate s.x s.y with
  | error fault' =>
    have hnone : ¬ ∃ i < b.width, ∃ j < b.height, s.GoesTo i j := by
      rintro ⟨i, hi, j, hj, hs⟩
      exact not_goesTo_of_locate hlocate hi hj hs
    rw [eq_outside_of_locate hlocate, Except.map, Except.error.injEq, eq_comm]
    exact (and_iff_left hnone).symm
  | ok c =>
    obtain ⟨hi, hj, hs⟩ := locate_eq_ok_iff.mp hlocate
    rw [Except.map]
    refine ⟨fun h => ?_, fun h => absurd ⟨c.x, hi, c.y, hj, hs⟩ h.2⟩
    cases h

/-! ### Runs of calls -/

/-- The bitmap after a call; after a fault it is as before. -/
def after (b : Bitmap) (s : Setting) : Bitmap :=
  match b.set s.x s.y s.value with
  | .ok b' => b'
  | .error _ => b

/-- The bitmap after a run of calls. -/
def run (b : Bitmap) (calls : List Setting) : Bitmap := calls.foldl after b

lemma run_append_singleton (b : Bitmap) (calls : List Setting) (s : Setting) :
    b.run (calls ++ [s]) = (b.run calls).after s := by
  rw [run, List.foldl_append]
  rfl

lemma after_of_error {s : Setting} {fault : Fault} (h : b.set s.x s.y s.value = .error fault) :
    b.after s = b := by
  rw [after, h]

/-- Calls do not change the sides. -/
lemma sides_after (b : Bitmap) (s : Setting) :
    (b.after s).width = b.width ∧ (b.after s).height = b.height := by
  rw [after, set]
  cases b.locate s.x s.y <;> exact ⟨rfl, rfl⟩

lemma sides_run (b : Bitmap) (calls : List Setting) :
    (b.run calls).width = b.width ∧ (b.run calls).height = b.height := by
  induction calls using List.reverseRecOn with
  | nil => exact ⟨rfl, rfl⟩
  | append_singleton calls s ih =>
    obtain ⟨hwidth, hheight⟩ := sides_after (b.run calls) s
    rw [run_append_singleton]
    exact ⟨hwidth.trans ih.1, hheight.trans ih.2⟩

/-- **A call changes the cell it goes to, and no other one.** -/
theorem isOn_after (s : Setting) {i j : ℕ} (hi : i < b.width) (hj : j < b.height) :
    (b.after s).isOn i j = if s.GoesTo i j then s.value else b.isOn i j := by
  rw [after, set]
  cases hlocate : b.locate s.x s.y with
  | error fault =>
    rw [if_neg (not_goesTo_of_locate hlocate hi hj)]
    rfl
  | ok c =>
    obtain ⟨hcx, hcy, hx, hy⟩ := locate_eq_ok_iff.mp hlocate
    have hcell : s.GoesTo i j ↔ i = c.x ∧ j = c.y := by
      rw [Setting.GoesTo, hx, hy, Option.some.injEq, Option.some.injEq, Nat.cast_inj, Nat.cast_inj,
        eq_comm, eq_comm (a := c.y)]
    show (b.put c s.value).isOn i j = _
    rw [isOn_put b hcx s.value hi hj]
    exact if_congr hcell.symm rfl rfl

/-- **After a run every cell holds what it was last set to**, or what it held before. -/
theorem isOn_run (calls : List Setting) {i j : ℕ} (hi : i < b.width) (hj : j < b.height) :
    (b.run calls).isOn i j = (Setting.last? calls i j).getD (b.isOn i j) := by
  induction calls using List.reverseRecOn with
  | nil => rfl
  | append_singleton calls s ih =>
    obtain ⟨hwidth, hheight⟩ := sides_run b calls
    rw [run_append_singleton, isOn_after s (hwidth ▸ hi) (hheight ▸ hj), ih,
      Setting.last?_append_singleton]
    split_ifs <;> rfl

/-! ### Loops of calls -/

lemma run_append (b : Bitmap) (calls calls' : List Setting) :
    b.run (calls ++ calls') = (b.run calls).run calls' :=
  List.foldl_append

/-- A call that goes to a cell is no fault. -/
lemma set_eq_run {s : Setting} {i j : ℕ} (hi : i < b.width) (hj : j < b.height)
    (h : s.GoesTo i j) : b.set s.x s.y s.value = .ok (b.run [s]) := by
  have hcell := (@locate_eq_ok_iff b s.x s.y ⟨i, j⟩).mpr ⟨hi, hj, h⟩
  rw [run, List.foldl_cons, List.foldl_nil, after, set, hcell]
  rfl

/-- **A loop whose steps are runs of calls is a run of calls**, if no step asks for more than the
sides of the bitmap. -/
theorem foldlM_eq_run {α : Type} {f : Bitmap → α → Except Fault Bitmap} {calls : α → List Setting}
    {l : List α} {b : Bitmap}
    (h : ∀ a ∈ l, ∀ b' : Bitmap, b'.width = b.width → b'.height = b.height →
      f b' a = .ok (b'.run (calls a))) :
    l.foldlM f b = .ok (b.run (l.flatMap calls)) := by
  induction l generalizing b with
  | nil => rfl
  | cons a l ih =>
    -- The calls of the first step keep the sides, so what is known of the others still holds.
    obtain ⟨hwidth, hheight⟩ := sides_run b (calls a)
    rw [List.foldlM_cons, h a List.mem_cons_self b rfl rfl, List.flatMap_cons, run_append]
    refine ih fun a' ha' b' hw hh => ?_
    exact h a' (List.mem_cons_of_mem a ha') b' (hw.trans hwidth) (hh.trans hheight)

/-- **Calls that set cells on**, made of a blank bitmap, leave on the cells that they go to. -/
theorem run_blank {w h : ℕ} (hw : 0 < w) (hh : 0 < h) (fits : w * h ≤ capacity)
    {calls : List Setting} (hcalls : ∀ s ∈ calls, s.value = true) :
    (ofFn w h hw hh fits fun _ _ => false).run calls
      = ofFn w h hw hh fits fun i j => decide (∃ s ∈ calls, s.GoesTo i j) := by
  obtain ⟨hwidth, hheight⟩ := sides_run (ofFn w h hw hh fits fun _ _ => false) calls
  refine ext_isOn hwidth hheight fun i j hi hj => ?_
  have hx : i < w := hi.trans_eq hwidth
  have hy : j < h := hj.trans_eq hheight
  rw [isOn_run _ hx hy, Setting.getD_last? hcalls, isOn_ofFn, isOn_ofFn, decide_eq_true hx,
    decide_eq_true hy, Bool.and_false, Bool.or_false, Bool.and_true, Bool.true_and]

/-- **A bitmap stores what it is set to.**  Made with positive whole sides, and after any run of
calls: a call is a fault exactly if its numbers are not the coordinates of a cell, and then leaves
the bitmap as it is; no call changes a cell that it does not go to; and every cell holds what it was
last set to, and is off if it never was. -/
theorem get_run (width height : Number) (w h : ℕ) (hwidth : width.toRat? = some (w : ℚ))
    (hheight : height.toRat? = some (h : ℚ)) (hw : 0 < w) (hh : 0 < h) :
    if w * h ≤ capacity then
      ∃ b, blank width height = .ok b ∧ b.width = w ∧ b.height = h ∧ ∀ calls : List Setting,
        (∀ s : Setting,
          (∀ fault, (b.run calls).set s.x s.y s.value = .error fault
            ↔ fault = .outside s.x s.y w h ∧ fault.name = "RangeError"
              ∧ ¬ ∃ i < w, ∃ j < h, s.GoesTo i j)
          ∧ ((¬ ∃ i < w, ∃ j < h, s.GoesTo i j) → b.run (calls ++ [s]) = b.run calls)
          ∧ ∀ i < w, ∀ j < h, ¬ s.GoesTo i j →
            (b.run (calls ++ [s])).isOn i j = (b.run calls).isOn i j)
        ∧ ∀ i < w, ∀ j < h, ∀ x y : Number, x.toRat? = some (i : ℚ) → y.toRat? = some (j : ℚ) →
          (b.run calls).get x y = .ok ((Setting.last? calls i j).getD false)
    else blank width height = .error .storage := by
  have hblank := draw_eq (Number.toNat?_eq_some_iff.mpr hwidth)
    (Number.toNat?_eq_some_iff.mpr hheight) hw hh fun _ _ => false
  rw [← blank] at hblank
  by_cases fits : w * h ≤ capacity
  · rw [if_pos fits]
    rw [dif_pos fits] at hblank
    refine ⟨_, hblank, rfl, rfl, fun calls => ?_⟩
    set b := ofFn w h hw hh fits fun _ _ => false with hb
    obtain ⟨hbw, hbh⟩ : (b.run calls).width = w ∧ (b.run calls).height = h := sides_run b calls
    refine ⟨fun s => ⟨fun fault => ?_, fun hs => ?_, fun i hi j hj hs => ?_⟩, ?_⟩
    · rw [set_eq_error_iff, hbw, hbh]
      exact ⟨fun h => ⟨h.1, by rw [h.1]; rfl, h.2⟩, fun h => ⟨h.1, h.2.2⟩⟩
    · rw [run_append_singleton]
      refine after_of_error (set_eq_error_iff.mpr ⟨rfl, ?_⟩)
      rwa [hbw, hbh]
    · rw [run_append_singleton, isOn_after s (hbw ▸ hi) (hbh ▸ hj), if_neg hs]
    · intro i hi j hj x y hx hy
      have hcell := (@locate_eq_ok_iff (b.run calls) x y ⟨i, j⟩).mpr
        ⟨hbw ▸ hi, hbh ▸ hj, hx, hy⟩
      rw [get, hcell, Except.map, isOn_run calls hi hj, hb, isOn_ofFn, Bool.and_false]
  · rw [if_neg fits]
    rw [dif_neg fits] at hblank
    exact hblank

/-- Calls to a bitmap of three by two cells, of which only the second one goes to a cell.  The first
one is just past the end of a row. -/
def strayCalls : List Setting :=
  [⟨3, 0, true⟩, ⟨2, .negZero, true⟩, ⟨.nan, 1, true⟩, ⟨.finite (1 / 2), 1, true⟩]

/-- A call past the end of a row does not set the cell at the start of the next one. -/
theorem get_run_strayCalls :
    (3 : Number).toRat? = some ((3 : ℕ) : ℚ) ∧ (2 : Number).toRat? = some ((2 : ℕ) : ℚ)
      ∧ 0 < 3 ∧ 0 < 2
      ∧ ∃ b, blank 3 2 = .ok b ∧ (b.run strayCalls).get 2 0 = .ok true
        ∧ (b.run strayCalls).get 0 1 = .ok false
        ∧ (b.run []).set 3 0 true = .error (.outside 3 0 3 2) := by
  have h := get_run 3 2 3 2 rfl rfl (by decide) (by decide)
  rw [if_pos (by decide)] at h
  obtain ⟨b, hblank, -, -, hrun⟩ := h
  have hset : Setting.last? strayCalls 2 0 = some true := by decide +kernel
  have hnever : Setting.last? strayCalls 0 1 = none := by decide +kernel
  refine ⟨rfl, rfl, by decide, by decide, b, hblank, ?_, ?_, ?_⟩
  · rw [(hrun strayCalls).2 2 (by decide) 0 (by decide) 2 0 rfl rfl, hset]
    rfl
  · rw [(hrun strayCalls).2 0 (by decide) 1 (by decide) 0 1 rfl rfl, hnever]
    rfl
  · refine (((hrun []).1 ⟨3, 0, true⟩).1 _).mpr ⟨rfl, rfl, ?_⟩
    decide

end Bitmap

end MatrixSymbol
