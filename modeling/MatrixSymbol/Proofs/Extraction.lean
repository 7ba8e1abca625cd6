/-
Extraction never leaves the image (`extractPureBits`, section 3.4 of the specification).

* `Extraction.sample_eq`: sampling a lattice that lies in the image gives the grid of its votes,
  unless that grid is too large to store;
* `Extraction.filled`: the loops of `extractPureBits`, which set one cell after the other in a blank
  grid; `Extraction.filled_eq_sample`: they sample the lattice;
* `Lattice.Measured.covered`: a lattice that was measured in an image lies in it;
* `Extraction.run_extract_of_measured`, `Extraction.run_extract_of_failed`,
  `Extraction.run_extract_eq`: extraction follows the measurement;
* `Extraction.ReadAlike`, `Extraction.readAlike_of_measured`: two images are read alike, up to how
  lattices and grids correspond, if the measured lattices correspond and the votes are the same;
* `Extraction.extract_or_failure`: for every image, either measuring and extraction end in the same
  failure, or the measured lattice lies between its bounds and extraction gives a grid of its sides.
-/
import MatrixSymbol.Extraction
import MatrixSymbol.Proofs.Lattice
import MatrixSymbol.Proofs.Store
import MatrixSymbol.Proofs.Votes

namespace MatrixSymbol

namespace Extraction

variable {round : ℚ → ℚ}

/-! ### Sampling -/

/-- The colour read at a point of a lattice. -/
def readAt (round : ℚ → ℚ) (image : Bitmap) (l : Lattice) (x y : ℕ) : Bool :=
  Vote.read image (l.column round x) (l.row round y) l.pitch.floor

/-- A lattice lies in an image: every point at which a module is sampled is a pixel. -/
structure Covered (round : ℚ → ℚ) (image : Bitmap) (l : Lattice) : Prop where
  width_pos : 0 < l.width
  height_pos : 0 < l.height
  column : ∀ x < l.width, 0 ≤ l.column round x ∧ l.column round x < image.width
  row : ∀ y < l.height, 0 ≤ l.row round y ∧ l.row round y < image.height

/-- Steps that all succeed succeed together. -/
lemma mapM_eq_ok {ε α β : Type} {f : α → Except ε β} {g : α → β} {l : List α}
    (h : ∀ a ∈ l, f a = .ok (g a)) : l.mapM f = .ok (l.map g) := by
  induction l with
  | nil => rfl
  | cons a l ih =>
    rw [List.mapM_cons, h a List.mem_cons_self, ih fun c hc => h c (List.mem_cons_of_mem a hc)]
    rfl

/-- In a lattice that lies in the image no vote is a fault. -/
lemma Covered.colourAt_eq {image : Bitmap} {l : Lattice} (h : Covered round image l) {x y : ℕ}
    (hx : x < l.width) (hy : y < l.height) :
    colourAt round image l x y = .ok (readAt round image l x y) := by
  rw [colourAt, Vote.colour_ofInt]
  exact Vote.around_eq_read (h.column x hx) (h.row y hy) _

/-- **Sampling a lattice that lies in the image** gives the grid of its votes.  The only thing that
can be missing is room to store it. -/
theorem sample_eq {image : Bitmap} {l : Lattice} (h : Covered round image l) :
    sample round image l
      = if fits : l.width * l.height ≤ Bitmap.capacity then
          .ok (Bitmap.ofFn l.width l.height h.width_pos h.height_pos fits (readAt round image l))
        else .error .storage := by
  have hrows : ((List.range l.height).mapM fun y =>
      (List.range l.width).mapM fun x => colourAt round image l x y)
      = .ok ((List.range l.height).map fun y =>
        (List.range l.width).map fun x => readAt round image l x y) :=
    mapM_eq_ok fun y hy => mapM_eq_ok fun x hx =>
      h.colourAt_eq (List.mem_range.mp hx) (List.mem_range.mp hy)
  have hlength : ∀ row ∈ (List.range l.height).map (fun y =>
      (List.range l.width).map fun x => readAt round image l x y), row.length = l.width := by
    intro row hrow
    obtain ⟨y, -, rfl⟩ := List.mem_map.mp hrow
    rw [List.length_map, List.length_range]
  have hcount : ((List.range l.height).map fun y =>
      (List.range l.width).map fun x => readAt round image l x y).length = l.height := by
    rw [List.length_map, List.length_range]
  have hbits := Bitmap.ofRows_eq h.width_pos (by rw [hcount]; exact h.height_pos) hlength
  rw [sample, hrows]
  refine hbits.trans ?_
  by_cases fits : l.width * l.height ≤ Bitmap.capacity
  · rw [dif_pos (by rw [hcount]; exact fits), dif_pos fits]
    refine congrArg Except.ok (Bitmap.ext_isOn rfl hcount fun x y hx hy => ?_)
    have hxw : x < l.width := hx
    have hyh : y < l.height := hcount ▸ hy
    simp only [Bitmap.isOn_ofFn, hcount, hxw, hyh, decide_true, Bool.true_and]
    simp [List.getD_eq_getElem?_getD, hxw, hyh]
  · rw [dif_neg (by rw [hcount]; exact fits), dif_neg fits]

/-! ### Sampling as loops -/

/-- One round of the inner loop: the cell of a dark module is set. -/
def mark (round : ℚ → ℚ) (image : Bitmap) (l : Lattice) (y : ℕ) (bits : Bitmap) (x : ℕ) :
    Except Fault Bitmap := do
  if ← colourAt round image l x y then bits.set (.ofNat x) (.ofNat y) true else return bits

/-- A blank grid filled by the loops over the rows and the columns of a lattice. -/
def filled (round : ℚ → ℚ) (image : Bitmap) (l : Lattice) : Except Fault Bitmap := do
  let bits ← Bitmap.blank (.ofNat l.width) (.ofNat l.height)
  (List.range l.height).foldlM
    (fun bits y => (List.range l.width).foldlM (mark round image l y) bits) bits

/-- The calls of one round. -/
def marks (round : ℚ → ℚ) (image : Bitmap) (l : Lattice) (y x : ℕ) : List Setting :=
  if readAt round image l x y then [⟨.ofNat x, .ofNat y, true⟩] else []

/-- The calls of the loops. -/
def allMarks (round : ℚ → ℚ) (image : Bitmap) (l : Lattice) : List Setting :=
  (List.range l.height).flatMap fun y => (List.range l.width).flatMap (marks round image l y)

lemma mem_allMarks {image : Bitmap} {l : Lattice} {s : Setting} :
    s ∈ allMarks round image l
      ↔ ∃ y < l.height, ∃ x < l.width, readAt round image l x y = true
        ∧ s = ⟨.ofNat x, .ofNat y, true⟩ := by
  simp only [allMarks, marks, List.mem_flatMap, List.mem_range, List.mem_ite_nil_right,
    List.mem_singleton]

/-- **The calls go to the cells with a dark vote.** -/
lemma exists_mark_iff {image : Bitmap} {l : Lattice} {i j : ℕ} (hi : i < l.width)
    (hj : j < l.height) :
    (∃ s ∈ allMarks round image l, s.GoesTo i j) ↔ readAt round image l i j = true := by
  constructor
  · rintro ⟨s, hs, hgoes⟩
    obtain ⟨y, -, x, -, hdark, rfl⟩ := mem_allMarks.mp hs
    obtain ⟨rfl, rfl⟩ := hgoes.eq (Setting.goesTo_ofNat x y true)
    exact hdark
  · intro hdark
    exact ⟨_, mem_allMarks.mpr ⟨j, hj, i, hi, hdark, rfl⟩, Setting.goesTo_ofNat i j true⟩

/-- In a lattice that lies in the image one round is a run of its calls. -/
lemma Covered.mark_eq_run {image : Bitmap} {l : Lattice} (h : Covered round image l) {x y : ℕ}
    (hx : x < l.width) (hy : y < l.height) {bits : Bitmap} (hwidth : bits.width = l.width)
    (hheight : bits.height = l.height) :
    mark round image l y bits x = .ok (bits.run (marks round image l y x)) := by
  rw [mark, h.colourAt_eq hx hy, marks]
  cases readAt round image l x y with
  | true =>
    exact Bitmap.set_eq_run (hwidth ▸ hx) (hheight ▸ hy) (Setting.goesTo_ofNat x y true)
  | false => rfl

/-- **The loops sample the lattice**: set one by one in a blank grid, the cells are those of the
grid of votes, and it is refused if it is too large to store. -/
theorem filled_eq_sample {image : Bitmap} {l : Lattice} (h : Covered round image l) :
    filled round image l = sample round image l := by
  rw [filled, Bitmap.blank, Bitmap.draw_ofNat h.width_pos h.height_pos, sample_eq h]
  by_cases fits : l.width * l.height ≤ Bitmap.capacity
  · rw [dif_pos fits, dif_pos fits]
    have hloops : (List.range l.height).foldlM
        (fun bits y => (List.range l.width).foldlM (mark round image l y) bits)
        (Bitmap.ofFn l.width l.height h.width_pos h.height_pos fits fun _ _ => false)
        = .ok ((Bitmap.ofFn l.width l.height h.width_pos h.height_pos fits fun _ _ => false).run
          (allMarks round image l)) := by
      refine Bitmap.foldlM_eq_run fun y hy b hb hb' => Bitmap.foldlM_eq_run fun x hx b' hw hh => ?_
      exact h.mark_eq_run (List.mem_range.mp hx) (List.mem_range.mp hy) (hw.trans hb)
        (hh.trans hb')
    have hvalue : ∀ s ∈ allMarks round image l, s.value = true := by
      intro s hs
      obtain ⟨y, -, x, -, -, rfl⟩ := mem_allMarks.mp hs
      rfl
    refine hloops.trans (congrArg Except.ok ?_)
    rw [Bitmap.run_blank h.width_pos h.height_pos fits hvalue]
    exact Bitmap.ofFn_congr h.width_pos h.height_pos fits fun i hi j hj =>
      Bool.eq_iff_iff.mpr (decide_eq_true_iff.trans (exists_mark_iff hi hj))
  · rw [dif_neg fits, dif_neg fits]
    rfl

end Extraction

/-! ### Measured lattices -/

namespace Lattice

variable {round : ℚ → ℚ} {image : Bitmap} {first last : Cell} {diagonal : ℚ} {l : Lattice}

/-- The bounds of a measured lattice lie in the image. -/
lemma Measured.bounds_mem (h : l.Measured round image first last diagonal) :
    (bounds round image l.pitch (.ofCells first last)).left = first.x
      ∧ (bounds round image l.pitch (.ofCells first last)).top = first.y
      ∧ (bounds round image l.pitch (.ofCells first last)).right < image.width
      ∧ (bounds round image l.pitch (.ofCells first last)).bottom < image.height := by
  obtain ⟨hx, hy⟩ := Bitmap.lt_of_isOn (Bitmap.lastOn?_spec h.last_eq).1
  exact ⟨bounds_left image l.pitch _, bounds_top image l.pitch _,
    bounds_right_lt l.pitch (Int.ofNat_lt.mpr hx), bounds_bottom_lt l.pitch (Int.ofNat_lt.mpr hy)⟩

variable (hr : IsRounding round)
include hr

/-- The pitch of a measured lattice is at least half a pixel. -/
lemma Measured.half_le_pitch (h : l.Measured round image first last diagonal) :
    1 / 2 ≤ l.pitch := by
  rw [h.pitch_eq]
  exact Pitch.half_le_refined hr (Bitmap.firstOn?_spec h.first_eq).1 h.diagonal_eq

/-- **A measured lattice lies in its image.** -/
theorem Measured.covered (h : l.Measured round image first last diagonal) :
    Extraction.Covered round image l := by
  have hpitch : 0 ≤ l.pitch := by linarith [h.half_le_pitch hr]
  obtain ⟨hleft, htop, hright, hbottom⟩ := h.bounds_mem
  obtain ⟨hwidth, hheight⟩ := h.laid.sides_pos
  constructor
  case width_pos => exact hwidth
  case height_pos => exact hheight
  case column =>
    intro x hx
    have := h.laid.column_mem hr hpitch hx
    omega
  case row =>
    intro y hy
    have := h.laid.row_mem hr hpitch hy
    omega

end Lattice

/-! ### Extraction follows the measurement -/

namespace Extraction

variable {round : ℚ → ℚ} {image : Bitmap} {wanted : Bool}

/-- A failure to measure is the failure to extract. -/
lemma run_extract_of_failed {failure : Failure}
    (h : ((Lattice.measure round image).run wanted).1 = .ok (.error failure)) :
    ((extract round image).run wanted).1 = .ok (.error failure) := by
  rw [extract, Attempt.run_bind_of_ok h]
  rfl

/-- Once a lattice is measured, extracting is sampling it. -/
lemma run_extract_of_measured {l : Lattice}
    (h : ((Lattice.measure round image).run wanted).1 = .ok (.ok l)) :
    ((extract round image).run wanted).1 = (sample round image l).map .ok := by
  rw [extract, Attempt.run_bind_of_ok h]
  dsimp only
  cases hsample : sample round image l with
  | error fault => exact Attempt.run_bind_of_error rfl
  | ok bits =>
    rw [Attempt.run_bind_of_ok rfl, Attempt.run_bind_of_ok (by rw [Attempt.run_note])]
    rfl

/-- From a measured lattice, extracting gives the grid of its votes, if there is room for it. -/
lemma run_extract_eq (hr : IsRounding round) {l : Lattice}
    (h : ((Lattice.measure round image).run wanted).1 = .ok (.ok l)) :
    ∃ (hw : 0 < l.width) (hh : 0 < l.height), ((extract round image).run wanted).1
      = if fits : l.width * l.height ≤ Bitmap.capacity then
          .ok (.ok (Bitmap.ofFn l.width l.height hw hh fits (readAt round image l)))
        else .error .storage := by
  obtain ⟨first, last, diagonal, hmeasured⟩ := Lattice.run_measure_eq_ok_iff.mp h
  have hcovered := hmeasured.covered hr
  refine ⟨hcovered.width_pos, hcovered.height_pos, ?_⟩
  rw [run_extract_of_measured h, sample_eq hcovered]
  split <;> rfl

/-! ### Images that are read alike -/

/-- Two images are read alike, up to a correspondence of lattices and one of grids: in both of them
nothing is found, or corresponding lattices are measured and corresponding grids extracted, unless
these are too large to store. -/
inductive ReadAlike (round : ℚ → ℚ) (image image' : Bitmap) (wanted : Bool)
    (move : Lattice → Lattice) (turn : Bitmap → Bitmap) : Prop
  | nothing {failure failure' : Failure}
      (kind : failure.kind = .notFound) (kind' : failure'.kind = .notFound)
      (measured : ((Lattice.measure round image).run wanted).1 = .ok (.error failure))
      (measured' : ((Lattice.measure round image').run wanted).1 = .ok (.error failure'))
      (extracted : ((extract round image).run wanted).1 = .ok (.error failure))
      (extracted' : ((extract round image').run wanted).1 = .ok (.error failure'))
  | grid {lattice : Lattice} {bits : Bitmap}
      (measured : ((Lattice.measure round image).run wanted).1 = .ok (.ok lattice))
      (measured' : ((Lattice.measure round image').run wanted).1 = .ok (.ok (move lattice)))
      (extracted : ((extract round image).run wanted).1 = .ok (.ok bits))
      (extracted' : ((extract round image').run wanted).1 = .ok (.ok (turn bits)))
  | storage {lattice : Lattice}
      (measured : ((Lattice.measure round image).run wanted).1 = .ok (.ok lattice))
      (measured' : ((Lattice.measure round image').run wanted).1 = .ok (.ok (move lattice)))
      (large : Bitmap.capacity < lattice.width * lattice.height)
      (extracted : ((extract round image).run wanted).1 = .error .storage)
      (extracted' : ((extract round image').run wanted).1 = .error .storage)

section ReadAlike

variable {image' : Bitmap} {move : Lattice → Lattice} {turn : Bitmap → Bitmap}

/-- **Images are read alike** if corresponding lattices are measured in them, and grids of
corresponding votes correspond. -/
theorem readAlike_of_measured (hr : IsRounding round)
    (hmeasure : (∃ failure failure',
        ((Lattice.measure round image).run wanted).1 = .ok (.error failure)
        ∧ ((Lattice.measure round image').run wanted).1 = .ok (.error failure'))
      ∨ ∃ l, ((Lattice.measure round image).run wanted).1 = .ok (.ok l)
        ∧ ((Lattice.measure round image').run wanted).1 = .ok (.ok (move l)))
    (hsize : ∀ l, (move l).width * (move l).height = l.width * l.height)
    (hgrid : ∀ l, ((Lattice.measure round image).run wanted).1 = .ok (.ok l) →
      ∀ hw hh fits hw' hh' fits',
        Bitmap.ofFn (move l).width (move l).height hw' hh' fits' (readAt round image' (move l))
          = turn (Bitmap.ofFn l.width l.height hw hh fits (readAt round image l))) :
    ReadAlike round image image' wanted move turn := by
  obtain ⟨failure, failure', hfailed, hfailed'⟩ | ⟨l, hmeasured, hmeasured'⟩ := hmeasure
  · exact .nothing (Lattice.kind_of_run_measure hfailed) (Lattice.kind_of_run_measure hfailed')
      hfailed hfailed' (run_extract_of_failed hfailed) (run_extract_of_failed hfailed')
  · obtain ⟨hw, hh, hextract⟩ := run_extract_eq hr hmeasured
    obtain ⟨hw', hh', hextract'⟩ := run_extract_eq hr hmeasured'
    by_cases fits : l.width * l.height ≤ Bitmap.capacity
    · have fits' := (hsize l).trans_le fits
      rw [dif_pos fits] at hextract
      rw [dif_pos fits', hgrid l hmeasured hw hh fits] at hextract'
      exact .grid hmeasured hmeasured' hextract hextract'
    · have fits' : ¬ (move l).width * (move l).height ≤ Bitmap.capacity := (hsize l).symm ▸ fits
      rw [dif_neg fits] at hextract
      rw [dif_neg fits'] at hextract'
      exact .storage hmeasured hmeasured' (not_le.mp fits) hextract hextract'

/-- A grid that is extracted from one image corresponds to that of the other. -/
lemma ReadAlike.run_extract (h : ReadAlike round image image' wanted move turn) {bits : Bitmap}
    (hbits : ((extract round image).run wanted).1 = .ok (.ok bits)) :
    ((extract round image').run wanted).1 = .ok (.ok (turn bits)) := by
  cases h with
  | nothing _ _ _ _ extracted _ =>
    rw [hbits] at extracted
    cases extracted
  | grid _ _ extracted extracted' =>
    rw [hbits] at extracted
    cases extracted
    exact extracted'
  | storage _ _ _ extracted _ =>
    rw [hbits] at extracted
    cases extracted

end ReadAlike

/-! ### Extraction of any image -/

/-- **Extraction never leaves the image.**  For every image, either measuring ends in a failure,
which says that nothing was found and is also what extraction ends in; or there is a lattice of
positive, nearly equal sides, all of whose points lie between its bounds, which lie in the image.
Extraction then gives what the loops over the lattice leave in a blank grid: a grid of these sides,
with the vote at each point, and a fault only if that grid is too large to store. -/
theorem extract_or_failure (image : Bitmap) (wanted : Bool) :
    (∃ failure, failure.kind = .notFound
      ∧ ((Lattice.measure Binary64.nearest image).run wanted).1 = .ok (.error failure)
      ∧ ((extract Binary64.nearest image).run wanted).1 = .ok (.error failure))
    ∨ ∃ l first last right bottom,
      ((Lattice.measure Binary64.nearest image).run wanted).1 = .ok (.ok l)
      ∧ image.firstOn? = some first ∧ image.lastOn? = some last
      ∧ Lattice.bounds Binary64.nearest image l.pitch (.ofCells first last)
        = ⟨first.x, first.y, right, bottom⟩
      ∧ right < image.width ∧ bottom < image.height
      ∧ 1 / 2 ≤ l.pitch ∧ 0 < l.width ∧ 0 < l.height
      ∧ ((l.width : ℤ) - l.height).natAbs ≤ min l.width l.height / 5
      ∧ (∀ x < l.width, first.x ≤ l.column Binary64.nearest x
        ∧ l.column Binary64.nearest x ≤ right)
      ∧ (∀ y < l.height, first.y ≤ l.row Binary64.nearest y
        ∧ l.row Binary64.nearest y ≤ bottom)
      ∧ ((extract Binary64.nearest image).run wanted).1
        = (filled Binary64.nearest image l).map .ok
      ∧ if l.width * l.height ≤ Bitmap.capacity then
          ∃ bits, ((extract Binary64.nearest image).run wanted).1 = .ok (.ok bits)
            ∧ bits.width = l.width ∧ bits.height = l.height
            ∧ ∀ x < l.width, ∀ y < l.height,
              colourAt Binary64.nearest image l x y = .ok (bits.isOn x y)
        else ((extract Binary64.nearest image).run wanted).1 = .error .storage := by
  obtain ⟨answer, hmeasure, hkind⟩ := @Lattice.exists_run_measure Binary64.nearest image wanted
  cases answer with
  | error failure =>
    exact Or.inl ⟨failure, hkind failure rfl, hmeasure, run_extract_of_failed hmeasure⟩
  | ok l =>
    obtain ⟨first, last, diagonal, h⟩ := Lattice.run_measure_eq_ok_iff.mp hmeasure
    have hhalf := h.half_le_pitch isRounding_nearest
    have hpitch : 0 ≤ l.pitch := by linarith
    have hcovered := h.covered isRounding_nearest
    have hloops := run_extract_of_measured hmeasure
    have hextract := hloops
    rw [← filled_eq_sample hcovered] at hloops
    rw [sample_eq hcovered] at hextract
    obtain ⟨hleft, htop, hright, hbottom⟩ := h.bounds_mem
    refine Or.inr ⟨l, first, last, _, _, hmeasure, h.first_eq, h.last_eq, ?_, hright, hbottom,
      hhalf, hcovered.width_pos, hcovered.height_pos, h.laid.natAbs_sides_le, ?_, ?_, hloops, ?_⟩
    · rw [← hleft, ← htop]
    · intro x hx
      rw [← hleft]
      exact h.laid.column_mem isRounding_nearest hpitch hx
    · intro y hy
      rw [← htop]
      exact h.laid.row_mem isRounding_nearest hpitch hy
    · by_cases fits : l.width * l.height ≤ Bitmap.capacity
      · rw [if_pos fits]
        rw [dif_pos fits] at hextract
        refine ⟨_, hextract, rfl, rfl, ?_⟩
        intro x hx y hy
        rw [hcovered.colourAt_eq hx hy, Bitmap.isOn_ofFn, decide_eq_true hx, decide_eq_true hy,
          Bool.true_and, Bool.true_and]
      · rw [if_neg fits]
        rw [dif_neg fits] at hextract
        exact hextract

end Extraction

end MatrixSymbol
