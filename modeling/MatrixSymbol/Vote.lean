/-
Votes: the colour of a module from the pixels around its centre (`sampleModule`, section 3.3 of the
specification).

* `Vote.window`: the columns (or rows) within reach of a centre, cut off at the edge of the bitmap;
  `Vote.square`: the pixels in both.
* `Vote.carries`: at two dark pixels in five a module is dark. The share is below one half so that a
  faded dark module still counts as dark.
* `Vote.around`: the vote over a square of pixels. A module of one pixel or less is read off its
  centre, which then has to be a pixel.
* `Vote.colour`: the same for arbitrary numbers; `Vote.colour_ofInt`: on whole numbers it is
  `Vote.around`.
-/
import MatrixSymbol.Bitmap.Basic

namespace MatrixSymbol

namespace Vote

/-- The share of dark pixels, in percent, at which a module is dark (`DARK_VOTE_PERCENT`). -/
def darkShare : Nat := 40

/-- The farthest that a vote reaches from the centre (`MAX_SAMPLE_RADIUS`). -/
def maxReach : Nat := 2

/-- Whether `dark` of `total` pixels make a dark module. -/
def carries (dark total : Nat) : Bool := total * darkShare ≤ dark * 100

/-! ### Whole positions -/

/-- The positions at most `reach` away from a centre that lie in a side of length `n`, in order. -/
def window (n : Nat) (centre : Int) (reach : Nat) : List Nat :=
  (List.range (2 * reach + 1)).filterMap fun (k : Nat) =>
    match centre - (reach : Int) + (k : Int) with
    | .ofNat p => if p < n then some p else none
    | .negSucc _ => none

/-- A window holds what is within reach and inside the side. -/
theorem mem_window {n : Nat} {centre : Int} {reach p : Nat} :
    p ∈ window n centre reach ↔ p < n ∧ centre - reach ≤ p ∧ p ≤ centre + reach := by
  simp only [window, List.mem_filterMap, List.mem_range]
  constructor
  · rintro ⟨k, hk, h⟩
    split at h
    · next m hm =>
      simp only [Int.ofNat_eq_natCast] at hm
      split at h
      · next hlt =>
        obtain rfl : m = p := by simpa using h
        refine ⟨hlt, ?_, ?_⟩ <;> omega
      · simp at h
    · simp at h
  · rintro ⟨hp, hlow, hhigh⟩
    refine ⟨(p - (centre - reach)).toNat, by omega, ?_⟩
    have hplace : centre - reach + (p - (centre - reach)).toNat = Int.ofNat p := by
      rw [Int.toNat_of_nonneg (by omega)]; simp only [Int.ofNat_eq_natCast]; omega
    rw [hplace]
    simp [hp]

/-- The pixels of a bitmap in a square around a centre, row by row. -/
def square (b : Bitmap) (x y : Int) (reach : Nat) : List Cell :=
  (window b.height y reach).flatMap fun j => (window b.width x reach).map fun i => ⟨i, j⟩

/-- The vote over the pixels of a square. -/
def poll (b : Bitmap) (x y : Int) (reach : Nat) : Bool :=
  let cells := square b x y reach
  carries (cells.countP fun c => b.isOn c.x c.y) cells.length

/-- The colour of a module of the given size around a centre. -/
def around (b : Bitmap) (x y size : Int) : Except Fault Bool :=
  if size ≤ 1 then b.get (.ofInt x) (.ofInt y)
  else .ok (poll b x y (min maxReach (size / 2).toNat))

/-! ### Arbitrary numbers -/

/-- How far a vote reaches for a module of the given size; an undefined size reaches nothing, not
even the centre. -/
def reach? (size : Number) : Option Nat :=
  match (Number.min (.ofNat maxReach) (size / 2).floor) with
  | .nan => none
  | r => r.toNat?

/-- The numbers at most `reach` away from a centre that are not left of a side of length `n` nor at
or beyond its end, in order. -/
def windowNumbers (n : Nat) (centre : Number) (reach : Nat) : List Number :=
  let near := (List.range (2 * reach + 1)).map fun (k : Nat) => centre + .ofInt ((k : Int) - reach)
  near.filter fun p => !(p.lt 0) && !((Number.ofNat n).le p)

/-- The vote over a window of numbers, row by row; the first that is no pixel is a fault. -/
def pollNumbers (b : Bitmap) (x y : Number) (reach : Nat) : Except Fault Bool := do
  let columns := windowNumbers b.width x reach
  let rows := windowNumbers b.height y reach
  let dark ← rows.foldlM
    (fun n y => columns.foldlM (fun n x => return n + (← b.get x y).toNat) n) 0
  return carries dark (columns.length * rows.length)

/-- The colour of a module of the given size around a centre (`sampleModule`). -/
def colour (b : Bitmap) (x y size : Number) : Except Fault Bool :=
  match x.toInt?, y.toInt?, size.toInt? with
  | some i, some j, some s => around b i j s
  | _, _, _ =>
    if size.le 1 then b.get x y
    else match reach? size with
      | none => .ok (carries 0 0)
      | some r => pollNumbers b x y r

/-- On whole numbers the colour is that of the vote over whole positions. -/
@[simp] theorem colour_ofInt (b : Bitmap) (x y size : Int) :
    colour b (.ofInt x) (.ofInt y) (.ofInt size) = around b x y size := by
  simp [colour]

end Vote

end MatrixSymbol
