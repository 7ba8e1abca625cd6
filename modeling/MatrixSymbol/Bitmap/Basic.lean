/-
Bitmaps: grids of cells that are on or off (`BitMatrix`, section 2 of the specification).

* `Bitmap`: positive sides, and one cell for each position.
* `Bitmap.isOn`: the view of a bitmap; off outside it. `Bitmap.ext_isOn`: sides and view determine
  the bitmap. `Bitmap.isOn_ofFn`, `Bitmap.isOn_put`: what drawing and setting do to the view.
* `Bitmap.get`, `Bitmap.set`: access by arbitrary numbers, a fault outside the bitmap.
* `Bitmap.firstOn?`, `Bitmap.lastOn?`: the first and last on cell, row by row.
-/
import MatrixSymbol.Failure

namespace MatrixSymbol

/-! ### The type -/

/-- A position in a bitmap: `x` grows rightward, `y` downward. -/
structure Cell where
  x : Nat
  y : Nat
  deriving DecidableEq, Repr

/-- The greatest number of cells that can be stored: the limit of typed arrays in the runtime that
the specification names (section 0). Newer versions of that runtime store more. -/
def Bitmap.capacity : Nat := 4294967296

/-- A grid of cells, each on or off, row by row from the top. -/
structure Bitmap where
  width : Nat
  height : Nat
  cells : Array Bool
  width_pos : 0 < width
  height_pos : 0 < height
  size_cells : cells.size = width * height
  size_le : width * height ≤ Bitmap.capacity
  deriving DecidableEq

namespace Bitmap

/-! ### The view -/

/-- Whether the cell at a position is on; outside the bitmap all is off. -/
def isOn (b : Bitmap) (x y : Nat) : Bool :=
  decide (x < b.width) && decide (y < b.height) && b.cells.getD (y * b.width + x) false

/-- The bitmap whose cells are given by a function of column and row. -/
def ofFn (width height : Nat) (width_pos : 0 < width) (height_pos : 0 < height)
    (size_le : width * height ≤ capacity) (on : Nat → Nat → Bool) : Bitmap where
  width := width
  height := height
  cells := Array.ofFn fun i : Fin (width * height) => on (i.val % width) (i.val / width)
  width_pos := width_pos
  height_pos := height_pos
  size_cells := Array.size_ofFn
  size_le := size_le

/-- The place of a position in row order. -/
theorem place_lt {w h x y : Nat} (hx : x < w) (hy : y < h) : y * w + x < w * h := by
  calc y * w + x < y * w + w := Nat.add_lt_add_left hx _
    _ = (y + 1) * w := by rw [Nat.succ_mul]
    _ ≤ h * w := Nat.mul_le_mul_right _ hy
    _ = w * h := Nat.mul_comm _ _

/-- The column of a place in row order. -/
theorem place_mod {w x : Nat} (hx : x < w) (y : Nat) : (y * w + x) % w = x := by
  rw [Nat.add_comm, Nat.add_mul_mod_self_right, Nat.mod_eq_of_lt hx]

/-- The row of a place in row order. -/
theorem place_div {w x : Nat} (hx : x < w) (y : Nat) : (y * w + x) / w = y := by
  rw [Nat.add_comm, Nat.add_mul_div_right _ _ (Nat.zero_lt_of_lt hx), Nat.div_eq_of_lt hx,
    Nat.zero_add]

/-- Inside the bitmap the view reads the stored cell. -/
theorem isOn_eq_getElem (b : Bitmap) {x y : Nat} (hx : x < b.width) (hy : y < b.height) :
    b.isOn x y = getElem b.cells (y * b.width + x) (b.size_cells ▸ place_lt hx hy) := by
  simp [isOn, hx, hy, Array.getD, b.size_cells, place_lt hx hy]

/-- A drawn bitmap shows its function, and nothing outside its sides. -/
@[simp] theorem isOn_ofFn {w h : Nat} (hw : 0 < w) (hh : 0 < h) (hc : w * h ≤ capacity)
    (on : Nat → Nat → Bool) (x y : Nat) :
    (ofFn w h hw hh hc on).isOn x y = (decide (x < w) && decide (y < h) && on x y) := by
  by_cases hx : x < w
  · by_cases hy : y < h
    · rw [isOn_eq_getElem _ hx hy]
      simp [ofFn, place_mod hx, place_div hx, hx, hy]
    · simp [isOn, ofFn, hy]
  · simp [isOn, ofFn, hx]

/-- Sides and view determine a bitmap. -/
theorem ext_isOn {a b : Bitmap} (hw : a.width = b.width) (hh : a.height = b.height)
    (h : ∀ x y, x < a.width → y < a.height → a.isOn x y = b.isOn x y) : a = b := by
  obtain ⟨aw, ah, ac, aw_pos, ah_pos, as, al⟩ := a
  obtain ⟨bw, bh, bc, bw_pos, bh_pos, bs, bl⟩ := b
  obtain rfl : aw = bw := hw
  obtain rfl : ah = bh := hh
  congr 1
  refine Array.ext (as.trans bs.symm) fun i hi hi' => ?_
  have hlt : i < aw * ah := as ▸ hi
  have hx : i % aw < aw := Nat.mod_lt _ aw_pos
  have hy : i / aw < ah := Nat.div_lt_of_lt_mul hlt
  have hplace : i / aw * aw + i % aw = i := by rw [Nat.mul_comm]; exact Nat.div_add_mod i aw
  have := h (i % aw) (i / aw) hx hy
  rw [isOn_eq_getElem _ hx hy, isOn_eq_getElem _ hx hy] at this
  simpa only [hplace] using this

/-- A drawn bitmap depends only on its function inside its sides. -/
theorem ofFn_congr {w h : Nat} (hw : 0 < w) (hh : 0 < h) (hc : w * h ≤ capacity)
    {on on' : Nat → Nat → Bool} (heq : ∀ x, x < w → ∀ y, y < h → on x y = on' x y) :
    ofFn w h hw hh hc on = ofFn w h hw hh hc on' :=
  ext_isOn rfl rfl fun x y hx hy => by rw [isOn_ofFn, isOn_ofFn, heq x hx y hy]

/-- Whether two bitmaps have the same sides and the same cells (`equals`). -/
def equals (a b : Bitmap) : Bool :=
  a.width == b.width && a.height == b.height && a.cells == b.cells

/-! ### Making bitmaps -/

/-- The bitmap of the given sides whose cells are given by a function. The sides have to be positive
whole numbers, and the cells have to fit. -/
def draw (width height : Number) (on : Nat → Nat → Bool) : Except Fault Bitmap :=
  match width.toNat?, height.toNat? with
  | some w, some h =>
    if pos : 0 < w ∧ 0 < h then
      if fits : w * h ≤ capacity then .ok (ofFn w h pos.1 pos.2 fits on) else .error .storage
    else .error (.sides width height)
  | _, _ => .error (.sides width height)

/-- A bitmap of the given sides with every cell off (the constructor of `BitMatrix`). -/
def blank (width height : Number) : Except Fault Bitmap := draw width height fun _ _ => false

/-- The bitmap cut or extended to the given sides at its right and lower edge, off where it is
extended (`resize`). -/
def resize (b : Bitmap) (width height : Number) : Except Fault Bitmap := draw width height b.isOn

/-! ### Access by numbers -/

/-- The cell at a pair of numbers; a fault where they are not a position in the bitmap
(`offset`). -/
def locate (b : Bitmap) (x y : Number) : Except Fault Cell :=
  match x.toNat?, y.toNat? with
  | some i, some j =>
    if i < b.width ∧ j < b.height then .ok ⟨i, j⟩ else .error (.outside x y b.width b.height)
  | _, _ => .error (.outside x y b.width b.height)

/-- Reads a cell (`get`). -/
def get (b : Bitmap) (x y : Number) : Except Fault Bool :=
  (b.locate x y).map fun c => b.isOn c.x c.y

/-- A position in the bitmap is found. -/
@[simp] theorem locate_ofNat (b : Bitmap) {x y : Nat} (hx : x < b.width) (hy : y < b.height) :
    b.locate (.ofNat x) (.ofNat y) = .ok ⟨x, y⟩ := by
  simp [locate, hx, hy]

/-- Reading a position in the bitmap gives its view. -/
@[simp] theorem get_ofNat (b : Bitmap) {x y : Nat} (hx : x < b.width) (hy : y < b.height) :
    b.get (.ofNat x) (.ofNat y) = .ok (b.isOn x y) := by
  simp [get, hx, hy, Except.map]

/-- The bitmap with one cell changed. -/
def put (b : Bitmap) (c : Cell) (value : Bool) : Bitmap :=
  { b with
    cells := b.cells.setIfInBounds (c.y * b.width + c.x) value
    size_cells := by rw [Array.size_setIfInBounds]; exact b.size_cells }

/-- Sets a cell (`set`). -/
def set (b : Bitmap) (x y : Number) (value : Bool) : Except Fault Bitmap :=
  (b.locate x y).map fun c => b.put c value

/-- Changing a cell changes the view there and nowhere else. -/
theorem isOn_put (b : Bitmap) {c : Cell} (hc : c.x < b.width) (value : Bool) {x y : Nat}
    (hx : x < b.width) (hy : y < b.height) :
    (b.put c value).isOn x y = if x = c.x ∧ y = c.y then value else b.isOn x y := by
  rw [isOn_eq_getElem (b.put c value) hx hy, isOn_eq_getElem b hx hy]
  have hlt : y * b.width + x < b.cells.size := b.size_cells ▸ place_lt hx hy
  simp only [put, Array.getElem_setIfInBounds hlt]
  by_cases h : x = c.x ∧ y = c.y
  · simp [h]
  · have : ¬ c.y * b.width + c.x = y * b.width + x := fun e => h
      ⟨by rw [← place_mod hx y, ← e, place_mod hc], by rw [← place_div hx y, ← e, place_div hc]⟩
    simp [h, this]

/-! ### Raster extremes -/

/-- The position at a place in row order. -/
def cellAt (b : Bitmap) (place : Nat) : Cell := ⟨place % b.width, place / b.width⟩

/-- The first on cell, row by row (`getTopLeftOnBit`). -/
def firstOn? (b : Bitmap) : Option Cell := (b.cells.findIdx? id).map b.cellAt

/-- The greatest place below `n` that holds an on cell. -/
def lastPlace? (cells : Array Bool) : Nat → Option Nat
  | 0 => none
  | n + 1 => if cells.getD n false then some n else lastPlace? cells n

/-- The last on cell, row by row (`getBottomRightOnBit`). -/
def lastOn? (b : Bitmap) : Option Cell := (lastPlace? b.cells b.cells.size).map b.cellAt

end Bitmap

end MatrixSymbol
