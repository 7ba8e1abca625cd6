/-
Binary64 numbers, as exact values.

* `Number`: a fraction, a negative zero, an infinity or the undefined result.
* `Number.ofRat`: the exact value rounded once; every operation is its exact result, rounded once.
* `Number.lt`, `Number.le`: the order. The undefined result is in no relation to anything, and the
  two zeros are equal.
* `Number.toInt?`: the integer that a whole number stands for.
-/
import MatrixSymbol.Number.Rounding

namespace MatrixSymbol

/-- A binary64 number. Its values are held exactly, so that arithmetic is that of fractions followed
by one rounding; zero alone has a second, negative form. -/
inductive Number where
  | finite (value : Rat)
  | negZero
  | infinite (negative : Bool)
  | nan
  deriving DecidableEq, Repr, Inhabited

namespace Number

/-! ### Making numbers -/

/-- The magnitude from which a rounded result is infinite. -/
def overflow : Rat := Binary64.power 2 1024

/-- The number nearest to a fraction. A negative fraction that vanishes leaves a negative zero. -/
def ofRat (q : Rat) : Number :=
  let r := Binary64.nearest q
  if overflow ≤ r.abs then infinite (q < 0)
  else if r = 0 ∧ q < 0 then negZero
  else finite r

/-- A whole number, held exactly. -/
def ofInt (z : Int) : Number := finite z

/-- A natural number, held exactly. -/
def ofNat (n : Nat) : Number := finite (n : Int)

instance (n : Nat) : OfNat Number n := ⟨ofNat n⟩

/-! ### Reading numbers -/

/-- The fraction that a finite number stands for. -/
def toRat? : Number → Option Rat
  | finite q => some q
  | negZero => some 0
  | _ => none

/-- The integer that a whole number stands for. -/
def toInt? : Number → Option Int
  | finite q => if q.den = 1 then some q.num else none
  | negZero => some 0
  | _ => none

/-- The natural number that a whole number stands for. -/
def toNat? (x : Number) : Option Nat :=
  match x.toInt? with
  | some (.ofNat n) => some n
  | _ => none

/-- Whether the number carries a minus sign, as a negative zero does. -/
def isNegative : Number → Bool
  | finite q => q < 0
  | negZero => true
  | infinite s => s
  | nan => false

/-- Whether this is the undefined result. -/
def isNaN (x : Number) : Bool := x = nan

/-- Whether this is either zero. -/
def isZero (x : Number) : Bool := x.toRat? = some 0

/-! ### Arithmetic -/

/-- The zero of a given sign. -/
def signedZero (negative : Bool) : Number := if negative then negZero else finite 0

/-- The number of opposite sign. -/
def neg : Number → Number
  | finite q => if q = 0 then negZero else finite (-q)
  | negZero => finite 0
  | infinite s => infinite !s
  | nan => nan

/-- The sum. A sum that cancels is a positive zero; only two negative zeros add to a negative one.
-/
def add : Number → Number → Number
  | finite a, finite b => ofRat (a + b)
  | finite a, negZero => finite a
  | negZero, finite b => finite b
  | negZero, negZero => negZero
  | infinite s, infinite t => if s = t then infinite s else nan
  | nan, _ => nan
  | _, nan => nan
  | infinite s, _ => infinite s
  | _, infinite t => infinite t

/-- The difference. -/
def sub (x y : Number) : Number := x.add y.neg

/-- The product. A zero times an infinity is undefined; the sign is that of the two factors. -/
def mul (x y : Number) : Number :=
  let negative := x.isNegative != y.isNegative
  match x.toRat?, y.toRat? with
  | some a, some b => if a * b = 0 then signedZero negative else ofRat (a * b)
  | _, _ =>
    if x.isNaN || y.isNaN || x.isZero || y.isZero then nan else infinite negative

/-- The quotient. A zero by a zero and an infinity by an infinity are undefined; anything else by a
zero is infinite, and by an infinity it is zero. -/
def div (x y : Number) : Number :=
  let negative := x.isNegative != y.isNegative
  match x.toRat?, y.toRat? with
  | some a, some b =>
    if b = 0 then (if a = 0 then nan else infinite negative)
    else if a = 0 then signedZero negative
    else ofRat (a / b)
  | some _, none => if y.isNaN then nan else signedZero negative
  | none, some _ => if x.isNaN then nan else infinite negative
  | none, none => nan

instance : Neg Number := ⟨neg⟩
instance : Add Number := ⟨add⟩
instance : Sub Number := ⟨sub⟩
instance : Mul Number := ⟨mul⟩
instance : Div Number := ⟨div⟩

/-- The number without its sign. -/
def abs : Number → Number
  | finite q => finite q.abs
  | negZero => finite 0
  | infinite _ => infinite false
  | nan => nan

/-- The greatest whole number that is not above a number. -/
def floor : Number → Number
  | finite q => finite q.floor
  | x => x

/-! ### Order -/

/-- Strictly below. -/
def lt : Number → Number → Bool
  | nan, _ => false
  | _, nan => false
  | infinite s, infinite t => s && !t
  | infinite s, _ => s
  | _, infinite t => !t
  | x, y => x.toRat?.getD 0 < y.toRat?.getD 0

/-- Below or equal. -/
def le : Number → Number → Bool
  | nan, _ => false
  | _, nan => false
  | infinite s, infinite t => s || !t
  | infinite s, _ => s
  | _, infinite t => !t
  | x, y => x.toRat?.getD 0 ≤ y.toRat?.getD 0

/-- The smaller of two numbers: undefined if either is, and of two zeros the negative one. -/
def min (x y : Number) : Number :=
  if x.isNaN || y.isNaN then nan
  else if x.lt y then x
  else if y.lt x then y
  else if x.isNegative then x else y

/-! ### Whole numbers -/

/-- A whole number is read back as itself. -/
@[simp] theorem toInt?_ofInt (z : Int) : (ofInt z).toInt? = some z := by
  simp [ofInt, toInt?]

/-- A natural number is read back as the integer it is. -/
@[simp] theorem toInt?_ofNat (n : Nat) : (ofNat n).toInt? = some (n : Int) := by
  simp [ofNat, toInt?]

/-- An integer is read back as a natural number if it is one. -/
@[simp] theorem toNat?_ofInt (z : Int) :
    (ofInt z).toNat? = if 0 ≤ z then some z.toNat else none := by
  cases z with
  | ofNat n => simp [toNat?]
  | negSucc n => simp [toNat?, Int.negSucc_not_nonneg]

/-- A natural number is read back as itself. -/
@[simp] theorem toNat?_ofNat (n : Nat) : (ofNat n).toNat? = some n := by
  simp [toNat?]

end Number

end MatrixSymbol
