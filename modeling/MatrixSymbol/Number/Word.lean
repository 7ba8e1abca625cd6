/-
Numbers as machine words, as `toDecodedPayload` packs them.

* `Number.toWord`: the 32-bit word of a number: its whole part, reduced modulo `2 ^ 32`.
-/
import MatrixSymbol.Number.Basic

namespace MatrixSymbol

namespace Number

/-- The whole part of a fraction, toward zero. -/
def truncate (q : Rat) : Int := if q < 0 then -(-q).floor else q.floor

/-- The 32-bit word of a number: its whole part modulo `2 ^ 32`, and zero where there is none. -/
def toWord (x : Number) : BitVec 32 :=
  match x.toRat? with
  | some q => BitVec.ofInt 32 (truncate q)
  | none => 0#32

end Number

end MatrixSymbol
