/-
What a symbol says (`DecodedPayload`, sections 2 and 3.6 of the specification).

* `Payload`: the text and bytes of a symbol, and what else was learned while decoding it.
* `Payload.position`: the place of a symbol in a sequence, packed into one number.
* `Payload.ofSighting`: the payload of a scanner's report.
* `Payload.reorder`: the finder points of a symbol that was read from its reflection.
-/
import MatrixSymbol.Number.Decimal
import MatrixSymbol.Number.Word
import MatrixSymbol.Sighting

namespace MatrixSymbol

/-- The place of a symbol in a sequence of symbols, and the parity of the sequence
(`StructuredAppendInfo`). -/
structure SequencePlace where
  position : Number
  parity : Number
  deriving DecidableEq, Repr

/-- What a symbol says (`DecodedPayload`). Of its metadata (`QrDecoderMetaData`) there is only
whether it was read from its reflection. -/
structure Payload where
  text : String
  bytes : List UInt8
  segments : Option (List (List UInt8)) := none
  level : Option String := none
  place : Option SequencePlace := none
  reflected : Option Bool := none
  deriving DecidableEq, Repr

namespace Payload

/-- A place in a sequence as one number: the index above the lowest four bits, the count less one in
these. Both are 32-bit words, and so is the result, which is read as a signed one. -/
def position (index size : Number) : Int :=
  (((index.toWord <<< 4) ||| (size - 1).toWord) : BitVec 32).toInt

/-- The place in a sequence of which a scanner reports. The index may not be negative, the count has
to be positive, and the name of the sequence has to start with its parity. -/
def placeOf (s : Sighting) : Option SequencePlace :=
  if (0 : Number).le s.index && (0 : Number).lt s.size then
    (Number.ofIntegerText? s.sequence).map fun parity =>
      ⟨.ofInt (position s.index s.size), parity⟩
  else none

/-- The payload of a scanner's report (`toDecodedPayload`). -/
def ofSighting (s : Sighting) : Payload where
  text := s.text
  bytes := s.bytes
  level := if s.level.isEmpty then none else some s.level
  place := placeOf s
  reflected := some s.isReflected

/-- For a symbol read from its reflection the first and the third finder point change places, if
there are three (`applyMirroredCorrection`). -/
def reorder {α : Type} (reflected : Bool) : List α → List α
  | a :: b :: c :: rest => if reflected then c :: b :: a :: rest else a :: b :: c :: rest
  | points => points

end Payload

end MatrixSymbol
