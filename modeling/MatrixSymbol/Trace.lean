/-
Notes on the work of the reader, kept only on request (`debugLog`, section 1.1 of the
specification).

* `Note`: what is noted, by cause; `Note.line`: the values that make up its line in a log.
* `Noted`: a computation that makes notes, without knowing whether they are kept.
* `Traced`: a computation that makes notes if they are wanted. `Traced.ofNoted` drops the notes of a
  computation where they are not.
* `Attempt`: a traced computation that may end in a fault.
* `Traced.run_bind`, `Attempt.run_bind`: two steps in a row; the notes of the first come first.
-/
import MatrixSymbol.Bitmap.Picture
import MatrixSymbol.Bounds
import MatrixSymbol.Point

namespace MatrixSymbol

/-! ### Notes -/

/-- A step of the reader that is worth noting. -/
inductive Note where
  /-- The distance between module centres, as measured on the diagonal and the axes. -/
  | pitch (diagonal : Rat) (horizontal vertical : Option Rat) (mean : Rat)
  /-- The first and the last dark pixel. -/
  | rawBounds (bounds : Bounds)
  /-- The bounds after an axis was stretched. -/
  | stretchedBounds (bounds : Bounds)
  /-- The modules counted on each axis, and the sides of the grid. -/
  | dimensions (columns rows : Int) (width height : Int)
  /-- The first sample, and how far the last one would land past the symbol. -/
  | origin (nudge left top pastRight pastBottom : Int)
  /-- The grid of modules. -/
  | grid (bits : Bitmap)
  /-- The first attempt failed. -/
  | firstFailed (failure : Failure)
  /-- The second attempt could not be answered. -/
  | secondBroke (fault : Fault)
  /-- The second attempt failed. -/
  | secondFailed (failure : Failure)
  /-- The symbol was read. -/
  | result (pure : Bool) (text : String) (points : List Point)
  /-- The scanner located nothing among its results. -/
  | notSighted (results : Nat)
  /-- The scanner located a symbol. -/
  | sighted (width height : Number) (points : List Point)
  /-- The scanner could not make out a symbol. -/
  | invalid (report : String)
  /-- A note of the caller's own. -/
  | remark (stage : String) (details : List Value)

/-- A failure as a record. -/
def Failure.toValue (f : Failure) : Value :=
  .record [("kind", .text f.kind.name), ("message", .text f.message)]

/-- A fault as a record. -/
def Fault.toValue (f : Fault) : Value :=
  .record (("error", .text f.name) :: (f.message?.map fun m => ("message", Value.text m)).toList)

namespace Note

/-- What every line of the log starts with. -/
def mark : String := "[QR DEBUG] "

/-- The stage of the work to which a note belongs. -/
def stage : Note → String
  | pitch .. => "PURE 2 - Module size"
  | rawBounds _ => "PURE 1 - Raw bounds"
  | stretchedBounds _ => "PURE 1 - Corrected bounds"
  | dimensions .. => "PURE 3 - Dimensions"
  | origin .. => "PURE 4 - Nudged origin"
  | grid _ => "Extracted grid"
  | firstFailed _ => "ATTEMPT 1 - Failed"
  | secondBroke _ => "ATTEMPT 2 - Threw, reporting first error"
  | secondFailed _ => "ATTEMPT 2 - Failed, reporting first error"
  | result .. => "RESULT"
  | notSighted _ => "DETECT - No symbol"
  | sighted .. => "DETECT - Symbol"
  | invalid _ => "DECODE - Invalid symbol"
  | remark stage _ => stage

/-- Bounds as a record. -/
def boundsValue (b : Bounds) : Value :=
  .record [("left", .int b.left), ("top", .int b.top), ("right", .int b.right),
    ("bottom", .int b.bottom)]

/-- A measurement as a value, nothing where there is none. -/
def measureValue (q : Option Rat) : Value := q.elim .null fun v => .number (.finite v)

/-- The details of a note. -/
def details : Note → List Value
  | pitch d h v m =>
    [.record [("diagonal", measureValue d), ("horizontal", measureValue h),
      ("vertical", measureValue v), ("moduleSize", measureValue m)]]
  | rawBounds b | stretchedBounds b => [boundsValue b]
  | dimensions c r w h =>
    [.record [("measuredWidth", .int c), ("measuredHeight", .int r), ("width", .int w),
      ("height", .int h)]]
  | origin nudge left top pastRight pastBottom =>
    [.record [("nudge", .int nudge), ("left", .int left), ("top", .int top),
      ("nudgedTooFarRight", .int pastRight), ("nudgedTooFarDown", .int pastBottom)]]
  | grid _ => []
  | firstFailed f | secondFailed f => [f.toValue]
  | secondBroke f => [f.toValue]
  | result pure text points =>
    [.record [("pure", .bool pure), ("text", .text text),
      ("points", .list (points.map Point.toValue))]]
  | notSighted n => [.record [("results", .nat n)]]
  | sighted w h points =>
    [.record [("size", .text (w.toText ++ "x" ++ h.toText)),
      ("points", .list (points.map Point.toValue))]]
  | invalid report => [.text report]
  | remark _ details => details

/-- The line of a note (`debugLog`): its stage, then its details. A grid is drawn below its
stage. -/
def line : Note → List Value
  | grid bits =>
    [.ofWords (Text.ofString (mark ++ (grid bits).stage ++ ":\n")
      ++ bits.toText Bitmap.inkText Bitmap.paperText)]
  | n => .text (mark ++ n.stage ++ ":") :: n.details

end Note

/-! ### Noted and traced computations -/

/-- A computation that makes notes, without knowing whether they are kept. -/
def Noted (α : Type) : Type := α × List Note

namespace Noted

instance : Monad Noted where
  pure a := (a, [])
  bind m f :=
    let second := f m.1
    (second.1, m.2 ++ second.2)

instance : LawfulMonad Noted :=
  .mk' Noted
    (fun m => by
      show (m.1, m.2 ++ []) = m
      rw [List.append_nil]; rfl)
    (fun a f => by
      show ((f a).1, [] ++ (f a).2) = f a
      rfl)
    (fun m f g => by
      show ((g (f m.1).1).1, (m.2 ++ (f m.1).2) ++ (g (f m.1).1).2) = _
      rw [List.append_assoc]; rfl)

/-- Makes a note. -/
def note (n : Note) : Noted Unit := ((), [n])

end Noted

/-- A computation that makes notes if they are wanted (`isDebugMode`). -/
def Traced (α : Type) : Type := Bool → α × List Note

namespace Traced

/-- The result and the notes of a computation. -/
def run {α : Type} (m : Traced α) (wanted : Bool) : α × List Note := m wanted

instance : Monad Traced where
  pure a := fun _ => (a, [])
  bind m f := fun wanted =>
    let first := m wanted
    let second := f first.1 wanted
    (second.1, first.2 ++ second.2)

instance : LawfulMonad Traced :=
  .mk' Traced
    (fun m => by
      funext wanted
      show ((m wanted).1, (m wanted).2 ++ []) = m wanted
      rw [List.append_nil])
    (fun a f => by
      funext wanted
      show ((f a wanted).1, [] ++ (f a wanted).2) = f a wanted
      rfl)
    (fun m f g => by
      funext wanted
      show ((g (f (m wanted).1 wanted).1 wanted).1,
        ((m wanted).2 ++ (f (m wanted).1 wanted).2) ++ (g (f (m wanted).1 wanted).1 wanted).2) = _
      rw [List.append_assoc]; rfl)

/-- Makes a note if notes are wanted. -/
def note (n : Note) : Traced Unit := fun wanted => ((), if wanted then [n] else [])

/-- Keeps the notes of a computation if notes are wanted. -/
def ofNoted {α : Type} (m : Noted α) : Traced α := fun wanted => (m.1, if wanted then m.2 else [])

/-- A result alone makes no note. -/
@[simp] theorem run_pure {α : Type} (a : α) (wanted : Bool) :
    (pure a : Traced α).run wanted = (a, []) := rfl

/-- The notes of two steps follow each other. -/
theorem run_bind {α β : Type} (m : Traced α) (f : α → Traced β) (wanted : Bool) :
    (m >>= f).run wanted
      = (((f (m.run wanted).1).run wanted).1,
          (m.run wanted).2 ++ ((f (m.run wanted).1).run wanted).2) := rfl

/-- A note is kept where it is wanted. -/
@[simp] theorem run_note (n : Note) (wanted : Bool) :
    (note n).run wanted = ((), if wanted then [n] else []) := rfl

end Traced

/-- A traced computation that may end in a fault. -/
abbrev Attempt (α : Type) : Type := ExceptT Fault Traced α

namespace Attempt

/-- Makes a note if notes are wanted. -/
def note (n : Note) : Attempt Unit := ExceptT.lift (Traced.note n)

/-- An answer or a fault, without notes. -/
def ofExcept {α : Type} (answer : Except Fault α) : Attempt α := ExceptT.mk (pure answer)

/-- The answer and the notes of an attempt. -/
def run {α : Type} (m : Attempt α) (wanted : Bool) : Except Fault α × List Note :=
  Traced.run (ExceptT.run m) wanted

/-- An answer alone makes no note. -/
@[simp] theorem run_pure {α : Type} (a : α) (wanted : Bool) :
    Attempt.run (pure a) wanted = (.ok a, []) := rfl

/-- An answer or a fault alone makes no note. -/
@[simp] theorem run_ofExcept {α : Type} (answer : Except Fault α) (wanted : Bool) :
    Attempt.run (ofExcept answer) wanted = (answer, []) := rfl

/-- A note is kept where it is wanted. -/
@[simp] theorem run_note (n : Note) (wanted : Bool) :
    Attempt.run (note n) wanted = (.ok (), if wanted then [n] else []) := by
  cases wanted <;> rfl

/-- After an answer comes the second step; a fault ends the attempt. -/
theorem run_bind {α β : Type} (m : Attempt α) (f : α → Attempt β) (wanted : Bool) :
    Attempt.run (m >>= f) wanted = match Attempt.run m wanted with
      | (.ok a, notes) =>
        ((Attempt.run (f a) wanted).1, notes ++ (Attempt.run (f a) wanted).2)
      | (.error fault, notes) => (.error fault, notes) := by
  simp only [run, ExceptT.run_bind, Traced.run_bind]
  rcases ExceptT.run m |>.run wanted with ⟨fault | a, notes⟩ <;> simp

end Attempt

end MatrixSymbol
