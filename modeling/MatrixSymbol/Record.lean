/-
Values without a fixed shape, as callers pass them in options (`DecodeOptions`, section 1.3 of the
specification).

* `Value`: nothing, a truth value, a number, a text, a list, a record or a function.
  `Value.ofWords`: any text as a value.
* `Record`: fields in the order in which they were set; setting a field again keeps its place.
* `Value.fields`: the fields of any value; lists and texts have theirs by position.
-/
import MatrixSymbol.Number.Basic
import MatrixSymbol.Text.Words

namespace MatrixSymbol

/-- A value without a fixed shape. A text is a string or, if a surrogate in it is without its
partner, a stray text. Of a function nothing but its name is known. -/
inductive Value where
  | null
  | bool (b : Bool)
  | number (x : Number)
  | text (s : String)
  | stray (text : Text.Stray)
  | list (items : List Value)
  | record (fields : List (String × Value))
  | function (name : String)
  deriving Inhabited

/-- Fields by name, in the order in which they were set. -/
abbrev Record := List (String × Value)

namespace Record

/-- The value of a field, if the field is set. -/
def get? (r : Record) (key : String) : Option Value := r.lookup key

/-- Sets a field, in its place if it is there and at the end otherwise. -/
def set : Record → String → Value → Record
  | [], key, v => [(key, v)]
  | (k, w) :: rest, key, v => if k = key then (k, v) :: rest else (k, w) :: set rest key v

/-- Sets every field of `other`, in order. -/
def merge (r other : Record) : Record := other.foldl (fun acc f => acc.set f.1 f.2) r

/-- The value just set is read back, and no other field changes. -/
theorem get?_set (r : Record) (key k : String) (v : Value) :
    (r.set key v).get? k = if k = key then some v else r.get? k := by
  induction r with
  | nil =>
    by_cases h : k = key
    · simp [set, get?, h]
    · simp [set, get?, List.lookup_cons, h, beq_eq_false_iff_ne.2 h]
  | cons f rest ih =>
    obtain ⟨name, w⟩ := f
    simp only [get?] at ih
    by_cases hf : name = key
    · subst hf
      by_cases h : k = name
      · simp [set, get?, h]
      · simp [set, get?, List.lookup_cons, h, beq_eq_false_iff_ne.2 h]
    · by_cases hk : k = name
      · subst hk
        simp [set, get?, hf]
      · simp [set, get?, List.lookup_cons, hf, beq_eq_false_iff_ne.2 hk, ih]

end Record

namespace Value

/-- A natural number as a value. -/
def nat (n : Nat) : Value := number (.ofNat n)

/-- An integer as a value. -/
def int (z : Int) : Value := number (.ofInt z)

/-- A text as a value. -/
def ofWords (ws : Text.Words) : Value :=
  match h : Text.toString? ws with
  | some s => text s
  | none => stray ⟨ws, h⟩

/-! ### Fields by position -/

/-- Values as fields that are named by their positions, counted from zero. -/
def indexed (values : List Value) : Record := values.zipIdx.map fun (v, i) => (Nat.repr i, v)

/-- The fields of a value: those of a record, the items of a list and the words of a text. Other
values have none. -/
def fields : Value → Record
  | record r => r
  | list items => indexed items
  | text s => indexed ((Text.ofString s).map fun w => ofWords [w])
  | stray t => indexed (t.val.map fun w => ofWords [w])
  | _ => []

end Value

end MatrixSymbol
