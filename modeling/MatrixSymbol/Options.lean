/-
The caller's options, and the request that the scanner gets (sections 1.3 and 3.6 of the
specification).

Options are the fields of a value. The reader knows `tryHarder`, `pureBarcode`, `characterSet` and
`extra`; other fields are passed on as they are.

* `Options.fields`: the fields of an options value, which may be anything but nothing at all.
* `Options.resolve`: options with `tryHarder` switched on unless the caller decided on it.
* `Options.isPure`, `Options.asPure`: whether the image is to be read as an upright symbol without a
  search, and the options that say so.
* `Options.flags`: the three switches that a caller may set in `extra`.
* `Options.characterEntry`, `Options.characterHint`: what the caller's character set stands for, and
  what a request shows of it.
* `Options.request`: the request for the scanner. Fields set by the collaborator win over the
  caller's switches, and these over the defaults.
-/
import MatrixSymbol.CharacterSet
import MatrixSymbol.Failure

namespace MatrixSymbol

namespace Options

/-! ### Options -/

/-- The fields of an options value; nothing at all is no options value. -/
def fields : Value → Except Fault Record
  | .null => .error .missing
  | v => .ok v.fields

/-- The value of `tryHarder`: the caller's, and on where the caller left it open. -/
def tryHarder (options : Record) : Value :=
  match options.get? "tryHarder" with
  | none | some .null => .bool true
  | some v => v

/-- The options with `tryHarder` decided (`resolveDecodeOptions`). -/
def resolve (options : Record) : Record := options.set "tryHarder" (tryHarder options)

/-- Whether the image is to be read as an upright symbol without a search. -/
def isPure (options : Record) : Bool :=
  match options.get? "pureBarcode" with
  | some (.bool b) => b
  | _ => false

/-- The options that ask to read the image as an upright symbol. -/
def asPure (options : Record) : Record := options.set "pureBarcode" (.bool true)

/-! ### Requests -/

/-- The switches of the scanner that a caller may set (`FORWARDED_FLAGS`). -/
def switches : List String := ["tryRotate", "tryInvert", "tryDownscale"]

/-- The switches that are set to a truth value in the caller's extra options
(`forwardedReaderFlags`). -/
def flags (extra : Option Value) : Record :=
  match extra with
  | some (.record r) =>
    switches.filterMap fun key =>
      match Record.get? r key with
      | some (.bool b) => some (key, .bool b)
      | _ => none
  | _ => []

/-- What the character set that the options name stands for. A surrogate without its partner is no
capital and in no table, so that a stray text names nothing; a name that is no text at all is a
fault. -/
def characterEntry (options : Record) : Except Fault (Option CharacterSet.Entry) :=
  match options.get? "characterSet" with
  | none | some (.stray _) => .ok none
  | some (.text name) => .ok (CharacterSet.find? name)
  | some _ => .error .missing

/-- The hint for the scanner that the options name, if any. -/
def characterHint (options : Record) : Except Fault (Option Value) :=
  (characterEntry options).map fun entry => entry.map CharacterSet.Entry.shown

/-- What a request says before the caller's switches. -/
def defaults (tryHarder : Value) (hint : Option Value) : Record :=
  [("formats", .list [.text "QRCode"]), ("tryHarder", tryHarder), ("tryRotate", .bool true),
    ("tryInvert", .bool false), ("maxNumberOfSymbols", .nat 1)]
    ++ (hint.map fun h => ("characterSet", h)).toList

/-- The request for the scanner (`readerOptions`). -/
def request (options overrides : Record) : Except Fault Record := do
  let hint ← characterHint options
  return ((defaults (tryHarder options) hint).merge (flags (options.get? "extra"))).merge overrides

end Options

end MatrixSymbol
