/-
Character sets, as hints for the scanner (`toZXingCharacterSet`, section 3.6 of the specification).

* `CharacterSet`: the sets that a scanner can be told to expect, and `CharacterSet.label`, its names
  for them.
* `CharacterSet.names`: the names of the sets.
* `CharacterSet.Entry`: what a name can find in a table of names. Beside what it lists, every table
  answers to two names that nobody has set: it is made after an empty record, and by a function.
* `CharacterSet.table`, `CharacterSet.find?`: what a name finds, in capital or small letters.
* `CharacterSet.hint?`: what a request shows of it.
-/
import MatrixSymbol.Record
import MatrixSymbol.Text.Lowercase

namespace MatrixSymbol

/-- A character set that a scanner can be told to expect. -/
inductive CharacterSet where
  | utf8
  | latin1
  | ascii
  | shiftJis
  | gb18030
  | big5
  | eucKr
  | utf16be
  deriving DecidableEq, Repr

namespace CharacterSet

/-- The name by which the scanner knows a character set. -/
def label : CharacterSet → String
  | utf8 => "UTF8"
  | latin1 => "ISO8859_1"
  | ascii => "ASCII"
  | shiftJis => "Shift_JIS"
  | gb18030 => "GB18030"
  | big5 => "Big5"
  | eucKr => "EUC_KR"
  | utf16be => "UTF16BE"

/-- The names of the character sets, in small letters (`CHARACTER_SETS`). -/
def names : List (String × CharacterSet) :=
  [("utf-8", utf8), ("utf8", utf8), ("iso-8859-1", latin1), ("latin1", latin1),
    ("us-ascii", ascii), ("ascii", ascii), ("shift_jis", shiftJis), ("sjis", shiftJis),
    ("gb18030", gb18030), ("big5", big5), ("euc-kr", eucKr), ("utf-16be", utf16be)]

/-- What a name can find in a table of names. -/
inductive Entry where
  /-- A character set that the table lists. -/
  | listed (set : CharacterSet)
  /-- The empty record after which the table is made. -/
  | pattern
  /-- The function that has made the table. -/
  | maker
  deriving DecidableEq, Repr

/-- What every table answers to, whatever it lists, as far as the names are in small letters. -/
def inherited : List (String × Entry) := [("__proto__", .pattern), ("constructor", .maker)]

/-- The table of names, with what it lists in front. -/
def table : List (String × Entry) := names.map (fun f => (f.1, .listed f.2)) ++ inherited

/-- What a name finds, in capital or small letters. -/
def find? (name : String) : Option Entry := table.lookup (Text.lowercase name)

/-- What a request shows of an entry: the label of a character set, the fields of a record, and the
function as it is. -/
def Entry.shown : Entry → Value
  | listed set => .text set.label
  | pattern => .record []
  | maker => .function "Object"

/-- What a request shows of a name (`toZXingCharacterSet`). -/
def hint? (name : String) : Option Value := (find? name).map Entry.shown

end CharacterSet

end MatrixSymbol
