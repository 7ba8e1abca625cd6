/-
Searching a text for a word, capital or not, as `createZXingDecoder` searches for "checksum".

* `Text.mentions`: somewhere in the text stand the letters of the word. Letters of ASCII match in
  either case; a character beyond ASCII matches nothing but itself, even if its small or capital
  form is an ASCII letter.
-/

namespace MatrixSymbol

namespace Text

/-- The characters from every position of a text on. -/
def suffixes : List Char → List (List Char)
  | [] => [[]]
  | c :: rest => (c :: rest) :: suffixes rest

/-- Whether a text holds a word, letters of ASCII in either case. The word is given in small
letters. -/
def mentions (word text : String) : Bool :=
  (suffixes (text.toList.map Char.toLower)).any fun s => word.toList.isPrefixOf s

end Text

end MatrixSymbol
