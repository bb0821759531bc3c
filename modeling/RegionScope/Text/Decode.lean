/-!
# Text of a file

A file is a sequence of bytes, read as UTF-8 in its strict form. Every line ending, a
carriage return alone or before a newline, becomes one newline. Source files may begin
with one byte order mark, which is dropped, even if its bytes break off and nothing follows;
settings files may not, so there it stays.
-/

namespace RegionScope.Text

/-- Every line ending as one newline. -/
def unifyNewlines : List Char → List Char
  | [] => []
  | '\r' :: '\n' :: cs => '\n' :: unifyNewlines cs
  | c :: cs => (if c = '\r' then '\n' else c) :: unifyNewlines cs

/-- The byte order mark. -/
def byteOrderMark : Char := Char.ofNat 0xFEFF

/-- The text without one leading byte order mark. -/
def dropByteOrderMark : List Char → List Char
  | [] => []
  | c :: cs => if c = byteOrderMark then cs else c :: cs

/-- The text of the bytes, with unified newlines; none if they are no UTF-8. -/
def decode? (bytes : ByteArray) : Option (List Char) :=
  (String.fromUTF8? bytes).map fun s => unifyNewlines s.toList

/-- Whether the bytes are the beginning of a byte order mark and no more. -/
def isBrokenMark (bytes : ByteArray) : Bool :=
  bytes.size < 3 && bytes.data.toList.isPrefixOf [0xEF, 0xBB, 0xBF]

/-- The text of a source file. -/
def decodeSource? (bytes : ByteArray) : Option (List Char) :=
  if isBrokenMark bytes then some []
  else (String.fromUTF8? bytes).map fun s => unifyNewlines (dropByteOrderMark s.toList)

end RegionScope.Text
