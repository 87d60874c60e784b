/-!
Texts as lists of bytes.

Every offset, length and column in this library counts bytes, and compiled code, source maps and
source files may hold any byte at all. So a text is the list of its bytes, and being valid UTF-8 is
a property that a text may have (`EvmSourceMap.Bytes.Utf8`).
-/

namespace EvmSourceMap

/-- A text, by its bytes. -/
abbrev Bytes := List UInt8

namespace Bytes

/-- The UTF-8 bytes of a string. -/
def ofString (s : String) : Bytes :=
  s.toUTF8.data.toList

instance : Coe String Bytes := ⟨ofString⟩

/-- The blank bytes: space, tab, line feed, vertical tab, form feed and carriage return. -/
def isBlank (b : UInt8) : Bool :=
  b == 0x20 || (0x09 ≤ b && b ≤ 0x0d)

/-- Removes the blanks at both ends. -/
def trim (s : Bytes) : Bytes :=
  ((s.dropWhile isBlank).reverse.dropWhile isBlank).reverse

/-- The pieces between the occurrences of a delimiter. Empty pieces are kept, so there is always
one piece more than there are delimiters. -/
def split (delimiter : UInt8) (s : Bytes) : List Bytes :=
  s.splitOn delimiter

/-- The text before the first zero byte. Messages, arguments and paths end there. -/
def beforeNul (s : Bytes) : Bytes :=
  s.takeWhile (· != 0)

def spaces (count : Nat) : Bytes :=
  List.replicate count 0x20

/-- Fills up with spaces on the right; a text that is wide enough stays as it is. -/
def padRight (width : Nat) (s : Bytes) : Bytes :=
  s ++ spaces (width - s.length)

def toLower (b : UInt8) : UInt8 :=
  if 0x41 ≤ b && b ≤ 0x5a then b + 0x20 else b

/-- Equality up to the case of ASCII letters. -/
def equalsIgnoringCase (s t : Bytes) : Bool :=
  s.map toLower == t.map toLower

end Bytes

end EvmSourceMap
