import EvmSourceMap.Binary64.Notation
import EvmSourceMap.Bytes.Hex
import EvmSourceMap.Bytes.Utf8
import EvmSourceMap.Json

/-!
Writing JSON values, in one line or with one element a line. Strings are copied byte for byte except
for quotes, backslashes and control characters, so only values whose strings are valid UTF-8 have a
text that is a JSON text again. A run may write with another library (`EvmSourceMap.Json.Codec`).
-/

namespace EvmSourceMap.Json

/-- Numbers with a fraction are written positionally from `0.0001` up to fifteen digits in front of
the point, and with an exponent of at least two digits otherwise. -/
def realLayout : Binary64.Layout :=
  ⟨-3, 15, 2⟩

/-- A byte inside a string. -/
def escape (b : UInt8) : Bytes :=
  if b == 0x22 then "\\\""
  else if b == 0x5c then "\\\\"
  else if b == 0x08 then "\\b"
  else if b == 0x0c then "\\f"
  else if b == 0x0a then "\\n"
  else if b == 0x0d then "\\r"
  else if b == 0x09 then "\\t"
  else if b < 0x20 then "\\u00" ++ Hex.ofByte b
  else [b]

/-- A string between quotes. -/
def quote (text : Bytes) : Bytes :=
  "\"" ++ text.flatMap escape ++ "\""

mutual

/-- The text of a value in one line, without blanks. -/
def text : Json → Bytes
  | null => "null"
  | bool value => if value then "true" else "false"
  | integer value => Decimal.ofInt value
  | real value => realLayout.text value
  | string value => quote value
  | array elements => "[" ++ elementsText elements ++ "]"
  | object members => "\x7b" ++ membersText members ++ "\x7d"

/-- The elements of an array, with commas between them. -/
def elementsText : List Json → Bytes
  | [] => []
  | [element] => element.text
  | element :: rest => element.text ++ "," ++ elementsText rest

/-- The members of an object, with commas between them. -/
def membersText : List (Bytes × Json) → Bytes
  | [] => []
  | [(key, member)] => quote key ++ ":" ++ member.text
  | (key, member) :: rest => quote key ++ ":" ++ member.text ++ "," ++ membersText rest

end

/-- A new line at the given depth: two spaces for each container around it. -/
def newline (depth : Nat) : Bytes :=
  "\n" ++ Bytes.spaces (2 * depth)

mutual

/-- The text of a value with every element on a line of its own. Empty containers stay closed. -/
def indented (depth : Nat) : Json → Bytes
  | array elements =>
    if elements.isEmpty then "[]"
    else "[" ++ indentedElements (depth + 1) elements ++ newline depth ++ "]"
  | object members =>
    if members.isEmpty then "\x7b\x7d"
    else "\x7b" ++ indentedMembers (depth + 1) members ++ newline depth ++ "\x7d"
  | value => value.text

/-- The elements of an array, each behind a new line. -/
def indentedElements (depth : Nat) : List Json → Bytes
  | [] => []
  | [element] => newline depth ++ indented depth element
  | element :: rest => newline depth ++ indented depth element ++ "," ++ indentedElements depth rest

/-- The members of an object, each behind a new line. -/
def indentedMembers (depth : Nat) : List (Bytes × Json) → Bytes
  | [] => []
  | [(key, member)] => newline depth ++ quote key ++ ": " ++ indented depth member
  | (key, member) :: rest =>
    newline depth ++ quote key ++ ": " ++ indented depth member ++ "," ++ indentedMembers depth rest

end

mutual

/-- Whether all strings in a value are valid UTF-8, keys included. -/
def isWritable : Json → Bool
  | string value => Utf8.isValid value
  | array elements => areWritable elements
  | object members => membersAreWritable members
  | _ => true

/-- Whether all strings in the elements are valid UTF-8. -/
def areWritable : List Json → Bool
  | [] => true
  | element :: rest => element.isWritable && areWritable rest

/-- Whether all keys and all strings in the members are valid UTF-8. -/
def membersAreWritable : List (Bytes × Json) → Bool
  | [] => true
  | (key, member) :: rest => Utf8.isValid key && member.isWritable && membersAreWritable rest

end

/-- The document for a value, with every element on a line of its own. There is none if a string is
not valid UTF-8. -/
def document? (value : Json) : Option Bytes :=
  if value.isWritable then some (indented 0 value) else none

end EvmSourceMap.Json
