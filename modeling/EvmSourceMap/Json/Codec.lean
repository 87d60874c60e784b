import EvmSourceMap.Json.Printer
import EvmSourceMap.Json.Reader

/-!
Libraries that read and write JSON. They agree about values but not about every text: a reader may
take a zero byte for the end of the text, and a printer may choose other digits than the shortest
ones that read back, such as `9.999999999999999e+22` for `1e23`. So a run takes its library as a
parameter, and `Codec.Lawful` says what is assumed of it.
-/

namespace EvmSourceMap.Json

/-- A library for JSON texts. -/
structure Codec where
  read : Bytes → Except ReadError Json
  /-- The text of a value in one line. -/
  text : Json → Bytes
  /-- The document for a value, if there is one. -/
  document? : Json → Option Bytes

namespace Codec

/-- The library of this project: nothing but blanks may follow a value, and numbers have their
shortest digits. -/
def strict : Codec :=
  ⟨Json.read, Json.text, Json.document?⟩

/-- The same with a reader to which a zero byte between two tokens is the end of the text. Inside a
token a zero byte is a fault, but so is the end of the text, so nothing behind it counts there
either. -/
def zeroEnded : Codec :=
  { strict with read := fun text => Json.read (Bytes.beforeNul text) }

/-- What is assumed of a library. -/
structure Lawful (codec : Codec) : Prop where
  /-- There is no document exactly if a string is not valid UTF-8. -/
  exists_document?_iff : ∀ value,
    (∃ text, codec.document? value = some text) ↔ value.isWritable = true
  /-- Strings that are not valid UTF-8 are not read. -/
  isWritable_of_read : ∀ text value, codec.read text = .ok value → value.isWritable = true
  /-- A document for an object is read as an object, if it is read at all. -/
  isObject_of_document? : ∀ text value other, codec.document? value = some text →
    codec.read text = .ok other → value.isObject = true → other.isObject = true

end Codec

end EvmSourceMap.Json
