import EvmSourceMap.Decimal
import EvmSourceMap.SourceMap.Element

/-!
One segment of a compressed source map: up to five fields with colons between them. A field that is
missing or empty says that the value of the instruction before holds on.
-/

namespace EvmSourceMap.SourceMap

/-- The fields of a segment, in their order. -/
inductive Field
  | start
  | length
  | fileIndex
  | jump
  | modifierDepth
  deriving DecidableEq, Repr

/-- What error messages call a field. -/
def Field.name : Field → Bytes
  | start => "start"
  | length => "length"
  | fileIndex => "file index"
  | jump => "jump type"
  | modifierDepth => "modifier depth"

def maxFields : Nat :=
  5

/-- What is wrong with a segment. -/
inductive Fault
  | tooManyFields (count : Nat)
  | invalidField (field : Field) (text : Bytes)
  deriving DecidableEq, Repr

/-- The values that a segment changes. -/
structure Segment where
  start : Option Int32 := none
  length : Option Int32 := none
  fileIndex : Option Int32 := none
  jump : Option Jump := none
  modifierDepth : Option Int32 := none
  deriving DecidableEq, Repr

/-- Reads the field of a segment, which may be empty. -/
def readField {α : Type} (read? : Bytes → Option α) (field : Field) (text : Bytes) :
    Except Fault (Option α) :=
  if text.isEmpty then .ok none
  else
    match read? text with
    | some value => .ok (some value)
    | none => .error (.invalidField field text)

def readJump? : Bytes → Option Jump
  | [b] => Jump.ofSymbol? b
  | _ => none

namespace Segment

/-- Whether there is nothing but blanks. Such a segment changes nothing, although a field of blanks
would be an error. -/
def isBlank (text : Bytes) : Bool :=
  (Bytes.trim text).isEmpty

/-- Reads a segment. The first fault from the left is reported, too many fields before any other. -/
def read (text : Bytes) : Except Fault Segment := do
  if isBlank text then return {}
  let fields := Bytes.split ':'.toUInt8 text
  if maxFields < fields.length then throw (.tooManyFields fields.length)
  let start ← readField Decimal.readInt32? .start (fields.getD 0 [])
  let length ← readField Decimal.readInt32? .length (fields.getD 1 [])
  let fileIndex ← readField Decimal.readInt32? .fileIndex (fields.getD 2 [])
  let jump ← readField readJump? .jump (fields.getD 3 [])
  let modifierDepth ← readField Decimal.readInt32? .modifierDepth (fields.getD 4 [])
  return { start, length, fileIndex, jump, modifierDepth }

end Segment

/-- The element of an instruction, from that of the one before it and its segment. -/
def Element.update (e : Element) (segment : Segment) : Element where
  start := segment.start.getD e.start
  length := segment.length.getD e.length
  fileIndex := segment.fileIndex.getD e.fileIndex
  jump := segment.jump.getD e.jump
  modifierDepth := segment.modifierDepth.getD e.modifierDepth

end EvmSourceMap.SourceMap
