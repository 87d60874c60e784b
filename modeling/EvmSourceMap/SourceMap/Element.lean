import EvmSourceMap.Bytes

/-!
What a source map says about one instruction: the range of source text that it was compiled from,
and how it takes part in calls.
-/

namespace EvmSourceMap

/-- Whether an instruction is a jump into a function, out of one, or neither. -/
inductive Jump
  | regular
  | into
  | out
  deriving DecidableEq, Repr

namespace Jump

/-- The letter for a kind of jump in a source map. -/
def symbol : Jump → UInt8
  | regular => '-'.toUInt8
  | into => 'i'.toUInt8
  | out => 'o'.toUInt8

def ofSymbol? (b : UInt8) : Option Jump :=
  [regular, into, out].find? fun jump => jump.symbol == b

/-- The name of a kind of jump in reports. -/
def label : Jump → Bytes
  | regular => "regular_instruction"
  | into => "jump_into_function"
  | out => "jump_out_of_function"

/-- The kinds of jump in the order in which reports count them. -/
def counted : List Jump :=
  [into, out, regular]

end Jump

namespace SourceMap

/-- What a source map says about one instruction. -/
structure Element where
  /-- The offset of the range in its file; negative where the compiler knew of none. -/
  start : Int32
  length : Int32
  /-- The id of the file; -1 for code that the compiler made up. -/
  fileIndex : Int32
  jump : Jump
  modifierDepth : Int32
  deriving DecidableEq, Repr

/-- What holds before the first instruction. -/
def Element.initial : Element :=
  ⟨0, 0, 0, .regular, 0⟩

/-- The element for one instruction of the code. -/
structure Row extends Element where
  /-- The number of instructions before it. -/
  ordinal : UInt32
  deriving DecidableEq, Repr

end SourceMap

end EvmSourceMap
