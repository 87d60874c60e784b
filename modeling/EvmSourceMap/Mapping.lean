import EvmSourceMap.Bytecode.Decode
import EvmSourceMap.Log
import EvmSourceMap.PcIndex.Join
import EvmSourceMap.SourceMap.Decode
import EvmSourceMap.TaskPool

/-!
Everything that follows from a piece of code and its source map: the rows, the instructions and the
index that joins them. The two texts can be read in any order, and a fault in the source map is
reported before one in the code.
-/

namespace EvmSourceMap

/-- A piece of code together with its source map. -/
structure Mapping where
  rows : List SourceMap.Row := []
  code : List Instruction := []
  index : PcIndex := ∅
  /-- The number of bytes of the code. -/
  codeLength : Nat := 0
  deriving DecidableEq

namespace Mapping

/-- Why there is no mapping. -/
inductive Error
  | sourceMap (e : SourceMap.Error)
  | bytecode (e : Bytecode.Error)
  deriving DecidableEq, Repr

def Error.message : Error → Bytes
  | sourceMap e => e.message
  | bytecode e => e.message

/-- The mapping of rows and code. -/
def ofParts (rows : List SourceMap.Row) (code : Bytes) : Mapping :=
  let instructions := Instruction.scan code
  { rows, code := instructions, index := PcIndex.join rows instructions, codeLength := code.length }

/-- Reads a piece of code, in hexadecimal, and its source map. -/
def build (bytecode sourceMap : Bytes) : Except Error Mapping := do
  let rows ← (SourceMap.decode sourceMap).mapError .sourceMap
  let code ← (Bytecode.decode bytecode).mapError .bytecode
  return ofParts rows code

/-- Where the two readers of a pool leave their results. -/
structure Slots where
  rows : Option (Except SourceMap.Error (List SourceMap.Row)) := none
  code : Option (Except Bytecode.Error Bytes) := none

/-- The two tasks of a pool: task 0 reads the source map and every other one the code. -/
def readTask (bytecode sourceMap : Bytes) (task : Nat) (slots : Slots) : Slots :=
  if task = 0 then { slots with rows := some (SourceMap.decode sourceMap) }
  else { slots with code := some (Bytecode.decode bytecode) }

/-- Reads both texts as tasks of a pool, in either order, and looks at the results when both are
there. -/
def buildInOrder (order : TaskPool.Order 2) (bytecode sourceMap : Bytes) :
    Except Error Mapping := do
  let slots := TaskPool.runBatch order (readTask bytecode sourceMap) {}
  let rows ← (slots.rows.getD (.ok [])).mapError .sourceMap
  let code ← (slots.code.getD (.ok [])).mapError .bytecode
  return ofParts rows code

/-- Reads both texts, with a pool of two or more workers as the first batch of the pool. -/
def buildWith (pool : Option TaskPool) (bytecode sourceMap : Bytes) : Except Error Mapping :=
  match pool.filter TaskPool.isParallel with
  | some pool => buildInOrder (pool.schedule 0 2) bytecode sourceMap
  | none => build bytecode sourceMap

/-- What is worth telling about a mapping: that rows and instructions differ in number, and that the
code ends inside an instruction. -/
def log (mapping : Mapping) : List Log.Entry :=
  let mismatch := Log.debug <|
    "source map has " ++ Decimal.ofNat mapping.rows.length ++ " entries but bytecode has " ++
      Decimal.ofNat mapping.code.length ++ " instructions; " ++
      Decimal.ofNat mapping.index.size ++ " pcs mapped"
  let cutOff (last : Instruction) := Log.warning <|
    "bytecode ends inside the operand of " ++ Opcode.name last.opcode ++ " at pc " ++
      Decimal.ofNat last.pc.toNat
  (if mapping.rows.length = mapping.code.length then [] else [mismatch]) ++
    (mapping.code.getLast?.filter (·.truncated)).toList.map cutOff

end Mapping

end EvmSourceMap
