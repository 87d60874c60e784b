import EvmSourceMap.SourceFile

/-!
Source ranges as a reader sees them: the file, where the range starts and ends, and its text.
-/

namespace EvmSourceMap

/-- A range of a source file. -/
structure Location where
  path : Bytes
  first : Position
  /-- The place just behind the last byte. -/
  last : Position
  /-- The text of the range without the blanks at its ends. -/
  snippet : Bytes
  deriving DecidableEq, Repr

namespace Location

/-- The range of `length` bytes from `start` in a file, cut off at the end of the file. There is
none if the range is empty or starts outside the file. -/
def inFile? (file : SourceFile) (start length : Int32) : Option Location :=
  let size := file.contents.length
  let first := start.toInt.toNat
  if start < 0 ∨ length ≤ 0 ∨ size ≤ first then none
  else
    let last := min (first + length.toInt.toNat) size
    some
      { path := file.path
        first := file.position first
        last := file.position last
        snippet := Bytes.trim ((file.contents.drop first).take (last - first)) }

/-- The range in the file with the given id, if there is such a file. -/
def resolve? (files : FileTable) (fileIndex start length : Int32) : Option Location :=
  (files.find? fileIndex).bind fun file => inFile? file start length

end Location

end EvmSourceMap
