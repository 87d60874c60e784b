import EvmSourceMap.Bytes
import EvmSourceMap.SortedMap

/-!
Source files, the table that finds them by their ids, and the lines and columns of offsets.
-/

namespace EvmSourceMap

/-- The offsets at which the lines of a text start: zero, and one past each newline. -/
def lineStartsOf (contents : Bytes) : List Nat :=
  0 :: contents.zipIdx.filterMap fun (b, i) => if b == 0x0a then some (i + 1) else none

/-- A place in a text. Lines and columns are counted from one, in 32 bits. -/
structure Position where
  line : Int32
  column : Int32
  deriving DecidableEq, Repr

/-- A source file. The starts of its lines are kept beside the contents, since every lookup of a
position needs them. -/
structure SourceFile where
  /-- The number that source maps use for the file. -/
  id : Int32
  path : Bytes
  contents : Bytes
  lineStarts : List Nat := lineStartsOf contents
  lineStarts_eq : lineStarts = lineStartsOf contents := by rfl
  deriving DecidableEq

/-- The line and the column of an offset. The line is the last one that starts at or before the
offset, so an offset past the end is on the last line. -/
def SourceFile.position (file : SourceFile) (offset : Nat) : Position :=
  let starts := file.lineStarts.takeWhile (· ≤ offset)
  ⟨.ofNat starts.length, .ofNat (offset - starts.getLast?.getD 0 + 1)⟩

/-- The source files of a compilation by their ids. -/
abbrev FileTable := SortedMap Int32 SourceFile

namespace FileTable

/-- Adds a file, in place of the one with the same id. -/
def add (table : FileTable) (id : Int32) (path contents : Bytes) : FileTable :=
  table.insert id { id, path, contents }

/-- The file with an id. -/
def find? (table : FileTable) (id : Int32) : Option SourceFile :=
  table.get? id

end FileTable

end EvmSourceMap
