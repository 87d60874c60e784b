import EvmSourceMap.Mapping.Report

/-!
Entries of an execution trace. An entry says at which pc it was recorded, and annotating it puts the
source range of that pc beside the rest.
-/

namespace EvmSourceMap.Trace

/-- The pc of a trace entry: the integer under `pc`, if it fits into 32 bits without a sign. -/
def pc? (entry : Json) : Option UInt32 :=
  match entry.get? "pc" with
  | some (.integer pc) => if 0 ≤ pc ∧ pc < UInt32.size then some (.ofNat pc.toNat) else none
  | _ => none

/-- What is put into a trace entry. -/
def sourceRecord (range : Location) (e : PcEntry) : Json :=
  .ofMembers
    [("file", .string range.path),
     ("line", .ofInt32 range.first.line),
     ("column", .ofInt32 range.first.column),
     ("line_end", .ofInt32 range.last.line),
     ("column_end", .ofInt32 range.last.column),
     ("snippet", .string range.snippet),
     ("bytecode_offset", .ofInt32 e.start),
     ("length", .ofInt32 e.length),
     ("jump", .string e.jump.label)]

/-- The record for a trace entry, if a mapped instruction starts at its pc and has a source
range. -/
def source? (index : PcIndex) (files : FileTable) (entry : Json) : Option Json := do
  let pc ← pc? entry
  let e ← index.find? pc
  let range ← e.location? files
  return sourceRecord range e

/-- A trace entry with its source, in place of any that it had before. -/
def annotate? (index : PcIndex) (files : FileTable) (entry : Json) : Option Json :=
  (source? index files entry).map fun source => entry.set "source" source

end EvmSourceMap.Trace
