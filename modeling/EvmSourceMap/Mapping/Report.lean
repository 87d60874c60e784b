import EvmSourceMap.Json
import EvmSourceMap.Mapping
import EvmSourceMap.PcIndex.Summary
import EvmSourceMap.SourceFile.Location

/-!
The report on a mapping: a record for each mapped pc, the source files, and figures about the whole.
A record has all its fields in any case. Where the file or the range is not known it names the file
by its id and has zeros for the coordinates.
-/

namespace EvmSourceMap

def Json.ofInt32 (n : Int32) : Json :=
  .integer n.toInt

def Json.ofUInt32 (n : UInt32) : Json :=
  .ofNat n.toNat

/-- The counts of a list of jumps by their names. -/
def JumpCounts.record (counts : JumpCounts) : Json :=
  .ofMembers <| Jump.counted.map fun jump => (jump.label, .ofNat (counts.get jump))

def PcIndex.Summary.range (summary : PcIndex.Summary) : Json :=
  .ofMembers [("min", .ofUInt32 summary.minPc), ("max", .ofUInt32 summary.maxPc)]

namespace PcEntry

def instructionFields (e : PcEntry) : List (Bytes × Json) :=
  [("pc", .ofUInt32 e.pc),
   ("instruction_index", .ofUInt32 e.ordinal),
   ("opcode", .string (Opcode.hex e.opcode)),
   ("opcode_name", .string (Opcode.name e.opcode)),
   ("jump_type", .string [e.jump.symbol]),
   ("jump_type_description", .string e.jump.label),
   ("modifier_depth", .ofInt32 e.modifierDepth),
   ("offset", .ofInt32 e.start),
   ("length", .ofInt32 e.length),
   ("file_index", .ofInt32 e.fileIndex)]

def fileFields (e : PcEntry) (files : FileTable) : List (Bytes × Json) :=
  match files.find? e.fileIndex with
  | some file => [("source_path", .string file.path), ("source_id", .ofInt32 file.id)]
  | none =>
    [("source_path", .string ("unknown_file_" ++ Decimal.ofInt e.fileIndex.toInt)),
     ("source_id", .ofInt32 e.fileIndex)]

/-- The range of source text that an instruction was compiled from. -/
def location? (e : PcEntry) (files : FileTable) : Option Location :=
  Location.resolve? files e.fileIndex e.start e.length

def rangeFields (e : PcEntry) (files : FileTable) : List (Bytes × Json) :=
  let range := (e.location? files).getD ⟨[], ⟨0, 0⟩, ⟨0, 0⟩, []⟩
  [("snippet", .string range.snippet),
   ("line_start", .ofInt32 range.first.line),
   ("line_end", .ofInt32 range.last.line),
   ("column_start", .ofInt32 range.first.column),
   ("column_end", .ofInt32 range.last.column)]

/-- The record for a mapped instruction. -/
def record (e : PcEntry) (files : FileTable) : Json :=
  .ofMembers (e.instructionFields ++ e.fileFields files ++ e.rangeFields files)

end PcEntry

namespace Mapping

/-- The record for a pc, if a mapped instruction starts there. -/
def describe? (mapping : Mapping) (files : FileTable) (pc : UInt32) : Option Json :=
  (mapping.index.find? pc).map fun e => e.record files

def metadata (mapping : Mapping) : Json :=
  let summary := mapping.index.summary
  .ofMembers
    [("total_instructions", .ofNat mapping.rows.length),
     ("bytecode_instructions", .ofNat mapping.code.length),
     ("unique_source_files", .ofNat (mapping.rows.map (·.fileIndex)).eraseDups.length),
     ("jump_type_counts", (JumpCounts.ofList (mapping.rows.map (·.jump))).record),
     ("bytecode_length", .ofNat mapping.codeLength),
     ("pc_range", summary.range),
     ("mapped_pcs", .ofNat summary.entryCount)]

def fileRecords (files : FileTable) : Json :=
  .ofMembers <| files.entries.map fun (id, file) =>
    (Decimal.ofInt id.toInt, .ofMembers [("id", .ofInt32 file.id), ("path", .string file.path)])

def pcRecords (mapping : Mapping) (files : FileTable) : Json :=
  .ofMembers <| mapping.index.entries.map fun (pc, e) => (Decimal.ofNat pc.toNat, e.record files)

/-- The report on a mapping. -/
def report (mapping : Mapping) (files : FileTable) : Json :=
  .ofMembers
    [("metadata", mapping.metadata),
     ("source_files", fileRecords files),
     ("pc_to_source", mapping.pcRecords files)]

end Mapping

end EvmSourceMap
