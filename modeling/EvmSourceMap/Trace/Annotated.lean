import EvmSourceMap.TaskPool
import EvmSourceMap.Trace

/-!
Annotating a whole trace, from its first entry to its last or in chunks that a pool works on. The
chunks cut the positions of the trace into consecutive runs, and each task writes only the places of
its own chunk.
-/

namespace EvmSourceMap.Trace

/-- The share of annotated entries, in percent. -/
def coverage (annotated total : Nat) : Binary64 :=
  .ofFloat <|
    if total = 0 then 0 else annotated.toUInt64.toFloat / total.toUInt64.toFloat * 100

/-- Figures about an annotated trace. -/
structure Stats where
  total : Nat
  annotated : Nat
  fileCount : Nat
  coverage : Binary64
  index : PcIndex.Summary
  deriving DecidableEq, Repr

def Stats.record (stats : Stats) : Json :=
  .ofMembers
    [("total_entries", .ofNat stats.total),
     ("entries_with_source", .ofNat stats.annotated),
     ("coverage_percent", .real stats.coverage),
     ("source_files", .ofNat stats.fileCount),
     ("pc_range", stats.index.range),
     ("mapped_pcs", .ofNat stats.index.entryCount),
     ("jump_type_counts", stats.index.jumps.record)]

/-- A trace whose entries have been annotated. -/
structure Annotated where
  entries : List Json
  /-- The positions of the entries that have got a source, in ascending order. -/
  positions : List Nat
  stats : Stats

/-- Annotates the entries of a trace that begin at a position. -/
def annotateRange (index : PcIndex) (files : FileTable) (first : Nat) (entries : List Json) :
    List Json × List Nat :=
  let results := entries.map fun entry => (entry, annotate? index files entry)
  (results.map fun (entry, result) => result.getD entry,
    (results.zipIdx first).filterMap fun ((_, result), i) => result.map fun _ => i)

/-- An annotated trace with the figures about it. -/
def Annotated.ofResults (index : PcIndex) (files : FileTable) (entries : List Json)
    (positions : List Nat) : Annotated where
  entries := entries
  positions := positions
  stats :=
    { total := entries.length
      annotated := positions.length
      fileCount := files.size
      coverage := coverage positions.length entries.length
      index := index.summary }

/-- Annotates a trace from its first entry to its last. -/
def annotateAll (index : PcIndex) (files : FileTable) (entries : List Json) : Annotated :=
  let (results, positions) := annotateRange index files 0 entries
  .ofResults index files results positions

/-! ### Chunks -/

/-- The number of chunks: one for each worker, but none without an entry of its own in the count. -/
def chunkCount (workers total : Nat) : Nat :=
  min workers total

/-- The length of a chunk, the quotient rounded up. The last chunks may be shorter or empty. Where
there is no chunk, a length has no meaning (`Options.Suits`). -/
def chunkSize (workers total : Nat) : Nat :=
  (total + chunkCount workers total - 1) / chunkCount workers total

/-- Where a chunk begins. -/
def chunkFirst (workers total chunk : Nat) : Nat :=
  chunk * chunkSize workers total

def chunkLast (workers total chunk : Nat) : Nat :=
  min total (chunkFirst workers total chunk + chunkSize workers total)

/-- Where the tasks leave their results: a place for each entry, and one for the positions that each
chunk has annotated. -/
structure Slots where
  entries : List Json
  positions : List (List Nat)

/-- Writes a run of entries over those from a position on. -/
def overwrite (first : Nat) (run entries : List Json) : List Json :=
  entries.take first ++ run ++ entries.drop (first + run.length)

/-- The task for a chunk. -/
def chunkTask (workers : Nat) (index : PcIndex) (files : FileTable) (trace : List Json)
    (chunk : Nat) (slots : Slots) : Slots :=
  let first := chunkFirst workers trace.length chunk
  let last := chunkLast workers trace.length chunk
  let (results, positions) := annotateRange index files first ((trace.drop first).take (last - first))
  { entries := overwrite first results slots.entries
    positions := slots.positions.set chunk positions }

/-- Annotates a trace in chunks, in the order in which a pool runs them. The positions are put
together in the order of the chunks. -/
def annotateChunks (workers : Nat) (index : PcIndex) (files : FileTable) (trace : List Json)
    (order : TaskPool.Order (chunkCount workers trace.length)) : Annotated :=
  let empty : Slots :=
    { entries := List.replicate trace.length .null
      positions := List.replicate (chunkCount workers trace.length) [] }
  let slots := TaskPool.runBatch order (chunkTask workers index files trace) empty
  .ofResults index files slots.entries slots.positions.flatten

/-! ### Options -/

/-- How a trace is annotated. -/
structure Options where
  pool : Option TaskPool := none
  /-- The least number of entries that is split among the workers of a pool. -/
  minParallel : Nat := 4096
  /-- After how many entries progress is logged; never if it is zero. -/
  progressInterval : Nat := 100

/-- The pool to split a trace of some length among, if it is to be split. -/
def Options.poolFor (options : Options) (total : Nat) : Option TaskPool :=
  options.pool.filter fun pool => pool.isParallel && options.minParallel ≤ total

/-- Whether a trace of some length can be annotated. One without entries must not be split: it has no
chunks, and the length of a chunk would be a quotient by zero. -/
def Options.Suits (options : Options) (total : Nat) : Prop :=
  total = 0 → options.poolFor total = none

/-- A trace that is no list of entries. -/
inductive Error
  | notAnArray
  deriving DecidableEq, Repr

def Error.message : Error → Bytes
  | notAnArray => "trace data should be a list of trace entries"

/-- Annotates a trace that the options suit. For the pool it is the batch after that of reading the
mapping. -/
def annotate (options : Options) (index : PcIndex) (files : FileTable) (trace : Json) :
    Except Error Annotated :=
  match trace with
  | .array entries =>
    .ok <| match options.poolFor entries.length with
      | some pool => annotateChunks pool.size index files entries (pool.schedule 1 _)
      | none => annotateAll index files entries
  | _ => .error .notAnArray

/-- The progress that is logged for a trace of some length. A pool logs none. -/
def progress (options : Options) (total : Nat) : List Log.Entry :=
  let isLogged (done : Nat) :=
    (options.poolFor total).isNone && options.progressInterval != 0 &&
      done % options.progressInterval == 0
  ((List.range' 1 total).filter isLogged).map fun done =>
    Log.debug ("processed " ++ Decimal.ofNat done ++ "/" ++ Decimal.ofNat total ++ " trace entries")

end EvmSourceMap.Trace
