import EvmSourceMap.Binary64.Notation
import EvmSourceMap.Trace.Annotated
import EvmSourceMap.Version

/-!
The texts that the program prints for people: how to call it, its version, and figures about an index
or an annotated trace.
-/

namespace EvmSourceMap.CommandLine

/-- The text that explains the arguments. -/
def usageText : Bytes :=
  "usage: pcmap (-solc-output <file> [-solc-input <file>] [-contract <name>] [-creation]\n" ++
  "              | -bytecode <file> -source-map <file> -sources <file>)\n" ++
  "             [-trace <file> [-o <file>]] [-report <file>] [-lookup <pc>]\n" ++
  "             [-threads <n>] [-verbose | -quiet] [-version]\n"

/-- The text that names the program and its version. -/
def versionText : Bytes :=
  let mark : Bytes := if Version.current.isStable then "" else " (pre-release)"
  "pcmap " ++ Version.current.text ++ mark ++ "\n"

/-- A line that begins with a caption. -/
def figure (caption : String) (value : Bytes) : Bytes :=
  Bytes.ofString caption ++ value ++ "\n"

/-- The bounds of the mapped pcs. -/
def rangeText (summary : PcIndex.Summary) : Bytes :=
  Decimal.ofNat summary.minPc.toNat ++ ".." ++ Decimal.ofNat summary.maxPc.toNat

/-- The figures about an annotated trace. -/
def statsText (stats : Trace.Stats) : Bytes :=
  figure "Trace entries:        " (Decimal.ofNat stats.total) ++
  figure "Entries with source:  " (Decimal.ofNat stats.annotated) ++
  figure "Coverage:             " (stats.coverage.fixed 1 ++ "%") ++
  figure "Source files:         " (Decimal.ofNat stats.fileCount) ++
  figure "Mapped pcs:           " (Decimal.ofNat stats.index.entryCount) ++
  (if stats.index.entryCount = 0 then []
    else figure "PC range:             " (rangeText stats.index)) ++
  Jump.counted.flatMap fun jump =>
    figure "  " (Bytes.padRight 20 (jump.label ++ ":") ++ Decimal.ofNat (stats.index.jumps.get jump))

def summaryText (summary : PcIndex.Summary) : Bytes :=
  figure "Mapped pcs: " (Decimal.ofNat summary.entryCount) ++
  (if summary.entryCount = 0 then [] else figure "PC range:   " (rangeText summary)) ++
  figure "Source files referenced: " (Decimal.ofNat summary.fileCount)

end EvmSourceMap.CommandLine
