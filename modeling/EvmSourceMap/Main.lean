import EvmSourceMap.CommandLine.Run

/-!
The program on a real machine: files of the system, and the standard channels. A zero byte ends a
JSON text there.
-/

namespace EvmSourceMap.CommandLine

/-- The bytes of a text in the form that the system takes. -/
def packed (text : Bytes) : ByteArray :=
  ⟨text.toArray⟩

/-- A path in the form that the system takes. -/
def systemPath (path : Bytes) : String :=
  (String.fromUTF8? (packed path)).getD ""

instance : Host IO where
  readFile path := do
    try
      return .ok (← IO.FS.readBinFile (systemPath path)).data.toList
    catch
      | .inappropriateType .. => return .error .isDirectory
      | _ => return .error .missing
  writeFile path contents := do
    try
      IO.FS.writeBinFile (systemPath path) (packed contents)
      return true
    catch _ => return false
  print text := do (← IO.getStdout).write (packed text)
  report text := do (← IO.getStderr).write (packed text)

/-- The values of the environment variables that the program looks at. -/
def readEnvironment : IO Environment := do
  let names := ["PCMAP_LOG_LEVEL", "PCMAP_THREADS"]
  let values ← names.mapM fun name => do
    return (← IO.getEnv name).map fun value => (Bytes.ofString name, Bytes.ofString value)
  return values.filterMap id

end EvmSourceMap.CommandLine

open EvmSourceMap EvmSourceMap.CommandLine in
/-- Runs the program with the given arguments. -/
def main (arguments : List String) : IO UInt32 := do
  let environment ← readEnvironment
  run {
    arguments := Bytes.ofString "pcmap" :: arguments.map Bytes.ofString
    environment
    json := .zeroEnded }
