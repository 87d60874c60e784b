import EvmSourceMap.CommandLine.Host
import EvmSourceMap.CommandLine.Output
import EvmSourceMap.CommandLine.Settings
import EvmSourceMap.CompilerOutput.Artifacts
import EvmSourceMap.CompilerOutput.Sources
import EvmSourceMap.Trace.Sample

/-!
A run of the program: it reads the code, its source map and the source files, and then writes a
report, shows the record of a pc, annotates a trace, or sums up the index if nothing was asked for.
-/

namespace EvmSourceMap.CommandLine

/-- Why a run ends early. -/
inductive Failure
  | usage (e : UsageError)
  | file (e : FileError)
  | json (path : Bytes) (e : Json.ReadError)
  /-- A document holds a string that is not valid UTF-8. -/
  | unwritable
  | compilerOutput (e : CompilerOutput.Error)
  | mapping (e : Mapping.Error)
  | trace (e : Trace.Error)

/-- What stands for the details of a fault in a JSON text. -/
def jsonFault : Bytes :=
  "[json.exception]"

/-- The message of a failure, with a printer for values. -/
def Failure.message (print : Json → Bytes) : Failure → Bytes
  | usage e => e.message
  | file e => e.message
  | json path .malformed => Bytes.beforeNul path ++ " is not valid JSON: " ++ jsonFault
  | json _ .tooLarge => jsonFault
  | unwritable => jsonFault
  | compilerOutput e => e.message print
  | mapping e => e.message
  | trace e => e.message

/-- What a run works on. -/
structure Inputs where
  bytecode : Bytes
  sourceMap : Bytes
  files : FileTable

/-- An activity that may fail. -/
abbrev Run (m : Type → Type) :=
  ExceptT Failure m

section

variable {m : Type → Type} [Monad m] [Host m]

/-- Fails if a value could not be computed. -/
def orFail {ε α : Type} (failure : ε → Failure) (result : Except ε α) : Run m α :=
  ExceptT.mk (pure (result.mapError failure))

/-- Writes log entries that matter enough. -/
def tell (i : Invocation) (entries : List Log.Entry) : Run m Unit :=
  Host.report (Log.lines i.level entries)

def say (text : Bytes) : Run m Unit :=
  Host.print text

def readFile (path : Bytes) : Run m Bytes := do
  orFail (fun fault => .file (.unreadable path fault)) (← Host.readFile path)

/-- Writes a file and tells so. -/
def writeFile (i : Invocation) (path contents : Bytes) : Run m Unit := do
  if ← Host.writeFile path contents then
    tell i [Log.info ("wrote " ++ path)]
  else
    throw (.file (.unwritable path))

/-- The value in a JSON file. -/
def readJson (i : Invocation) (path : Bytes) : Run m Json := do
  orFail (Failure.json path) (i.json.read (← readFile path))

/-- The document for a value. -/
def documentOf (i : Invocation) (value : Json) : Run m Bytes :=
  match i.json.document? value with
  | some text => return text
  | none => throw .unwritable

/-- The operand of a switch. -/
def operand? (i : Invocation) (switch : Bytes) : Run m (Option Bytes) :=
  orFail .usage (i.arguments.text? switch)

/-- Reads the code, its source map and the source files from the output of a compiler. -/
def readCompilerOutput (i : Invocation) (path : Bytes) : Run m Inputs := do
  let output ← readJson i path
  let input ← (← operand? i "-solc-input").mapM (readJson i)
  let contract := (← operand? i "-contract").getD []
  let artifacts ← orFail .compilerOutput
    (CompilerOutput.findArtifacts output contract i.codeKind)
  tell i artifacts.log
  tell i [Log.info ("contract " ++ artifacts.contract ++ " (" ++ artifacts.file ++ "), " ++
    i.codeKind.label ++ " bytecode")]
  tell i (CompilerOutput.loadLog output input)
  let files ← orFail .compilerOutput (CompilerOutput.loadFileTable output input)
  return { bytecode := artifacts.bytecode, sourceMap := artifacts.sourceMap, files }

/-- Reads the code, its source map and the source files from a file each. Blanks around the code and
the source map do not count. -/
def readSeparateFiles (i : Invocation) (bytecode sourceMap sources : Bytes) : Run m Inputs := do
  let bytecode := Bytes.trim (← readFile bytecode)
  let sourceMap := Bytes.trim (← readFile sourceMap)
  let files ← orFail .compilerOutput (CompilerOutput.readFileTable (← readJson i sources))
  return { bytecode, sourceMap, files }

/-- Reads what the run works on. -/
def readInputs (i : Invocation) : Run m Inputs := do
  match ← operand? i "-solc-output" with
  | some path => readCompilerOutput i path
  | none =>
    let bytecode ← operand? i "-bytecode"
    let sourceMap ← operand? i "-source-map"
    let sources ← operand? i "-sources"
    match bytecode, sourceMap, sources with
    | some bytecode, some sourceMap, some sources => readSeparateFiles i bytecode sourceMap sources
    | _, _, _ => throw (.usage .noInput)

/-- Reads the inputs and joins them. -/
def readMapping (i : Invocation) (pool : TaskPool) : Run m (Mapping × FileTable) := do
  let inputs ← readInputs i
  let mapping ← orFail .mapping (Mapping.buildWith (some pool) inputs.bytecode inputs.sourceMap)
  tell i mapping.log
  tell i [Log.info (Decimal.ofNat mapping.rows.length ++ " source map entries, " ++
    Decimal.ofNat mapping.code.length ++ " instructions, " ++
    Decimal.ofNat mapping.index.size ++ " mapped pcs, " ++
    Decimal.ofNat inputs.files.size ++ " source files")]
  return (mapping, inputs.files)

/-- Writes the report if it is asked for. Tells whether it was. -/
def runReport (i : Invocation) (mapping : Mapping) (files : FileTable) : Run m Bool := do
  match ← operand? i "-report" with
  | none => return false
  | some path =>
    writeFile i path (← documentOf i (mapping.report files))
    return true

/-- Shows the record of a pc if it is asked for. Tells whether it was; there is no answer if no
mapped instruction starts at the pc, which ends the run. -/
def runLookup (i : Invocation) (mapping : Mapping) (files : FileTable) : Run m (Option Bool) := do
  match ← orFail .usage (i.arguments.integer? "-lookup") with
  | none => return some false
  | some pc =>
    if pc < 0 ∨ UInt32.size ≤ pc then throw (.usage (.pcOutOfRange pc))
    match mapping.describe? files (.ofNat pc.toNat) with
    | none =>
      tell i [Log.error ("pc " ++ Decimal.ofInt pc ++ " does not start a mapped instruction")]
      return none
    | some record =>
      say ((← documentOf i record) ++ "\n")
      return some true

/-- Annotates a trace if it is asked for. Tells whether it was. -/
def runTrace (i : Invocation) (pool : TaskPool) (mapping : Mapping) (files : FileTable) :
    Run m Bool := do
  match ← operand? i "-trace" with
  | none => return false
  | some path =>
    let target := (← operand? i "-o").getD (besidePath path)
    let trace ← readJson i path
    let options : Trace.Options := { pool := some pool }
    let annotated ← orFail .trace (Trace.annotate options mapping.index files trace)
    tell i (Trace.progress options annotated.stats.total)
    writeFile i target (← documentOf i (.array annotated.entries))
    say (statsText annotated.stats)
    say ((annotated.samples 3).flatMap fun entry =>
      "\n" ++ Trace.sampleText entry i.json.text ++ "\n")
    return true

/-- Does what is asked for, and sums up the index if nothing is. The result is the exit code. -/
def runActions (i : Invocation) (pool : TaskPool) : Run m UInt32 := do
  let (mapping, files) ← readMapping i pool
  let reported ← runReport i mapping files
  match ← runLookup i mapping files with
  | none => return 1
  | some lookedUp =>
    let traced ← runTrace i pool mapping files
    if !(reported || lookedUp || traced) then
      say (summaryText mapping.index.summary)
    return 0

/-- Runs the program up to its end or a failure. The result is the exit code. -/
def runOrFail (i : Invocation) : Run m UInt32 := do
  Host.report (Log.lines .info i.environmentLevel.2)
  if i.arguments.has "-version" then
    say versionText
    return 0
  if i.arguments.has "-help" || i.arguments.has "-h" || i.arguments.length ≤ 1 then
    say usageText
    return if i.arguments.length ≤ 1 then 1 else 0
  let pool ← orFail .usage i.pool
  tell i [Log.debug ("using " ++ Decimal.ofNat pool.size ++ " worker threads")]
  runActions i pool

/-- Runs the program. A failure is logged and makes the exit code 1. -/
def run (i : Invocation) : m UInt32 := do
  match ← (runOrFail i : Run m UInt32).run with
  | .ok code => return code
  | .error failure =>
    Host.report (Log.lines i.level [Log.error (failure.message i.json.text)])
    return 1

end

end EvmSourceMap.CommandLine
