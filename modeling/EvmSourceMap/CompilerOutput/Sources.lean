import EvmSourceMap.CompilerOutput
import EvmSourceMap.Log
import EvmSourceMap.SourceFile

/-!
Tables of source files, from the compiler's output and input or from a document of their own.
-/

namespace EvmSourceMap.CompilerOutput

/-- Reads the id of a file: an integer, or a string with its decimal digits. An integer is taken as
a signed 64-bit word, so one from 2⁶³ on counts as negative. The error for any other id names it,
which takes a text of it; the ids of documents that have been read always have one, as their strings
are valid UTF-8. -/
def readId (place : Bytes) (value : Json) : Except Error Int32 :=
  match value with
  | .integer n =>
    let id := Int64.ofInt n
    if Int32.minValue.toInt ≤ id.toInt ∧ id.toInt ≤ Int32.maxValue.toInt then
      .ok (.ofInt id.toInt)
    else .error (.idOutOfRange place id)
  | .string text =>
    match Decimal.readInt32? text with
    | some id => .ok id
    | none => .error (.invalidId place value)
  | _ => .error (.invalidId place value)

/-- The string under a key. -/
def readStringField (place : Bytes) (value : Json) (field : Bytes) : Except Error Bytes :=
  match (value.get? field).bind Json.string? with
  | some text => .ok text
  | none => .error (.missingField place field)

/-! ### The sources of a compiler's output -/

/-- A source in the compiler's output, with its contents if they are known. -/
structure ListedSource where
  id : Int32
  path : Bytes
  contents : Option Bytes
  deriving DecidableEq, Repr

/-- The contents that a document has for a path. -/
def contents? (document : Json) (path : Bytes) : Option Bytes := do
  let source ← (document.get? "sources").bind (Json.get? path)
  (source.get? "content").bind Json.string?

/-- Reads a source of the output. Its contents stand in the output or else in the input. -/
def readSource (output : Json) (input : Option Json) (path : Bytes) (source : Json) :
    Except Error ListedSource :=
  match source.get? "id" with
  | none => .error (.sourceWithoutId path)
  | some value => do
    let id ← readId path value
    return { id, path, contents := (contents? output path).or (input.bind (contents? · path)) }

/-- Adds sources to a table. A source without contents is an empty file. -/
def addSources (sources : List ListedSource) (table : FileTable) : FileTable :=
  sources.foldl (fun table source => table.add source.id source.path (source.contents.getD [])) table

/-- The table of all sources of the output. Of two sources with one id, the later one in the order
of their paths stays. -/
def loadFileTable (output : Json) (input : Option Json) : Except Error FileTable := do
  let sources ← (← readSection output "sources").mapM fun (path, source) =>
    readSource output input path source
  return addSources sources ∅

/-- What is told about the sources: which of them have no contents, up to the first one that cannot
be read. -/
def loadLog (output : Json) (input : Option Json) : List Log.Entry :=
  let members := (readSection output "sources").toOption.getD []
  let sources := members.map fun (path, source) => (readSource output input path source).toOption
  (sources.takeWhile (·.isSome)).reduceOption.filter (·.contents.isNone) |>.map fun source =>
    Log.warning <|
      "no content for source " ++ source.path ++ " (id " ++ Decimal.ofInt source.id.toInt ++
        "), its locations will be unmapped"

/-! ### Documents that are tables -/

/-- Reads a file of a table document and adds it. The contents are looked for before the path. -/
def addFile (place : Bytes) (id : Int32) (file : Json) (table : FileTable) :
    Except Error FileTable := do
  let contents ← readStringField place file "content"
  let path ← readStringField place file "path"
  return table.add id path contents

/-- Adds a file that stands under its id. -/
def addKeyedFile (table : FileTable) (key : Bytes) (file : Json) : Except Error FileTable :=
  if !file.isObject then .error (.fileNotAnObject key)
  else do
    let id ← readId "source file table" (.string key)
    addFile key id file table

/-- Adds the file at a position of a list, which names its id itself. -/
def addListedFile (table : FileTable) (position : Nat) (file : Json) : Except Error FileTable :=
  let place := "source file #" ++ Decimal.ofNat position
  match file.get? "id" with
  | none => .error (.fileWithoutId place)
  | some value => do
    let id ← readId place value
    addFile place id file table

/-- Reads a table document: an object whose keys are the ids, or a list of files with ids. Of two
files with one id, the later one stays. -/
def readFileTable (document : Json) : Except Error FileTable :=
  match document with
  | .object members =>
    members.foldlM (fun table (key, file) => addKeyedFile table key file) ∅
  | .array files =>
    files.zipIdx.foldlM (fun table (file, position) => addListedFile table position file) ∅
  | _ => .error .noFileTable

end EvmSourceMap.CompilerOutput
