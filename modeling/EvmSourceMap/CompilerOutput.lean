import EvmSourceMap.Json.Printer

/-!
What can be wrong with the documents of a compiler: its output, the input it was given, and tables of
source files.
-/

namespace EvmSourceMap.CompilerOutput

/-- Which code of a contract is meant: the code that is deployed, or the code that deploys it. -/
inductive CodeKind
  | runtime
  | creation
  deriving DecidableEq, Repr

namespace CodeKind

/-- The member that holds the code. -/
def key : CodeKind → Bytes
  | runtime => "deployedBytecode"
  | creation => "bytecode"

def label : CodeKind → Bytes
  | runtime => "runtime"
  | creation => "creation"

end CodeKind

/-- Why a document is refused. -/
inductive Error
  | notAnObject
  /-- There is no object under the key. -/
  | missingSection (key : Bytes)
  | unusableContract (file name : Bytes) (kind : CodeKind)
  | unknownContract (name : Bytes)
  | noUsableContract (kind : CodeKind)
  | sourceWithoutId (path : Bytes)
  | idOutOfRange (place : Bytes) (id : Int64)
  | invalidId (place : Bytes) (value : Json)
  | fileNotAnObject (key : Bytes)
  | fileWithoutId (place : Bytes)
  | missingField (place field : Bytes)
  | noFileTable

/-- The message of an error, with a printer for values. -/
def Error.message (e : Error) (print : Json → Bytes := Json.text) : Bytes :=
  Bytes.beforeNul <| match e with
    | notAnObject => "compiler output should be a JSON object"
    | missingSection key => "compiler output has no \"" ++ key ++ "\" section"
    | unusableContract file name kind =>
      "contract " ++ name ++ " in " ++ file ++ " has no evm." ++ kind.key ++
        " object and source map"
    | unknownContract name => "contract " ++ name ++ " not found in compiler output"
    | noUsableContract kind =>
      "no contract in compiler output has evm." ++ kind.key ++ " object and source map"
    | sourceWithoutId path => "source " ++ path ++ " has no id"
    | idOutOfRange place id =>
      place ++ ": source id " ++ Decimal.ofInt id.toInt ++ " out of range"
    | invalidId place value => place ++ ": invalid source id " ++ print value
    | fileNotAnObject key => "source file " ++ key ++ " should be an object"
    | fileWithoutId place => place ++ ": expected an object with an id"
    | missingField place field => place ++ ": missing string field \"" ++ field ++ "\""
    | noFileTable => "source file table should be an object or an array"

/-- The object under a key of the compiler's output. -/
def readSection (output : Json) (key : Bytes) : Except Error (List (Bytes × Json)) :=
  match output.members? with
  | none => .error .notAnObject
  | some _ =>
    match (output.get? key).bind Json.members? with
    | some members => .ok members
    | none => .error (.missingSection key)

end EvmSourceMap.CompilerOutput
