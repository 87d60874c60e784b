import EvmSourceMap.CommandLine.Arguments
import EvmSourceMap.CompilerOutput
import EvmSourceMap.Json.Codec
import EvmSourceMap.Log
import EvmSourceMap.TaskPool

/-!
What the arguments and the environment ask for, apart from the files: how much is logged, how many
workers there are, and which code of a contract is meant.
-/

namespace EvmSourceMap.CommandLine

/-- Everything that a run is given, apart from the files. -/
structure Invocation where
  arguments : Arguments
  environment : Environment := []
  /-- The number of workers if none is asked for. -/
  defaultWorkers : Nat := 1
  /-- The orders in which the pool will run its batches. -/
  schedule : TaskPool.Schedule := .inTurn
  /-- The library that reads and writes JSON. -/
  json : Json.Codec := .strict

namespace Invocation

/-- The log level of the environment, and a warning if there is none of that name. -/
def environmentLevel (i : Invocation) : Log.Level × List Log.Entry :=
  match i.environment.text? "PCMAP_LOG_LEVEL" with
  | none => (.info, [])
  | some name =>
    match Log.Level.ofName? name with
    | some level => (level, [])
    | none => (.info, [Log.warning ("ignoring unknown PCMAP_LOG_LEVEL: " ++ name)])

/-- The log level. The switches have the last word. -/
def level (i : Invocation) : Log.Level :=
  if i.arguments.has "-verbose" ∨ i.arguments.has "-v" then .debug
  else if i.arguments.has "-quiet" then .error
  else i.environmentLevel.1

/-- The number of workers that is asked for, by a switch or else by the environment. -/
def askedWorkers (i : Invocation) : Except UsageError (Option Int) := do
  match ← i.arguments.integer? "-threads" with
  | some count => return some count
  | none => i.environment.integer? "PCMAP_THREADS"

/-- The pool for the run. The number of workers is cut down to 32 bits. -/
def pool (i : Invocation) : Except UsageError TaskPool := do
  match ← i.askedWorkers with
  | none => return ⟨max i.defaultWorkers 1, i.schedule⟩
  | some count =>
    if count < 1 then throw (.threadCount count)
    else return ⟨TaskPool.sizeFor (.ofInt count), i.schedule⟩

/-- Which code of the contract is meant. -/
def codeKind (i : Invocation) : CompilerOutput.CodeKind :=
  if i.arguments.setting? "-creation" = some true then .creation else .runtime

end Invocation

end EvmSourceMap.CommandLine
