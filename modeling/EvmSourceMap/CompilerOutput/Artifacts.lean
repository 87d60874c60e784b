import EvmSourceMap.CompilerOutput
import EvmSourceMap.Log

/-!
Finding the code and the source map of a contract in the compiler's output.
-/

namespace EvmSourceMap.CompilerOutput

/-- A contract of the compiler's output. -/
structure Contract where
  file : Bytes
  name : Bytes
  value : Json

/-- The code of a contract and its source map, as the compiler wrote them. -/
structure Artifacts where
  file : Bytes
  contract : Bytes
  bytecode : Bytes
  sourceMap : Bytes
  deriving DecidableEq, Repr

/-- The contracts in an output section, file by file. What is no object holds no contract. -/
def contracts (files : List (Bytes × Json)) : List Contract :=
  files.flatMap fun (file, members) =>
    (members.members?.getD []).map fun (name, value) => ⟨file, name, value⟩

/-- The code and the source map of a contract, if both are there and not empty. -/
def Contract.artifacts? (contract : Contract) (kind : CodeKind) : Option Artifacts := do
  let code ← (contract.value.get? "evm").bind (Json.get? kind.key)
  let bytecode ← (code.get? "object").bind Json.string?
  let sourceMap ← (code.get? "sourceMap").bind Json.string?
  if bytecode.isEmpty || sourceMap.isEmpty then none
  else some { file := contract.file, contract := contract.name, bytecode, sourceMap }

/-- Finds a contract by its name; the first one of that name counts, even if it has no code. An
empty name asks for the first contract that has code and a source map. -/
def findArtifacts (output : Json) (name : Bytes) (kind : CodeKind) : Except Error Artifacts := do
  let contracts := contracts (← readSection output "contracts")
  if name.isEmpty then
    match contracts.findSome? (·.artifacts? kind) with
    | some artifacts => return artifacts
    | none => throw (.noUsableContract kind)
  else
    match contracts.find? (·.name == name) with
    | none => throw (.unknownContract name)
    | some contract =>
      match contract.artifacts? kind with
      | some artifacts => return artifacts
      | none => throw (.unusableContract contract.file name kind)

/-- What is told about the contract that was found. -/
def Artifacts.log (artifacts : Artifacts) : List Log.Entry :=
  [Log.debug ("using contract " ++ artifacts.contract ++ " from " ++ artifacts.file)]

end EvmSourceMap.CompilerOutput
