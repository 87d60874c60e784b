import EvmSourceMap.CommandLine.FileStore

/-!
What a run needs from the machine it runs on, and a machine of plain values that offers it.
-/

namespace EvmSourceMap.CommandLine

/-- Reading and writing files, and two channels for output. -/
class Host (m : Type → Type) where
  readFile : Bytes → m (Except ReadFault Bytes)
  /-- Writes a file and tells whether that was possible. -/
  writeFile : Bytes → Bytes → m Bool
  /-- Writes to the channel for results. -/
  print : Bytes → m Unit
  /-- Writes to the channel for log lines. -/
  report : Bytes → m Unit

/-- A computation that may fail uses the machine below it. What it has written stays when it
fails. -/
instance {ε : Type} {m : Type → Type} [Monad m] [Host m] : Host (ExceptT ε m) where
  readFile path := ExceptT.lift (Host.readFile path)
  writeFile path contents := ExceptT.lift (Host.writeFile path contents)
  print text := ExceptT.lift (Host.print text)
  report text := ExceptT.lift (Host.report text)

/-- A machine of plain values. -/
structure Desk where
  store : FileStore := {}
  printed : Bytes := []
  reported : Bytes := []

instance : Host (StateM Desk) where
  readFile path := do return (← get).store.read path
  writeFile path contents := do
    let desk ← get
    match desk.store.write? path contents with
    | some store =>
      set { desk with store }
      return true
    | none => return false
  print text := modify fun desk => { desk with printed := desk.printed ++ text }
  report text := modify fun desk => { desk with reported := desk.reported ++ text }

end EvmSourceMap.CommandLine
