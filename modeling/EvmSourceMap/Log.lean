import EvmSourceMap.Bytes

/-!
Log lines and the level that decides which of them are written.
-/

namespace EvmSourceMap.Log

/-- How much a line matters. As a threshold, `none` lets nothing through. -/
inductive Level
  | debug
  | info
  | warning
  | error
  | none
  deriving DecidableEq, Repr

namespace Level

def rank : Level → Nat
  | debug => 0
  | info => 1
  | warning => 2
  | error => 3
  | none => 4

/-- Whether a line of the level passes the threshold. -/
def isEnabled (threshold level : Level) : Bool :=
  level != none && threshold.rank ≤ level.rank

/-- Reads the name of a level in a configuration. -/
def ofName? (name : Bytes) : Option Level :=
  if name = "debug" then some debug
  else if name = "info" then some info
  else if name = "warn" ∨ name = "warning" then some warning
  else if name = "error" then some error
  else if name = "none" then some none
  else Option.none

/-- The mark in front of a line. -/
def label : Level → Bytes
  | debug => "debug"
  | info => "info"
  | warning => "warning"
  | error => "error"
  | none => ""

end Level

/-- A message and how much it matters. -/
structure Entry where
  level : Level
  text : Bytes
  deriving DecidableEq, Repr

/-- The line that is written for an entry. -/
def Entry.line (e : Entry) : Bytes :=
  "[" ++ e.level.label ++ "] " ++ e.text ++ "\n"

/-- The lines of the entries that pass the threshold. -/
def lines (threshold : Level) (entries : List Entry) : Bytes :=
  (entries.filter fun e => threshold.isEnabled e.level).flatMap Entry.line

def debug (text : Bytes) : Entry := ⟨.debug, text⟩

def info (text : Bytes) : Entry := ⟨.info, text⟩

def warning (text : Bytes) : Entry := ⟨.warning, text⟩

def error (text : Bytes) : Entry := ⟨.error, text⟩

end EvmSourceMap.Log
