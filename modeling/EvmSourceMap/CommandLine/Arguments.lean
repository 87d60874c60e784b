import EvmSourceMap.Decimal

/-!
Command line arguments and environment variables. A switch is an argument with a given text, in any
case, and its operands are the arguments behind it.
-/

namespace EvmSourceMap.CommandLine

/-- What is wrong with the arguments. -/
inductive UsageError
  /-- A switch is not followed by its operands. -/
  | missingOperands (switch : Bytes) (operands : List Bytes)
  | notAnInteger (name text : Bytes)
  | threadCount (count : Int)
  | pcOutOfRange (pc : Int)
  | noInput
  deriving DecidableEq, Repr

def UsageError.message : UsageError → Bytes
  | missingOperands switch operands =>
    "expected switch " ++ switch ++ " to have " ++ Decimal.ofNat operands.length ++ " args: " ++
      (Bytes.ofString ", ").intercalate operands
  | notAnInteger name text => "expected an integer for " ++ name ++ ", got: " ++ text
  | threadCount count => "thread count must be positive, got: " ++ Decimal.ofInt count
  | pcOutOfRange pc => "pc out of range: " ++ Decimal.ofInt pc
  | noInput => "expected -solc-output, or all of -bytecode, -source-map and -sources"

/-- Reads the integer that belongs to a name. -/
def readInteger (name text : Bytes) : Except UsageError Int :=
  match Decimal.readLenient? text with
  | some n => .ok n
  | none => .error (.notAnInteger name text)

/-- The arguments of a program, its own name first. -/
abbrev Arguments :=
  List Bytes

namespace Arguments

/-- The position of the first argument that is the switch. -/
def position? (arguments : Arguments) (switch : Bytes) : Option Nat :=
  ((arguments.drop 1).findIdx? (Bytes.equalsIgnoringCase switch)).map (· + 1)

def has (arguments : Arguments) (switch : Bytes) : Bool :=
  (arguments.position? switch).isSome

/-- Whether an argument can be the operand of a switch: it is not empty and does not look like a
switch. -/
def isOperand (argument : Bytes) : Bool :=
  match argument with
  | [] => false
  | b :: _ => b != '-'.toUInt8

/-- The position of the switch, which has to be followed by as many operands as are named. -/
def check (arguments : Arguments) (switch : Bytes) (operands : List Bytes) :
    Except UsageError (Option Nat) :=
  match arguments.position? switch with
  | none => .ok none
  | some position =>
    let given := (arguments.drop (position + 1)).take operands.length
    if given.length = operands.length ∧ given.all isOperand then .ok (some position)
    else .error (.missingOperands switch operands)

/-- The operand of a switch that has one. -/
def text? (arguments : Arguments) (switch : Bytes) : Except UsageError (Option Bytes) :=
  (arguments.check switch ["value"]).map fun position =>
    position.bind fun position => arguments[position + 1]?

/-- The operand of a switch, as an integer. -/
def integer? (arguments : Arguments) (switch : Bytes) : Except UsageError (Option Int) := do
  match ← arguments.text? switch with
  | some text => (readInteger switch text).map some
  | none => return none

/-- Whether a setting is switched on, by its switch, or off, by the same switch behind `-no`. -/
def setting? (arguments : Arguments) (switch : Bytes) : Option Bool :=
  if arguments.has switch then some true
  else if arguments.has ("-no" ++ switch) then some false
  else none

/-- The integer at a position, which is named by the argument before it. -/
def integerAt (arguments : Arguments) (position : Nat) : Except UsageError Int :=
  readInteger (arguments.getD (position - 1) []) (arguments.getD position [])

end Arguments

/-- Environment variables and their values. -/
abbrev Environment :=
  List (Bytes × Bytes)

namespace Environment

def equalsSign : UInt8 :=
  '='.toUInt8

/-- Gives a variable a new value. A name is not empty and holds no equals sign, so nothing is set
under any other text. -/
def set (environment : Environment) (name value : Bytes) : Environment :=
  if name.isEmpty || name.contains equalsSign then environment
  else (name, value) :: environment.filter fun (other, _) => other != name

/-- The value of a variable. A variable is kept as one text, its name and its value with an equals
sign between them, and a name is looked for as the start of such a text up to any equals sign in it.
An empty value counts as unset. -/
def text? (environment : Environment) (name : Bytes) : Option Bytes :=
  (environment.findSome? fun (key, value) =>
    (name ++ [equalsSign]).isPrefixOf? (key ++ equalsSign :: value)).filter fun value =>
      !value.isEmpty

/-- The value of a variable, as an integer. -/
def integer? (environment : Environment) (name : Bytes) : Except UsageError (Option Int) :=
  match environment.text? name with
  | some text => (readInteger name text).map some
  | none => .ok none

end Environment

end EvmSourceMap.CommandLine
