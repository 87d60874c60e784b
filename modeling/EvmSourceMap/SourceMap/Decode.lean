import EvmSourceMap.SourceMap.Segment

/-!
Decoding a compressed source map: segments with semicolons between them, one for each instruction.
The segments are read first, each on its own, and then every element is made from the one before.
-/

namespace EvmSourceMap.SourceMap

/-- A segment that cannot be read. -/
structure Error where
  /-- The number of segments before it. -/
  index : Nat
  segment : Bytes
  fault : Fault
  deriving DecidableEq, Repr

def Error.message (e : Error) : Bytes :=
  let place := "source map segment " ++ Decimal.ofNat e.index
  Bytes.beforeNul <| match e.fault with
    | .tooManyFields count =>
      place ++ " has " ++ Decimal.ofNat count ++ " fields, expected at most " ++
        Decimal.ofNat maxFields ++ ": \"" ++ e.segment ++ "\""
    | .invalidField field text =>
      place ++ " has invalid " ++ field.name ++ " \"" ++ text ++ "\": \"" ++ e.segment ++ "\""

/-- The segments of a source map. Compilers write an absent map as nothing or as `null`. -/
def segments (text : Bytes) : List Bytes :=
  if text = [] ∨ text = "null" then [] else Bytes.split ';'.toUInt8 text

/-- Reads every segment. The first one that cannot be read is reported. -/
def readSegments (texts : List Bytes) : Except Error (List Segment) :=
  texts.zipIdx.mapM fun (text, index) => (Segment.read text).mapError (Error.mk index text)

/-- The elements of the instructions, where `e` holds before the first of them. -/
def elements (e : Element) : List Segment → List Element
  | [] => []
  | segment :: rest => e.update segment :: elements (e.update segment) rest

def rows (elements : List Element) : List Row :=
  elements.zipIdx.map fun (e, index) => { e with ordinal := .ofNat index }

/-- Decodes a source map into one row for each segment. -/
def decode (text : Bytes) : Except Error (List Row) :=
  (readSegments (segments text)).map fun segments => rows (elements .initial segments)

end EvmSourceMap.SourceMap
