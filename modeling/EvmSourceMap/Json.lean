import EvmSourceMap.Binary64
import EvmSourceMap.Bytes
import EvmSourceMap.SortedMap

/-!
JSON values. Members of an object are held in the byte order of their keys, each key once, so that
reading a document forgets the order and the repetitions in it.
-/

namespace EvmSourceMap

/-- A JSON value. A number without a fraction and an exponent is an integer, one with either is a
double precision number. -/
inductive Json
  | null
  | bool (value : Bool)
  | integer (value : Int)
  | real (value : Binary64)
  | string (value : Bytes)
  | array (elements : List Json)
  | object (members : List (Bytes × Json))

namespace Json

instance : Inhabited Json := ⟨null⟩

def ofMembers (members : List (Bytes × Json)) : Json :=
  object (Entries.ofList members)

def ofNat (n : Nat) : Json :=
  integer n

def members? : Json → Option (List (Bytes × Json))
  | object members => some members
  | _ => none

/-- The member of an object under a key. -/
def get? (key : Bytes) (value : Json) : Option Json :=
  value.members?.bind (Entries.get? key)

/-- Puts a member into an object, in place of the one under the same key. Other values have no
members and stay as they are. -/
def set (value : Json) (key : Bytes) (member : Json) : Json :=
  match value with
  | object members => object (Entries.insert key member members)
  | value => value

def string? : Json → Option Bytes
  | string text => some text
  | _ => none

def isObject (value : Json) : Bool :=
  value.members?.isSome

end Json

end EvmSourceMap
