import EvmSourceMap.Json.Token

/-!
Reading a JSON text. The reader is a machine that takes one token after the other and keeps the
containers that are still open on a stack, so it handles any depth. A run may read with another
library (`EvmSourceMap.Json.Codec`).
-/

namespace EvmSourceMap.Json

/-- Why a text is no JSON value. -/
inductive ReadError
  /-- The text breaks the grammar. -/
  | malformed
  /-- A number is beyond the range of double precision. -/
  | tooLarge
  deriving DecidableEq, Repr

/-- A container that waits for the value inside it to end. -/
inductive Frame
  /-- An array, with the elements before the value, the last one first. -/
  | array (elements : List Json)
  /-- An object, with the members before the value and the key of the value. -/
  | object (members : List (Bytes × Json)) (key : Bytes)

/-- What the reader has read and what may follow. -/
inductive ReadState
  /-- A value has to follow. -/
  | value (stack : List Frame)
  /-- An array has been opened. -/
  | elementOrEnd (stack : List Frame)
  /-- An element has ended; the elements so far, the last one first. -/
  | afterElement (stack : List Frame) (elements : List Json)
  /-- An object has been opened. -/
  | keyOrEnd (stack : List Frame)
  /-- A member has to follow. -/
  | key (stack : List Frame) (members : List (Bytes × Json))
  /-- A key has ended. -/
  | colon (stack : List Frame) (members : List (Bytes × Json)) (key : Bytes)
  /-- A member has ended. -/
  | afterMember (stack : List Frame) (members : List (Bytes × Json))
  /-- The whole value has ended. -/
  | done (result : Json)

namespace ReadState

/-- Hands a value that has ended to the container around it. A key that occurs again replaces the
member under it. -/
def deliver (result : Json) : List Frame → ReadState
  | [] => done result
  | .array elements :: stack => afterElement stack (result :: elements)
  | .object members name :: stack => afterMember stack (Entries.insert name result members)

/-- Begins a value inside the containers of the stack. -/
def beginValue (stack : List Frame) : Token → Except ReadError ReadState
  | .scalar result => .ok (deliver result stack)
  | .openArray => .ok (elementOrEnd stack)
  | .openObject => .ok (keyOrEnd stack)
  | .tooLarge => .error .tooLarge
  | _ => .error .malformed

/-- Takes one token. -/
def step (state : ReadState) (token : Token) : Except ReadError ReadState :=
  match state, token with
  | value stack, token => beginValue stack token
  | elementOrEnd stack, .closeArray => .ok (deliver (.array []) stack)
  | elementOrEnd stack, token => beginValue (.array [] :: stack) token
  | afterElement stack elements, .comma => .ok (value (.array elements :: stack))
  | afterElement stack elements, .closeArray => .ok (deliver (.array elements.reverse) stack)
  | keyOrEnd stack, .closeObject => .ok (deliver (.object []) stack)
  | keyOrEnd stack, .scalar (.string name) => .ok (colon stack [] name)
  | key stack members, .scalar (.string name) => .ok (colon stack members name)
  | colon stack members name, .colon => .ok (value (.object members name :: stack))
  | afterMember stack members, .comma => .ok (key stack members)
  | afterMember stack members, .closeObject => .ok (deliver (.object members) stack)
  | _, _ => .error .malformed

end ReadState

/-- Removes one byte order mark at the start. -/
def stripByteOrderMark : Bytes → Bytes
  | 0xef :: 0xbb :: 0xbf :: rest => rest
  | text => text

/-- Reads a JSON text: one value and blanks around it. -/
def read (text : Bytes) : Except ReadError Json := do
  match ← (Token.ofText (stripByteOrderMark text)).foldlM ReadState.step (.value []) with
  | .done result => .ok result
  | _ => .error .malformed

end EvmSourceMap.Json
