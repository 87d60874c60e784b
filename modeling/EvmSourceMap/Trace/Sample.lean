import EvmSourceMap.Json.Printer
import EvmSourceMap.Trace.Annotated

/-!
Short texts of a few annotated entries, for people to look at.
-/

namespace EvmSourceMap.Trace

/-- The first entries that have got a source. -/
def Annotated.samples (trace : Annotated) (count : Nat) : List Json :=
  (trace.positions.take count).filterMap fun i => trace.entries[i]?

/-- The text of a member. A string stands for itself, and a question mark for a missing member. -/
def memberText (print : Json → Bytes) (key : Bytes) (value : Json) : Bytes :=
  match value.get? key with
  | some (.string text) => text
  | some member => print member
  | none => "?"

/-- The text of an entry: its pc, and on further lines what is known about its source. It takes a
printer for values. -/
def sampleText (entry : Json) (print : Json → Bytes := Json.text) : Bytes :=
  if !entry.isObject then "?"
  else
    let head : Bytes := "pc " ++ ((entry.get? "pc").map print).getD "?"
    match entry.get? "source" with
    | some (.object members) =>
      let source := Json.object members
      let operation : Bytes := match entry.get? "op" with
        | some op => "\n  op:      " ++ print op
        | none => []
      let member (key : Bytes) := memberText print key source
      head ++ ": " ++ member "file" ++ ":" ++ member "line" ++ ":" ++ member "column" ++ operation ++
        "\n  snippet: " ++ member "snippet"
    | _ => head

end EvmSourceMap.Trace
