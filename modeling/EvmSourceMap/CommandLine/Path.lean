import EvmSourceMap.Bytes

/-!
Paths of files: names with slashes between them.
-/

namespace EvmSourceMap.CommandLine

def separator : UInt8 :=
  '/'.toUInt8

/-- A place in a directory tree, by the names on the way to it. -/
abbrev Place :=
  List Bytes

def Place.path (place : Place) : Bytes :=
  [separator].intercalate place

/-- Where an annotated trace goes if nothing else is said: beside the trace. -/
def besidePath (path : Bytes) : Bytes :=
  let name := (path.reverse.takeWhile (· != separator)).reverse
  let directory := path.take (path.length - name.length)
  let parent := (directory.reverse.dropWhile (· == separator)).reverse
  let place : Bytes :=
    if !parent.isEmpty then parent ++ [separator]
    else if directory.isEmpty then []
    else [separator]
  place ++ "enhanced_" ++ name

end EvmSourceMap.CommandLine
