import EvmSourceMap.CommandLine.Path
import EvmSourceMap.SortedMap

/-!
The files that a run works on, in a tree of directories. A path is followed step by step, from the
root or from the working directory, and each step but the last has to lead into a directory.
-/

namespace EvmSourceMap.CommandLine

/-- Why a file cannot be read. -/
inductive ReadFault
  | missing
  | isDirectory
  deriving DecidableEq, Repr

/-- What can go wrong with a file. -/
inductive FileError
  | unreadable (path : Bytes) (fault : ReadFault)
  | unwritable (path : Bytes)
  deriving DecidableEq, Repr

def FileError.message : FileError → Bytes
  | unreadable path .missing => "could not open file: " ++ Bytes.beforeNul path
  | unreadable _ .isDirectory =>
    "basic_filebuf::underflow error reading the file: Is a directory"
  | unwritable path => "could not write file: " ++ Bytes.beforeNul path

/-- Directories and the contents of files. The working directory, which relative paths start from,
is always there, and so are the directories on the way to it. -/
structure FileStore where
  working : Place := []
  directories : List Place := []
  /-- Files that stay empty, whatever is written to them. -/
  sinks : List Place := []
  files : SortedMap Place Bytes := ∅

namespace FileStore

/-- The number of bytes that a name in a path may have. -/
def nameLimit : Nat :=
  255

/-- The number of bytes that a path may have. -/
def pathLimit : Nat :=
  4095

def isDirectory (store : FileStore) (place : Place) : Bool :=
  place.isPrefixOf store.working || store.directories.contains place

/-- Follows the names of a path. An empty name or a point stays, two points lead back as far as the
root, and a name that is too long leads nowhere. -/
def follow (store : FileStore) (place : Place) : List Bytes → Option Place
  | [] => some place
  | name :: rest =>
    if !store.isDirectory place then none
    else if name = [] ∨ name = "." then follow store place rest
    else if name = ".." then follow store place.dropLast rest
    else if name.length ≤ nameLimit then follow store (place ++ [name]) rest
    else none

/-- The place that a path leads to: from the root if it starts with a slash, else from the working
directory. A path that is empty or too long leads nowhere. -/
def locate? (store : FileStore) (path : Bytes) : Option Place :=
  let path := Bytes.beforeNul path
  if path.isEmpty || pathLimit < path.length then none
  else
    let start := if path.head? == some separator then [] else store.working
    store.follow start (Bytes.split separator path)

def read (store : FileStore) (path : Bytes) : Except ReadFault Bytes :=
  match store.locate? path with
  | none => .error .missing
  | some place =>
    if store.isDirectory place then .error .isDirectory
    else if store.sinks.contains place then .ok []
    else
      match store.files.get? place with
      | some contents => .ok contents
      | none => .error .missing

/-- Gives a file new contents. A file can be made in a directory that is there. -/
def write? (store : FileStore) (path contents : Bytes) : Option FileStore :=
  (store.locate? path).bind fun place =>
    if store.isDirectory place then none
    else if store.sinks.contains place then some store
    else some { store with files := store.files.insert place contents }

/-- Puts a file at a place under the working directory and makes the directories on the way. -/
def create (store : FileStore) (place : Place) (contents : Bytes) : FileStore :=
  let place := store.working ++ place
  { store with
    directories := (List.range place.length).map place.take ++ store.directories
    files := store.files.insert place contents }

/-- The files under the working directory that are new or have other contents than in another
store. -/
def changedSince (store before : FileStore) : List (Place × Bytes) :=
  store.files.entries.filterMap fun (place, contents) =>
    if before.files.get? place = some contents then none
    else (store.working.isPrefixOf? place).map fun place => (place, contents)

end FileStore

end EvmSourceMap.CommandLine
