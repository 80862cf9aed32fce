/-
# File stores

Reading and writing files is all that the tools ask of the world, so they are written against
a `Storage` of two operations.  `FileStore` is a store in memory: the directories and files
below one starting directory, with the failures of a real one.
-/
import SyntaxTree.Error

namespace SyntaxTree

/-! ## 1. Storage -/

/-- Reading and writing whole files. -/
structure Storage (m : Type → Type) where
  read : String → m (Except StorageError (List UInt8))
  write : String → List UInt8 → m (Except StorageError Unit)

/-! ## 2. In memory -/

/-- What stands at a path. -/
inductive Entry where
  | directory
  | file (content : List UInt8)
  deriving DecidableEq, Repr

/-- Directories and files by the names on the way to them. -/
structure FileStore where
  entries : List (List String × Entry)

namespace FileStore

/-- The store of one empty directory. -/
def empty : FileStore := ⟨[]⟩

/-- What stands at a place; the starting directory is always there. -/
def entry? (store : FileStore) (place : List String) : Option Entry :=
  if place.isEmpty then some .directory else store.entries.lookup place

/-- The store with something at a place. -/
def insert (store : FileStore) (place : List String) (entry : Entry) : FileStore :=
  ⟨(place, entry) :: store.entries.filter fun e => e.1 != place⟩

/-- The pieces of a path between slashes. -/
def pieces (path : String) : List String :=
  (path.toList.splitBy fun _ b => b != '/' ).filterMap fun piece =>
    let name := piece.filter (· != '/')
    if name.isEmpty then none else some (String.ofList name)

/-- Where a path leads. -/
inductive Target where
  /-- To something that is there. -/
  | found (place : List String) (entry : Entry)
  /-- To a name that is free in a directory that is there. -/
  | free (place : List String)

/-- Follows names from a directory. -/
def follow (store : FileStore) (place : List String) : List String → Except StorageError Target
  | [] => .ok (.found place .directory)
  | name :: rest =>
    let next :=
      if name = "." then place else if name = ".." then place.dropLast else place ++ [name]
    match store.entry? next with
    | some .directory => store.follow next rest
    | some (.file content) =>
      if rest.isEmpty then .ok (.found next (.file content)) else .error .notDirectory
    | none => if rest.isEmpty then .ok (.free next) else .error .missing

/-- Follows a path. -/
def resolve (store : FileStore) (path : String) : Except StorageError Target :=
  if path.isEmpty then .error .missing else store.follow [] (pieces path)

/-- Whether a path ends in a slash, so that only a directory may stand there. -/
def endsInSlash (path : String) : Bool := path.toList.getLast? == some '/'

/-- The content of a file. -/
def read (store : FileStore) (path : String) : Except StorageError (List UInt8) :=
  match store.resolve path with
  | .error cause => .error cause
  | .ok (.free _) => .error .missing
  | .ok (.found _ .directory) => .error .isDirectory
  | .ok (.found _ (.file content)) =>
    if endsInSlash path then .error .notDirectory else .ok content

/-- The store with a file written. -/
def write (store : FileStore) (path : String) (content : List UInt8) :
    Except StorageError FileStore :=
  match store.resolve path with
  | .error cause => .error cause
  | .ok (.found _ .directory) => .error .isDirectory
  | .ok (.found place (.file _)) =>
    if endsInSlash path then .error .notDirectory else .ok (store.insert place (.file content))
  | .ok (.free place) =>
    if endsInSlash path then .error .isDirectory else .ok (store.insert place (.file content))

/-- The store with a directory, and those on the way to it. -/
def makeDirectory (store : FileStore) (path : String) : FileStore :=
  let names := (pieces path).filter (· != ".")
  (List.range names.length).foldl
    (fun store count => store.insert (names.take (count + 1)) .directory) store

/-- The operations of a store that is kept as a state. -/
def storage : Storage (StateM FileStore) where
  read path := do return (← get).read path
  write path content := do
    match (← get).write path content with
    | .error cause => return .error cause
    | .ok store =>
      set store
      return .ok ()

end FileStore
end SyntaxTree
