/-
# Paths

The parts of a slash-separated path that matter for naming output files.  Slashes at the end,
and single dots behind them, do not count.  The extension of a file name is what follows its
last dot, unless the dot is the first character.
-/
namespace SyntaxTree
namespace Path

/-! ## 1. File names -/

/-- The characters of a path backwards, without slashes and single dots at its end. -/
def trimBackwards : List Char → List Char
  | '/' :: rest => trimBackwards rest
  | '.' :: '/' :: rest => trimBackwards rest
  | cs => cs

/-- The directory of a path, with its slash, and the file name.  The root, a single dot and
two dots have none. -/
def split? (path : List Char) : Option (List Char × List Char) :=
  let backwards := trimBackwards path.reverse
  let name := (backwards.takeWhile (· != '/')).reverse
  let directory := (backwards.dropWhile (· != '/')).reverse
  if name = [] ∨ name = ['.'] ∨ name = ['.', '.'] then none else some (directory, name)

/-- A file name in front of its last dot and behind it. -/
def splitName (name : List Char) : List Char × Option (List Char) :=
  let backwards := name.reverse
  let extension := (backwards.takeWhile (· != '.')).reverse
  match backwards.dropWhile (· != '.') with
  | [] => (name, none)
  | [_] => (name, none)
  | _ :: stem => (stem.reverse, some extension)

/-- The extension of a path. -/
def extension? (path : List Char) : Option (List Char) :=
  match split? path with
  | none => none
  | some (_, name) => (splitName name).2

/-! ## 2. Replacing the extension -/

/-- A path that ends in its file name, with that name's extension replaced. -/
def setExtension (path extension : List Char) : List Char :=
  match split? path with
  | none => path
  | some (directory, name) => directory ++ (splitName name).1 ++ ['.'] ++ extension

/-- A path with its extension replaced: as many characters as the old extension has are taken
off its end, then the new one is set. -/
def withExtension (path extension : List Char) : List Char :=
  let old := (extension? path).getD []
  setExtension (path.take (path.length - old.length)) extension

end Path
end SyntaxTree
