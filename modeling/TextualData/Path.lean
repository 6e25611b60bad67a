/-!
# Paths

A path is a text whose components stand between slashes. `Path.join` follows a path from a
directory, `Path.directory` is the directory that holds what a path leads to. Both keep the text of
the components, and so do not look at what exists.
-/

namespace TextualData
namespace Path

/-- Whether a path starts from the top of the tree. -/
def isAbsolute (path : String) : Bool :=
  path.toList.head? == some '/'

/-- The path that is followed from a directory. An absolute one does not depend on it. -/
def join (directory path : String) : String :=
  if isAbsolute path || directory.isEmpty then path
  else if directory.toList.getLast? = some '/' then directory ++ path
  else directory ++ "/" ++ path

/-- The parts between slashes, empty ones included. -/
def parts : List Char → List (List Char)
  | [] => [[]]
  | c :: l =>
    if c = '/' then [] :: parts l
    else
      match parts l with
      | [] => [[c]]
      | part :: more => (c :: part) :: more

/-- The components of a path. Some may be empty, or stay where they are, or lead up. -/
def components (path : String) : List String :=
  (parts path.toList).map String.ofList

/-- The end of a path, last character first, without components that stay where they are. -/
def dropIdle : List Char → List Char
  | '/' :: r => dropIdle r
  | '.' :: '/' :: r => dropIdle r
  | ['.'] => []
  | r => r

/-- The mark of the place where a path starts, and what follows it. -/
def splitStart : List Char → List Char × List Char
  | '/' :: l => (['/'], l)
  | ['.'] => (['.'], [])
  | '.' :: '/' :: l => (['.'], '/' :: l)
  | l => ([], l)

/-- The directory that holds what a path leads to; a single dot for the current one. -/
def directory (path : String) : String :=
  let (start, rest) := splitStart path.toList
  match dropIdle rest.reverse with
  | [] => "."
  | r =>
    match start ++ (dropIdle (r.dropWhile (· ≠ '/'))).reverse with
    | [] => "."
    | l => String.ofList l

end Path
end TextualData
