import TextualData.Files.Basic
import TextualData.Path

/-!
# Trees of files

A `FileTree` holds all files below one directory, which is also the place where relative paths
start. `FileTree.files` answers for the files of the tree; nothing else exists.
-/

namespace TextualData

/-- The files below a directory. -/
structure FileTree where
  root : String
  /-- The components of the path of each file from the directory, and its bytes. -/
  contents : List (List String × List UInt8)
deriving Repr

namespace FileTree

/-- The tree with files at the given paths. -/
def ofList (root : String) (files : List (String × List UInt8)) : FileTree :=
  ⟨root, files.map fun f => (Path.components f.1, f.2)⟩

/-- The bytes of the file at a place. -/
def bytes? (tree : FileTree) (place : List String) : Option (List UInt8) :=
  (tree.contents.find? (·.1 = place)).map (·.2)

/-- Whether a place is a directory. -/
def isDirectory (tree : FileTree) (place : List String) : Bool :=
  place.isEmpty || tree.contents.any fun f => place.isPrefixOf f.1 && place != f.1

/-- The place that one component leads to. -/
def step (tree : FileTree) (place : List String) (component : String) :
    Except FileFault (List String) :=
  if !tree.isDirectory place then
    .error (if (tree.bytes? place).isSome then .notDirectory else .notFound)
  else if component = "" || component = "." then .ok place
  else if component = ".." then
    if place.isEmpty then .error .notFound else .ok place.dropLast
  else .ok (place ++ [component])

/-- The text after the beginning of a list, if it starts with it. -/
def after? : List Char → List Char → Option (List Char)
  | [], l => some l
  | c :: start, d :: l => if c = d then after? start l else none
  | _ :: _, [] => none

/-- The components of a path below the directory, if it leads there. -/
def componentsBelow? (tree : FileTree) (path : String) : Option (List String) :=
  match after? tree.root.toList path.toList with
  | some [] => some []
  | some ('/' :: l) => some (Path.components (String.ofList l))
  | _ => if path.isEmpty || Path.isAbsolute path then none else some (Path.components path)

/-- The place that a path leads to. It may be that nothing is there. -/
def place (tree : FileTree) (path : String) : Except FileFault (List String) :=
  match tree.componentsBelow? path with
  | some components => components.foldlM tree.step []
  | none => .error .notFound

/-- The bytes of the file at a path. -/
def read (tree : FileTree) (path : String) : Except FileFault (List UInt8) := do
  let place ← tree.place path
  match tree.bytes? place with
  | some bytes => return bytes
  | none => throw (if tree.isDirectory place then .isDirectory else .notFound)

/-- The path of a place from the top. -/
def absolute (tree : FileTree) (place : List String) : String :=
  String.intercalate "/" (tree.root :: place)

/-- The files of a tree. -/
def files (tree : FileTree) : Files where
  read := tree.read
  canonical path :=
    match tree.place path with
    | .ok place => tree.absolute place
    | .error _ => path

end FileTree
end TextualData
