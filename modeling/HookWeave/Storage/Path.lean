/-!
# Paths

A path keeps the text that it was given as, and that text goes into messages. As the name of a
file it counts by its components: repeated and trailing slashes and components that stay where
they are make no difference, while a step to the directory above is not cancelled against the
component before it.
-/

namespace HookWeave

/-- A path of a file. -/
structure Path where
  text : String
  deriving DecidableEq, Repr

namespace Path

/-- The pieces of a text between its slashes. -/
def pieces : List Char → List (List Char)
  | [] => [[]]
  | c :: cs =>
    if c = '/' then [] :: pieces cs
    else
      match pieces cs with
      | [] => [[c]]
      | piece :: rest => (c :: piece) :: rest

/-- One step along a path. Steps are ordered as they are listed, and steps to entries by the
names. -/
inductive Step where
  /-- To the top of all directories. -/
  | top
  /-- Nowhere. -/
  | stay
  /-- To the directory above. -/
  | up
  /-- To the entry of a name. -/
  | name (name : String)
  deriving DecidableEq, Ord, Repr

/-- The step that a piece between slashes stands for. -/
def Step.ofPiece (piece : List Char) : Step :=
  if piece = [] ∨ piece = ['.'] then .stay
  else if piece = ['.', '.'] then .up
  else .name (String.ofList piece)

/-- The path starts at the top. -/
def isAbsolute (p : Path) : Bool :=
  p.text.toList.head? = some '/'

/-- The steps along the path, one for each piece between slashes. -/
def steps (p : Path) : List Step :=
  let steps := (pieces p.text.toList).map Step.ofPiece
  if p.isAbsolute then .top :: steps else steps

/-- The path starts by naming the directory that it is relative to. -/
def startsHere (p : Path) : Bool :=
  (pieces p.text.toList).head? = some ['.']

/-- The components by which paths are compared: the steps that lead somewhere, and the directory
that the path is relative to where it starts by naming it. -/
def components (p : Path) : List Step :=
  let moves := p.steps.filter (· ≠ .stay)
  if p.startsHere then .stay :: moves else moves

/-- Two paths have the same components. -/
def same (p q : Path) : Bool :=
  p.components = q.components

/-- The order of paths, component by component. -/
def le (p q : Path) : Bool :=
  (List.compareLex compare p.components q.components).isLE

/-- The text ends with a slash, so that the path can lead to a directory only. -/
def endsWithSlash (p : Path) : Bool :=
  p.text.toList.getLast? = some '/'

/-- The path without the slashes at its end. -/
def trimSlashes (p : Path) : Path :=
  ⟨String.ofList (p.text.toList.reverse.dropWhile (· = '/')).reverse⟩

/-- A path as seen from a directory. An absolute path is itself from everywhere. -/
def join (directory p : Path) : Path :=
  if p.isAbsolute then p
  else if directory.text.isEmpty || directory.endsWithSlash then
    ⟨directory.text ++ p.text⟩
  else ⟨directory.text ++ "/" ++ p.text⟩

/-- The names on the path. -/
def names (p : Path) : List String :=
  p.steps.filterMap fun
    | .name n => some n
    | _ => none

/-- The path of another file in the same directory, whose name has something added at the end. -/
def withSuffix (p : Path) (suffix : String) : Path :=
  ⟨p.text ++ suffix⟩

end Path

end HookWeave
