/-!
# Path names

A path names a file by the directories that lead to it, joined with slashes.
Paths are kept as they were given: joining and taking the parent do not change
the rest of the text.
-/

namespace QueryBench
namespace Path

/-- An absolute path starts at the root. -/
def isAbsolute (path : String) : Bool := decide (path.toList.head? = some '/')

/-- The path `right` as seen from the directory `base`. -/
def join (base right : String) : String :=
  if isAbsolute right then right
  else if base.isEmpty || base.toList.getLast? = some '/' then base ++ right
  else base ++ "/" ++ right

/-- The pieces between slashes, one more than there are slashes. -/
def pieces (path : String) : List (List Char) := path.toList.splitOn '/'

/-- Pieces that name nothing: empty ones, and a dot unless the path is the dot
alone. -/
def namesNothing (piece : List Char) : Bool := piece == [] || piece == ['.']

/-- The pieces, the last one first, down to the last one that names something. -/
def toLastName : List (List Char) → List (List Char)
  | [] => []
  | [first] => if first == [] then [] else [first]
  | piece :: rest => if namesNothing piece then toLastName rest else piece :: rest

/-- The directory that a path lies in, unless the path is empty or the root. -/
def parent? (path : String) : Option String :=
  match toLastName (pieces path).reverse with
  | [] => none
  | _ :: rest =>
      let text := ['/'].intercalate (toLastName rest).reverse
      if text.isEmpty && isAbsolute path then some "/"
      else some (String.ofList text)

/-- The beginnings of a path that end in a piece that names something, with the
pieces of each in reverse; the longest comes first. -/
def namedBeginnings : List (List Char) → List (List (List Char))
  | [] => []
  | [first] => if first == [] then [] else [[first]]
  | piece :: rest =>
      if namesNothing piece then namedBeginnings rest
      else (piece :: rest) :: namedBeginnings rest

/-- The directories above what a path names, the nearest one first; neither the root
nor the start of a relative path is among them. -/
def ancestors (path : String) : List String :=
  (namedBeginnings (pieces path).reverse).tail.map fun ps ↦
    String.ofList (['/'].intercalate ps.reverse)

/-- The names and dots that a path goes through. -/
def steps (path : String) : List String :=
  ((pieces path).filter (· ≠ [])).map String.ofList

/-- A path that ends in a slash can only name a directory. -/
def asksForDirectory (path : String) : Bool := path.toList.getLast? = some '/'

end Path
end QueryBench
