/-!
# Lines of a text

A line ends in a line feed, which may follow a carriage return; neither belongs to
it.  What stands after the last line feed is a line unless it is empty, and keeps
a carriage return at its end.
-/

namespace QueryBench
namespace Text

/-- The line without a carriage return at its end. -/
def dropReturn (line : List Char) : List Char :=
  if line.getLast? = some '\r' then line.dropLast else line

/-- Lines from the pieces between line feeds. -/
def linesOf : List (List Char) → List (List Char)
  | [] => []
  | [last] => if last.isEmpty then [] else [last]
  | line :: rest => dropReturn line :: linesOf rest

def lines (cs : List Char) : List (List Char) := linesOf (cs.splitOn '\n')

/-- What follows the first occurrence of a word. -/
def after? (word : List Char) : List Char → Option (List Char)
  | [] => if word.isEmpty then some [] else none
  | c :: rest =>
      if word.isPrefixOf (c :: rest) then some ((c :: rest).drop word.length)
      else after? word rest

/-- What follows the last occurrence of a word. -/
def afterLast? (word : List Char) : List Char → Option (List Char)
  | [] => if word.isEmpty then some [] else none
  | c :: rest =>
      match afterLast? word rest with
      | some found => some found
      | none =>
          if word.isPrefixOf (c :: rest) then some ((c :: rest).drop word.length)
          else none

end Text
end QueryBench
