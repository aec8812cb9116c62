import QueryBench.Configuration.Reader
import QueryBench.Document.Parser

/-!
# Configuration files in flow style

Flow style writes lists in brackets, objects in braces and words in quotes, and leaves
line breaks and indentation without meaning.  A file holds no control characters, and
no tab indents what starts or follows its document.
-/

namespace QueryBench
namespace Configuration

/-- The characters that a file may hold. -/
def isPermitted (c : Char) : Bool :=
  c == '\t' || c == '\n' || c == '\r' || c == '\x85' ||
    (decide (0x20 ≤ c.toNat) && decide (c.toNat ≤ 0x7E)) ||
    (decide (0xA0 ≤ c.toNat) && c != '\uFEFF' && c != '\uFFFE' && c != '\uFFFF')

/-- The blanks and line breaks before a document hold no tab. -/
def startsWithoutTab (content : List Char) : Bool :=
  !(content.takeWhile (Document.isGap .file)).contains '\t'

/-- The blanks and line breaks after a document hold no tab behind their first break. -/
def endsWithoutTab (content : List Char) : Bool :=
  let after := (content.reverse.takeWhile (Document.isGap .file)).reverse
  !(after.dropWhile fun c ↦ !Document.isBreak c).contains '\t'

/-- The format of files in flow style; a blank file holds an empty object. -/
def flowStyle : Format := fun content ↦
  let cs := content.toList
  if cs.all isPermitted && startsWithoutTab cs && endsWithoutTab cs then
    if cs.all (Document.isGap .file) then some (.object []) else Document.parse? .file content
  else none

end Configuration
end QueryBench
