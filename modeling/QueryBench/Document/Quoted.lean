import QueryBench.Document.Basic

/-!
# Quoted texts

The characters between two quotes, with escapes that start with a backslash.  In a
configuration file a quoted text may go over several lines, whose breaks and the
blanks around them count as one blank.
-/

namespace QueryBench
namespace Document

/-- The characters that end a line in a configuration file. -/
def isBreak (c : Char) : Bool :=
  c == '\n' || c == '\r' || c == '\x85' || c == '\u2028' || c == '\u2029'

def hexValue? (c : Char) : Option Nat :=
  if c.isDigit then some (c.toNat - '0'.toNat)
  else if 'a' ≤ c ∧ c ≤ 'f' then some (c.toNat - 'a'.toNat + 10)
  else if 'A' ≤ c ∧ c ≤ 'F' then some (c.toNat - 'A'.toNat + 10)
  else none

def hexUnit? : List Char → Option (Nat × List Char)
  | a :: b :: c :: d :: rest =>
      match hexValue? a, hexValue? b, hexValue? c, hexValue? d with
      | some w, some x, some y, some z => some (((w * 16 + x) * 16 + y) * 16 + z, rest)
      | _, _, _, _ => none
  | _ => none

/-- The character of an escape `u`.  It may take a pair of units, but not in a file. -/
def unicodeEscape? (dialect : Dialect) (cs : List Char) : Option (Char × List Char) :=
  match hexUnit? cs with
  | none => none
  | some (u, rest) =>
      if 0xD800 ≤ u ∧ u < 0xDC00 ∧ dialect = .embedded then
        match rest with
        | '\\' :: 'u' :: rest' =>
            match hexUnit? rest' with
            | some (v, rest'') =>
                if 0xDC00 ≤ v ∧ v < 0xE000 then
                  some (Char.ofNat (0x10000 + (u - 0xD800) * 0x400 + (v - 0xDC00)), rest'')
                else none
            | none => none
        | _ => none
      else if 0xD800 ≤ u ∧ u < 0xE000 then none
      else some (Char.ofNat u, rest)

/-- The character that a letter after a backslash stands for. -/
def escapeLetter? : Char → Option Char
  | '"' => some '"'
  | '\\' => some '\\'
  | '/' => some '/'
  | 'b' => some '\x08'
  | 'f' => some '\x0c'
  | 'n' => some '\n'
  | 'r' => some '\r'
  | 't' => some '\t'
  | _ => none

/-- The line breaks of a text, most of them as line feeds. -/
def lineBreaks : List Char → List Char
  | [] => []
  | '\r' :: '\n' :: rest => '\n' :: lineBreaks rest
  | c :: rest =>
      if c = '\r' ∨ c = '\n' ∨ c = '\x85' then '\n' :: lineBreaks rest
      else if isBreak c then c :: lineBreaks rest
      else lineBreaks rest

/-- Blanks and line breaks. -/
def isFoldable (c : Char) : Bool := c == ' ' || c == '\t' || isBreak c

/-- What blanks and line breaks in a row stand for: themselves without a break; else the
breaks, of which a first line feed is dropped, or a blank where it is the only one. -/
def fold (run : List Char) : List Char :=
  match lineBreaks run with
  | [] => run
  | ['\n'] => [' ']
  | '\n' :: more => more
  | breaks => breaks

/-- The rest of a quoted text, up to and including its closing quote. -/
def quoted? (dialect : Dialect) : Nat → List Char → Option (List Char × List Char)
  | 0, _ => none
  | _ + 1, [] => none
  | _ + 1, '"' :: rest => some ([], rest)
  | n + 1, '\\' :: 'u' :: rest =>
      match unicodeEscape? dialect rest with
      | some (c, rest') => (quoted? dialect n rest').map fun (s, after) ↦ (c :: s, after)
      | none => none
  | n + 1, '\\' :: l :: rest =>
      match escapeLetter? l with
      | some c => (quoted? dialect n rest).map fun (s, after) ↦ (c :: s, after)
      | none => none
  | n + 1, c :: rest =>
      if dialect = .file ∧ isFoldable c then
        (quoted? dialect n (rest.dropWhile isFoldable)).map fun (s, after) ↦
          (fold (c :: rest.takeWhile isFoldable) ++ s, after)
      else if c.toNat < 0x20 ∨ c = '\\' then none
      else (quoted? dialect n rest).map fun (s, after) ↦ (c :: s, after)

end Document
end QueryBench
