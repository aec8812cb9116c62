import QueryBench.Document.Quoted

/-!
# Reading documents

The JSON grammar over characters.  Every reader returns the value it found and
the characters that follow it.  A value nests at most as deep as the text is
long, so the length of the text bounds the recursion.

In a configuration file a list or an object may end in a comma, and a key stands on
one line with its colon, at most 1024 characters before it.
-/

namespace QueryBench
namespace Document

/-- The blanks that may stand between the parts of a document. -/
def isGap (dialect : Dialect) (c : Char) : Bool :=
  c == ' ' || c == '\t' || c == '\n' || c == '\r' || (dialect == .file && isBreak c)

def skipGaps (dialect : Dialect) (cs : List Char) : List Char := cs.dropWhile (isGap dialect)

/-- A nonempty run of digits. -/
def digitRun? (cs : List Char) : Option (List Char × List Char) :=
  match cs.takeWhile Char.isDigit with
  | [] => none
  | ds => some (ds, cs.dropWhile Char.isDigit)

def wholePart? (cs : List Char) : Option (List Char × List Char) :=
  match cs with
  | '0' :: rest => some (['0'], rest)
  | _ => digitRun? cs

def fractionPart? (cs : List Char) : Option (List Char × List Char) :=
  match cs with
  | '.' :: rest => (digitRun? rest).map fun (ds, after) ↦ ('.' :: ds, after)
  | _ => some ([], cs)

def exponentPart? (cs : List Char) : Option (List Char × List Char) :=
  match cs with
  | [] => some ([], [])
  | e :: rest =>
      if e = 'e' ∨ e = 'E' then
        match rest with
        | [] => none
        | s :: rest' =>
            if s = '+' ∨ s = '-' then
              (digitRun? rest').map fun (ds, after) ↦ (e :: s :: ds, after)
            else (digitRun? rest).map fun (ds, after) ↦ (e :: ds, after)
      else some ([], cs)

def numeral? (cs : List Char) : Option (String × List Char) :=
  let (sign, rest) := match cs with
    | '-' :: rest => (['-'], rest)
    | _ => ([], cs)
  match wholePart? rest with
  | none => none
  | some (whole, rest) =>
      match fractionPart? rest with
      | none => none
      | some (part, rest) =>
          (exponentPart? rest).map fun (e, rest) ↦
            (String.ofList (sign ++ whole ++ part ++ e), rest)

/-- What follows a bracket that closes at once, as one may after a comma in a file. -/
def closed? (dialect : Dialect) (bracket : Char) (cs : List Char) : Option (List Char) :=
  match skipGaps dialect cs with
  | [] => none
  | c :: after => if dialect = .file ∧ c = bracket then some after else none

/-- Whether a key may be written so, the colon after it not included. -/
def isKey (dialect : Dialect) (written : List Char) : Bool :=
  dialect == .embedded || (decide (written.length ≤ 1024) && !written.any isBreak)

mutual

/-- One value, with `n` levels of nesting and items left to spend. -/
def value? (dialect : Dialect) : Nat → List Char → Option (Document × List Char)
  | 0, _ => none
  | n + 1, cs =>
      match skipGaps dialect cs with
      | 'n' :: 'u' :: 'l' :: 'l' :: rest => some (null, rest)
      | 't' :: 'r' :: 'u' :: 'e' :: rest => some (bool true, rest)
      | 'f' :: 'a' :: 'l' :: 's' :: 'e' :: rest => some (bool false, rest)
      | '"' :: rest =>
          (quoted? dialect (rest.length + 1) rest).map fun (s, after) ↦
            (text (String.ofList s), after)
      | '[' :: rest =>
          match skipGaps dialect rest with
          | ']' :: after => some (list [], after)
          | _ => (items? dialect n rest).map fun (ds, after) ↦ (list ds, after)
      | '{' :: rest =>
          match skipGaps dialect rest with
          | '}' :: after => some (object [], after)
          | _ => (fields? dialect n rest).map fun (fs, after) ↦ (object fs, after)
      | rest => (numeral? rest).map fun (s, after) ↦ (number s, after)

/-- The values of a list, up to and including its bracket. -/
def items? (dialect : Dialect) : Nat → List Char → Option (List Document × List Char)
  | 0, _ => none
  | n + 1, cs =>
      match value? dialect n cs with
      | none => none
      | some (d, rest) =>
          match skipGaps dialect rest with
          | ']' :: after => some ([d], after)
          | ',' :: rest =>
              match closed? dialect ']' rest with
              | some after => some ([d], after)
              | none => (items? dialect n rest).map fun (ds, after) ↦ (d :: ds, after)
          | _ => none

/-- The fields of an object, up to and including its brace. -/
def fields? (dialect : Dialect) :
    Nat → List Char → Option (List (String × Document) × List Char)
  | 0, _ => none
  | n + 1, cs =>
      match skipGaps dialect cs with
      | '"' :: rest =>
          match quoted? dialect (rest.length + 1) rest with
          | none => none
          | some (key, left) =>
              match skipGaps dialect left with
              | ':' :: left =>
                  if isKey dialect ('"' :: rest.take (rest.length - left.length - 1)) then
                    match value? dialect n left with
                    | none => none
                    | some (d, left) =>
                        match skipGaps dialect left with
                        | '}' :: after => some ([(String.ofList key, d)], after)
                        | ',' :: left =>
                            match closed? dialect '}' left with
                            | some after => some ([(String.ofList key, d)], after)
                            | none =>
                                (fields? dialect n left).map fun (fs, after) ↦
                                  ((String.ofList key, d) :: fs, after)
                        | _ => none
                  else none
              | _ => none
      | _ => none

end

/-- The document that a whole text is. -/
def parse? (dialect : Dialect) (s : String) : Option Document :=
  let cs := s.toList
  match value? dialect (cs.length + 1) cs with
  | some (d, rest) => if (skipGaps dialect rest).isEmpty then some d else none
  | none => none

end Document
end QueryBench
