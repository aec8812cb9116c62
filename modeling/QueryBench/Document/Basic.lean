import QueryBench.Decimal.Text

/-!
# Documents

Structured text: what configuration files hold and what reports in JSON are made
of.  Fields keep their order, and numbers keep the digits they were written with.
-/

namespace QueryBench

inductive Document where
  | null
  | bool (value : Bool)
  | number (literal : String)
  | text (value : String)
  | list (items : List Document)
  | object (fields : List (String × Document))
deriving Repr, Inhabited

/-- Where a document stands.  A document inside another one is JSON.  In one that a
configuration file holds, numbers and plain words are texts where a text is asked for;
written in flow style it is JSON but for some rules on line breaks, blanks and
characters. -/
inductive Dialect where
  | file
  | embedded
deriving DecidableEq, Repr

namespace Document

/-- The lower-case hexadecimal digit of a number below sixteen. -/
def hexDigit (n : Nat) : Char := Nat.digitChar n

/-- The written form of a character inside quotes. -/
def escapeChar (c : Char) : List Char :=
  if c = '"' then ['\\', '"']
  else if c = '\\' then ['\\', '\\']
  else if c = '\x08' then ['\\', 'b']
  else if c = '\t' then ['\\', 't']
  else if c = '\n' then ['\\', 'n']
  else if c = '\x0c' then ['\\', 'f']
  else if c = '\r' then ['\\', 'r']
  else if c.toNat < 0x20 then
    ['\\', 'u', '0', '0', hexDigit (c.toNat / 16), hexDigit (c.toNat % 16)]
  else [c]

def quote (s : String) : String :=
  String.ofList ('"' :: s.toList.flatMap escapeChar ++ ['"'])

def indentation (depth : Nat) : String :=
  String.ofList (List.replicate (2 * depth) ' ')

/-- Joins written items, each on its own line inside brackets. -/
def block (left right : String) (depth : Nat) (items : List String) : String :=
  match items with
  | [] => left ++ right
  | _ =>
      left ++ "\n" ++
        String.intercalate ",\n" (items.map fun s ↦ indentation (depth + 1) ++ s) ++
        "\n" ++ indentation depth ++ right

mutual

/-- One value a line, two spaces of indentation for each level. -/
def prettyAt (depth : Nat) : Document → String
  | null => "null"
  | bool b => if b then "true" else "false"
  | number literal => literal
  | text s => quote s
  | list items => block "[" "]" depth (prettyItems (depth + 1) items)
  | object fields => block "\x7b" "\x7d" depth (prettyFields (depth + 1) fields)

def prettyItems (depth : Nat) : List Document → List String
  | [] => []
  | d :: rest => prettyAt depth d :: prettyItems depth rest

def prettyFields (depth : Nat) : List (String × Document) → List String
  | [] => []
  | (key, d) :: rest => (quote key ++ ": " ++ prettyAt depth d) :: prettyFields depth rest

end

def pretty (d : Document) : String := prettyAt 0 d

mutual

/-- Everything on one line, without spaces. -/
def compact : Document → String
  | null => "null"
  | bool b => if b then "true" else "false"
  | number literal => literal
  | text s => quote s
  | list items => "[" ++ String.intercalate "," (compactItems items) ++ "]"
  | object fields => "\x7b" ++ String.intercalate "," (compactFields fields) ++ "\x7d"

def compactItems : List Document → List String
  | [] => []
  | d :: rest => compact d :: compactItems rest

def compactFields : List (String × Document) → List String
  | [] => []
  | (key, d) :: rest => (quote key ++ ":" ++ compact d) :: compactFields rest

end

/-- The value of a field, the last one where it occurs more than once. -/
def field? (name : String) : Document → Option Document
  | object fields => (fields.reverse.find? fun p ↦ p.1 == name).map Prod.snd
  | _ => none

/-- A number, or null where it is not finite. -/
def ofFloat (x : Float) : Document :=
  match Decimal.jsonText? x with
  | some literal => number literal
  | none => null

def ofNat (n : Nat) : Document := number (toString n)

end Document
end QueryBench
