import QueryBench.Document.Parser

/-!
# Colors

A color is written as a hash and three channels of two characters each.  A channel
is a number in hexadecimal digits of either case, where a plus sign may stand for
the first digit.
-/

namespace QueryBench

structure Color where
  red : UInt8
  green : UInt8
  blue : UInt8
deriving DecidableEq, Repr

namespace Color

def white : Color := ⟨255, 255, 255⟩

def black : Color := ⟨0, 0, 0⟩

def channel? (first second : Char) : Option UInt8 :=
  let high? := if first = '+' then some 0 else Document.hexValue? first
  match high?, Document.hexValue? second with
  | some high, some low => some (UInt8.ofNat (high * 16 + low))
  | _, _ => none

def parse? (s : String) : Option Color :=
  match s.toList with
  | ['#', a, b, c, d, e, f] =>
      match channel? a b, channel? c d, channel? e f with
      | some red, some green, some blue => some ⟨red, green, blue⟩
      | _, _, _ => none
  | _ => none

/-- A channel as two hexadecimal digits, capitals where they are letters. -/
def channelText (n : UInt8) : List Char :=
  [Nat.digitChar (n.toNat / 16), Nat.digitChar (n.toNat % 16)].map Char.toUpper

/-- A hash and the three channels. -/
def text (c : Color) : String :=
  String.ofList ('#' :: channelText c.red ++ channelText c.green ++ channelText c.blue)

end Color

structure EngineStyle where
  /-- The engine in the data. -/
  tag : String
  label : String
  color : String
deriving DecidableEq, Repr

structure LegendEntry where
  label : String
  color : String
  hatched : Bool
deriving DecidableEq, Repr

end QueryBench
