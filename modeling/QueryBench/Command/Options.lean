/-!
# Command line options

A command line is a sequence of words.  Words that start with a dash name options
by a letter or by a whole name, and some options take a value, which is joined to
the option or is the next word.  All other words, and those after a double dash,
are operands.
-/

namespace QueryBench

structure OptionSpec where
  name : String
  letter : Option Char
  takesValue : Bool
  /-- It may be given more than once. -/
  repeatable : Bool
deriving DecidableEq, Repr

structure Words where
  /-- Options in the order they were given, with their values. -/
  options : List (String × String)
  operands : List String
deriving DecidableEq, Repr

namespace OptionSpec

def flag (name : String) (letter : Option Char) : OptionSpec := ⟨name, letter, false, false⟩

def single (name : String) (letter : Option Char) : OptionSpec := ⟨name, letter, true, false⟩

def many (name : String) (letter : Option Char) : OptionSpec := ⟨name, letter, true, true⟩

end OptionSpec

namespace Words

def empty : Words := ⟨[], []⟩

def addOption (w : Words) (name value : String) : Words :=
  { w with options := (name, value) :: w.options }

def addOperand (w : Words) (word : String) : Words :=
  { w with operands := word :: w.operands }

def values (w : Words) (name : String) : List String :=
  (w.options.filter fun o ↦ o.1 == name).map Prod.snd

def value? (w : Words) (name : String) : Option String := (w.values name).head?

def given (w : Words) (name : String) : Bool := !(w.values name).isEmpty

end Words

def isOptionWord (word : String) : Bool :=
  match word.toList with
  | '-' :: _ :: _ => true
  | _ => false

/-- Options named by one word: those that are complete, and one that still needs a
value. -/
structure Named where
  complete : List (String × String)
  waiting : Option String
deriving DecidableEq, Repr

/-- A word of option letters.  What follows the letter of an option that takes a
value is the value. -/
def letters? (specs : List OptionSpec) : List Char → Option Named
  | [] => some ⟨[], none⟩
  | c :: rest =>
      match specs.find? fun s ↦ s.letter = some c with
      | none => none
      | some s =>
          if s.takesValue then
            match rest with
            | [] => some ⟨[], some s.name⟩
            | '=' :: value => some ⟨[(s.name, String.ofList value)], none⟩
            | value => some ⟨[(s.name, String.ofList value)], none⟩
          else
            (letters? specs rest).map fun n ↦ { n with complete := (s.name, "") :: n.complete }

/-- A whole option name, with a value after an equals sign. -/
def wholeName? (specs : List OptionSpec) (cs : List Char) : Option Named :=
  let name := String.ofList (cs.takeWhile (· ≠ '='))
  match specs.find? (·.name == name), cs.dropWhile (· ≠ '=') with
  | none, _ => none
  | some s, [] => if s.takesValue then some ⟨[], some name⟩ else some ⟨[(name, "")], none⟩
  | some s, _ :: value =>
      if s.takesValue then some ⟨[(name, String.ofList value)], none⟩ else none

def named? (specs : List OptionSpec) (word : String) : Option Named :=
  match word.toList with
  | '-' :: '-' :: cs => wholeName? specs cs
  | '-' :: cs => letters? specs cs
  | _ => none

def Words.addAll (w : Words) (options : List (String × String)) : Words :=
  options.foldl (fun w o ↦ w.addOption o.1 o.2) w

/-- Reads words one after the other; what is found stands in reverse. -/
def readWords (specs : List OptionSpec) (w : Words) : List String → Option Words
  | [] => some w
  | "--" :: rest => some (rest.foldl Words.addOperand w)
  | word :: rest =>
      if isOptionWord word then
        match named? specs word with
        | none => none
        | some ⟨complete, none⟩ => readWords specs (w.addAll complete) rest
        | some ⟨complete, some waiting⟩ =>
            match rest with
            | [] => none
            | value :: rest' =>
                if isOptionWord value then none
                else readWords specs ((w.addAll complete).addOption waiting value) rest'
      else readWords specs (w.addOperand word) rest

/-- Whether no option is given more often than it may be. -/
def Words.respects (w : Words) (specs : List OptionSpec) : Bool :=
  specs.all fun s ↦ s.repeatable || decide ((w.values s.name).length ≤ 1)

/-- What a command line says, if every option is known and has its value. -/
def words? (specs : List OptionSpec) (args : List String) : Option Words :=
  (readWords specs .empty args).bind fun w ↦
    let w : Words := ⟨w.options.reverse, w.operands.reverse⟩
    if w.respects specs then some w else none

end QueryBench
