import QueryBench.Cost.Reference
import QueryBench.Decimal.Numeral
import QueryBench.Document.Basic
import QueryBench.QueryRules.Basic

/-!
# Reading configuration values

A configuration value is read from a document that asks for it field by field.
Fields that are not asked for are passed over.  The first field that does not
hold what is asked for decides why the value is refused; a field that has no
default and is missing is noticed last.
-/

namespace QueryBench
namespace Configuration

inductive Refusal where
  | malformed
  | rules (fault : QueryRules.Fault)
  | reference (fault : ReferenceTable.Fault)
deriving DecidableEq, Repr

def Refusal.message? : Refusal → Option String
  | malformed => none
  | rules fault => some fault.message
  | reference fault => some fault.message

abbrev Reader (α : Type) := Document → Except Refusal α

/-- A format of configuration files: the document in the text of a file, if it is one of the
format. -/
abbrev Format := String → Option Document

def text (dialect : Dialect) : Reader String
  | .text s => .ok s
  | .number literal => if dialect = .file then .ok literal else .error .malformed
  | .bool b =>
      if dialect = .file then .ok (if b then "true" else "false") else .error .malformed
  | .null => if dialect = .file then .ok "null" else .error .malformed
  | _ => .error .malformed

def real : Reader Float
  | .number literal =>
      match Numeral.float? literal with
      | some x => if x.isFinite then .ok x else .error .malformed
      | none => .error .malformed
  | _ => .error .malformed

/-- A whole number below a bound, written without sign, point and exponent. -/
def wholeBelow (bound : Nat) : Reader Nat
  | .number literal =>
      match Numeral.digits? literal.toList with
      | some n => if n < bound then .ok n else .error .malformed
      | none => .error .malformed
  | _ => .error .malformed

/-- A whole number of 32 bits. -/
def size : Reader Nat := wholeBelow UInt32.size

/-- A whole number of 64 bits. -/
def count : Reader UInt64 := fun d ↦ (wholeBelow UInt64.size d).map UInt64.ofNat

def nullable {α : Type} (read : Reader α) : Reader (Option α)
  | .null => .ok none
  | d => (read d).map some

def each {α : Type} (read : Reader α) : List Document → Except Refusal (List α)
  | [] => .ok []
  | d :: rest =>
      match read d with
      | .error refusal => .error refusal
      | .ok a => (each read rest).map (a :: ·)

def list {α : Type} (read : Reader α) : Reader (List α)
  | .list items => each read items
  | _ => .error .malformed

/-- The entries of an object in order of their keys, the last one of each key. -/
def entries {α : Type} (read : Reader α) : Reader (List (String × α))
  | .object fields =>
      (each (fun d ↦ read d) (fields.map Prod.snd)).map fun values ↦
        (Std.ExtTreeMap.ofList ((fields.map Prod.fst).zip values)).toList
  | _ => .error .malformed

/-- One of some words. -/
def choice {α : Type} (dialect : Dialect) (ofWord? : String → Option α) : Reader α
  | .text s => (ofWord? s).elim (.error .malformed) .ok
  | .object [(s, .null)] =>
      if dialect = .embedded then (ofWord? s).elim (.error .malformed) .ok
      else .error .malformed
  | _ => .error .malformed

/-- The fields that a document gives to a record with fields of some names, in the
order they are read: by name, or as they are listed. -/
def recordFields (dialect : Dialect) (names : List String) :
    Reader (List (String × Document))
  | .object fields =>
      let known := fields.filter fun f ↦ names.contains f.1
      if (known.map Prod.fst).eraseDups.length = known.length then
        .ok (known.mergeSort fun a b ↦ decide (a.1 ≤ b.1))
      else .error .malformed
  | .list items => if dialect = .embedded then .ok (names.zip items) else .error .malformed
  | _ => .error .malformed

/-- Whether a document lists more values than there are names. -/
def listsMore (names : List String) : Document → Bool
  | .list items => decide (names.length < items.length)
  | _ => false

def setAll {α : Type} (set : α → String → Reader α) (a : α) :
    List (String × Document) → Except Refusal α
  | [] => .ok a
  | (name, d) :: rest =>
      match set a name d with
      | .error refusal => .error refusal
      | .ok a' => setAll set a' rest

/-- A record: `set` puts a field into a value that starts with the defaults.  What is
listed beyond the fields is noticed after them. -/
def record {α : Type} (dialect : Dialect) (names required : List String) (defaults : α)
    (set : α → String → Reader α) : Reader α := fun d ↦
  match recordFields dialect names d with
  | .error refusal => .error refusal
  | .ok fields =>
      match setAll set defaults fields with
      | .error refusal => .error refusal
      | .ok a =>
          if listsMore names d then .error .malformed
          else if required.all fun n ↦ fields.any fun f ↦ f.1 == n then .ok a
          else .error .malformed

/-- The lists that rules are made from. -/
abbrev RuleLists := List String × List (String × String)

def setRules (dialect : Dialect) (lists : RuleLists) (name : String) : Reader RuleLists :=
  fun d ↦
    match name with
    | "exclude" => (list (text dialect) d).map fun ids ↦ (ids, lists.2)
    | "remap" => (entries (text dialect) d).map fun pairs ↦ (lists.1, pairs)
    | _ => .ok lists

def rules (dialect : Dialect) : Reader QueryRules := fun d ↦
  match record dialect ["exclude", "remap"] [] ([], []) (setRules dialect) d with
  | .error refusal => .error refusal
  | .ok (excluded, renamings) => (QueryRules.ofLists excluded renamings).mapError .rules

def reference : Reader ReferenceTable := fun d ↦
  match entries count d with
  | .error refusal => .error refusal
  | .ok pairs => (ReferenceTable.ofList pairs).mapError .reference

end Configuration

namespace QueryRules

/-- The excluded ids and the renamings, in order. -/
def definition (r : QueryRules) : Configuration.RuleLists :=
  (r.excluded.toList, r.remap.toList)

/-- The rules as they are written in a configuration. -/
def document (r : QueryRules) : Document :=
  .object [("exclude", .list (r.definition.1.map .text)),
    ("remap", .object (r.definition.2.map fun p ↦ (p.1, .text p.2)))]

end QueryRules
end QueryBench
