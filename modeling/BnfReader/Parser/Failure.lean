import BnfReader.Parser.Run

/-! Failure reports: a mismatch placed in its text.

A report names the offset, the line and the column, what was expected and what stood there
instead. A line ends at a line feed, at a carriage return, and once at the two together. -/
namespace BnfReader

/-- Where and why reading stopped. -/
structure Failure where
  /-- Characters before the place, from 0. -/
  offset : Int
  /-- Lines, from 1. -/
  line : Int
  /-- Columns, from 1. -/
  column : Int
  /-- What could have stood there. -/
  expected : List String
  /-- What stood there; `none` at the end of the text. -/
  found : Option String
deriving DecidableEq

/-- How many times a carriage return stands right before a line feed. -/
def crlfCount : List Char → Nat
  | [] => 0
  | [_] => 0
  | a :: b :: cs => (if a = '\r' ∧ b = '\n' then 1 else 0) + crlfCount (b :: cs)

/-- The line after `before`: each of the two line ends counts, a pair of them once. -/
def lineAfter (before : List Char) : Nat :=
  before.count '\n' + before.count '\r' - crlfCount before + 1

/-- The number of characters up to and with the last line end of either kind. -/
def lineStart (before : List Char) : Nat :=
  before.length - (before.reverse.takeWhile fun c => c != '\n' && c != '\r').length

namespace Failure

/-- Several descriptions as alternatives. -/
def alternatives (items : List String) : String :=
  match items.getLast? with
  | none => ""
  | some last =>
    if items.length = 1 then last else ", ".intercalate items.dropLast ++ " or " ++ last

/-- A report on one line. -/
def message (f : Failure) : String :=
  let found := match f.found with
    | none => "end of input"
    | some s => Text.quoted s
  "line " ++ toString f.line ++ ", column " ++ toString f.column ++ ": unexpected " ++ found ++
    if f.expected.isEmpty then "" else "; expected " ++ alternatives f.expected

/-- The report of a mismatch in a text. Past the end of the text the column goes on
counting from the last line's start. -/
def ofMismatch (text : Array Char) (m : Mismatch) : Failure :=
  let before := (text.extract 0 m.offset).toList
  { offset := m.offset
    line := lineAfter before
    column := m.offset - lineStart before + 1
    expected := m.expected.items
    found := text[m.offset]?.map String.singleton }

end Failure

/-- Why a text gave no value. -/
inductive Rejection (ε : Type) where
  /-- The text does not match. -/
  | failure (report : Failure)
  /-- The run could not go on. -/
  | fault (cause : Fault ε)
deriving DecidableEq

/-- Read a text from its start. What is left over after a match is ignored. -/
def Parser.parse {ε α : Type} (p : Parser ε α) (text : String) : Except (Rejection ε) α :=
  let chars := text.toList.toArray
  match p.run chars 0 none with
  | (.done a _, _) => .ok a
  | (.failed miss, hint) => .error (.failure (Failure.ofMismatch chars (hint.explain miss)))
  | (.fault cause, _) => .error (.fault cause)

end BnfReader
