import BnfReader.Json.Basic
import BnfReader.Number.Shortest
import BnfReader.Text.Hex

/-! Writing JSON text.

`Json.pretty` puts every item on a line of its own, two columns further in per level, and
escapes everything outside printable ASCII. `Json.compact` writes no blanks at all and
escapes only what has to be. -/
namespace BnfReader.Json

/-- An escape by number of one code unit. -/
def unitEscape (n : Nat) : List Char := '\\' :: 'u' :: Text.Hex.padded 4 n

/-- The escape of a character that has a short one. -/
def shortForm? (c : Char) : Option (List Char) :=
  if c = '"' then some ['\\', '"']
  else if c = '\\' then some ['\\', '\\']
  else if c = '\n' then some ['\\', 'n']
  else if c = '\r' then some ['\\', 'r']
  else if c = '\t' then some ['\\', 't']
  else if c = '\x08' then some ['\\', 'b']
  else if c = '\x0c' then some ['\\', 'f']
  else none

/-- A character in ASCII; one above the basic plane is written as its pair of units. -/
def asciiForm (c : Char) : List Char :=
  match shortForm? c with
  | some cs => cs
  | none =>
    let n := c.toNat
    if 0x20 ≤ n ∧ n < 0x7F then [c]
    else if n < 0x10000 then unitEscape n
    else unitEscape (0xD800 + (n - 0x10000) / 0x400) ++ unitEscape (0xDC00 + (n - 0x10000) % 0x400)

/-- A character with only the necessary escapes. -/
def plainForm (c : Char) : List Char :=
  match shortForm? c with
  | some cs => cs
  | none => if c.toNat < 0x20 then unitEscape c.toNat else [c]

/-- A string in double quotes, its characters written by `form`. -/
def quote (form : Char → List Char) (s : String) : String :=
  String.ofList ('"' :: s.toList.flatMap form ++ ['"'])

/-- A floating-point number. -/
def realText (x : Binary64) : String := x.write "Infinity" "NaN"

/-- A truth value. -/
def boolText (b : Bool) : String := if b then "true" else "false"

/-- A new line at a level. -/
def newline (level : Nat) : String := "\n" ++ "".pushn ' ' (2 * level)

mutual

/-- A value that begins at a level. -/
def prettyAt (level : Nat) : Json → String
  | .null => "null"
  | .bool b => boolText b
  | .int n => toString n
  | .real x => realText x
  | .string s => quote asciiForm s
  | .array [] => "[]"
  | .array (v :: rest) =>
    "[" ++ newline (level + 1) ++
      ("," ++ newline (level + 1)).intercalate (prettyItems (level + 1) (v :: rest)) ++
      newline level ++ "]"
  | .object [] => "\x7b\x7d"
  | .object (field :: rest) =>
    "\x7b" ++ newline (level + 1) ++
      ("," ++ newline (level + 1)).intercalate (prettyFields (level + 1) (field :: rest)) ++
      newline level ++ "\x7d"

/-- The items of an array that begin at a level. -/
def prettyItems (level : Nat) : List Json → List String
  | [] => []
  | v :: rest => prettyAt level v :: prettyItems level rest

/-- The fields of an object that begin at a level. -/
def prettyFields (level : Nat) : List (String × Json) → List String
  | [] => []
  | (k, v) :: rest => (quote asciiForm k ++ ": " ++ prettyAt level v) :: prettyFields level rest

end

/-- A value over several lines, in ASCII. -/
def pretty (v : Json) : String := prettyAt 0 v

mutual

/-- A value on one line. -/
def compact : Json → String
  | .null => "null"
  | .bool b => boolText b
  | .int n => toString n
  | .real x => realText x
  | .string s => quote plainForm s
  | .array vs => "[" ++ ",".intercalate (compactItems vs) ++ "]"
  | .object fields => "\x7b" ++ ",".intercalate (compactFields fields) ++ "\x7d"

/-- The items of an array. -/
def compactItems : List Json → List String
  | [] => []
  | v :: rest => compact v :: compactItems rest

/-- The fields of an object. -/
def compactFields : List (String × Json) → List String
  | [] => []
  | (k, v) :: rest => (quote plainForm k ++ ":" ++ compact v) :: compactFields rest

end

end BnfReader.Json
