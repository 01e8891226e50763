import BnfReader.Json.Basic
import BnfReader.Number.Shortest
import BnfReader.Text.Quoted

/-! Values as they are shown inside a message: strings in quotes, a blank behind each comma
and colon, and the words `None`, `True`, `False`, `inf` and `nan`. -/
namespace BnfReader.Json

mutual

/-- A value inside a message. -/
def shown : Json → String
  | .null => "None"
  | .bool b => if b then "True" else "False"
  | .int n => toString n
  | .real x => x.write "inf" "nan"
  | .string s => Text.quoted s
  | .array [] => "[]"
  | .array (v :: rest) => "[" ++ shown v ++ shownItems rest ++ "]"
  | .object [] => "\x7b\x7d"
  | .object ((k, v) :: rest) =>
    "\x7b" ++ Text.quoted k ++ ": " ++ shown v ++ shownFields rest ++ "\x7d"

/-- The items behind the first. -/
def shownItems : List Json → String
  | [] => ""
  | v :: rest => ", " ++ shown v ++ shownItems rest

/-- The fields behind the first. -/
def shownFields : List (String × Json) → String
  | [] => ""
  | (k, v) :: rest => ", " ++ Text.quoted k ++ ": " ++ shown v ++ shownFields rest

end

/-- A value as the text of a line: a string as it is, anything else as it is shown. -/
def plain : Json → String
  | .string s => s
  | v => v.shown

end BnfReader.Json
