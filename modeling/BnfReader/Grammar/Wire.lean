import BnfReader.Grammar.Basic
import BnfReader.Json.Shown
import BnfReader.Parser.Failure

/-! Grammars and failure reports as JSON.

A term is an object with its `type` and either a `text` or a `name`; a rule has its `name`
and `alternatives`, a document its `rules`. Reading ignores other fields. It takes the
parts in a fixed order, so that of two faults the one that comes first is reported: in a
rule all terms before the name, and the number of alternatives last.

A list may also be given as a string or as an object, which stand for their characters and
their names; such items are strings, which are neither rules nor terms. -/
namespace BnfReader

/-- Why a JSON value is no grammar. -/
inductive WireError where
  /-- A field is missing. -/
  | missing (key : String)
  /-- A term has a type that does not exist. -/
  | unknownType (type : Json)
  /-- A term is no object. -/
  | notAnObject
  /-- A value is of the wrong kind. -/
  | wrongKind
  /-- The parts do not make a grammar. -/
  | invalid (cause : Invalid)

/-- The wording of the reasons that have one. -/
def WireError.message? : WireError → Option String
  | .missing key => some (Text.quoted key)
  | .unknownType type => some ("Unknown term type: " ++ type.shown)
  | .notAnObject => none
  | .wrongKind => none
  | .invalid cause => some cause.message

namespace Json

/-- A field that has to be there. -/
def field (fields : Fields) (key : String) : Except WireError Json :=
  match Fields.get? fields key with
  | some v => .ok v
  | none => .error (.missing key)

/-- The fields of an object. -/
def fields : Json → Except WireError Fields
  | .object fs => .ok fs
  | _ => .error .wrongKind

/-- The text of a string. -/
def text : Json → Except WireError String
  | .string s => .ok s
  | _ => .error .wrongKind

/-- The items of a list. -/
def items : Json → Except WireError (List Json)
  | .array vs => .ok vs
  | .string s => .ok (s.toList.map fun c => .string (String.singleton c))
  | .object fs => .ok (fs.map fun (k, _) => .string k)
  | _ => .error .wrongKind

end Json

/-- A grammar's own reasons among those of reading. -/
def checked {α : Type} (r : Except Invalid α) : Except WireError α := r.mapError .invalid

namespace Term

def toJson : Term → Json
  | .literal text => .object [("type", .string "literal"), ("text", .string text)]
  | .ref name => .object [("type", .string "rule_ref"), ("name", .string name.text)]

def ofJson : Json → Except WireError Term
  | .object fs =>
    match Fields.get? fs "type" with
    | some (.string "literal") => do
      let v ← Json.field fs "text"
      return .literal (← v.text)
    | some (.string "rule_ref") => do
      let v ← Json.field fs "name"
      checked (refTo (← v.text))
    | some type => .error (.unknownType type)
    | none => .error (.unknownType .null)
  | _ => .error .notAnObject

end Term

namespace Rule

def toJson (r : Rule) : Json :=
  .object [("name", .string r.name.text),
    ("alternatives", .array (r.alternatives.map fun terms => .array (terms.map Term.toJson)))]

def ofJson (v : Json) : Except WireError Rule := do
  let fs ← v.fields
  let listed ← Json.field fs "alternatives"
  let alternatives ← (← listed.items).mapM fun terms => do (← terms.items).mapM Term.ofJson
  let name ← Json.field fs "name"
  checked (make (← name.text) alternatives)

end Rule

namespace Document

def toJson (d : Document) : Json := .object [("rules", .array (d.rules.map Rule.toJson))]

def ofJson (v : Json) : Except WireError Document := do
  let fs ← v.fields
  let listed ← Json.field fs "rules"
  checked (make (← (← listed.items).mapM Rule.ofJson))

end Document

/-- A failure report as JSON. -/
def Failure.toJson (f : Failure) : Json :=
  .object [("offset", .int f.offset), ("line", .int f.line), ("column", .int f.column),
    ("expected", .array (f.expected.map .string)),
    ("found", match f.found with | none => .null | some s => .string s),
    ("message", .string f.message)]

end BnfReader
