import BnfReader.Json.Basic

/-! Declared forms of answers.

A form says of what kind a value is: a text, a whole number, a list, an object with declared
fields, or one of two kinds. A framework puts an answer into its form before it is sent. Here are
the forms of the service's answers, and the usual way to put a value into a form: declared fields
stay, in the order of their declaration, fields that are not given get their defaults, and others
are dropped. A value that lacks a field without a default, or that is of the wrong kind somewhere,
does not fit. Of two kinds the first is taken that the value fits. -/
namespace BnfReader

mutual

/-- A form. -/
inductive Form where
  | text
  | whole
  | orNull (form : Form)
  | list (form : Form)
  | either (first second : Form)
  | record (fields : List FormField)

/-- A declared field. -/
structure FormField where
  name : String
  form : Form
  default? : Option Json

end

namespace FormField

/-- A field that has to be given. -/
def required (name : String) (form : Form) : FormField := ⟨name, form, none⟩

/-- A field with a default. -/
def optional (name : String) (form : Form) (default : Json) : FormField := ⟨name, form, some default⟩

end FormField

namespace Form

/-! ### Fitting -/

mutual

/-- A value as the form lets it through, if it fits. -/
def fit : Form → Json → Option Json
  | .text, .string s => some (.string s)
  | .whole, .int n => some (.int n)
  | .orNull _, .null => some .null
  | .orNull form, v => fit form v
  | .list form, .array vs => (vs.mapM fun v => fit form v).map .array
  | .either first second, v => fit first v <|> fit second v
  | .record fields, .object given => (fitFields fields given).map .object
  | _, _ => none

/-- The declared fields, given all the fields there are. -/
def fitFields : List FormField → Fields → Option Fields
  | [], _ => some []
  | field :: rest, given => do
    let v ← fitField field given
    return (field.name, v) :: (← fitFields rest given)

/-- The value of a field. -/
def fitField : FormField → Fields → Option Json
  | ⟨name, form, default?⟩, given =>
    match given.get? name with
    | some v => fit form v
    | none => default?

end

/-! ### Grammars -/

/-- A literal. -/
def literalTerm : Form :=
  .record [.optional "type" .text (.string "literal"), .required "text" .text]

/-- A reference to a rule. -/
def refTerm : Form :=
  .record [.optional "type" .text (.string "rule_ref"), .required "name" .text]

def rule : Form :=
  .record [.required "name" .text,
    .required "alternatives" (.list (.list (.either literalTerm refTerm)))]

/-- A grammar that was read. -/
def grammar : Form := .record [.required "rules" (.list rule)]

/-! ### Failures -/

/-- The place of a failure and what was expected there. -/
def failure : Form :=
  .record [.required "offset" .whole, .required "line" .whole, .required "column" .whole,
    .required "expected" (.list .text), .optional "found" (.orNull .text) .null,
    .required "message" .text]

/-- A grammar that was rejected. -/
def rejection : Form := .record [.required "error" .text, .required "failure" failure]

end Form
end BnfReader
