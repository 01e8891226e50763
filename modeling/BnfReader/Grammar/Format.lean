import BnfReader.Grammar.Basic
import BnfReader.Json.Shown

/-! Writing grammars: one rule per line, one blank between terms, a bar between alternatives.

A literal is put between double quotes, or between apostrophes if it has a double quote. One
that has both cannot be written. -/
namespace BnfReader

/-- Why something cannot be written. -/
inductive Unwritable where
  /-- A literal has both kinds of quotes. -/
  | bothQuotes (text : String)
  /-- The value is no term at all. -/
  | notATerm (value : Json)

/-- The wording of the reason. -/
def Unwritable.message : Unwritable → String
  | .bothQuotes text => "Literal contains both quote characters: " ++ Text.quoted text
  | .notATerm value => "Not a grammar term: " ++ value.shown

/-- A term as it is written. -/
def Term.format : Term → Except Unwritable String
  | .ref name => .ok ("<" ++ name.text ++ ">")
  | .literal text =>
    if '"' ∉ text.toList then .ok ("\"" ++ text ++ "\"")
    else if '\'' ∉ text.toList then .ok ("'" ++ text ++ "'")
    else .error (.bothQuotes text)

/-- An alternative as it is written. -/
def formatSequence (terms : List Term) : Except Unwritable String :=
  (terms.mapM Term.format).map (" ".intercalate ·)

/-- A rule as it is written. -/
def Rule.format (r : Rule) : Except Unwritable String :=
  (r.alternatives.mapM formatSequence).map fun alternatives =>
    "<" ++ r.name.text ++ "> ::= " ++ " | ".intercalate alternatives

/-- A document as it is written. -/
def Document.format (d : Document) : Except Unwritable String :=
  (d.rules.mapM Rule.format).map fun lines => "\n".intercalate lines ++ "\n"

/-- A bare value in the place of a term cannot be written. -/
def Json.formatAsTerm (v : Json) : Except Unwritable String := .error (.notATerm v)

end BnfReader
