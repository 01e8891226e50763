import BnfReader.Grammar.Basic
import BnfReader.Parser.Failure

/-! The written form of grammars, layer by layer.

A document is rules on lines of their own; blank lines may stand between them and after the
last one. A rule is its name in angle brackets, `::=` and alternatives with bars between
them; an alternative is a run of terms. A literal stands between two double quotes or two
apostrophes and has no escapes; a reference is a name in angle brackets. Spaces and tabs may
stand around every part of a rule.

Each layer is a parser built from the ones above it, so each can be run on its own. -/
namespace BnfReader.Layers

/-- A parser whose conversions check the parts of a grammar. -/
abbrev Layer := Parser Invalid

/-! ### Characters -/

/-- The letters that names are made of. -/
def letters : List Char := "abcdefghijklmnopqrstuvwxyzABCDEFGHIJKLMNOPQRSTUVWXYZ".toList

/-- All characters that names are made of. -/
def nameChars : List Char := letters ++ "0123456789-".toList

def hspace : Layer Char := .satisfy (fun c => c == ' ' || c == '\t') "space"

/-- Blanks within a line. They are never reported as expected. -/
def spaces : Layer (List Char) := hspace.many.hidden

def newline : Layer Char := .satisfy (fun c => c == '\r' || c == '\n') "line break"

def whitespace : Layer Char :=
  .satisfy (fun c => c == ' ' || c == '\t' || c == '\r' || c == '\n') "whitespace"

/-- The end of a line, with the blank lines and the blanks behind it. -/
def lineEnd : Layer (List Char) := ((spaces *> newline).many1 <* whitespace.many).label "line break"

def nameChar : Layer Char := .satisfy nameChars.contains "name character"

def letter : Layer Char := .satisfy letters.contains "letter"

/-- A character of a literal in double quotes. -/
def doubleQuotedChar : Layer Char := .satisfy (· != '"') "any character except '\"'"

/-- A character of a literal in apostrophes. -/
def singleQuotedChar : Layer Char := .satisfy (· != '\'') "any character except \"'\""

/-! ### Literals and names -/

/-- The text between two quotes of one kind. -/
def between (quote : String) (inner : Layer Char) : Layer String :=
  (.char quote *> inner.many <* .char quote : Layer (List Char)).map String.ofList

def literal : Layer Term :=
  ((between "\"" doubleQuotedChar <|> between "'" singleQuotedChar).map Term.literal).label "literal"

def ruleName : Layer String :=
  ((letter.both nameChar.many).map fun (first, rest) => String.ofList (first :: rest)).label
    "rule name"

def ruleRef : Layer Term :=
  ((.char "<" *> ruleName <* .char ">" : Layer String).convert Term.refTo).label "rule reference"

/-! ### Alternatives -/

def term : Layer Term := literal <|> ruleRef

/-- One alternative. -/
def termList : Layer (List Term) := (spaces *> term).many1

/-- All alternatives of a rule. -/
def expression : Layer (List (List Term)) :=
  termList.sepBy1 (spaces *> (.char "|" : Layer Char) <* spaces)

/-! ### Rules and documents -/

/-- The name of a rule, up to its alternatives. -/
def ruleHead : Layer String :=
  spaces *> (.char "<" : Layer Char) *> ruleName <* (.char ">" : Layer Char) <* spaces <*
    (.string "::=" : Layer String) <* spaces

/-- A rule without the end of its line. -/
def ruleBody : Layer Rule :=
  (ruleHead.both (expression <* spaces)).convert fun (name, alternatives) =>
    Rule.make name alternatives

/-- A rule with the end of its line, if there is one. -/
def rule : Layer Rule := ruleBody <* lineEnd.optional []

/-- A whole document. -/
def document : Layer Document :=
  (ruleBody.sepBy1 lineEnd <* whitespace.many <* (.eof : Layer Unit)).convert Document.make

end BnfReader.Layers

namespace BnfReader

/-- The document that a text writes. -/
def Document.parse (text : String) : Except (Rejection Invalid) Document :=
  Layers.document.parse text

end BnfReader
