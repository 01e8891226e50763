import BnfReader.Text.Quoted

/-! Grammars: terms, rules and documents.

A rule defines a name by one or more alternatives, each one or more terms; a term is a
literal or a reference to a rule by name. A document is one or more rules in order. Names
may be defined twice, and a reference need not have a definition.

The conditions are part of the types. The functions `Name.ofString`, `Rule.make` and
`Document.make` check them, and say what is wrong by an `Invalid`. -/
namespace BnfReader

/-- What a name is for. -/
inductive NameUse where
  | rule
  | reference
deriving DecidableEq

/-- What is wrong with the parts of a grammar. -/
inductive Invalid where
  | name (use : NameUse) (text : String)
  | emptyAlternative (rule : String)
  | noRules
deriving DecidableEq

/-- The words for a name's use. -/
def NameUse.words : NameUse → String
  | .rule => "rule"
  | .reference => "rule reference"

/-- The wording of what is wrong. -/
def Invalid.message : Invalid → String
  | .name use text => "Invalid " ++ use.words ++ " name: " ++ Text.quoted text
  | .emptyAlternative rule => "Rule <" ++ rule ++ "> needs at least one non-empty alternative"
  | .noRules => "A grammar document needs at least one rule"

/-! ### Names -/

/-- A character between two others in code point order. -/
def between (lo hi c : Char) : Bool := lo ≤ c && c ≤ hi

/-- Whether a text is a name: an ASCII letter, then ASCII letters, digits and dashes. -/
def isName (s : String) : Bool :=
  match s.toList with
  | [] => false
  | c :: cs => (between 'A' 'Z' c || between 'a' 'z' c) &&
      cs.all fun c => between 'A' 'Z' c || between 'a' 'z' c || between '0' '9' c || c == '-'

/-- The name of a rule. -/
structure Name where
  text : String
  valid : isName text = true
deriving DecidableEq

/-- The text as a name. -/
def Name.ofString (use : NameUse) (s : String) : Except Invalid Name :=
  if h : isName s = true then .ok ⟨s, h⟩ else .error (.name use s)

/-! ### Terms, rules and documents -/

/-- One item of an alternative. -/
inductive Term where
  /-- This text verbatim. -/
  | literal (text : String)
  /-- What the rule of this name describes. -/
  | ref (name : Name)
deriving DecidableEq

/-- The definition of a name. -/
structure Rule where
  name : Name
  alternatives : List (List Term)
  some_alternative : alternatives ≠ []
  some_term : ∀ terms ∈ alternatives, terms ≠ []
deriving DecidableEq

/-- A grammar. -/
structure Document where
  rules : List Rule
  some_rule : rules ≠ []
deriving DecidableEq

/-- The reference to a name. -/
def Term.refTo (name : String) : Except Invalid Term := (Name.ofString .reference name).map .ref

/-- The rule of a name and its alternatives; the name is checked first. -/
def Rule.make (name : String) (alternatives : List (List Term)) : Except Invalid Rule :=
  match Name.ofString .rule name with
  | .error e => .error e
  | .ok n =>
    if h : alternatives ≠ [] ∧ ∀ terms ∈ alternatives, terms ≠ [] then
      .ok ⟨n, alternatives, h.1, h.2⟩
    else .error (.emptyAlternative name)

/-- The document of some rules. -/
def Document.make (rules : List Rule) : Except Invalid Document :=
  if h : rules ≠ [] then .ok ⟨rules, h⟩ else .error .noRules

namespace Document

/-- The names that are defined, in order. -/
def names (d : Document) : List String := d.rules.map fun r => r.name.text

/-- The first definition of a name. -/
def find? (d : Document) (name : String) : Option Rule := d.rules.find? fun r => r.name.text == name

end Document
end BnfReader
