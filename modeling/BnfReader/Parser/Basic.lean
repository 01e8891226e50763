import BnfReader.Text.Quoted

/-! Parsers as descriptions.

A `Parser ε α` describes how to read an `α` from a position of a text: primitives that
look at the text, ways to put parsers together, and two annotations (`label`, `hidden`)
that shape the explanation of a mismatch. What a description does is said separately, by
`Parser.run`; here are the descriptions, the usual ways to build them, and their names.

The type `ε` is for conversions that can refuse what was read. -/
namespace BnfReader

/-- A description of how to read an `α`. -/
inductive Parser (ε : Type) : Type → Type 1 where
  /-- One character that the predicate accepts. -/
  | satisfy (accepts : Char → Bool) (description : String) : Parser ε Char
  /-- Exactly this text. -/
  | string (s : String) : Parser ε String
  /-- The end of the text. -/
  | eof : Parser ε Unit
  /-- Two parsers one after the other. -/
  | both {α β : Type} (p : Parser ε α) (q : Parser ε β) : Parser ε (α × β)
  /-- A row of parsers one after the other. -/
  | all {α : Type} {n : Nat} (ps : Fin n → Parser ε α) : Parser ε (List α)
  /-- The first parser of a row that matches. -/
  | firstOf {α : Type} {n : Nat} (ps : Fin n → Parser ε α) : Parser ε α
  /-- As many repetitions as there are, perhaps none. -/
  | many {α : Type} (p : Parser ε α) : Parser ε (List α)
  /-- As many repetitions as there are, at least one. -/
  | many1 {α : Type} (p : Parser ε α) : Parser ε (List α)
  /-- The parser, or a default where it does not match. -/
  | optional {α : Type} (p : Parser ε α) (default : α) : Parser ε α
  /-- The parser, its value converted or refused. -/
  | convert {α β : Type} (p : Parser ε α) (f : α → Except ε β) : Parser ε β
  /-- The parser, expected under one description where it does not even begin to match. -/
  | label {α : Type} (p : Parser ε α) (description : String) : Parser ε α
  /-- The parser, leaving no hint where it matches. -/
  | hidden {α : Type} (p : Parser ε α) : Parser ε α

namespace Parser
variable {ε α β : Type}

/-! ### Ways to build parsers -/

/-- The one-character text `c`; a text of any other length matches nothing. -/
def char (c : String) : Parser ε Char := .satisfy (fun x => String.singleton x == c) (Text.quoted c)

/-- The parser, its value mapped. -/
def map (p : Parser ε α) (f : α → β) : Parser ε β := p.convert fun a => .ok (f a)

/-- The parsers of a list one after the other. -/
def sequence (ps : List (Parser ε α)) : Parser ε (List α) := .all fun i : Fin ps.length => ps[i]

/-- The first parser of a list that matches. -/
def choice (ps : List (Parser ε α)) : Parser ε α := .firstOf fun i : Fin ps.length => ps[i]

/-- Either parser, the first one preferred. -/
def or (p q : Parser ε α) : Parser ε α := choice [p, q]

/-- Both parsers, keeping the second value. -/
def right (p : Parser ε α) (q : Parser ε β) : Parser ε β := (p.both q).map Prod.snd

/-- Both parsers, keeping the first value. -/
def left (p : Parser ε α) (q : Parser ε β) : Parser ε α := (p.both q).map Prod.fst

instance : OrElse (Parser ε α) := ⟨fun p q => p.or (q ())⟩
instance : SeqRight (Parser ε) := ⟨fun p q => p.right (q ())⟩
instance : SeqLeft (Parser ε) := ⟨fun p q => p.left (q ())⟩

/-- One or more items with separators between them, the separators dropped. -/
def sepBy1 (p : Parser ε α) (separator : Parser ε β) : Parser ε (List α) :=
  (p.both (separator *> p).many).map fun (first, rest) => first :: rest

/-! ### Names -/

/-- A parser whose description is empty is called `run`. -/
def nameOr (s : String) : String := if s = "" then "run" else s

/-- What a parser is called. -/
def name {α : Type} : Parser ε α → String
  | .satisfy _ description => nameOr description
  | .string s => Text.quoted s
  | .eof => "end of input"
  | .both p q => p.name ++ " " ++ q.name
  | .all ps => nameOr (" ".intercalate (List.ofFn fun i => (ps i).name))
  | .firstOf ps => nameOr (" | ".intercalate (List.ofFn fun i => (ps i).name))
  | .many p => p.name ++ "*"
  | .many1 p => p.name ++ "+"
  | .optional p _ => p.name ++ "?"
  | .convert p _ => p.name
  | .label _ description => nameOr description
  | .hidden p => p.name

/-- A parser as it is displayed. -/
def display (p : Parser ε α) : String := "<Parser " ++ p.name ++ ">"

end Parser
end BnfReader
