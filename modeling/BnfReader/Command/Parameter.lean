import BnfReader.Text.Hex
import BnfReader.Text.Printable

/-! Parameters of tags.

A parameter is quoted text: one or more texts between quotes, blanks between them, each with
an optional prefix of one or two letters. A text may also stand between three quotes of a
kind and then go over several lines. What stands outside of quotes is looked at only as far
as it takes to say what is wrong. -/
namespace BnfReader.Parameter

/-- Where a reader is. -/
inductive Place where
  | outside
  | comment
  | inside (quote : Char) (triple : Bool)

/-- What was seen outside of quotes, last first, with one double quote for each quoted text,
and the brackets that are open. -/
structure Seen where
  outside : List Char := []
  brackets : List Char := []

/-- The wording for quotes that are never closed. -/
def unterminated (triple : Bool) (line : Nat) : String :=
  "unterminated " ++ (if triple then "triple-quoted " else "") ++
    "string literal (detected at line " ++ toString line ++ ")"

/-- The bracket that a closing one goes with. -/
def opening? : Char → Option Char
  | ')' => some '('
  | ']' => some '['
  | '}' => some '{'
  | _ => none

/-- Whether a character may not stand outside of quotes because it cannot be shown. -/
def isHidden (c : Char) : Bool :=
  !Text.isPrintable c && c != '\t' && c != '\n' && c != '\x0c' && c != '\r'

/-- A character outside of quotes seen. -/
def Seen.add (s : Seen) (c : Char) : Except String Seen :=
  if isHidden c then
    let digits := (Text.Hex.padded (if c.toNat < 0x10000 then 4 else 6) c.toNat).map Char.toUpper
    .error ("invalid non-printable character U+" ++ String.ofList digits)
  else if c = '(' ∨ c = '[' ∨ c = '{' then .ok ⟨c :: s.outside, c :: s.brackets⟩
  else
    match opening? c, s.brackets with
    | none, _ => .ok { s with outside := c :: s.outside }
    | some _, [] => .error ("unmatched '" ++ String.singleton c ++ "'")
    | some o, top :: below =>
      if o = top then .ok ⟨c :: s.outside, below⟩
      else .error ("closing parenthesis '" ++ String.singleton c ++
        "' does not match opening parenthesis '" ++ String.singleton top ++ "'")

/-- Whether a character is a quote. -/
def isQuote (c : Char) : Bool := c == '"' || c == '\''

/-- A text read from a line on. -/
def readFrom (line : Nat) (seen : Seen) : Place → List Char → Except String Seen
  | .outside, [] => .ok seen
  | .comment, [] => .ok seen
  | .inside _ triple, [] => .error (unterminated triple line)
  | .comment, c :: rest =>
    if c = '\n' then readFrom (line + 1) seen .outside rest else readFrom line seen .comment rest
  | .outside, a :: b :: c :: rest =>
    if isQuote a ∧ a = b ∧ b = c then readFrom line seen (.inside a true) rest
    else if isQuote a then readFrom line seen (.inside a false) (b :: c :: rest)
    else if a = '#' then readFrom line seen .comment (b :: c :: rest)
    else if a = '\\' ∧ b ≠ '\n' then
      .error "unexpected character after line continuation character"
    else do readFrom (if a = '\n' then line + 1 else line) (← seen.add a) .outside (b :: c :: rest)
  | .outside, a :: rest =>
    if isQuote a then readFrom line seen (.inside a false) rest
    else if a = '#' then readFrom line seen .comment rest
    else if a = '\\' then .error "unexpected character after line continuation character"
    else do readFrom (if a = '\n' then line + 1 else line) (← seen.add a) .outside rest
  | .inside q triple, '\\' :: c :: rest =>
    readFrom (if c = '\n' then line + 1 else line) seen (.inside q triple) rest
  | .inside q true, a :: b :: c :: rest =>
    if a = q ∧ b = q ∧ c = q then
      readFrom line { seen with outside := '"' :: seen.outside } .outside rest
    else readFrom (if a = '\n' then line + 1 else line) seen (.inside q true) (b :: c :: rest)
  | .inside q true, _ :: rest => readFrom line seen (.inside q true) rest
  | .inside q false, a :: rest =>
    if a = q then readFrom line { seen with outside := '"' :: seen.outside } .outside rest
    else if a = '\n' then .error (unterminated false line)
    else readFrom line seen (.inside q false) rest
termination_by _ cs => cs.length

/-- The letters that may stand before a quoted text. -/
def prefixes : List (List Char) := [['b'], ['u'], ['r'], ['b', 'r'], ['r', 'b']]

/-- Whether what was seen outside of quotes is nothing but prefixes, one to a text. -/
def isQuoted (outside : List Char) : Bool :=
  let words := (outside.splitOn '"').map fun w => w.dropWhile fun c => c == ' ' || c == '\t'
  1 < words.length && (words.getLast?.getD []).isEmpty && words.dropLast.all fun w =>
    w.isEmpty || prefixes.contains (w.map Char.toLower)

/-- What is wrong with a parameter. -/
def problem? (cs : List Char) : Option String :=
  match readFrom 1 {} .outside cs with
  | .error problem => some problem
  | .ok seen =>
    match seen.brackets with
    | top :: _ => some ("'" ++ String.singleton top ++ "' was never closed")
    | [] => if isQuoted seen.outside.reverse then none else some "invalid syntax"

end BnfReader.Parameter
