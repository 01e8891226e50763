import BnfReader.Command.Parameter
import BnfReader.Text.Quoted
import BnfReader.Text.Space

/-! Styled text.

A tag is a pair of square brackets around a word that begins with a small letter or one of
`#`, `/` and `@`; it sets a style and prints nothing. Backslashes before a tag come in pairs
that print as one each, and one left over makes the brackets plain text. A backslash before
any other opening bracket is not printed.

`escape` keeps the brackets of a given text from being tags. -/
namespace BnfReader.Markup

/-- A part of a styled text. -/
inductive Piece where
  | text (cs : List Char)
  /-- A tag with the number of backslashes before it and the offset of its bracket. -/
  | tag (backslashes position : Nat) (word : List Char)

/-- Whether the word of a tag can begin so. -/
def opensTag (c : Char) : Bool := ('a' ≤ c && c ≤ 'z') || c == '#' || c == '/' || c == '@'

/-- Whether a character can stand in the word of a tag. -/
def inTag (c : Char) : Bool := c != '[' && c != ']'

/-- The word of the tag that a text begins with, and what is behind the tag. -/
def tag? (cs : List Char) : Option (List Char × { rest : List Char // rest.length < cs.length }) :=
  match cs with
  | '[' :: c :: more =>
    if opensTag c then
      match h : more.dropWhile inTag with
      | ']' :: rest =>
        have : rest.length < (more.dropWhile inTag).length := by simp [h]
        have : (more.dropWhile inTag).length ≤ more.length := (List.dropWhile_suffix _).length_le
        some (c :: more.takeWhile inTag, ⟨rest, by simp only [List.length_cons]; omega⟩)
      | _ => none
    else none
  | _ => none

/-- The pieces of a styled text of `size` characters behind the plain text `seen`, last first,
and a number of backslashes. -/
def piecesFrom (size : Nat) (seen : List Char) (backslashes : Nat) (cs : List Char) : List Piece :=
  let pending := List.replicate backslashes '\\' ++ seen
  match tag? cs with
  | some (word, ⟨rest, _⟩) =>
    .text seen.reverse :: .tag backslashes (size - cs.length) word :: piecesFrom size [] 0 rest
  | none =>
    match cs with
    | [] => [.text pending.reverse]
    | '\\' :: rest => piecesFrom size seen (backslashes + 1) rest
    | c :: rest => piecesFrom size (c :: pending) 0 rest
termination_by cs.length

/-- The pieces of a styled text. -/
def pieces (s : String) : List Piece := piecesFrom s.length [] 0 s.toList

/-- A tag in brackets. -/
def bracketed (word : List Char) : List Char := '[' :: word ++ [']']

/-! ### Escaping -/

/-- A piece with its tag made plain. -/
def Piece.escaped : Piece → List Char
  | .text cs => cs
  | .tag n _ word => List.replicate (2 * n + 1) '\\' ++ bracketed word

/-- A text to stand inside a styled one. A single backslash at its end is doubled, so that it
does not change a tag that follows. -/
def escape (s : String) : String :=
  let cs := (pieces s).flatMap Piece.escaped
  let single := (cs.reverse.takeWhile (· == '\\')).length = 1
  String.ofList (if single then cs ++ ['\\'] else cs)

/-! ### Tags

A tag is a name and, behind an equals sign, a parameter. One that begins with a slash ends the
style of that name, or the last one begun if the name is empty; any other begins a style. The
name of a style is the same in either case and order of its words. -/

/-- A tag. -/
structure Tag where
  name : List Char
  parameter : Option (List Char)

/-- Why a styled text cannot be printed. -/
inductive MarkupError where
  /-- A tag ends a style that was not begun. -/
  | notBegun (tag : Tag) (position : Nat)
  /-- A tag ends a style where none was begun. -/
  | nothingBegun (position : Nat)
  /-- The parameter of a tag cannot be read. -/
  | parameter (given : List Char) (problem : String)

/-- The tag of a word. -/
def Tag.ofWord (word : List Char) : Tag :=
  match word.span (· != '=') with
  | (name, _ :: parameter) => ⟨name, some parameter⟩
  | (name, []) => ⟨name, none⟩

/-- A tag as it was written. -/
def Tag.shown (t : Tag) : String :=
  String.ofList (bracketed (match t.parameter with
    | some parameter => t.name ++ '=' :: parameter
    | none => t.name))

/-- The wording of an error. -/
def MarkupError.message : MarkupError → String
  | .notBegun tag position =>
    "closing tag '" ++ tag.shown ++ "' at position " ++ toString position ++
      " doesn't match any open tag"
  | .nothingBegun position =>
    "closing tag '[/]' at position " ++ toString position ++ " has nothing to close"
  | .parameter given problem =>
    "error parsing " ++ Text.quoted (String.ofList (Text.trimSpace given)) ++ " in " ++
      Text.quoted (String.ofList given) ++ "; " ++ problem

/-- The words that a style can be written with here, each with the word it stands for. -/
def styleWords : List (String × String) :=
  [("bold", "bold"), ("b", "bold"), ("red", "red"), ("green", "green")]

/-- A style's name in its usual form: attributes before colours and the last colour only. -/
def styleName (name : List Char) : List String :=
  let words := ((name.map Char.toLower).splitBy fun a b => Text.isSpace a == Text.isSpace b).filter
    fun w => !w.any Text.isSpace
  match words.mapM fun w => styleWords.lookup (String.ofList w) with
  | none => words.map String.ofList
  | some known =>
    (known.filter (· == "bold")).take 1 ++ ((known.filter (· != "bold")).reverse.take 1)

/-- A style's parameter checked where the style ends. Only styles that begin with `@` have one
that is read. -/
def Tag.checkParameter (t : Tag) : Except MarkupError Unit :=
  match t.name, t.parameter with
  | '@' :: _, some (c :: cs) =>
    match Parameter.problem? (Text.trimSpace (c :: cs)) with
    | some problem => .error (.parameter (c :: cs) problem)
    | none => .ok ()
  | _, _ => .ok ()

/-- The styles left when one ends; those begun last come first. -/
def endStyle (begun : List Tag) (tag : Tag) (position : Nat) : Except MarkupError (List Tag) :=
  match styleName tag.name.tail with
  | [] =>
    match begun with
    | [] => .error (.nothingBegun position)
    | last :: others => do
      last.checkParameter
      return others
  | name =>
    match begun.span fun t => styleName t.name ≠ name with
    | (_, []) => .error (.notBegun tag position)
    | (inner, last :: others) => do
      last.checkParameter
      return inner ++ others

/-! ### Printing -/

/-- A plain text without the backslashes before opening brackets. -/
def unescaped : List Char → List Char
  | '\\' :: '[' :: rest => '[' :: unescaped rest
  | c :: rest => c :: unescaped rest
  | [] => []

/-- The text of pieces when some styles are begun. -/
def printFrom : List Tag → List Piece → Except MarkupError (List Char)
  | _, [] => .ok []
  | begun, .text cs :: rest => do return unescaped cs ++ (← printFrom begun rest)
  | begun, .tag n position word :: rest => do
    let pairs := List.replicate (n / 2) '\\'
    if n % 2 = 1 then return pairs ++ bracketed word ++ (← printFrom begun rest)
    else
      let tag := Tag.ofWord word
      let begun ← if tag.name.head? = some '/' then endStyle begun tag position
        else .ok (tag :: begun)
      return pairs ++ (← printFrom begun rest)

/-- A styled text as it is printed. -/
def plain (s : String) : Except MarkupError String :=
  (printFrom [] (pieces s)).map String.ofList

/-- A text in a style, until the next tag that ends one. -/
def styled (style text : String) : String := "[" ++ style ++ "]" ++ text ++ "[/]"

end BnfReader.Markup
