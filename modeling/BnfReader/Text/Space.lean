/-! Blank characters and line ends, of all scripts. -/
namespace BnfReader.Text

/-- Whether a character is blank. -/
def isSpace (c : Char) : Bool :=
  let n := c.toNat
  (0x09 ≤ n && n ≤ 0x0D) || (0x1C ≤ n && n ≤ 0x20) || n == 0x85 || n == 0xA0 || n == 0x1680 ||
    (0x2000 ≤ n && n ≤ 0x200A) || n == 0x2028 || n == 0x2029 || n == 0x202F || n == 0x205F ||
    n == 0x3000

/-- Whether a character ends a line wherever it stands. -/
def isLineEnd (c : Char) : Bool :=
  let n := c.toNat
  (0x0A ≤ n && n ≤ 0x0D) || (0x1C ≤ n && n ≤ 0x1E) || n == 0x85 || n == 0x2028 || n == 0x2029

/-- A text without the blanks at its end. -/
def trimSpaceEnd (cs : List Char) : List Char := (cs.reverse.dropWhile isSpace).reverse

/-- A text without the blanks at its two ends. -/
def trimSpace (cs : List Char) : List Char := trimSpaceEnd (cs.dropWhile isSpace)

/-- The lines of a text behind the beginning `line` of the first, last character first. -/
def splitLinesFrom (line : List Char) : List Char → List (List Char)
  | [] => if line.isEmpty then [] else [line.reverse]
  | '\r' :: '\n' :: rest => line.reverse :: splitLinesFrom [] rest
  | c :: rest =>
    if isLineEnd c then line.reverse :: splitLinesFrom [] rest else splitLinesFrom (c :: line) rest

/-- The lines of a text without what ends them. A carriage return and a line feed end one line
together, and nothing behind the last end is no line. -/
def splitLines (cs : List Char) : List (List Char) := splitLinesFrom [] cs

end BnfReader.Text
