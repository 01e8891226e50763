import BnfReader.Text.Cells
import BnfReader.Text.Space

/-! Text in cells of a given width.

Lines are broken between words; a blank stays with the word before it. A word that is too
long for any line is folded over several lines or cut off, and a cut is marked by an
ellipsis. Characters that move the cursor are left out altogether, and a tab goes on to the
next multiple of eight. -/
namespace BnfReader.Layout
open Text (cellCount isSpace)

/-- The room that a text takes. -/
def width (cs : List Char) : Nat := cs.foldl (fun n c => n + cellCount c) 0

/-- Whether a character moves the cursor, apart from tab and line feed. -/
def movesCursor (c : Char) : Bool :=
  c.toNat == 7 || c.toNat == 8 || c.toNat == 11 || c.toNat == 12 || c.toNat == 13

/-- A text without the characters that move the cursor. -/
def clean (s : String) : List Char := s.toList.filter fun c => !movesCursor c

/-- A line from a column on, with its tabs as blanks. -/
def expandTabs : Nat → List Char → List Char
  | _, [] => []
  | column, c :: rest =>
    if c = '\t' then
      List.replicate (8 - column % 8) ' ' ++ expandTabs (column + (8 - column % 8)) rest
    else c :: expandTabs (column + cellCount c) rest

/-- The lines of a text, tabs as blanks. -/
def lines (cs : List Char) : List (List Char) := (cs.splitOn '\n').map (expandTabs 0)

/-! ### Breaking lines -/

/-- The words of a line, each with the blanks behind it and the first also with those before
it. -/
def words (cs : List Char) : List (List Char) :=
  let rec go : Nat → List Char → List (List Char)
    | 0, _ => []
    | fuel + 1, cs =>
      let front := cs.takeWhile isSpace
      match cs.dropWhile isSpace with
      | [] => []
      | rest =>
        let word := rest.takeWhile (!isSpace ·)
        let rest := rest.dropWhile (!isSpace ·)
        (front ++ word ++ rest.takeWhile isSpace) :: go fuel (rest.dropWhile isSpace)
  go cs.length cs

/-- The longest beginning of a line that fits into a width, and the rest. -/
def splitFit : Nat → List Char → List Char × List Char
  | _, [] => ([], [])
  | room, c :: rest =>
    if cellCount c ≤ room then
      let (front, back) := splitFit (room - cellCount c) rest
      (c :: front, back)
    else ([], c :: rest)

/-- A word in pieces that fit into a width. -/
def fold (room : Nat) (word : List Char) : List (List Char) :=
  let rec go : Nat → List Char → List (List Char)
    | 0, cs => [cs]
    | fuel + 1, cs =>
      match splitFit room cs with
      | (front, []) => [front]
      | (front, back) => if front.isEmpty then [back] else front :: go fuel back
  go word.length word

/-- What becomes of a word that is too long. -/
inductive Overflow where
  | fold
  | ellipsis
deriving DecidableEq

/-- Words put on lines: `line` is the line so far, `used` the room taken on it. -/
def arrange (overflow : Overflow) (room : Nat) :
    List Char → Nat → List (List Char) → List (List Char)
  | line, _, [] => [line]
  | line, used, word :: rest =>
    let needed := width (Text.trimSpaceEnd word)
    if used + needed ≤ room then arrange overflow room (line ++ word) (used + width word) rest
    else if needed ≤ room then line :: arrange overflow room word (width word) rest
    else
      let begun := if line.isEmpty then [] else [line]
      match overflow with
      | .ellipsis => begun ++ arrange overflow room word (width word) rest
      | .fold =>
        let pieces := fold room word
        let last := pieces.getLast?.getD []
        begun ++ pieces.dropLast ++ arrange overflow room last (width last) rest

/-- A line without as many blanks at its end as make it too long. -/
def dropExcess (room : Nat) (line : List Char) : List Char :=
  let blanks := line.length - (Text.trimSpaceEnd line).length
  line.take (line.length - min blanks (line.length - room))

/-- The lines of a text in a width. -/
def wrap (overflow : Overflow) (room : Nat) (cs : List Char) : List (List Char) :=
  ((lines cs).flatMap fun line =>
    match words line with
    | [] => [line]
    | ws => arrange overflow room [] 0 ws).map (dropExcess room)

/-- A text as it is printed on lines of any length; only blanks at the end of a line do not go
beyond the width. -/
def printed (room : Nat) (s : String) : String :=
  String.join ((lines (clean s)).map fun line => String.ofList (dropExcess room line) ++ "\n")

/-! ### Filling a width -/

/-- Where a line stands in its width. -/
inductive Align where
  | left
  | center
  | right
deriving DecidableEq

/-- A line cut to a width. -/
def cut (overflow : Overflow) (room : Nat) (line : List Char) : List Char :=
  if width line ≤ room then line
  else
    match overflow with
    | .ellipsis => (splitFit (room - 1) line).1 ++ ['…']
    | .fold => (splitFit room line).1

/-- Blanks. -/
def blanks (n : Nat) : List Char := List.replicate n ' '

/-- A line that fills its width. In the middle, an odd blank goes to the right. -/
def align (a : Align) (overflow : Overflow) (room : Nat) (line : List Char) : List Char :=
  match a with
  | .left =>
    let line := cut overflow room line
    line ++ blanks (room - width line)
  | .right =>
    let line := cut overflow room (Text.trimSpaceEnd line)
    blanks (room - width line) ++ line
  | .center =>
    let line := cut overflow room (Text.trimSpaceEnd line)
    let front := (room - width line) / 2
    blanks front ++ line ++ blanks (room - width line - front)

/-- A text in a block of full lines. -/
def block (a : Align) (overflow : Overflow) (room : Nat) (s : String) : List (List Char) :=
  (wrap overflow room (clean s)).map (align a overflow room)

/-- The room that the widest line of a text takes. -/
def naturalWidth (s : String) : Nat :=
  ((Text.splitLines (clean s)).map width).foldl max 0

end BnfReader.Layout
