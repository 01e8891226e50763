import BnfReader.Json.Basic
import BnfReader.Text.Hex
import BnfReader.Text.Numeral

/-! Reading JSON text.

The text is read from left to right; what is left of it is the state. An error is noted
with the number of characters left where it was seen, and becomes a line, a column and an
offset at the end. Besides the values of the standard the words `NaN`, `Infinity` and
`-Infinity` are read; of a name that stands twice in an object the last value counts.

Containers may stand in each other up to a depth that is given. A value and the row of items it
opens take a character each, so twice the number of characters bounds the calls of the three
functions that read values; it is their `fuel`.

A text here is made of characters, so it cannot hold half of a pair of code units, and a text that
escapes one is not read (`Interruption.unpaired`). Any other problem goes before that, also one
further on: to see whether there is one the text is read again, with a character that stands for
each such half. -/
namespace BnfReader.Json

/-- What can be wrong with a text. -/
inductive Problem where
  | value
  | propertyName
  | colon
  | comma
  | extraData
  | unterminated
  | controlCharacter
  | escape
  | unicodeEscape
  | byteOrderMark
deriving DecidableEq

/-- The wording of a problem. -/
def Problem.text : Problem → String
  | .value => "Expecting value"
  | .propertyName => "Expecting property name enclosed in double quotes"
  | .colon => "Expecting ':' delimiter"
  | .comma => "Expecting ',' delimiter"
  | .extraData => "Extra data"
  | .unterminated => "Unterminated string starting at"
  | .controlCharacter => "Invalid control character at"
  | .escape => "Invalid \\escape"
  | .unicodeEscape => "Invalid \\uXXXX escape"
  | .byteOrderMark => "Unexpected UTF-8 BOM (decode using utf-8-sig)"

/-- What values can be nested in. -/
inductive Container where
  | array
  | object
deriving DecidableEq

/-- The name of a container in a message. -/
def Container.text : Container → String
  | .array => "array"
  | .object => "object"

/-- Why reading stopped: a problem with so many characters left, a whole number with more
digits than are taken, a container in too many others, or half of a pair of code units. -/
inductive Interruption where
  | malformed (what : Problem) (left : Nat)
  | tooManyDigits (count : Nat)
  | tooDeep (container : Container)
  | unpaired
deriving DecidableEq

/-- A value read from the front of the text, and the rest. -/
abbrev Read (α : Type) := Except Interruption (α × List Char)

/-- Stop where `cs` is what is left. -/
def stopAt {α : Type} (what : Problem) (cs : List Char) : Except Interruption α :=
  .error (.malformed what cs.length)

/-- The rest of the text behind blanks. -/
def skip (cs : List Char) : List Char :=
  cs.dropWhile fun c => c == ' ' || c == '\t' || c == '\n' || c == '\r'

/-! ### Strings -/

/-- The character that stands for half of a pair when a text is read again. -/
def replacement : Char := '\uFFFD'

/-- The character behind an escape of one letter. -/
def shortEscape? : Char → Option Char
  | '"' => some '"'
  | '\\' => some '\\'
  | '/' => some '/'
  | 'b' => some '\x08'
  | 'f' => some '\x0c'
  | 'n' => some '\n'
  | 'r' => some '\r'
  | 't' => some '\t'
  | _ => none

/-- Whether a code unit is the first of a pair. -/
def isHighUnit (n : Nat) : Bool := 0xD800 ≤ n && n ≤ 0xDBFF

/-- Whether a code unit is the second of a pair. -/
def isLowUnit (n : Nat) : Bool := 0xDC00 ≤ n && n ≤ 0xDFFF

/-- The code point of a pair of units. -/
def joinUnits (high low : Nat) : Nat := 0x10000 + (high - 0xD800) * 0x400 + (low - 0xDC00)

/-- Half of a pair: what stands for it, if anything does. -/
def halfPair (lone : Option Char) (rest : List Char) : Read Char :=
  match lone with
  | some c => .ok (c, rest)
  | none => .error .unpaired

/-- The character of an escape by number, from behind its `u`. The four digits have to be
followed by at least one character, since the string is still open. -/
def unicodeEscape (lone : Option Char) (cs : List Char) : Read Char :=
  match cs with
  | a :: b :: c :: d :: e :: rest =>
    match Text.Hex.number? [a, b, c, d] with
    | none => stopAt .unicodeEscape ('u' :: cs)
    | some n =>
      if isHighUnit n then
        match e :: rest with
        | '\\' :: 'u' :: a :: b :: c :: d :: e' :: rest' =>
          match Text.Hex.number? [a, b, c, d] with
          | none => stopAt .unicodeEscape ('u' :: a :: b :: c :: d :: e' :: rest')
          | some m =>
            if isLowUnit m then .ok (Char.ofNat (joinUnits n m), e' :: rest')
            else halfPair lone (e :: rest)
        | _ => halfPair lone (e :: rest)
      else if isLowUnit n then halfPair lone (e :: rest)
      else .ok (Char.ofNat n, e :: rest)
  | _ => stopAt .unicodeEscape ('u' :: cs)

/-- The rest of a string behind the characters `seen`, last first. The string began at
`start`. -/
def stringFrom (lone : Option Char) (start : List Char) : Nat → List Char → List Char → Read String
  | 0, _, _ => stopAt .unterminated start
  | _ + 1, _, [] => stopAt .unterminated start
  | fuel + 1, seen, c :: rest =>
    if c = '"' then .ok (String.ofList seen.reverse, rest)
    else if c = '\\' then
      match rest with
      | [] => stopAt .unterminated start
      | e :: rest' =>
        if e = 'u' then
          match unicodeEscape lone rest' with
          | .ok (x, rest) => stringFrom lone start fuel (x :: seen) rest
          | .error i => .error i
        else
          match shortEscape? e with
          | some x => stringFrom lone start fuel (x :: seen) rest'
          | none => stopAt .escape (c :: rest)
    else if c.toNat < 0x20 then stopAt .controlCharacter (c :: rest)
    else stringFrom lone start fuel (c :: seen) rest

/-- The string whose opening quote was just read. -/
def stringBody (lone : Option Char) (cs : List Char) : Read String :=
  stringFrom lone ('"' :: cs) (cs.length + 1) [] cs

/-! ### Numbers -/

/-- The digits at the front of a text, and the rest. -/
def digitRun (cs : List Char) : List Char × List Char := cs.span Char.isDigit

/-- The value of a run of digits. -/
def digitsValue (ds : List Char) : Nat := Text.ofDigits (ds.map fun c => c.toNat - 48)

/-- The whole part: a zero alone, or digits that begin with another. -/
def wholePart? (cs : List Char) : Option (List Char × List Char) :=
  match cs with
  | '0' :: rest => some (['0'], rest)
  | c :: _ => if c.isDigit then some (digitRun cs) else none
  | [] => none

/-- The digits behind a point, if there are any. -/
def fractionPart (cs : List Char) : List Char × List Char :=
  match cs with
  | '.' :: rest =>
    match digitRun rest with
    | ([], _) => ([], cs)
    | (ds, rest) => (ds, rest)
  | _ => ([], cs)

/-- The digits of an exponent, given its sign. -/
def exponentDigits? (negative : Bool) (cs : List Char) : Option (Int × List Char) :=
  match digitRun cs with
  | ([], _) => none
  | (ds, rest) => some (if negative then -(digitsValue ds : Int) else digitsValue ds, rest)

/-- The exponent, if there is a full one. -/
def exponentPart? (cs : List Char) : Option (Int × List Char) :=
  match cs with
  | c :: rest =>
    if c = 'e' ∨ c = 'E' then
      match rest with
      | '-' :: rest => exponentDigits? true rest
      | '+' :: rest => exponentDigits? false rest
      | _ => exponentDigits? false rest
    else none
  | [] => none

/-- A number: with a fraction or an exponent a floating-point one, else a whole one. -/
def number (cs : List Char) : Read Json :=
  let (negative, body) := match cs with
    | '-' :: rest => (true, rest)
    | _ => (false, cs)
  match wholePart? body with
  | none => stopAt .value cs
  | some (whole, rest) =>
    let (fraction, rest) := fractionPart rest
    match exponentPart? rest, fraction with
    | none, [] =>
      if whole.length ≤ Text.maxDigits then
        let n : Int := digitsValue whole
        .ok (.int (if negative then -n else n), rest)
      else .error (.tooManyDigits whole.length)
    | none, _ =>
      .ok (.real (.ofDecimal negative (digitsValue (whole ++ fraction)) (-(fraction.length : Int))),
        rest)
    | some (exponent, rest), _ =>
      .ok (.real (.ofDecimal negative (digitsValue (whole ++ fraction))
        (exponent - fraction.length)), rest)

/-! ### Values -/

/-- The text without a word at its front. -/
def dropWord? : List Char → List Char → Option (List Char)
  | [], cs => some cs
  | _ :: _, [] => none
  | w :: ws, c :: cs => if w = c then dropWord? ws cs else none

/-- The words that are values. -/
def words : List (String × Json) :=
  [("null", .null), ("true", .bool true), ("false", .bool false), ("NaN", .real .nan),
   ("Infinity", .real (.infinite false)), ("-Infinity", .real (.infinite true))]

/-- A word or a number. -/
def scalar (cs : List Char) : Read Json :=
  match words.findSome? fun (w, v) => (dropWord? w.toList cs).map fun rest => (v, rest) with
  | some found => .ok found
  | none => number cs

mutual

/-- The value that the text begins with, when it may open so many levels of containers. -/
def value (lone : Option Char) : Nat → Nat → List Char → Read Json
  | 0, _, cs => stopAt .value cs
  | fuel + 1, depth, cs =>
    match cs, depth with
    | '"' :: rest, _ =>
      match stringBody lone rest with
      | .ok (s, rest) => .ok (.string s, rest)
      | .error i => .error i
    | '{' :: _, 0 => .error (.tooDeep .object)
    | '{' :: rest, depth + 1 =>
      match skip rest with
      | '}' :: rest => .ok (.object [], rest)
      | rest => members lone fuel depth [] rest
    | '[' :: _, 0 => .error (.tooDeep .array)
    | '[' :: rest, depth + 1 =>
      match skip rest with
      | ']' :: rest => .ok (.array [], rest)
      | rest => elements lone fuel depth [] rest
    | _, _ => scalar cs

/-- The elements of an array behind those `seen`, last first. -/
def elements (lone : Option Char) : Nat → Nat → List Json → List Char → Read Json
  | 0, _, _, cs => stopAt .value cs
  | fuel + 1, depth, seen, cs =>
    match value lone fuel depth cs with
    | .error i => .error i
    | .ok (v, rest) =>
      match skip rest with
      | ']' :: rest => .ok (.array (v :: seen).reverse, rest)
      | ',' :: rest => elements lone fuel depth (v :: seen) (skip rest)
      | rest => stopAt .comma rest

/-- The fields of an object behind those `seen`. -/
def members (lone : Option Char) : Nat → Nat → Fields → List Char → Read Json
  | 0, _, _, cs => stopAt .value cs
  | fuel + 1, depth, seen, cs =>
    match cs with
    | '"' :: rest =>
      match stringBody lone rest with
      | .error i => .error i
      | .ok (key, rest) =>
        match skip rest with
        | ':' :: rest =>
          match value lone fuel depth (skip rest) with
          | .error i => .error i
          | .ok (v, rest) =>
            match skip rest with
            | '}' :: rest => .ok (.object (Fields.insert seen key v), rest)
            | ',' :: rest => members lone fuel depth (Fields.insert seen key v) (skip rest)
            | rest => stopAt .comma rest
        | rest => stopAt .colon rest
    | _ => stopAt .propertyName cs

end

/-! ### Whole texts -/

/-- Why a text is no JSON value. -/
inductive ReadError where
  /-- A problem at a line and a column, both from 1, and an offset from 0. -/
  | malformed (what : Problem) (line column offset : Nat)
  /-- A whole number has this many digits. -/
  | tooManyDigits (count : Nat)
  /-- A container is in too many others. -/
  | tooDeep (container : Container)
  /-- Half of a pair of code units is escaped. -/
  | unpaired
deriving DecidableEq

/-- The wording of an error. -/
def ReadError.message : ReadError → String
  | .malformed what line column offset =>
    what.text ++ ": line " ++ toString line ++ " column " ++ toString column ++
      " (char " ++ toString offset ++ ")"
  | .tooManyDigits count =>
    "Exceeds the limit (" ++ toString Text.maxDigits ++
      " digits) for integer string conversion: value has " ++ toString count ++
      " digits; use sys.set_int_max_str_digits() to increase the limit"
  | .tooDeep container =>
    "maximum recursion depth exceeded while decoding a JSON " ++ container.text ++
      " from a unicode string"
  | .unpaired => "Half of a pair of code units"

/-- An interruption placed in its text. Only line feeds end a line here. -/
def Interruption.locate (cs : List Char) : Interruption → ReadError
  | .malformed what left =>
    let before := cs.take (cs.length - left)
    .malformed what (before.count '\n' + 1)
      ((before.reverse.takeWhile (· != '\n')).length + 1) before.length
  | .tooManyDigits count => .tooManyDigits count
  | .tooDeep container => .tooDeep container
  | .unpaired => .unpaired

/-- The value followed by nothing but blanks, when containers may stand in each other so deep. -/
def valueAlone (lone : Option Char) (depth : Nat) (cs : List Char) : Except Interruption Json :=
  match cs with
  | '\uFEFF' :: _ => stopAt .byteOrderMark cs
  | _ =>
    match value lone (2 * cs.length + 2) depth (skip cs) with
    | .error i => .error i
    | .ok (v, rest) =>
      match skip rest with
      | [] => .ok v
      | rest => stopAt .extraData rest

/-- The value of a whole text. -/
def wholeValue (depth : Nat) (cs : List Char) : Except Interruption Json :=
  match valueAlone none depth cs with
  | .error .unpaired =>
    match valueAlone (some replacement) depth cs with
    | .error i => .error i
    | .ok _ => .error .unpaired
  | result => result

/-- The value that a text writes, with containers in each other up to a depth. -/
def read (s : String) (depth : Nat := Limits.usual.reading) : Except ReadError Json :=
  (wholeValue depth s.toList).mapError (·.locate s.toList)

end BnfReader.Json
