import BnfReader.Text.Hex
import BnfReader.Text.Printable

/-! Quoted text: how a character or a string is shown inside a message.

The text stands between apostrophes, or between double quotes when it has an apostrophe
and no double quote. Inside, the chosen quote and the backslash are marked by a backslash,
tab and the two line ends have their short escapes, and every other unprintable character
is written by its code point. -/
namespace BnfReader.Text

/-- The quote that a text is shown in. -/
def quoteFor (cs : List Char) : Char :=
  if '\'' ∈ cs ∧ '"' ∉ cs then '"' else '\''

/-- A code point by number: two digits below 256, four in the basic plane, else eight. -/
def escapeCode (n : Nat) : List Char :=
  if n < 0x100 then '\\' :: 'x' :: Hex.padded 2 n
  else if n < 0x10000 then '\\' :: 'u' :: Hex.padded 4 n
  else '\\' :: 'U' :: Hex.padded 8 n

/-- One character as it stands between the given quotes. -/
def showChar (quote c : Char) : List Char :=
  if c = quote ∨ c = '\\' then ['\\', c]
  else if c = '\t' then ['\\', 't']
  else if c = '\n' then ['\\', 'n']
  else if c = '\r' then ['\\', 'r']
  else if isPrintable c then [c]
  else escapeCode c.toNat

/-- A text in quotes. -/
def quoted (s : String) : String :=
  let cs := s.toList
  let quote := quoteFor cs
  String.ofList (quote :: cs.flatMap (showChar quote) ++ [quote])

end BnfReader.Text
