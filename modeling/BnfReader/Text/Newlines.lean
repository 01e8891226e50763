/-! Line ends made equal: a carriage return, with or without a line feed behind it, becomes
a line feed. -/
namespace BnfReader.Text

/-- The characters with every line end written as one line feed. -/
def unifyNewlines : List Char → List Char
  | [] => []
  | '\r' :: '\n' :: rest => '\n' :: unifyNewlines rest
  | c :: rest => (if c = '\r' then '\n' else c) :: unifyNewlines rest

/-- The text with every line end written as one line feed. -/
def withUnixNewlines (s : String) : String := String.ofList (unifyNewlines s.toList)

end BnfReader.Text
