import BnfReader.Json.Reader
import BnfReader.Json.Writer

/-! How much of a value comes into a file.

A value is written piece by piece: a whole number with more digits than a numeral may have, or a
container in more others than may be, breaks the writing off (`Json.faultAt?`). What was written
before it stays (`Json.written`). -/
namespace BnfReader.Json

/-- Why a value is not written to its end. -/
inductive WriteError where
  /-- A whole number has too many digits. -/
  | tooManyDigits
  /-- A container is in too many others. -/
  | tooDeep
deriving DecidableEq

/-- The wording of an error. -/
def WriteError.message : WriteError → String
  | .tooManyDigits =>
    "Exceeds the limit (" ++ toString Text.maxDigits ++
      " digits) for integer string conversion; use sys.set_int_max_str_digits() to increase the limit"
  | .tooDeep => "maximum recursion depth exceeded"

mutual

/-- What breaks a value off that may open so many levels of containers. -/
def faultAt? (depth : Nat) : Json → Option WriteError
  | .int n => if Binary64.digitCount n.natAbs ≤ Text.maxDigits then none else some .tooManyDigits
  | .array vs =>
    match depth with
    | 0 => some .tooDeep
    | depth + 1 => itemsFault? depth vs
  | .object fields =>
    match depth with
    | 0 => some .tooDeep
    | depth + 1 => fieldsFault? depth fields
  | _ => none

/-- What breaks the items of an array off. -/
def itemsFault? (depth : Nat) : List Json → Option WriteError
  | [] => none
  | v :: rest => (faultAt? depth v).or (itemsFault? depth rest)

/-- What breaks the fields of an object off. -/
def fieldsFault? (depth : Nat) : List (String × Json) → Option WriteError
  | [] => none
  | (_, v) :: rest => (faultAt? depth v).or (fieldsFault? depth rest)

end

/-- Whether a value holds others. -/
def isContainer : Json → Bool
  | .array _ | .object _ => true
  | _ => false

mutual

/-- What is written of a value at a level before it is broken off. -/
def begunAt (level depth : Nat) : Json → String
  | .array vs =>
    match depth with
    | 0 => ""
    | depth + 1 => begunItems ("[" ++ newline (level + 1)) (level + 1) depth vs
  | .object fields =>
    match depth with
    | 0 => ""
    | depth + 1 => "\x7b" ++ newline (level + 1) ++ begunFields (level + 1) depth fields
  | _ => ""

/-- The items up to the one that is broken off. What leads to an item is written together with
it, unless it is a container. -/
def begunItems (lead : String) (level depth : Nat) : List Json → String
  | [] => ""
  | v :: rest =>
    match faultAt? depth v with
    | none => lead ++ prettyAt level v ++ begunItems ("," ++ newline level) level depth rest
    | some _ => (if v.isContainer then lead else "") ++ begunAt level depth v

/-- The fields up to the one that is broken off. -/
def begunFields (level depth : Nat) : List (String × Json) → String
  | [] => ""
  | (k, v) :: rest =>
    quote asciiForm k ++ ": " ++
      match faultAt? depth v with
      | none => prettyAt level v ++ "," ++ newline level ++ begunFields level depth rest
      | some _ => begunAt level depth v

end

/-- What of a value comes into a file that may hold so many levels of containers. -/
def written (depth : Nat) (v : Json) : String :=
  match v.faultAt? depth with
  | none => v.pretty
  | some _ => begunAt 0 depth v

end BnfReader.Json
