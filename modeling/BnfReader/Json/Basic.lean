import BnfReader.Number.Binary64

/-! JSON values.

Whole numbers and floating-point numbers are kept apart, and an object keeps its fields in
the order in which they first appeared. -/
namespace BnfReader

/-- A JSON value. -/
inductive Json where
  | null
  | bool (b : Bool)
  | int (n : Int)
  | real (x : Binary64)
  | string (s : String)
  | array (items : List Json)
  | object (fields : List (String × Json))

/-- Named values in order; no name stands twice in one that was built by `insert`. -/
abbrev Fields := List (String × Json)

namespace Fields

/-- The value under a name. -/
def get? (fields : Fields) (key : String) : Option Json := fields.lookup key

/-- The value under a name replaced where it stands, or added at the end. -/
def insert : Fields → String → Json → Fields
  | [], key, value => [(key, value)]
  | (k, v) :: rest, key, value =>
    if k = key then (k, value) :: rest else (k, v) :: insert rest key value

/-- The names in order. -/
def keys (fields : Fields) : List String := fields.map Prod.fst

/-- All fields of `others`, one after the other. -/
def insertAll (fields : Fields) (others : Fields) : Fields :=
  others.foldl (fun acc (k, v) => insert acc k v) fields

theorem get?_insert_self (fields : Fields) (key : String) (value : Json) :
    (fields.insert key value).get? key = some value := by
  induction fields with
  | nil => simp [insert, get?]
  | cons f rest ih =>
    obtain ⟨k, v⟩ := f
    simp only [insert]
    split
    · next h => simp [get?, h]
    · next h =>
      have : (key == k) = false := by simpa using fun e => h e.symm
      simpa [get?, List.lookup_cons, this] using ih

end Fields

/-- Whether a value counts as a yes: not null, `false`, zero or empty. -/
def Json.isYes : Json → Bool
  | .null => false
  | .bool b => b
  | .int n => n != 0
  | .real (.finite _ mantissa _) => mantissa != 0
  | .real _ => true
  | .string s => s != ""
  | .array items => !items.isEmpty
  | .object fields => !fields.isEmpty

/-- The field of an object under a name; other values have none. -/
def Json.get? : Json → String → Option Json
  | .object fields, key => Fields.get? fields key
  | _, _ => none

namespace Json

/-- How many containers may stand in each other in a text that is read, and in a value that is
written. What is bounded is the depth of calls: reading and writing need calls of their own for
each container, and some for what stands innermost, and whoever asks for either has made some
already. So neither number is fixed, and both are those of one call; only a container with no
other inside is always read and always written. -/
structure Limits where
  reading : Nat
  writing : Nat
  reading_pos : 0 < reading
  writing_pos : 0 < writing

/-- The limits of a call not far from the start of a program. -/
def Limits.usual : Limits := ⟨988, 990, by decide, by decide⟩

mutual

/-- How many containers stand in each other in a value, itself included. -/
def depth : Json → Nat
  | .array vs => itemsDepth vs + 1
  | .object fields => fieldsDepth fields + 1
  | _ => 0

/-- The depth of the deepest item. -/
def itemsDepth : List Json → Nat
  | [] => 0
  | v :: rest => max (depth v) (itemsDepth rest)

/-- The depth of the deepest field. -/
def fieldsDepth : List (String × Json) → Nat
  | [] => 0
  | (_, v) :: rest => max (depth v) (fieldsDepth rest)

end

end Json

end BnfReader
