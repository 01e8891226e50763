import BnfReader.Parser.Expected

/-! Mismatches: where a parser gave up and what it was looking for there.

Of two mismatches the further one is the better explanation, and two at one offset are one
mismatch with both expectations (`Mismatch.merge`). A run keeps the best mismatch that a
repetition or an option has passed over; that memory is its `Hint`. -/
namespace BnfReader

/-- A parser found none of `expected` at `offset`. -/
structure Mismatch where
  offset : Nat
  expected : Expected
deriving DecidableEq

namespace Mismatch

/-- The further of two mismatches; at one offset, both expectations together. -/
def merge (a b : Mismatch) : Mismatch :=
  if a.offset < b.offset then b
  else if b.offset < a.offset then a
  else ⟨a.offset, a.expected.union b.expected⟩

/-- A mismatch on one line. -/
def message (m : Mismatch) : String :=
  "offset " ++ toString m.offset ++ ": expected " ++ ", ".intercalate m.expected.items

end Mismatch

/-- The best mismatch passed over so far. -/
abbrev Hint := Option Mismatch

namespace Hint

/-- The hint after one more mismatch was passed over. -/
def note (hint : Hint) (m : Mismatch) : Hint :=
  match hint with
  | none => some m
  | some best => some (best.merge m)

/-- A mismatch seen in the light of a hint. -/
def explain (hint : Hint) (m : Mismatch) : Mismatch :=
  match hint with
  | none => m
  | some best => m.merge best

end Hint
end BnfReader
