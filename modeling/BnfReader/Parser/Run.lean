import BnfReader.Parser.Basic
import BnfReader.Parser.Mismatch

/-! Running parsers.

A `Step` is what a parser does: from an offset and the hint so far to a reply and the hint
afterwards. Each form of description has its step, and `Parser.run` puts them together
along the description. A reply is a value with the offset where it ends, a mismatch, or a
fault: a choice among no parsers, or a conversion that refused its value.

Offsets may lie past the end of the text; nothing matches there, not even the empty text.

A repetition stops at an item that consumes nothing, so each further item moves on by at
least one character, and the number of characters left bounds the number of rounds. -/
namespace BnfReader

/-- Why a run could not go on at all. -/
inductive Fault (ε : Type) where
  /-- There is no parser to choose from. -/
  | noBranch
  /-- A conversion refused what was read. -/
  | refused (cause : ε)
deriving DecidableEq

/-- What a parser comes back with. -/
inductive Reply (ε α : Type) where
  | done (value : α) (stop : Nat)
  | failed (miss : Mismatch)
  | fault (cause : Fault ε)
deriving DecidableEq

/-- What a parser does at an offset, with the hint it finds there. -/
abbrev Step (ε α : Type) := Nat → Hint → Reply ε α × Hint

namespace Step
variable {ε α β : Type}

/-! ### Sequencing -/

/-- A value without reading anything. -/
def pure (a : α) : Step ε α := fun offset hint => (.done a offset, hint)

/-- One step, then another that may depend on its value. -/
def andThen (p : Step ε α) (next : α → Step ε β) : Step ε β := fun offset hint =>
  match p offset hint with
  | (.done a stop, hint) => next a stop hint
  | (.failed miss, hint) => (.failed miss, hint)
  | (.fault cause, hint) => (.fault cause, hint)

/-- A value that may be refused. -/
def give (r : Except ε α) : Step ε α := fun offset hint =>
  match r with
  | .ok a => (.done a offset, hint)
  | .error e => (.fault (.refused e), hint)

/-- Two steps, both values. -/
def both (p : Step ε α) (q : Step ε β) : Step ε (α × β) :=
  p.andThen fun a => q.andThen fun b => pure (a, b)

/-- A row of steps, all values. -/
def all : List (Step ε α) → Step ε (List α)
  | [] => pure []
  | p :: ps => p.andThen fun a => (all ps).andThen fun as => pure (a :: as)

/-! ### Looking at the text -/

/-- One character that the predicate accepts. -/
def satisfy (text : Array Char) (accepts : Char → Bool) (description : String) : Step ε Char :=
  fun offset hint =>
    match text[offset]? with
    | some c =>
      if accepts c then (.done c (offset + 1), hint)
      else (.failed ⟨offset, .only description⟩, hint)
    | none => (.failed ⟨offset, .only description⟩, hint)

/-- Exactly the text `s`. -/
def string (text : Array Char) (s : String) : Step ε String := fun offset hint =>
  let stop := offset + s.length
  if stop ≤ text.size ∧ (text.extract offset stop).toList = s.toList then (.done s stop, hint)
  else (.failed ⟨offset, .only (Text.quoted s)⟩, hint)

/-- The end of the text. -/
def eof (text : Array Char) : Step ε Unit := fun offset hint =>
  if offset = text.size then (.done () offset, hint)
  else (.failed ⟨offset, .only "end of input"⟩, hint)

/-! ### Choice and repetition -/

/-- The first step that matches. When none does, the mismatches of all are merged, `best`
being those of the branches before. -/
def firstOf : List (Step ε α) → Hint → Step ε α
  | [], none, _, hint => (.fault .noBranch, hint)
  | [], some miss, _, hint => (.failed miss, hint)
  | p :: ps, best, offset, hint =>
    match p offset hint with
    | (.failed miss, hint) => firstOf ps (best.note miss) offset hint
    | reply => reply

/-- Repetitions of a step after those already `seen`, last first. The mismatch that ends
them is noted; an item that consumed nothing ends them too and is dropped. -/
def manyFrom (p : Step ε α) (budget : Nat) (seen : List α) : Step ε (List α) := fun offset hint =>
  match p offset hint with
  | (.failed miss, hint) => (.done seen.reverse offset, hint.note miss)
  | (.fault cause, hint) => (.fault cause, hint)
  | (.done a stop, hint) =>
    if stop = offset then (.done seen.reverse offset, hint)
    else
      match budget with
      | 0 => (.done seen.reverse offset, hint)
      | budget + 1 => manyFrom p budget (a :: seen) stop hint

/-- As many repetitions as there are in the text. -/
def many (text : Array Char) (p : Step ε α) : Step ε (List α) := fun offset hint =>
  manyFrom p (text.size - offset) [] offset hint

/-- The step, or a default where it does not match; the mismatch is noted. -/
def optional (p : Step ε α) (default : α) : Step ε α := fun offset hint =>
  match p offset hint with
  | (.failed miss, hint) => (.done default offset, hint.note miss)
  | reply => reply

/-! ### Annotations -/

/-- The step, expected as `description` where it fails at its own offset. Hints left there
are covered by the description; those further on stay. -/
def label (p : Step ε α) (description : String) : Step ε α := fun offset hint =>
  match p offset hint with
  | (.failed miss, after) =>
    if miss.offset = offset then
      (.failed ⟨offset, .only description⟩,
        if after.any (·.offset ≤ offset) then hint else after)
    else (.failed miss, after)
  | reply => reply

/-- The step, its hints dropped where it matches. -/
def hidden (p : Step ε α) : Step ε α := fun offset hint =>
  match p offset hint with
  | (.done a stop, _) => (.done a stop, hint)
  | reply => reply

end Step

/-- What a parser does on a text. -/
def Parser.run {ε α : Type} (text : Array Char) : Parser ε α → Step ε α
  | .satisfy accepts description => Step.satisfy text accepts description
  | .string s => Step.string text s
  | .eof => Step.eof text
  | .both p q => Step.both (p.run text) (q.run text)
  | .all ps => Step.all (List.ofFn fun i => (ps i).run text)
  | .firstOf ps => Step.firstOf (List.ofFn fun i => (ps i).run text) none
  | .many p => Step.many text (p.run text)
  | .many1 p => (p.run text).andThen fun a => (Step.many text (p.run text)).andThen fun as =>
      Step.pure (a :: as)
  | .optional p default => Step.optional (p.run text) default
  | .convert p f => (p.run text).andThen fun a => Step.give (f a)
  | .label p description => Step.label (p.run text) description
  | .hidden p => Step.hidden (p.run text)

end BnfReader
