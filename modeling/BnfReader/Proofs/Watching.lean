import BnfReader.Parser.Run

/-! Runs with a log.

A reply and a hint do not tell what happened on the way to them: a mismatch may have been passed
over and a hint dropped again. A `Watched` step has its log beside it, the events in their order.
`Parser.watch` follows `Parser.run` form by form. A log looks at what the steps come back with and
takes no part in it, so that under the log the run is as it was (`Parser.watch_step`). -/
namespace BnfReader

/-- What can happen on the way of a run. -/
inductive Event where
  /-- A primitive did not match. -/
  | raised (miss : Mismatch)
  /-- A mismatch was passed over and noted as a hint. -/
  | noted (miss : Mismatch)
  /-- A choice matched behind a branch of it that had not. -/
  | late
  /-- A repetition was broken off: it could have moved on, but its rounds were used up. -/
  | spent
deriving DecidableEq

/-- A step with a log of what happens in it. -/
structure Watched (ε α : Type) where
  step : Step ε α
  log : Nat → Hint → List Event

namespace Watched
variable {ε α β : Type}

/-! ### Sequencing -/

/-- A step in which nothing happens. -/
def quiet (p : Step ε α) : Watched ε α := ⟨p, fun _ _ => []⟩

/-- A step that looks at the text; its mismatch is raised there. -/
def primitive (p : Step ε α) : Watched ε α where
  step := p
  log offset hint := match p offset hint with
    | (.failed miss, _) => [.raised miss]
    | _ => []

/-- One step, then another that may depend on its value. -/
def andThen (p : Watched ε α) (next : α → Watched ε β) : Watched ε β where
  step := p.step.andThen fun a => (next a).step
  log offset hint := p.log offset hint ++ match p.step offset hint with
    | (.done a stop, hint) => (next a).log stop hint
    | _ => []

/-- A row of steps, all values. -/
def all : List (Watched ε α) → Watched ε (List α)
  | [] => quiet (Step.pure [])
  | p :: ps => p.andThen fun a => (all ps).andThen fun as => quiet (Step.pure (a :: as))

/-! ### Choice and repetition -/

/-- The log of a choice; `failed` says whether a branch before these did not match. -/
def firstOfLog : List (Watched ε α) → Bool → Nat → Hint → List Event
  | [], _, _, _ => []
  | p :: ps, failed, offset, hint => p.log offset hint ++ match p.step offset hint with
    | (.failed _, hint) => firstOfLog ps true offset hint
    | (.done _ _, _) => if failed then [.late] else []
    | (.fault _, _) => []

/-- The first step that matches. -/
def firstOf (ps : List (Watched ε α)) : Watched ε α :=
  ⟨Step.firstOf (ps.map step) none, firstOfLog ps false⟩

/-- The log of a repetition of at most `budget` rounds that move on. -/
def manyLog (p : Watched ε α) (budget : Nat) (offset : Nat) (hint : Hint) : List Event :=
  p.log offset hint ++ match p.step offset hint with
    | (.failed miss, _) => [.noted miss]
    | (.fault _, _) => []
    | (.done _ stop, hint) =>
      if stop = offset then []
      else
        match budget with
        | 0 => [.spent]
        | budget + 1 => manyLog p budget stop hint

/-- As many repetitions as there are in the text. -/
def many (text : Array Char) (p : Watched ε α) : Watched ε (List α) :=
  ⟨Step.many text p.step, fun offset hint => p.manyLog (text.size - offset) offset hint⟩

/-- The step, or a default where it does not match. -/
def optional (p : Watched ε α) (default : α) : Watched ε α where
  step := p.step.optional default
  log offset hint := p.log offset hint ++ match p.step offset hint with
    | (.failed miss, _) => [.noted miss]
    | _ => []

/-! ### Annotations -/

/-- The step, expected as `description`. Nothing that happened is taken back. -/
def label (p : Watched ε α) (description : String) : Watched ε α := ⟨p.step.label description, p.log⟩

/-- The step, its hints dropped where it matches. Nothing that happened is taken back. -/
def hidden (p : Watched ε α) : Watched ε α := ⟨p.step.hidden, p.log⟩

theorem all_step (ps : List (Watched ε α)) : (all ps).step = Step.all (ps.map step) := by
  induction ps with
  | nil => rfl
  | cons p ps ih =>
    show p.step.andThen (fun a => (all ps).step.andThen fun as => Step.pure (a :: as)) = _
    rw [ih]
    rfl

end Watched

/-- What a parser does on a text, with a log. -/
def Parser.watch {ε α : Type} (text : Array Char) : Parser ε α → Watched ε α
  | .satisfy accepts description => .primitive (Step.satisfy text accepts description)
  | .string s => .primitive (Step.string text s)
  | .eof => .primitive (Step.eof text)
  | .both p q => (p.watch text).andThen fun a => (q.watch text).andThen fun b => .quiet (Step.pure (a, b))
  | .all ps => .all (List.ofFn fun i => (ps i).watch text)
  | .firstOf ps => .firstOf (List.ofFn fun i => (ps i).watch text)
  | .many p => .many text (p.watch text)
  | .many1 p => (p.watch text).andThen fun a => (Watched.many text (p.watch text)).andThen fun as =>
      .quiet (Step.pure (a :: as))
  | .optional p default => .optional (p.watch text) default
  | .convert p f => (p.watch text).andThen fun a => .quiet (Step.give (f a))
  | .label p description => .label (p.watch text) description
  | .hidden p => .hidden (p.watch text)

/-- A run is not changed by its log. -/
theorem Parser.watch_step {ε α : Type} (text : Array Char) (p : Parser ε α) :
    (p.watch text).step = p.run text := by
  induction p with
  | satisfy accepts description => rfl
  | string s => rfl
  | eof => rfl
  | both p q ihp ihq =>
    show Step.both (p.watch text).step (q.watch text).step = _
    rw [ihp, ihq]
    rfl
  | all ps ih =>
    show (Watched.all _).step = Step.all _
    rw [Watched.all_step, List.map_ofFn]
    exact congrArg (fun steps => Step.all (List.ofFn steps)) (funext ih)
  | firstOf ps ih =>
    show Step.firstOf (List.map _ _) none = Step.firstOf _ none
    rw [List.map_ofFn]
    exact congrArg (fun steps => Step.firstOf (List.ofFn steps) none) (funext ih)
  | many p ih =>
    show Step.many text (p.watch text).step = _
    rw [ih]
    rfl
  | many1 p ih =>
    show (p.watch text).step.andThen (fun a => (Step.many text (p.watch text).step).andThen fun as =>
      Step.pure (a :: as)) = _
    rw [ih]
    rfl
  | optional p default ih => exact congrArg (Step.optional · default) ih
  | convert p f ih => exact congrArg (fun step => step.andThen fun a => Step.give (f a)) ih
  | label p description ih => exact congrArg (Step.label · description) ih
  | hidden p ih => exact congrArg Step.hidden ih

end BnfReader
