import BnfReader.Parser.Run

/-! Parsers do not look behind.

A text may have anything in front of it: a run that begins behind the prefix is the run on the
text alone, with each place further on by the length of the prefix (`Parser.run_behind`). Values
and expectations are the same, the end, the mismatch and the hint are moved. It is enough that
the primitives see the same text and that every comparison of places is one of two places that
have both been moved (`Step.Shifted`). -/
namespace BnfReader

/-- The mismatch so many characters further on. -/
def Mismatch.shift (k : Nat) (m : Mismatch) : Mismatch := ⟨k + m.offset, m.expected⟩

theorem Mismatch.shift_merge (k : Nat) (a b : Mismatch) :
    (a.merge b).shift k = (a.shift k).merge (b.shift k) := by
  simp only [Mismatch.merge, Mismatch.shift, Nat.add_lt_add_iff_left]
  split
  · rfl
  · split <;> rfl

namespace Hint

/-- The hint so many characters further on. -/
def shift (k : Nat) (h : Hint) : Hint := h.map (Mismatch.shift k)

theorem shift_note (k : Nat) (h : Hint) (m : Mismatch) : (h.note m).shift k = (h.shift k).note (m.shift k) := by
  cases h with
  | none => rfl
  | some best => exact congrArg some (Mismatch.shift_merge k best m)

theorem any_shift (k o : Nat) (h : Hint) :
    (h.shift k).any (·.offset ≤ k + o) = h.any (·.offset ≤ o) := by
  cases h with
  | none => rfl
  | some best => simp [shift, Mismatch.shift]

end Hint

/-- The reply so many characters further on; the value stays. -/
def Reply.shift {ε α : Type} (k : Nat) : Reply ε α → Reply ε α
  | .done a stop => .done a (k + stop)
  | .failed miss => .failed (miss.shift k)
  | .fault cause => .fault cause

namespace Step
variable {ε α β : Type} {k : Nat}

/-- What `p` does is what `q` does so many characters before. -/
def Shifted (k : Nat) (p q : Step ε α) : Prop :=
  ∀ o h, p (k + o) (h.shift k) = ((q o h).1.shift k, (q o h).2.shift k)

/-! ### Sequencing -/

theorem shifted_pure (a : α) : Shifted k (pure a : Step ε α) (pure a) := fun _ _ => rfl

theorem shifted_give (r : Except ε α) : Shifted k (give r) (give r) := by
  intro o h
  cases r <;> rfl

theorem shifted_andThen {p q : Step ε α} {next next' : α → Step ε β} (hp : Shifted k p q)
    (hn : ∀ a, Shifted k (next a) (next' a)) : Shifted k (p.andThen next) (q.andThen next') := by
  intro o h
  simp only [andThen, hp o h]
  cases hq : q o h with
  | mk r i => cases r with
    | done a stop => exact hn a stop i
    | failed miss => rfl
    | fault cause => rfl

theorem shifted_all {n : Nat} {ps qs : Fin n → Step ε α} (h : ∀ i, Shifted k (ps i) (qs i)) :
    Shifted k (all (List.ofFn ps)) (all (List.ofFn qs)) := by
  induction n with
  | zero =>
    simp only [List.ofFn_zero]
    exact shifted_pure []
  | succ n ih =>
    simp only [List.ofFn_succ]
    refine shifted_andThen (h 0) fun a => ?_
    exact shifted_andThen (ih fun i => h i.succ) fun as => shifted_pure (a :: as)

/-! ### Looking at the text -/

section
variable (u t : Array Char)

theorem shifted_satisfy (accepts : Char → Bool) (description : String) :
    Shifted u.size (satisfy (u ++ t) accepts description : Step ε Char) (satisfy t accepts description) := by
  intro o h
  have hsame : (u ++ t)[u.size + o]? = t[o]? := by
    rw [Array.getElem?_append_right (Nat.le_add_right ..), Nat.add_sub_cancel_left]
  simp only [satisfy, hsame]
  cases t[o]? with
  | none => rfl
  | some c => cases haccepts : accepts c <;> simp only [haccepts] <;> rfl

theorem shifted_string (s : String) : Shifted u.size (string (u ++ t) s : Step ε String) (string t s) := by
  intro o h
  have hsame : (u ++ t).extract (u.size + o) (u.size + (o + s.length)) = t.extract o (o + s.length) := by
    simp [Array.extract_append]
  simp only [string, Array.size_append, Nat.add_assoc, Nat.add_le_add_iff_left, hsame]
  split <;> rfl

theorem shifted_eof : Shifted u.size (eof (u ++ t) : Step ε Unit) (eof t) := by
  intro o h
  simp only [eof, Array.size_append, Nat.add_left_cancel_iff]
  split <;> rfl

end

/-! ### Choice and repetition -/

theorem shifted_firstOf {n : Nat} {ps qs : Fin n → Step ε α} (hp : ∀ i, Shifted k (ps i) (qs i)) (best : Hint) :
    Shifted k (firstOf (List.ofFn ps) (best.shift k)) (firstOf (List.ofFn qs) best) := by
  intro o h
  induction n generalizing best h with
  | zero =>
    simp only [List.ofFn_zero]
    cases best <;> rfl
  | succ n ih =>
    simp only [List.ofFn_succ, firstOf, hp 0 o h]
    cases hq : qs 0 o h with
    | mk r i => cases r with
      | done a stop => rfl
      | failed miss =>
        have hrest := ih (fun i => hp i.succ) (best.note miss) i
        rw [Hint.shift_note] at hrest
        exact hrest
      | fault cause => rfl

theorem shifted_manyFrom {p q : Step ε α} (hp : Shifted k p q) (budget : Nat) (seen : List α) :
    Shifted k (manyFrom p budget seen) (manyFrom q budget seen) := by
  intro o h
  induction budget generalizing seen o h with
  | zero =>
    unfold manyFrom
    rw [hp o h]
    cases hq : q o h with
    | mk r i => cases r with
      | done a stop => simp only [Reply.shift, ite_self]
      | failed miss => exact congrArg (Prod.mk _) (Hint.shift_note k i miss).symm
      | fault cause => rfl
  | succ budget ih =>
    unfold manyFrom
    rw [hp o h]
    cases hq : q o h with
    | mk r i => cases r with
      | done a stop =>
        simp only [Reply.shift, Nat.add_left_cancel_iff]
        split
        · rfl
        · exact ih (a :: seen) stop i
      | failed miss => exact congrArg (Prod.mk _) (Hint.shift_note k i miss).symm
      | fault cause => rfl

/-- As many characters are left behind the prefix as without it. -/
theorem shifted_many {u t : Array Char} {p q : Step ε α} (hp : Shifted u.size p q) :
    Shifted u.size (many (u ++ t) p) (many t q) := by
  intro o h
  have hleft : (u ++ t).size - (u.size + o) = t.size - o := by
    rw [Array.size_append]
    omega
  simp only [many, hleft]
  exact shifted_manyFrom hp _ [] o h

theorem shifted_optional {p q : Step ε α} (hp : Shifted k p q) (default : α) :
    Shifted k (optional p default) (optional q default) := by
  intro o h
  simp only [optional, hp o h]
  cases hq : q o h with
  | mk r i => cases r with
    | done a stop => rfl
    | failed miss => exact congrArg (Prod.mk _) (Hint.shift_note k i miss).symm
    | fault cause => rfl

/-! ### Annotations -/

theorem shifted_label {p q : Step ε α} (hp : Shifted k p q) (description : String) :
    Shifted k (label p description) (label q description) := by
  intro o h
  simp only [label, hp o h]
  cases hq : q o h with
  | mk r i => cases r with
    | done a stop => rfl
    | failed miss =>
      simp only [Reply.shift, Mismatch.shift, Nat.add_left_cancel_iff, Hint.any_shift]
      split
      · split <;> rfl
      · rfl
    | fault cause => rfl

theorem shifted_hidden {p q : Step ε α} (hp : Shifted k p q) : Shifted k (hidden p) (hidden q) := by
  intro o h
  simp only [hidden, hp o h]
  cases hq : q o h with
  | mk r i => cases r <;> rfl

end Step

namespace Parser
variable {ε α : Type}

/-- Behind a prefix a parser does what it does without it. -/
theorem run_shifted (p : Parser ε α) (u t : Array Char) : Step.Shifted u.size (p.run (u ++ t)) (p.run t) := by
  induction p with
  | satisfy accepts description => exact Step.shifted_satisfy u t accepts description
  | string s => exact Step.shifted_string u t s
  | eof => exact Step.shifted_eof u t
  | both p q ihp ihq =>
    refine Step.shifted_andThen ihp fun a => ?_
    exact Step.shifted_andThen ihq fun b => Step.shifted_pure (a, b)
  | all ps ih => exact Step.shifted_all ih
  | firstOf ps ih => exact Step.shifted_firstOf ih none
  | many p ih => exact Step.shifted_many ih
  | many1 p ih =>
    refine Step.shifted_andThen ih fun a => ?_
    exact Step.shifted_andThen (Step.shifted_many ih) fun as => Step.shifted_pure (a :: as)
  | optional p default ih => exact Step.shifted_optional ih default
  | convert p f ih => exact Step.shifted_andThen ih fun a => Step.shifted_give (f a)
  | label p description ih => exact Step.shifted_label ih description
  | hidden p ih => exact Step.shifted_hidden ih

/-- **Parsers never look behind.** Whatever stands in front of a text, a run from behind it comes
back with the same value, mismatch or fault as the run on the text alone, and where that run ends,
fails or leaves its hint, this one does so as many characters further on as stand in front. This
holds from every offset of the text and from those past its end. -/
theorem run_behind (p : Parser ε α) (u t : Array Char) (o : Nat) :
    p.run (u ++ t) (u.size + o) none = ((p.run t o none).1.shift u.size, (p.run t o none).2.shift u.size) :=
  p.run_shifted u t o none

/-- Letters in front of the text are no items of a repetition that begins behind them. -/
example :
    let p : Parser Empty (List Char) := (char "a" : Parser Empty Char).many <* (eof : Parser Empty Unit)
    p.run #['b'] 0 none = (.failed ⟨0, .only "end of input"⟩, some ⟨0, .only "'a'"⟩) ∧
      p.run (#['a', 'a'] ++ #['b']) (2 + 0) none = (.failed ⟨2, .only "end of input"⟩, some ⟨2, .only "'a'"⟩) := by
  decide +kernel

end Parser
end BnfReader
