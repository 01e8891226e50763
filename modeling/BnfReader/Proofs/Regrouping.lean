import BnfReader.Proofs.Furthest
import BnfReader.Proofs.Readings
import Mathlib.Data.List.Forall2
import Mathlib.Data.List.OfFn

/-! Sequences and choices may be regrouped.

Steps with `andThen` and `pure` are a monad, and to keep the right or the left value of two parsers is a
bind in it (`Parser.run_right`, `Parser.run_left`); the laws of sequences are those of the monad. A
choice among choices is one choice among all their branches (`Step.firstOf_firstOf`), since the mismatches
of the branches are merged in the end and merging is associative. A choice between a parser
and itself runs it twice where it fails; that leaves the same mismatch and the same hint, since
merging is idempotent. -/
namespace BnfReader

namespace Step
variable {ε α β γ : Type}

/-! ### The laws of sequencing -/

theorem pure_andThen (a : α) (next : α → Step ε β) : (pure a).andThen next = next a := rfl

theorem andThen_assoc (p : Step ε α) (f : α → Step ε β) (g : β → Step ε γ) :
    (p.andThen f).andThen g = p.andThen fun a => (f a).andThen g := by
  funext o h
  simp only [andThen]
  cases p o h with
  | mk r i => cases r <;> rfl

theorem andThen_pure (p : Step ε α) : p.andThen pure = p := by
  funext o h
  simp only [andThen]
  cases p o h with
  | mk r i => cases r <;> rfl

/-! ### Choices among choices -/

/-- What is left of a choice matters only where its first branch fails. -/
theorem firstOf_cons_congr {p p' : Step ε α} {ps ps' : List (Step ε α)} {o : Nat} {h h' : Hint} (best : Hint)
    (hp : p o h = p' o h') (hps : ∀ best, firstOf ps best = firstOf ps' best) :
    firstOf (p :: ps) best o h = firstOf (p' :: ps') best o h' := by
  simp only [firstOf, hp, hps]

/-- A choice in front of other branches is its branches in front of them, with what it knew before. -/
theorem firstOf_firstOf {qs : List (Step ε α)} {before : Hint} (hsome : qs ≠ [] ∨ before ≠ none)
    (rs : List (Step ε α)) (best : Hint) :
    firstOf (firstOf qs before :: rs) best = firstOf (qs ++ rs) (best.add before) := by
  funext o h
  induction qs generalizing before h with
  | nil =>
    cases before with
    | none => simp at hsome
    | some miss => simp only [List.nil_append, firstOf, Hint.note_eq_add]
  | cons q qs ih =>
    cases hq : q o h with
    | mk r i => cases r with
      | done a stop => simp only [List.cons_append, firstOf, hq]
      | fault cause => simp only [List.cons_append, firstOf, hq]
      | failed miss =>
        have hnoted : before.note miss ≠ none := by
          cases before <;> exact Option.some_ne_none _
        have hinner : firstOf (q :: qs) before o h = firstOf qs (before.note miss) o i := by
          simp only [firstOf, hq]
        calc firstOf (firstOf (q :: qs) before :: rs) best o h
            = firstOf (firstOf qs (before.note miss) :: rs) best o i :=
              firstOf_cons_congr best hinner fun _ => rfl
          _ = firstOf (qs ++ rs) (best.add (before.note miss)) o i := ih (.inr hnoted) i
          _ = firstOf (qs ++ rs) ((best.add before).note miss) o i := by
              rw [Hint.note_eq_add, Hint.note_eq_add, Hint.add_assoc]
          _ = firstOf (q :: qs ++ rs) (best.add before) o h := by
              simp only [List.cons_append, firstOf, hq]

/-- When all branches fail, their mismatches are merged. -/
theorem firstOf_all_failed {ps : List (Step ε α)} {ms : List Mismatch} {o : Nat} {best : Hint} {m : Mismatch}
    (hps : List.Forall₂ (fun p miss => ∃ i, p.Acts o (.failed miss) i) ps ms)
    (hm : best.add (Hint.sum ms) = some m) : ∃ i, (firstOf ps best).Acts o (.failed m) i := by
  induction hps generalizing best with
  | nil =>
    rw [Hint.sum, Hint.add_none] at hm
    subst hm
    exact ⟨none, .firstOf_some o m⟩
  | @cons p miss ps ms hp _ ih =>
    obtain ⟨i, hi⟩ := hp
    have hrest : (best.note miss).add (Hint.sum ms) = some m := by
      rw [Hint.note_eq_add, Hint.add_assoc]
      exact hm
    obtain ⟨j, hj⟩ := ih hrest
    exact ⟨i.add j, hi.firstOf_failed hj⟩

end Step

namespace Parser
variable {ε α β γ : Type} {text : Array Char}

theorem run_right (p : Parser ε α) (q : Parser ε β) :
    (p *> q).run text = (p.run text).andThen fun _ => q.run text := by
  show (Step.both (p.run text) (q.run text)).andThen (fun ab => Step.pure ab.2) = _
  simp only [Step.both, Step.andThen_assoc, Step.pure_andThen]
  exact congrArg _ (funext fun _ => Step.andThen_pure _)

theorem run_left (p : Parser ε α) (q : Parser ε β) :
    (p <* q).run text = (p.run text).andThen fun a => (q.run text).andThen fun _ => Step.pure a := by
  show (Step.both (p.run text) (q.run text)).andThen (fun ab => Step.pure ab.1) = _
  simp only [Step.both, Step.andThen_assoc, Step.pure_andThen]

theorem run_choice (ps : List (Parser ε α)) :
    (choice ps).run text = Step.firstOf (ps.map fun p => p.run text) none := by
  show Step.firstOf (List.ofFn fun i : Fin ps.length => ps[i].run text) none = _
  exact congrArg (Step.firstOf · none) (List.ofFn_getElem_eq_map ps fun p => p.run text)

/-- A choice on the left is the choice among all branches. -/
theorem or_left (p q r : Parser ε α) : ((p <|> q) <|> r).run text = (choice [p, q, r]).run text := by
  rw [run_choice]
  apply Step.firstOf_firstOf
  exact .inl (List.cons_ne_nil _ _)

/-- And so is a choice on the right. -/
theorem or_right (p q r : Parser ε α) : (p <|> (q <|> r)).run text = (choice [p, q, r]).run text := by
  rw [run_choice]
  funext o h
  apply Step.firstOf_cons_congr none rfl
  intro best
  show Step.firstOf [Step.firstOf [q.run text, r.run text] none] best = _
  rw [Step.firstOf_firstOf (.inl (List.cons_ne_nil _ _)), Hint.add_none]
  rfl

theorem or_self (p : Parser ε α) : (p <|> p).run text = p.run text := by
  funext o h
  obtain ⟨r, i, hacts, -⟩ := p.run_isLocal_true text o
  have hor : ((p <|> p).run text).Acts o r i := by
    cases r with
    | done a stop => exact or_done p hacts
    | fault cause =>
      rw [run_or]
      exact hacts.firstOf_fault _ none
    | failed miss =>
      have hboth := or_failed hacts hacts
      rwa [Mismatch.merge_self, Hint.add_self] at hboth
  rw [hor h, hacts h]

/-- When all branches of a choice fail, so does the choice, with the furthest of their mismatches. -/
theorem choice_all_failed {ps : List (Parser ε α)} {ms : List Mismatch} {o : Nat} (hne : ps ≠ [])
    (hps : List.Forall₂ (fun p m => ∃ h, p.run text o none = (.failed m, h)) ps ms) :
    ∃ m i, IsFurthest ms m.offset m.expected.items ∧ ((choice ps).run text).Acts o (.failed m) i := by
  have hacts : List.Forall₂ (fun p m => ∃ i, p.Acts o (.failed m) i) (ps.map fun p => p.run text) ms := by
    rw [List.forall₂_map_left_iff]
    apply hps.imp
    intro p m ⟨h, hrun⟩
    obtain ⟨r, i, hr, -⟩ := p.run_isLocal_true text o
    rw [hr none] at hrun
    cases hrun
    exact ⟨i, hr⟩
  cases hsum : Hint.sum ms with
  | none =>
    rw [Hint.sum_eq_none.1 hsum] at hps
    exact absurd (List.forall₂_nil_right_iff.1 hps) hne
  | some m =>
    have hmerged : Hint.add none (Hint.sum ms) = some m := hsum
    obtain ⟨i, hi⟩ := Step.firstOf_all_failed hacts hmerged
    rw [run_choice]
    exact ⟨m, i, isFurthest_of_sum hsum, hi⟩

/-- **Choices and sequences may be regrouped.** A choice between a choice and a third parser, on either
side, is the choice among the three, and a choice between a parser and itself is the parser. Of
three parsers in a row, of which one value is kept, it does not matter which two are taken together. Each
pair does the same on every text, from every offset and with every hint: the same value and end or the
same mismatch, and the same hint afterwards. When all branches of a choice fail, its mismatch is at the
furthest offset of theirs and expects all that those at that offset expected. -/
theorem run_regrouped (ε : Type) :
    (∀ (α : Type) (p q r : Parser ε α) (text : Array Char),
      ((p <|> q) <|> r).run text = (choice [p, q, r]).run text ∧
      (p <|> (q <|> r)).run text = (choice [p, q, r]).run text ∧ (p <|> p).run text = p.run text) ∧
    (∀ (α β γ : Type) (p : Parser ε α) (q : Parser ε β) (r : Parser ε γ) (text : Array Char),
      ((p *> q) *> r).run text = (p *> (q *> r)).run text ∧
      ((p <* q) <* r).run text = (p <* (q <* r)).run text ∧
      ((p *> q) <* r).run text = (p *> (q <* r)).run text) ∧
    ∀ (α : Type) (ps : List (Parser ε α)) (ms : List Mismatch) (text : Array Char) (o : Nat), ps ≠ [] →
      List.Forall₂ (fun p m => ∃ h, p.run text o none = (.failed m, h)) ps ms →
      ∃ m, IsFurthest ms m.offset m.expected.items ∧
        ∀ h, ∃ h', (choice ps).run text o h = (.failed m, h') := by
  refine ⟨fun α p q r text => ⟨or_left p q r, or_right p q r, or_self p⟩, fun α β γ p q r text => ⟨?_, ?_, ?_⟩,
    fun α ps ms text o hne hps => ?_⟩
  · simp only [run_right, Step.andThen_assoc]
  · simp only [run_left, Step.andThen_assoc, Step.pure_andThen]
  · simp only [run_right, run_left, Step.andThen_assoc]
  · obtain ⟨m, i, hfurthest, hacts⟩ := choice_all_failed hne hps
    exact ⟨m, hfurthest, fun h => ⟨h.add i, hacts h⟩⟩

/-- Three branches, of which the first and the last come further. -/
theorem run_regrouped_of_branches :
    let ps : List (Parser Empty Char) := [char "a" *> char "b", char "c", char "a" *> char "d"]
    let ms : List Mismatch := [⟨1, .only "'b'"⟩, ⟨0, .only "'c'"⟩, ⟨1, .only "'d'"⟩]
    List.Forall₂ (fun p m => ∃ h, p.run #['a', 'x'] 0 none = (.failed m, h)) ps ms ∧
      (choice ps).run #['a', 'x'] 0 none = (.failed ⟨1, .ofList ["'b'", "'d'"]⟩, none) ∧
      IsFurthest ms 1 ["'b'", "'d'"] := by
  intro ps ms
  have hps : List.Forall₂ (fun p m => ∃ h, p.run #['a', 'x'] 0 none = (.failed m, h)) ps ms := by
    refine .cons ⟨none, ?_⟩ (.cons ⟨none, ?_⟩ (.cons ⟨none, ?_⟩ .nil))
    · decide +kernel
    · decide +kernel
    · decide +kernel
  have hrun : (choice ps).run #['a', 'x'] 0 none = (.failed ⟨1, .ofList ["'b'", "'d'"]⟩, none) := by
    decide +kernel
  obtain ⟨m, hfurthest, hfailed⟩ :=
    (run_regrouped Empty).2.2 Char ps ms #['a', 'x'] 0 (List.cons_ne_nil _ _) hps
  obtain ⟨h, hsame⟩ := hfailed none
  rw [hrun] at hsame
  cases hsame
  exact ⟨hps, hrun, hfurthest⟩

end Parser
end BnfReader
