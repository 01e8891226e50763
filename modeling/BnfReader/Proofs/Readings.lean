import BnfReader.Proofs.Following

/-! What a parser reads.

`p.Reads text o a stop` says that `p` matches at `o`, whatever the hint there, with the value
`a` and up to `stop`. What a parser reads is put together from what its parts read, and it can
be taken apart again: there is one equivalence for each way to build parsers. A repetition is
a chain of its items, and where it ends its item reads nothing more (`Step.Chain.ended`). -/
namespace BnfReader

namespace Step
variable {ε α β : Type} {text : Array Char} {faulty : Prop} {o last : Nat} {i : Hint}

/-- At `o` the step comes back with `a` and ends at `stop`. -/
def Reads (p : Step ε α) (o : Nat) (a : α) (stop : Nat) : Prop := ∃ i, p.Acts o (.done a stop) i

theorem Reads.unique {p : Step ε α} {a b : α} {stop : Nat} (h : p.Reads o a stop) (h' : p.Reads o b last) :
    a = b ∧ stop = last := by
  obtain ⟨i, hi⟩ := h
  obtain ⟨j, hj⟩ := h'
  have hsame := (hi.unique hj).1
  simpa using hsame

theorem Acts.not_reads {p : Step ε α} {m : Mismatch} (h : p.Acts o (.failed m) i) (a : α) (stop : Nat) :
    ¬ p.Reads o a stop := by
  rintro ⟨j, hj⟩
  cases (h.unique hj).1

/-! ### Sequencing -/

theorem reads_andThen {p : Step ε α} {next : α → Step ε β} {b : β} (hp : p.IsLocal text faulty)
    (hn : ∀ a, (next a).IsLocal text faulty) :
    (p.andThen next).Reads o b last ↔ ∃ a mid, p.Reads o a mid ∧ (next a).Reads mid b last := by
  constructor
  · rintro ⟨i, h⟩
    obtain ⟨r, j, hr, -⟩ := hp o
    cases r with
    | done a mid =>
      obtain ⟨r', k, hr', -⟩ := hn a mid
      obtain ⟨rfl, -⟩ := (hr.andThen_done hr').unique h
      exact ⟨a, mid, ⟨j, hr⟩, k, hr'⟩
    | failed m => exact absurd ⟨i, h⟩ ((hr.andThen_failed next).not_reads b last)
    | fault cause => cases ((hr.andThen_fault next).unique h).1
  · rintro ⟨a, mid, ⟨i, hi⟩, j, hj⟩
    exact ⟨i.add j, hi.andThen_done hj⟩

theorem reads_pure {a b : α} : (pure a : Step ε α).Reads o b last ↔ a = b ∧ o = last := by
  constructor
  · exact fun h => Reads.unique ⟨none, .pure a o⟩ h
  · rintro ⟨rfl, rfl⟩
    exact ⟨none, .pure a o⟩

theorem reads_give {r : Except ε α} {b : α} : (give r).Reads o b last ↔ r = .ok b ∧ o = last := by
  constructor
  · rintro ⟨i, h⟩
    cases hr : r with
    | ok a =>
      obtain ⟨rfl, rfl⟩ := Reads.unique ⟨none, .give_ok hr o⟩ ⟨i, h⟩
      exact ⟨rfl, rfl⟩
    | error e => cases ((Acts.give_error hr o).unique h).1
  · rintro ⟨hr, rfl⟩
    exact ⟨none, .give_ok hr o⟩

/-! ### Repetition -/

/-- What a repetition comes back with is a chain behind what it had seen. -/
theorem chain_of_manyFrom {p : Step ε α} {budget : Nat} {seen bs : List α} (hp : p.IsLocal text faulty)
    (hb : text.size - o ≤ budget) (h : (manyFrom p budget seen).Acts o (.done bs last) i) :
    ∃ as j, bs = seen.reverse ++ as ∧ Chain p o as last j := by
  induction hn : text.size - o using Nat.strongRecOn generalizing o budget seen i with
  | _ n ih =>
    obtain ⟨r, j, hr, hw, -⟩ := hp o
    cases r with
    | failed m =>
      cases ((hr.manyFrom_failed budget seen).unique h).1
      exact ⟨[], _, (List.append_nil _).symm, .missed hr⟩
    | fault cause => cases ((hr.manyFrom_fault budget seen).unique h).1
    | done a stop =>
      by_cases hidle : stop = o
      · subst hidle
        cases ((hr.manyFrom_idle budget seen).unique h).1
        exact ⟨[], _, (List.append_nil _).symm, .idle hr⟩
      · -- A round that moves on leaves fewer characters, so the budget is not spent yet.
        unfold Reply.Within Within at hw
        obtain ⟨b, rfl⟩ : ∃ b, budget = b + 1 := ⟨budget - 1, by omega⟩
        obtain ⟨r', k, hrest, -⟩ := isLocal_manyFrom hp b (a :: seen) stop
        obtain ⟨rfl, -⟩ := (hr.manyFrom_round hidle hrest).unique h
        obtain ⟨as, l, rfl, hchain⟩ := ih (text.size - stop) (by omega) (by omega) hrest rfl
        exact ⟨a :: as, _, by simp, .round hr hidle hchain⟩

theorem chain_of_many {p : Step ε α} {as : List α} (hp : p.IsLocal text faulty)
    (h : (many text p).Reads o as last) : ∃ i, Chain p o as last i := by
  obtain ⟨i, h⟩ := h
  obtain ⟨as', j, has, hchain⟩ := chain_of_manyFrom hp (Nat.le_refl _) h
  obtain rfl : as = as' := has
  exact ⟨j, hchain⟩

namespace Chain
variable {p : Step ε α} {as : List α}

/-- Where a chain ends, its item consumes nothing. -/
theorem ended (h : Chain p o as last i) {a : α} {stop : Nat} (ha : p.Reads last a stop) : stop = last := by
  induction h with
  | missed hm => exact absurd ha (hm.not_reads a stop)
  | idle hidle => exact (ha.unique ⟨_, hidle⟩).2
  | round _ _ _ ih => exact ih ha

/-- A chain ends where it began or where one of its items ended. -/
theorem last_item (h : Chain p o as last i) : last = o ∨ ∃ o' a, p.Reads o' a last := by
  induction h with
  | missed => exact .inl rfl
  | idle => exact .inl rfl
  | @round o stop last a as i j ha _ _ ih =>
    rcases ih with rfl | hitem
    · exact .inr ⟨o, a, i, ha⟩
    · exact .inr hitem

end Chain
end Step

namespace Parser
variable {ε α β : Type} {text : Array Char} {o last : Nat}

/-- At `o` the parser reads `a` and ends at `stop`. -/
def Reads (p : Parser ε α) (text : Array Char) (o : Nat) (a : α) (stop : Nat) : Prop :=
  (p.run text).Reads o a stop

theorem run_isLocal_true (p : Parser ε α) (text : Array Char) : (p.run text).IsLocal text True :=
  p.run_isLocal text (.inr trivial)

/-- What a parser reads does not depend on the hint that it finds. -/
theorem reads_iff_run (p : Parser ε α) {a : α} (h : Hint) :
    p.Reads text o a last ↔ ∃ h', p.run text o h = (.done a last, h') := by
  constructor
  · rintro ⟨i, hi⟩
    exact ⟨h.add i, hi h⟩
  · rintro ⟨h', hrun⟩
    obtain ⟨r, i, hr, -⟩ := p.run_isLocal_true text o
    rw [hr h] at hrun
    cases hrun
    exact ⟨i, hr⟩

theorem parse_ok_iff_reads (p : Parser ε α) (s : String) (a : α) :
    p.parse s = .ok a ↔ ∃ stop, p.Reads s.toList.toArray 0 a stop := by
  simp only [reads_iff_run p none, Parser.parse]
  rcases p.run s.toList.toArray 0 none with ⟨b, stop⟩ | miss | cause <;> simp

theorem reads_both {p : Parser ε α} {q : Parser ε β} {a : α} {b : β} :
    (p.both q).Reads text o (a, b) last ↔ ∃ mid, p.Reads text o a mid ∧ q.Reads text mid b last := by
  have hq := q.run_isLocal_true text
  have hpair : ∀ a, ((q.run text).andThen fun b => Step.pure (a, b) : Step ε (α × β)).IsLocal text True :=
    fun a => Step.isLocal_andThen hq fun b => Step.isLocal_pure (a, b)
  refine (Step.reads_andThen (p.run_isLocal_true text) hpair).trans ?_
  simp only [Step.reads_andThen hq fun b => Step.isLocal_pure (_, b), Step.reads_pure, Prod.mk.injEq]
  constructor
  · rintro ⟨_, mid, hp, _, _, hq, ⟨rfl, rfl⟩, rfl⟩
    exact ⟨mid, hp, hq⟩
  · rintro ⟨mid, hp, hq⟩
    exact ⟨a, mid, hp, b, last, hq, ⟨rfl, rfl⟩, rfl⟩

theorem reads_convert {p : Parser ε α} {f : α → Except ε β} {b : β} :
    (p.convert f).Reads text o b last ↔ ∃ a, p.Reads text o a last ∧ f a = .ok b := by
  have hgive : ∀ a, (Step.give (f a)).IsLocal text True := fun a => Step.isLocal_give (.inr trivial)
  refine (Step.reads_andThen (p.run_isLocal_true text) hgive).trans ?_
  simp only [Step.reads_give]
  constructor
  · rintro ⟨a, _, hp, hf, rfl⟩
    exact ⟨a, hp, hf⟩
  · rintro ⟨a, hp, hf⟩
    exact ⟨a, last, hp, hf, rfl⟩

theorem reads_map {p : Parser ε α} {f : α → β} {b : β} :
    (p.map f).Reads text o b last ↔ ∃ a, p.Reads text o a last ∧ f a = b := by
  simp only [Parser.map, reads_convert, Except.ok.injEq]

theorem reads_right {p : Parser ε α} {q : Parser ε β} {b : β} :
    (p *> q).Reads text o b last ↔ ∃ a mid, p.Reads text o a mid ∧ q.Reads text mid b last := by
  refine reads_map.trans ?_
  simp only [Prod.exists, reads_both, exists_eq_right]

theorem reads_left {p : Parser ε α} {q : Parser ε β} {a : α} :
    (p <* q).Reads text o a last ↔ ∃ b mid, p.Reads text o a mid ∧ q.Reads text mid b last := by
  refine reads_map.trans ?_
  simp only [Prod.exists, reads_both]
  constructor
  · rintro ⟨_, b, ⟨mid, hp, hq⟩, rfl⟩
    exact ⟨b, mid, hp, hq⟩
  · rintro ⟨b, mid, hp, hq⟩
    exact ⟨a, b, ⟨mid, hp, hq⟩, rfl⟩

theorem reads_label {p : Parser ε α} {description : String} {a : α} :
    (p.label description).Reads text o a last ↔ p.Reads text o a last := by
  simp only [reads_iff_run _ none, Parser.run, Step.label]
  rcases p.run text o none with ⟨⟨b, stop⟩ | miss | cause, h⟩
  · rfl
  · dsimp only
    split <;> simp
  · rfl

/-- Where the first of two parsers does not match, what is read is what the second reads. -/
theorem reads_or_later {p q : Parser ε α} {m : Mismatch} {i : Hint} {a : α}
    (hp : (p.run text).Acts o (.failed m) i) : (p <|> q).Reads text o a last ↔ q.Reads text o a last := by
  constructor
  · intro ⟨j, h⟩
    obtain ⟨r, k, hq, -⟩ := q.run_isLocal_true text o
    cases r with
    | done b stop =>
      cases ((or_done_later hp hq).unique h).1
      exact ⟨k, hq⟩
    | failed m' => cases ((or_failed hp hq).unique h).1
    | fault cause =>
      rw [run_or] at h
      cases ((hp.firstOf_failed (hq.firstOf_fault [] _)).unique h).1
  · intro ⟨j, hq⟩
    exact ⟨_, or_done_later hp hq⟩

theorem many_reads {p : Parser ε α} {as : List α} (h : p.many.Reads text o as last) :
    ∃ i, Step.Chain (p.run text) o as last i :=
  Step.chain_of_many (p.run_isLocal_true text) h

/-- A repetition of at least one item ends where its last item ended, and there the item
consumes nothing more. -/
theorem many1_ended {p : Parser ε α} {as : List α} (h : p.many1.Reads text o as last) {a : α} {stop : Nat}
    (ha : p.Reads text last a stop) : stop = last := by
  have hp := p.run_isLocal_true text
  have hmany := p.many.run_isLocal_true text
  obtain ⟨first, mid, -, hbehind⟩ := (Step.reads_andThen hp fun first =>
    Step.isLocal_andThen hmany fun rest => Step.isLocal_pure (first :: rest)).1 h
  obtain ⟨rest, stop', hrest, hpure⟩ := (Step.reads_andThen hmany fun rest => Step.isLocal_pure _).1 hbehind
  obtain ⟨-, rfl⟩ := Step.reads_pure.1 hpure
  obtain ⟨i, hchain⟩ := many_reads hrest
  exact hchain.ended ha

theorem reads_eof {u : Unit} :
    (eof : Parser ε Unit).Reads text o u last ↔ o = text.size ∧ o = last := by
  by_cases ho : o = text.size
  · have hdone : (eof : Parser ε Unit).Reads text o () o := ⟨none, .eof_done ho⟩
    constructor
    · intro h
      exact ⟨ho, (hdone.unique h).2⟩
    · intro ⟨_, hlast⟩
      rwa [← hlast]
  · have hfailed : ((eof : Parser ε Unit).run text).Acts o _ none := .eof_failed ho
    simp [ho, Reads, hfailed.not_reads]

theorem satisfy_reads {accepts : Char → Bool} {description : String} {c : Char}
    (h : (satisfy accepts description : Parser ε Char).Reads text o c last) :
    text[o]? = some c ∧ accepts c = true ∧ last = o + 1 := by
  obtain ⟨i, h⟩ := h
  have hrun := h none
  simp only [Parser.run, Step.satisfy] at hrun
  split at hrun
  next x hx =>
    split at hrun
    next ha =>
      cases hrun
      exact ⟨hx, ha, rfl⟩
    next => cases hrun
  next => cases hrun

end Parser
end BnfReader
