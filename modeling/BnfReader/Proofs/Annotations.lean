import BnfReader.Proofs.Locality

/-! Annotations shape the report and nothing else.

`Parser.bare` is a parser without its labels and without the hiding of hints. The two run side by
side, whatever hints either of them finds: they read the same values up to the same offsets, and
where they do not match their mismatches are at one offset (`Reply.Alike`). This is kept by each
way to put steps together, and an annotation on either side does not disturb it.

What a label does change is the expectation of a mismatch at its own offset. It puts its
description there and leaves no hint of its own that is not further on. -/
namespace BnfReader

/-- The same value with the same end, two mismatches at one offset, or the same fault. -/
inductive Reply.Alike {ε α : Type} : Reply ε α → Reply ε α → Prop where
  | done (a : α) (stop : Nat) : Alike (.done a stop) (.done a stop)
  | failed {m m' : Mismatch} : m.offset = m'.offset → Alike (.failed m) (.failed m')
  | fault (cause : Fault ε) : Alike (.fault cause) (.fault cause)

theorem Reply.Alike.refl {ε α : Type} (r : Reply ε α) : r.Alike r := by
  cases r with
  | done a stop => exact .done a stop
  | failed m => exact .failed rfl
  | fault cause => exact .fault cause

namespace Step
variable {ε α β : Type} {p q : Step ε α}

/-- Whatever hints they find, the two steps reply alike at each offset. -/
def Alike (p q : Step ε α) : Prop := ∀ o h h', (p o h).1.Alike (q o h').1

/-- The three ways in which two steps reply alike. -/
theorem Alike.outcomes (hp : p.Alike q) (o : Nat) (h h' : Hint) :
    (∃ a stop i j, p o h = (.done a stop, i) ∧ q o h' = (.done a stop, j)) ∨
    (∃ m m' i j, p o h = (.failed m, i) ∧ q o h' = (.failed m', j) ∧ m.offset = m'.offset) ∨
    ∃ cause i j, p o h = (.fault cause, i) ∧ q o h' = (.fault cause, j) := by
  have hreplies := hp o h h'
  cases hx : p o h with
  | mk r i =>
    cases hy : q o h' with
    | mk r' j =>
      rw [hx, hy] at hreplies
      cases hreplies with
      | done a stop => exact .inl ⟨a, stop, i, j, rfl, rfl⟩
      | failed hm => exact .inr (.inl ⟨_, _, i, j, rfl, rfl, hm⟩)
      | fault cause => exact .inr (.inr ⟨cause, i, j, rfl, rfl⟩)

/-- A step that acts in one way at each offset is like itself. -/
theorem IsLocal.alike {text : Array Char} {faulty : Prop} (hp : p.IsLocal text faulty) : p.Alike p := by
  intro o h h'
  obtain ⟨r, i, hacts, _⟩ := hp o
  rw [hacts h, hacts h']
  exact .refl r

/-! ### Sequencing -/

theorem alike_pure (a : α) : (pure a : Step ε α).Alike (pure a) := fun o _ _ => .done a o

theorem alike_andThen {next next' : α → Step ε β} (hp : p.Alike q) (hn : ∀ a, (next a).Alike (next' a)) :
    (p.andThen next).Alike (q.andThen next') := by
  intro o h h'
  obtain ⟨a, stop, i, j, hx, hy⟩ | ⟨m, m', i, j, hx, hy, hm⟩ | ⟨cause, i, j, hx, hy⟩ := hp.outcomes o h h'
  · simp only [andThen, hx, hy]
    exact hn a stop i j
  · simp only [andThen, hx, hy]
    exact .failed hm
  · simp only [andThen, hx, hy]
    exact .fault cause

theorem alike_all {n : Nat} {ps qs : Fin n → Step ε α} (h : ∀ k, (ps k).Alike (qs k)) :
    (all (List.ofFn ps)).Alike (all (List.ofFn qs)) := by
  induction n with
  | zero =>
    simp only [List.ofFn_zero]
    exact alike_pure []
  | succ n ih =>
    simp only [List.ofFn_succ]
    apply alike_andThen (h 0)
    intro a
    exact alike_andThen (ih fun k => h k.succ) fun as => alike_pure (a :: as)

/-! ### Choice and repetition -/

/-- Noting mismatches at one offset keeps two hints at one offset. -/
theorem note_offset {best best' : Hint} {m m' : Mismatch}
    (hbest : best.map Mismatch.offset = best'.map Mismatch.offset) (hm : m.offset = m'.offset) :
    (best.note m).map Mismatch.offset = (best'.note m').map Mismatch.offset := by
  cases best with
  | none => cases best' with
    | none => exact congrArg some hm
    | some b' => cases hbest
  | some b => cases best' with
    | none => cases hbest
    | some b' =>
      have hb : b.offset = b'.offset := Option.some.inj hbest
      simp only [Hint.note, Option.map_some, Mismatch.offset_merge, hb, hm]

/-- Two choices go on alike if the branches before them failed at one offset. -/
theorem alike_firstOf {n : Nat} {ps qs : Fin n → Step ε α} (hpq : ∀ k, (ps k).Alike (qs k)) {best best' : Hint}
    (hbest : best.map Mismatch.offset = best'.map Mismatch.offset) :
    (firstOf (List.ofFn ps) best).Alike (firstOf (List.ofFn qs) best') := by
  intro o h h'
  induction n generalizing best best' h h' with
  | zero =>
    simp only [List.ofFn_zero]
    cases best with
    | none => cases best' with
      | none => exact .fault .noBranch
      | some m' => cases hbest
    | some m => cases best' with
      | none => cases hbest
      | some m' => exact .failed (Option.some.inj hbest)
  | succ n ih =>
    simp only [List.ofFn_succ]
    obtain ⟨a, stop, i, j, hx, hy⟩ | ⟨m, m', i, j, hx, hy, hm⟩ | ⟨cause, i, j, hx, hy⟩ :=
      (hpq 0).outcomes o h h'
    · simp only [firstOf, hx, hy]
      exact .done a stop
    · simp only [firstOf, hx, hy]
      exact ih (fun k => hpq k.succ) (note_offset hbest hm) i j
    · simp only [firstOf, hx, hy]
      exact .fault cause

theorem alike_manyFrom (hp : p.Alike q) (budget : Nat) (seen : List α) :
    (manyFrom p budget seen).Alike (manyFrom q budget seen) := by
  intro o h h'
  induction budget generalizing seen o h h' with
  | zero =>
    unfold manyFrom
    obtain ⟨a, stop, i, j, hx, hy⟩ | ⟨m, m', i, j, hx, hy, hm⟩ | ⟨cause, i, j, hx, hy⟩ := hp.outcomes o h h'
    · simp only [hx, hy, ite_self]
      exact .done _ o
    · simp only [hx, hy]
      exact .done _ o
    · simp only [hx, hy]
      exact .fault cause
  | succ budget ih =>
    unfold manyFrom
    obtain ⟨a, stop, i, j, hx, hy⟩ | ⟨m, m', i, j, hx, hy, hm⟩ | ⟨cause, i, j, hx, hy⟩ := hp.outcomes o h h'
    · simp only [hx, hy]
      split
      · exact .done _ o
      · exact ih (a :: seen) stop i j
    · simp only [hx, hy]
      exact .done _ o
    · simp only [hx, hy]
      exact .fault cause

theorem alike_many (hp : p.Alike q) (text : Array Char) : (many text p).Alike (many text q) :=
  fun o h h' => alike_manyFrom hp _ [] o h h'

theorem alike_optional (hp : p.Alike q) (default : α) : (optional p default).Alike (optional q default) := by
  intro o h h'
  obtain ⟨a, stop, i, j, hx, hy⟩ | ⟨m, m', i, j, hx, hy, hm⟩ | ⟨cause, i, j, hx, hy⟩ := hp.outcomes o h h'
  · simp only [optional, hx, hy]
    exact .done a stop
  · simp only [optional, hx, hy]
    exact .done default o
  · simp only [optional, hx, hy]
    exact .fault cause

/-! ### Annotations on one side -/

/-- A label moves no mismatch. -/
theorem label_alike (hp : p.Alike q) (description : String) : (label p description).Alike q := by
  intro o h h'
  obtain ⟨a, stop, i, j, hx, hy⟩ | ⟨m, m', i, j, hx, hy, hm⟩ | ⟨cause, i, j, hx, hy⟩ := hp.outcomes o h h'
  · simp only [label, hx, hy]
    exact .done a stop
  · simp only [label, hx, hy]
    split
    next hhere => exact .failed (hhere.symm.trans hm)
    next => exact .failed hm
  · simp only [label, hx, hy]
    exact .fault cause

theorem hidden_alike (hp : p.Alike q) : (hidden p).Alike q := by
  intro o h h'
  obtain ⟨a, stop, i, j, hx, hy⟩ | ⟨m, m', i, j, hx, hy, hm⟩ | ⟨cause, i, j, hx, hy⟩ := hp.outcomes o h h'
  · simp only [hidden, hx, hy]
    exact .done a stop
  · simp only [hidden, hx, hy]
    exact .failed hm
  · simp only [hidden, hx, hy]
    exact .fault cause

end Step

namespace Parser
variable {ε α : Type}

/-- The parser without its annotations. -/
def bare {α : Type} : Parser ε α → Parser ε α
  | .satisfy accepts description => .satisfy accepts description
  | .string s => .string s
  | .eof => .eof
  | .both p q => .both p.bare q.bare
  | .all ps => .all fun k => (ps k).bare
  | .firstOf ps => .firstOf fun k => (ps k).bare
  | .many p => .many p.bare
  | .many1 p => .many1 p.bare
  | .optional p default => .optional p.bare default
  | .convert p f => .convert p.bare f
  | .label p _ => p.bare
  | .hidden p => p.bare

/-- A parser in which nothing is labelled and nothing hidden. -/
def Plain {α : Type} : Parser ε α → Prop
  | .satisfy _ _ => True
  | .string _ => True
  | .eof => True
  | .both p q => p.Plain ∧ q.Plain
  | .all ps => ∀ k, (ps k).Plain
  | .firstOf ps => ∀ k, (ps k).Plain
  | .many p => p.Plain
  | .many1 p => p.Plain
  | .optional p _ => p.Plain
  | .convert p _ => p.Plain
  | .label _ _ => False
  | .hidden _ => False

theorem bare_plain (p : Parser ε α) : p.bare.Plain := by
  induction p with
  | satisfy accepts description => trivial
  | string s => trivial
  | eof => trivial
  | both p q ihp ihq => exact ⟨ihp, ihq⟩
  | all ps ih => exact ih
  | firstOf ps ih => exact ih
  | many p ih => exact ih
  | many1 p ih => exact ih
  | optional p default ih => exact ih
  | convert p f ih => exact ih
  | label p description ih => exact ih
  | hidden p ih => exact ih

/-- A parser and the same without annotations run side by side. -/
theorem run_alike_bare (p : Parser ε α) (text : Array Char) : (p.run text).Alike (p.bare.run text) := by
  induction p with
  | satisfy accepts description => exact (run_isLocal _ text (.inr trivial)).alike
  | string s => exact (run_isLocal _ text (.inr trivial)).alike
  | eof => exact (run_isLocal _ text (.inr trivial)).alike
  | both p q ihp ihq =>
    apply Step.alike_andThen ihp
    intro a
    exact Step.alike_andThen ihq fun b => Step.alike_pure (a, b)
  | all ps ih => exact Step.alike_all ih
  | firstOf ps ih => exact Step.alike_firstOf ih rfl
  | many p ih => exact Step.alike_many ih text
  | many1 p ih =>
    apply Step.alike_andThen ih
    intro a
    exact Step.alike_andThen (Step.alike_many ih text) fun as => Step.alike_pure (a :: as)
  | optional p default ih => exact Step.alike_optional ih default
  | convert p f ih =>
    apply Step.alike_andThen ih
    intro a
    have hgive : (Step.give (f a)).IsLocal text True := Step.isLocal_give (.inr trivial)
    exact hgive.alike
  | label p description ih => exact Step.label_alike ih description
  | hidden p ih => exact Step.hidden_alike ih

/-- A mismatch of a labelled parser at its own offset is the description's, and a hint that was
left on the way is dropped unless it is further on. -/
theorem label_here {p : Parser ε α} {description : String} {text : Array Char} {o : Nat} {h h' : Hint}
    {m : Mismatch} (hrun : (p.label description).run text o h = (.failed m, h')) (hm : m.offset = o) :
    m.expected = .only description ∧ (h' = h ∨ ∃ k ∈ h', o < k.offset) := by
  obtain ⟨r, i, hacts, -, hi⟩ := p.run_isLocal text (.inr trivial : p.Total ∨ True) o
  by_cases hhere : ∃ miss, r = .failed miss ∧ miss.offset = o
  · obtain ⟨miss, rfl, hmiss⟩ := hhere
    have hlabel := hacts.label_here description hmiss fun k hk => (hi k hk).1
    cases hrun.symm.trans (hlabel h)
    refine ⟨rfl, ?_⟩
    cases hpast : i.past o with
    | none => exact .inl (Hint.add_none h)
    | some k =>
      have hk : o < k.offset := by simpa using (Option.filter_eq_some_iff.1 hpast).2
      rw [Hint.add_comm]
      right
      cases h with
      | none => exact ⟨k, rfl, hk⟩
      | some a =>
        have hle := Mismatch.offset_merge k a
        exact ⟨k.merge a, rfl, by omega⟩
  · have hother := hacts.label_other description fun miss hr hoffset => hhere ⟨miss, hr, hoffset⟩
    cases hrun.symm.trans (hother h)
    exact absurd ⟨m, rfl, hm⟩ hhere

/-- **Annotations never change what is read**: at each offset, whatever hint is there, a parser
and the same without its annotations read the same or fail at one offset. And a labelled parser
that fails at its own offset expects just its description, and leaves the hint that it found or
one that is further on. -/
theorem run_bare (p : Parser ε α) (text : Array Char) (o : Nat) (h : Hint) :
    p.bare.Plain ∧ (p.run text o h).1.Alike (p.bare.run text o h).1 ∧
      ∀ description m h', (p.label description).run text o h = (.failed m, h') → m.offset = o →
        m.expected = .only description ∧ (h' = h ∨ ∃ k ∈ h', o < k.offset) :=
  ⟨p.bare_plain, p.run_alike_bare text o h h, fun _ _ _ hrun hm => label_here hrun hm⟩

/-- A labelled parser that passes over a labelled mismatch further on and then fails where it began. -/
theorem run_bare_of_label :
    let p : Parser Empty Char :=
      (char "a" *> (char "b" : Parser Empty Char).label "bee" : Parser Empty Char).many *> (char "c").hidden
    let h : Hint := some ⟨0, .only "z"⟩
    (p.label "item").run #['a', 'x'] 0 h = (.failed ⟨0, .only "item"⟩, some ⟨1, .only "bee"⟩) ∧
      (p.run #['a', 'x'] 0 h).1.Alike (p.bare.run #['a', 'x'] 0 h).1 ∧
      (some ⟨1, .only "bee"⟩ = h ∨ ∃ k ∈ (some ⟨1, .only "bee"⟩ : Hint), 0 < k.offset) := by
  intro p h
  have hrun : (p.label "item").run #['a', 'x'] 0 h = (.failed ⟨0, .only "item"⟩, some ⟨1, .only "bee"⟩) := by
    decide +kernel
  have hbare := run_bare p #['a', 'x'] 0 h
  exact ⟨hrun, hbare.2.1, (hbare.2.2 "item" _ _ hrun rfl).2⟩

end Parser
end BnfReader
