import BnfReader.Proofs.Acts

/-! The law of hints.

What a parser replies is decided by the parser, the text and the offset, and the hint it
leaves is the one it found with a hint of its own added (`Parser.run_isLocal`). All places it
points to, in its reply and in its hint, lie within the run (`Within`). The law is proved step
by step, one lemma for each form of parser, and then along the description.

A `Total` parser chooses among some parsers and converts without refusing. Whether a step may
fault is the parameter `faulty` of the law, so the same induction says that a total parser
comes back with a value or a mismatch. -/
namespace BnfReader

namespace Step
variable {ε α β : Type} {text : Array Char} {faulty : Prop}

/-- At each offset the step acts in one way, and points only to places within the run. -/
def IsLocal (text : Array Char) (faulty : Prop) (p : Step ε α) : Prop :=
  ∀ o, ∃ r i, p.Acts o r i ∧ r.Within text faulty o ∧ i.Within text o

theorem IsLocal.stays {p : Step ε α} (hp : p.IsLocal text faulty) : p.Stays text := by
  intro o a stop i ha
  obtain ⟨r, j, hr, hw, _⟩ := hp o
  obtain ⟨rfl, _⟩ := hr.unique ha
  exact hw

/-! ### One lemma for each form -/

theorem isLocal_pure (a : α) : (pure a : Step ε α).IsLocal text faulty := fun o =>
  ⟨_, _, .pure a o, .refl text o, Hint.within_none text o⟩

theorem isLocal_andThen {p : Step ε α} {next : α → Step ε β} (hp : p.IsLocal text faulty)
    (hn : ∀ a, (next a).IsLocal text faulty) : (p.andThen next).IsLocal text faulty := by
  intro o
  obtain ⟨r, i, ha, hr, hi⟩ := hp o
  cases r with
  | done a stop =>
    obtain ⟨r', j, ha', hr', hj⟩ := hn a stop
    exact ⟨r', i.add j, ha.andThen_done ha', .trans hr hr', hi.add (.trans hr hj)⟩
  | failed miss => exact ⟨_, _, ha.andThen_failed next, hr, hi⟩
  | fault cause => exact ⟨_, _, ha.andThen_fault next, hr, hi⟩

theorem isLocal_give {r : Except ε α} (hr : (∃ a, r = .ok a) ∨ faulty) :
    (give r).IsLocal text faulty := by
  intro o
  cases r with
  | ok a => exact ⟨_, _, .give_ok rfl o, .refl text o, Hint.within_none text o⟩
  | error e =>
    have hf : faulty := hr.resolve_left fun ⟨a, ha⟩ => by cases ha
    exact ⟨_, _, .give_error rfl o, hf, Hint.within_none text o⟩

theorem isLocal_both {p : Step ε α} {q : Step ε β} (hp : p.IsLocal text faulty) (hq : q.IsLocal text faulty) :
    (both p q).IsLocal text faulty :=
  isLocal_andThen hp fun _ => isLocal_andThen hq fun _ => isLocal_pure _

theorem isLocal_all {ps : List (Step ε α)} (hps : ∀ p ∈ ps, p.IsLocal text faulty) :
    (all ps).IsLocal text faulty := by
  induction ps with
  | nil => exact isLocal_pure []
  | cons p ps ih =>
    have hrest := ih fun q hq => hps q (List.mem_cons_of_mem p hq)
    exact isLocal_andThen (hps p (List.mem_cons_self ..)) fun a =>
      isLocal_andThen hrest fun as => isLocal_pure (a :: as)

theorem isLocal_satisfy (accepts : Char → Bool) (description : String) :
    (satisfy text accepts description : Step ε Char).IsLocal text faulty := by
  intro o
  by_cases h : ∃ c, text[o]? = some c ∧ accepts c = true
  · obtain ⟨c, hc, ha⟩ := h
    have ho : o < text.size := (Array.getElem?_eq_some_iff.1 hc).1
    exact ⟨_, _, .satisfy_done description hc ha, ⟨by omega, .inl (by omega)⟩, Hint.within_none text o⟩
  · have hc : ∀ c, text[o]? = some c → accepts c = false := fun c hc =>
      Bool.eq_false_iff.2 fun ha => h ⟨c, hc, ha⟩
    exact ⟨_, _, .satisfy_failed description hc, .refl text o, Hint.within_none text o⟩

theorem isLocal_string (s : String) : (string text s : Step ε String).IsLocal text faulty := by
  intro o
  by_cases h : o + s.length ≤ text.size ∧ (text.extract o (o + s.length)).toList = s.toList
  · exact ⟨_, _, .string_done h.1 h.2, ⟨by omega, .inl h.1⟩, Hint.within_none text o⟩
  · exact ⟨_, _, .string_failed h, .refl text o, Hint.within_none text o⟩

theorem isLocal_eof : (eof text : Step ε Unit).IsLocal text faulty := by
  intro o
  by_cases h : o = text.size
  · exact ⟨_, _, .eof_done h, .refl text o, Hint.within_none text o⟩
  · exact ⟨_, _, .eof_failed h, .refl text o, Hint.within_none text o⟩

/-- The mismatches of the branches before count as places of this run too. -/
theorem firstOf_acts {ps : List (Step ε α)} (hps : ∀ p ∈ ps, p.IsLocal text faulty) (o : Nat) (best : Hint)
    (hb : best.Within text o) (hne : ps ≠ [] ∨ best ≠ none ∨ faulty) :
    ∃ r i, (firstOf ps best).Acts o r i ∧ r.Within text faulty o ∧ i.Within text o := by
  induction ps generalizing best with
  | nil => cases best with
    | none =>
      have hf : faulty := by simpa using hne
      exact ⟨_, _, .firstOf_none o, hf, Hint.within_none text o⟩
    | some miss => exact ⟨_, _, .firstOf_some o miss, hb miss rfl, Hint.within_none text o⟩
  | cons p ps ih =>
    obtain ⟨r, i, ha, hr, hi⟩ := hps p (List.mem_cons_self ..) o
    cases r with
    | done a stop => exact ⟨_, _, ha.firstOf_done ps best, hr, hi⟩
    | fault cause => exact ⟨_, _, ha.firstOf_fault ps best, hr, hi⟩
    | failed miss =>
      have hb' : (best.note miss).Within text o := by
        rw [Hint.note_eq_add]
        exact hb.add (Hint.within_some hr)
      have hsome : best.note miss ≠ none := by cases best <;> simp [Hint.note]
      obtain ⟨r', j, ha', hr', hj⟩ :=
        ih (fun q hq => hps q (List.mem_cons_of_mem p hq)) (best.note miss) hb' (.inr (.inl hsome))
      exact ⟨r', i.add j, ha.firstOf_failed ha', hr', hi.add hj⟩

theorem isLocal_manyFrom {p : Step ε α} (hp : p.IsLocal text faulty) (budget : Nat) (seen : List α) :
    (manyFrom p budget seen).IsLocal text faulty := by
  intro o
  induction budget generalizing seen o with
  | zero =>
    obtain ⟨r, i, ha, hr, hi⟩ := hp o
    cases r with
    | done a stop => exact ⟨_, _, ha.manyFrom_spent seen, .refl text o, hi⟩
    | failed miss =>
      exact ⟨_, _, ha.manyFrom_failed 0 seen, .refl text o, hi.add (Hint.within_some hr)⟩
    | fault cause => exact ⟨_, _, ha.manyFrom_fault 0 seen, hr, hi⟩
  | succ budget ih =>
    obtain ⟨r, i, ha, hr, hi⟩ := hp o
    cases r with
    | done a stop =>
      by_cases hs : stop = o
      · subst hs
        exact ⟨_, _, ha.manyFrom_idle _ seen, .refl text _, hi⟩
      · obtain ⟨r', j, ha', hr', hj⟩ := ih (a :: seen) stop
        exact ⟨r', i.add j, ha.manyFrom_round hs ha', .trans hr hr', hi.add (.trans hr hj)⟩
    | failed miss =>
      exact ⟨_, _, ha.manyFrom_failed _ seen, .refl text o, hi.add (Hint.within_some hr)⟩
    | fault cause => exact ⟨_, _, ha.manyFrom_fault _ seen, hr, hi⟩

theorem isLocal_optional {p : Step ε α} (hp : p.IsLocal text faulty) (default : α) :
    (optional p default).IsLocal text faulty := by
  intro o
  obtain ⟨r, i, ha, hr, hi⟩ := hp o
  cases r with
  | failed miss =>
    exact ⟨_, _, ha.optional_failed default, .refl text o, hi.add (Hint.within_some hr)⟩
  | done a stop => exact ⟨_, _, ha.optional_other default (by simp), hr, hi⟩
  | fault cause => exact ⟨_, _, ha.optional_other default (by simp), hr, hi⟩

theorem isLocal_label {p : Step ε α} (hp : p.IsLocal text faulty) (description : String) :
    (label p description).IsLocal text faulty := by
  intro o
  obtain ⟨r, i, ha, hr, hi⟩ := hp o
  by_cases hm : ∃ miss, r = .failed miss ∧ miss.offset = o
  · obtain ⟨miss, rfl, hm⟩ := hm
    exact ⟨_, _, ha.label_here description hm fun m hm => (hi m hm).1, .refl text o, hi.past o⟩
  · exact ⟨r, i, ha.label_other description fun m hr h => hm ⟨m, hr, h⟩, hr, hi⟩

theorem isLocal_hidden {p : Step ε α} (hp : p.IsLocal text faulty) : (hidden p).IsLocal text faulty := by
  intro o
  obtain ⟨r, i, ha, hr, hi⟩ := hp o
  cases r with
  | done a stop => exact ⟨_, _, ha.hidden_done, hr, Hint.within_none text o⟩
  | failed miss => exact ⟨_, _, ha.hidden_other (by simp), hr, hi⟩
  | fault cause => exact ⟨_, _, ha.hidden_other (by simp), hr, hi⟩

end Step

namespace Parser
variable {ε α : Type}

/-- A parser whose choices have branches and whose conversions refuse nothing. -/
def Total {α : Type} : Parser ε α → Prop
  | .satisfy _ _ => True
  | .string _ => True
  | .eof => True
  | .both p q => p.Total ∧ q.Total
  | .all ps => ∀ k, (ps k).Total
  | @firstOf _ _ n ps => n ≠ 0 ∧ ∀ k, (ps k).Total
  | .many p => p.Total
  | .many1 p => p.Total
  | .optional p _ => p.Total
  | .convert p f => p.Total ∧ ∀ a, ∃ b, f a = .ok b
  | .label p _ => p.Total
  | .hidden p => p.Total

/-- The law of hints, along the description of a parser. -/
theorem run_isLocal (p : Parser ε α) (text : Array Char) {faulty : Prop} (hp : p.Total ∨ faulty) :
    (p.run text).IsLocal text faulty := by
  induction p with
  | satisfy accepts description => exact Step.isLocal_satisfy accepts description
  | string s => exact Step.isLocal_string s
  | eof => exact Step.isLocal_eof
  | both p q ihp ihq => exact Step.isLocal_both (ihp (hp.imp_left And.left)) (ihq (hp.imp_left And.right))
  | all ps ih =>
    refine Step.isLocal_all fun p hmem => ?_
    obtain ⟨k, rfl⟩ := List.mem_ofFn.1 hmem
    exact ih k (hp.imp_left fun h => h k)
  | @firstOf _ n ps ih =>
    intro o
    refine Step.firstOf_acts (fun p hmem => ?_) o none (Hint.within_none text o) ?_
    · obtain ⟨k, rfl⟩ := List.mem_ofFn.1 hmem
      exact ih k (hp.imp_left fun h => h.2 k)
    · refine hp.imp (fun h hnil => h.1 ?_) .inr
      simpa using congrArg List.length hnil
  | many p ih => exact fun o => Step.isLocal_manyFrom (ih hp) _ [] o
  | many1 p ih =>
    have hrest : (Step.many text (p.run text)).IsLocal text faulty := fun o =>
      Step.isLocal_manyFrom (ih hp) _ [] o
    exact Step.isLocal_andThen (ih hp) fun a =>
      Step.isLocal_andThen hrest fun as => Step.isLocal_pure _
  | optional p default ih => exact Step.isLocal_optional (ih hp) default
  | convert p f ih =>
    exact Step.isLocal_andThen (ih (hp.imp_left And.left)) fun a =>
      Step.isLocal_give (hp.imp_left fun h => h.2 a)
  | label p description ih => exact Step.isLocal_label (ih hp) description
  | hidden p ih => exact Step.isLocal_hidden (ih hp)

theorem run_stays (p : Parser ε α) (text : Array Char) : (p.run text).Stays text :=
  (p.run_isLocal text (.inr trivial)).stays

/-- **Hints are a local, additive effect**: at each offset of each text a total parser has one
outcome, a value or a mismatch, and one hint of its own at that offset or further, and
whatever hint it finds it comes back with that outcome and adds that hint. -/
theorem run_adds_local_hint (p : Parser ε α) (hp : p.Total) (text : Array Char) (o : Nat) :
    ∃ (r : Reply ε α) (i : Hint), (∀ cause, r ≠ .fault cause) ∧ (∀ m ∈ i, o ≤ m.offset) ∧
      ∀ h : Hint, p.run text o h = (r, h.add i) := by
  obtain ⟨r, i, ha, hr, hi⟩ := p.run_isLocal text (.inl hp : p.Total ∨ False) o
  refine ⟨r, i, ?_, fun m hm => (hi m hm).1, ha⟩
  rintro cause rfl
  exact hr

/-- A labelled run of letters and its end, which leaves a hint and then fails further on. -/
theorem run_adds_local_hint_of_label :
    (((char "a" : Parser Empty Char).many <* (char "b" : Parser Empty Char)).label "item").Total ∧
      ∃ (r : Reply Empty (List Char)) (i : Hint),
        (∀ cause, r ≠ .fault cause) ∧ (∀ m ∈ i, 1 ≤ m.offset) ∧
          ∀ h : Hint, (((char "a" : Parser Empty Char).many <* (char "b" : Parser Empty Char)).label
            "item").run #['b', 'a', 'c'] 1 h = (r, h.add i) := by
  have htotal : (((char "a" : Parser Empty Char).many <* (char "b" : Parser Empty Char)).label
      "item").Total := ⟨⟨trivial, trivial⟩, fun a => ⟨_, rfl⟩⟩
  exact ⟨htotal, run_adds_local_hint _ htotal _ _⟩

end Parser
end BnfReader
