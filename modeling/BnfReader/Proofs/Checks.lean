import BnfReader.Proofs.Following
import BnfReader.Proofs.Scanner

/-! The checks of a grammar refuse nothing that a layer reads.

Names, rules and documents are checked where they are made, and a value that does not pass
ends a run with a fault. The layers never hand over such a value: `p.Yields P` says that `p`
comes back, at every offset of every text, with a mismatch or with a value that has `P`, and
there is one rule for each way to build parsers. What a layer yields is just what the check
behind it asks for: a name is a letter and name characters, and `many1` and `sepBy1` give at
least one item. -/
namespace BnfReader

namespace Step
variable {ε α β : Type} {P : α → Prop} {Q : β → Prop}

/-- Wherever the step is taken, it comes back with a value that has the property or with a
mismatch, never with a fault. -/
def Yields (p : Step ε α) (P : α → Prop) : Prop :=
  ∀ o h, (∃ a stop h', p o h = (.done a stop, h') ∧ P a) ∨ ∃ m h', p o h = (.failed m, h')

theorem yields_pure {a : α} (ha : P a) : (pure a : Step ε α).Yields P := fun o h =>
  .inl ⟨a, o, h, rfl, ha⟩

theorem yields_give {r : Except ε α} {a : α} (hr : r = .ok a) (ha : P a) : (give r).Yields P := by
  intro o h
  subst hr
  exact .inl ⟨a, o, h, rfl, ha⟩

theorem Yields.andThen {p : Step ε α} {next : α → Step ε β} (hp : p.Yields P)
    (hn : ∀ a, P a → (next a).Yields Q) : (p.andThen next).Yields Q := by
  intro o h
  obtain ⟨a, stop, h', hrun, ha⟩ | ⟨m, h', hrun⟩ := hp o h
  · simp only [Step.andThen, hrun]
    exact hn a ha stop h'
  · simp only [Step.andThen, hrun]
    exact .inr ⟨m, h', rfl⟩

/-- A choice that has branches, or has seen one fail, is no fault. -/
theorem yields_firstOf {ps : List (Step ε α)} {best : Hint} (hps : ∀ p ∈ ps, p.Yields P)
    (hne : ps ≠ [] ∨ best ≠ none) : (firstOf ps best).Yields P := by
  intro o h
  induction ps generalizing best h with
  | nil => cases best with
    | none => simp at hne
    | some m => exact .inr ⟨m, h, rfl⟩
  | cons p ps ih =>
    obtain ⟨a, stop, h', hrun, ha⟩ | ⟨m, h', hrun⟩ := hps p List.mem_cons_self o h
    · simp only [firstOf, hrun]
      exact .inl ⟨a, stop, h', rfl, ha⟩
    · simp only [firstOf, hrun]
      have hsome : best.note m ≠ none := by cases best <;> simp [Hint.note]
      exact ih (fun q hq => hps q (List.mem_cons_of_mem p hq)) (.inr hsome) h'

/-- What was seen before counts among the items of a repetition. -/
theorem Yields.manyFrom {p : Step ε α} (hp : p.Yields P) (budget : Nat) {seen : List α}
    (hseen : ∀ a ∈ seen, P a) : (manyFrom p budget seen).Yields fun as => ∀ a ∈ as, P a := by
  intro o h
  have hall : ∀ a ∈ seen.reverse, P a := fun a ha => hseen a (List.mem_reverse.1 ha)
  induction budget generalizing seen o h with
  | zero =>
    unfold Step.manyFrom
    obtain ⟨a, stop, h', hrun, ha⟩ | ⟨m, h', hrun⟩ := hp o h
    · simp only [hrun, ite_self]
      exact .inl ⟨_, o, h', rfl, hall⟩
    · simp only [hrun]
      exact .inl ⟨_, o, _, rfl, hall⟩
  | succ budget ih =>
    unfold Step.manyFrom
    obtain ⟨a, stop, h', hrun, ha⟩ | ⟨m, h', hrun⟩ := hp o h
    · by_cases hidle : stop = o
      · simp only [hrun, hidle, if_true]
        exact .inl ⟨_, o, h', rfl, hall⟩
      · simp only [hrun, hidle, if_false]
        have hmore : ∀ b ∈ a :: seen, P b := List.forall_mem_cons.2 ⟨ha, hseen⟩
        exact ih hmore stop h' fun b hb => hmore b (List.mem_reverse.1 hb)
    · simp only [hrun]
      exact .inl ⟨_, o, _, rfl, hall⟩

theorem Yields.optional {p : Step ε α} (hp : p.Yields P) {default : α} (hd : P default) :
    (optional p default).Yields P := by
  intro o h
  obtain ⟨a, stop, h', hrun, ha⟩ | ⟨m, h', hrun⟩ := hp o h
  · simp only [Step.optional, hrun]
    exact .inl ⟨a, stop, h', rfl, ha⟩
  · simp only [Step.optional, hrun]
    exact .inl ⟨default, o, _, rfl, hd⟩

theorem Yields.label {p : Step ε α} (hp : p.Yields P) (description : String) :
    (label p description).Yields P := by
  intro o h
  obtain ⟨a, stop, h', hrun, ha⟩ | ⟨m, h', hrun⟩ := hp o h
  · simp only [Step.label, hrun]
    exact .inl ⟨a, stop, h', rfl, ha⟩
  · simp only [Step.label, hrun]
    split
    · exact .inr ⟨_, _, rfl⟩
    · exact .inr ⟨_, _, rfl⟩

theorem Yields.hidden {p : Step ε α} (hp : p.Yields P) : (hidden p).Yields P := by
  intro o h
  obtain ⟨a, stop, h', hrun, ha⟩ | ⟨m, h', hrun⟩ := hp o h
  · simp only [Step.hidden, hrun]
    exact .inl ⟨a, stop, h, rfl, ha⟩
  · simp only [Step.hidden, hrun]
    exact .inr ⟨m, h', rfl⟩

end Step

namespace Parser
variable {ε α β : Type} {P : α → Prop} {Q : β → Prop}

/-! ### One rule for each way to build parsers -/

/-- On every text the parser comes back with a value that has the property or with a mismatch. -/
def Yields (p : Parser ε α) (P : α → Prop) : Prop := ∀ text, (p.run text).Yields P

theorem yields_satisfy (accepts : Char → Bool) (description : String) :
    (satisfy accepts description : Parser ε Char).Yields fun c => accepts c = true := by
  intro text o h
  simp only [Parser.run, Step.satisfy]
  split
  next c _ =>
    split
    next hc => exact .inl ⟨c, o + 1, h, rfl, hc⟩
    next => exact .inr ⟨_, h, rfl⟩
  next => exact .inr ⟨_, h, rfl⟩

theorem yields_string (s : String) : (string s : Parser ε String).Yields fun _ => True := by
  intro text o h
  simp only [Parser.run, Step.string]
  split
  · exact .inl ⟨s, _, h, rfl, trivial⟩
  · exact .inr ⟨_, h, rfl⟩

theorem yields_eof : (eof : Parser ε Unit).Yields fun _ => True := by
  intro text o h
  simp only [Parser.run, Step.eof]
  split
  · exact .inl ⟨(), o, h, rfl, trivial⟩
  · exact .inr ⟨_, h, rfl⟩

theorem Yields.mono {p : Parser ε α} {P' : α → Prop} (hp : p.Yields P) (h : ∀ a, P a → P' a) :
    p.Yields P' := by
  intro text o hint
  obtain ⟨a, stop, h', hrun, ha⟩ | hfailed := hp text o hint
  · exact .inl ⟨a, stop, h', hrun, h a ha⟩
  · exact .inr hfailed

theorem Yields.both {p : Parser ε α} {q : Parser ε β} (hp : p.Yields P) (hq : q.Yields Q) :
    (p.both q).Yields fun ab => P ab.1 ∧ Q ab.2 := fun text =>
  (hp text).andThen fun _ ha => (hq text).andThen fun _ hb => Step.yields_pure ⟨ha, hb⟩

theorem Yields.or {p q : Parser ε α} (hp : p.Yields P) (hq : q.Yields P) : (p <|> q).Yields P := by
  intro text
  rw [run_or]
  refine Step.yields_firstOf (fun step hstep => ?_) (.inl (List.cons_ne_nil _ _))
  rcases List.mem_cons.1 hstep with rfl | hstep
  · exact hp text
  · rw [List.mem_singleton.1 hstep]
    exact hq text

theorem Yields.many {p : Parser ε α} (hp : p.Yields P) : p.many.Yields fun as => ∀ a ∈ as, P a :=
  fun text o => (hp text).manyFrom (text.size - o) (List.forall_mem_nil P) o

/-- Repetitions, at least one. -/
theorem Yields.many1 {p : Parser ε α} (hp : p.Yields P) :
    p.many1.Yields fun as => as ≠ [] ∧ ∀ a ∈ as, P a := fun text =>
  (hp text).andThen fun a ha => (hp.many text).andThen fun as has =>
    Step.yields_pure ⟨List.cons_ne_nil a as, List.forall_mem_cons.2 ⟨ha, has⟩⟩

theorem Yields.optional {p : Parser ε α} (hp : p.Yields P) {default : α} (hd : P default) :
    (p.optional default).Yields P := fun text => (hp text).optional hd

/-- A conversion refuses nothing if it takes all that the parser yields. -/
theorem Yields.convert {p : Parser ε α} {f : α → Except ε β} (hp : p.Yields P)
    (hf : ∀ a, P a → ∃ b, f a = .ok b ∧ Q b) : (p.convert f).Yields Q := by
  intro text
  refine (hp text).andThen fun a ha => ?_
  obtain ⟨b, hb, hQ⟩ := hf a ha
  exact Step.yields_give hb hQ

theorem Yields.map {p : Parser ε α} {f : α → β} (hp : p.Yields P) (hf : ∀ a, P a → Q (f a)) :
    (p.map f).Yields Q :=
  hp.convert fun a ha => ⟨f a, rfl, hf a ha⟩

theorem Yields.right {p : Parser ε α} {q : Parser ε β} (hp : p.Yields P) (hq : q.Yields Q) :
    (p *> q).Yields Q :=
  (hp.both hq).map fun _ hab => hab.2

theorem Yields.left {p : Parser ε α} {q : Parser ε β} (hp : p.Yields P) (hq : q.Yields Q) :
    (p <* q).Yields P :=
  (hp.both hq).map fun _ hab => hab.1

theorem Yields.label {p : Parser ε α} (hp : p.Yields P) (description : String) :
    (p.label description).Yields P := fun text => (hp text).label description

theorem Yields.hidden {p : Parser ε α} (hp : p.Yields P) : p.hidden.Yields P := fun text =>
  (hp text).hidden

/-- Items with separators between them, at least one. -/
theorem Yields.sepBy1 {p : Parser ε α} {separator : Parser ε β} (hp : p.Yields P)
    (hs : separator.Yields Q) : (p.sepBy1 separator).Yields fun as => as ≠ [] ∧ ∀ a ∈ as, P a :=
  (hp.both (hs.right hp).many).map fun ab hab =>
    ⟨List.cons_ne_nil ab.1 ab.2, List.forall_mem_cons.2 hab⟩

/-- A text is read from its start or answered with a report. -/
theorem Yields.parse {p : Parser ε α} (hp : p.Yields P) (text : String) :
    (∃ a, p.parse text = .ok a ∧ P a) ∨ ∃ f, p.parse text = .error (.failure f) := by
  obtain ⟨a, stop, h, hrun, ha⟩ | ⟨m, h, hrun⟩ := hp text.toList.toArray 0 none
  · exact .inl ⟨a, by simp only [Parser.parse, hrun], ha⟩
  · refine .inr ⟨Failure.ofMismatch text.toList.toArray (h.explain m), ?_⟩
    simp only [Parser.parse, hrun]

end Parser

/-! ### What is asked of a grammar -/

/-- An ASCII letter. -/
def IsLetter (c : Char) : Prop := 'A' ≤ c ∧ c ≤ 'Z' ∨ 'a' ≤ c ∧ c ≤ 'z'

/-- A character of a name: an ASCII letter, a digit or a dash. -/
def IsNameChar (c : Char) : Prop := IsLetter c ∨ '0' ≤ c ∧ c ≤ '9' ∨ c = '-'

/-- A letter and characters of a name behind it. -/
def IsNameText (s : String) : Prop :=
  ∃ c cs, s.toList = c :: cs ∧ IsLetter c ∧ ∀ x ∈ cs, IsNameChar x

/-- A reference has a name. -/
def Term.Valid : Term → Prop
  | .literal _ => True
  | .ref name => IsNameText name.text

/-- There is an alternative, none is empty, and the terms are valid. -/
def AlternativesValid (alternatives : List (List Term)) : Prop :=
  alternatives ≠ [] ∧ ∀ terms ∈ alternatives, terms ≠ [] ∧ ∀ t ∈ terms, t.Valid

def Rule.Valid (r : Rule) : Prop := IsNameText r.name.text ∧ AlternativesValid r.alternatives

/-- There is a rule, and all rules are valid. -/
def Document.Valid (d : Document) : Prop := d.rules ≠ [] ∧ ∀ r ∈ d.rules, r.Valid

theorem letters_iff (c : Char) : Layers.letters.contains c = true ↔ IsLetter c := by
  rw [letters_contains]
  simp [between, IsLetter]

theorem nameChars_iff (c : Char) : Layers.nameChars.contains c = true ↔ IsNameChar c := by
  rw [nameChars_contains]
  simp [between, IsNameChar, IsLetter, or_assoc]

theorem isName_iff (s : String) : isName s = true ↔ IsNameText s := by
  obtain ⟨cs, rfl⟩ : ∃ cs, s = String.ofList cs := ⟨s.toList, by simp⟩
  cases cs with
  | nil => simp [isName, IsNameText]
  | cons c cs =>
    simp only [isName_ofList, Bool.and_eq_true, List.all_eq_true, letters_iff, nameChars_iff, IsNameText,
      String.toList_ofList, List.cons.injEq]
    constructor
    · rintro ⟨hc, hcs⟩
      exact ⟨c, cs, ⟨rfl, rfl⟩, hc, hcs⟩
    · rintro ⟨_, _, ⟨rfl, rfl⟩, hc, hcs⟩
      exact ⟨hc, hcs⟩

theorem Term.refTo_ok {s : String} (h : IsNameText s) : ∃ t, Term.refTo s = .ok t ∧ t.Valid := by
  have hname : isName s = true := (isName_iff s).2 h
  refine ⟨.ref ⟨s, hname⟩, ?_, h⟩
  simp only [Term.refTo, Name.ofString, hname, dite_true]
  rfl

theorem Rule.make_ok {s : String} {alternatives : List (List Term)} (hs : IsNameText s)
    (ha : AlternativesValid alternatives) : ∃ r, Rule.make s alternatives = .ok r ∧ r.Valid := by
  have hname : isName s = true := (isName_iff s).2 hs
  have hsome : alternatives ≠ [] ∧ ∀ terms ∈ alternatives, terms ≠ [] :=
    ⟨ha.1, fun terms hterms => (ha.2 terms hterms).1⟩
  refine ⟨⟨⟨s, hname⟩, alternatives, hsome.1, hsome.2⟩, ?_, hs, ha⟩
  simp only [Rule.make, Name.ofString, hname, dite_true]
  exact dif_pos hsome

theorem Document.make_ok {rules : List Rule} (hne : rules ≠ []) (hr : ∀ r ∈ rules, r.Valid) :
    ∃ d, Document.make rules = .ok d ∧ d.Valid :=
  ⟨⟨rules, hne⟩, dif_pos hne, hne, hr⟩

/-! ### What each layer yields -/

namespace Layers

theorem spaces_yields : spaces.Yields fun cs => ∀ c ∈ cs, Scan.isBlank c = true :=
  (Parser.yields_satisfy _ _).many.hidden

theorem char_yields (c : String) : (.char c : Layer Char).Yields fun _ => True :=
  (Parser.yields_satisfy _ _).mono fun _ _ => trivial

theorem lineEnd_yields : lineEnd.Yields fun cs => cs ≠ [] ∧ ∀ c ∈ cs, Scan.isBreak c = true :=
  ((spaces_yields.right (Parser.yields_satisfy _ _)).many1.left (Parser.yields_satisfy _ _).many).label _

theorem letter_yields : letter.Yields IsLetter :=
  (Parser.yields_satisfy _ _).mono fun c hc => (letters_iff c).1 hc

theorem nameChar_yields : nameChar.Yields IsNameChar :=
  (Parser.yields_satisfy _ _).mono fun c hc => (nameChars_iff c).1 hc

theorem between_yields {quote : String} {inner : Layer Char} {P : Char → Prop} (hinner : inner.Yields P) :
    (between quote inner).Yields fun _ => True :=
  (((char_yields quote).right hinner.many).left (char_yields quote)).map fun _ _ => trivial

theorem literal_yields : literal.Yields Term.Valid :=
  (((between_yields (Parser.yields_satisfy _ _)).or (between_yields (Parser.yields_satisfy _ _))).map
    fun _ _ => trivial).label _

theorem ruleName_yields : ruleName.Yields IsNameText :=
  ((letter_yields.both nameChar_yields.many).map fun ab hab =>
    ⟨ab.1, ab.2, String.toList_ofList, hab.1, hab.2⟩).label _

theorem ruleRef_yields : ruleRef.Yields Term.Valid :=
  ((((char_yields "<").right ruleName_yields).left (char_yields ">")).convert fun _ hs =>
    Term.refTo_ok hs).label _

theorem term_yields : term.Yields Term.Valid := literal_yields.or ruleRef_yields

theorem termList_yields : termList.Yields fun terms => terms ≠ [] ∧ ∀ t ∈ terms, t.Valid :=
  (spaces_yields.right term_yields).many1

theorem expression_yields : expression.Yields AlternativesValid :=
  termList_yields.sepBy1 ((spaces_yields.right (char_yields "|")).left spaces_yields)

theorem ruleHead_yields : ruleHead.Yields IsNameText :=
  (((((spaces_yields.right (char_yields "<")).right ruleName_yields).left (char_yields ">")).left
    spaces_yields).left (Parser.yields_string "::=")).left spaces_yields

theorem ruleBody_yields : ruleBody.Yields Rule.Valid :=
  (ruleHead_yields.both (expression_yields.left spaces_yields)).convert fun _ hab =>
    Rule.make_ok hab.1 hab.2

theorem rule_yields : rule.Yields Rule.Valid :=
  ruleBody_yields.left ((lineEnd_yields.mono fun _ _ => trivial).optional (P := fun _ => True) trivial)

theorem document_yields : document.Yields Document.Valid :=
  (((ruleBody_yields.sepBy1 lineEnd_yields).left (Parser.yields_satisfy _ _).many).left
    Parser.yields_eof).convert fun _ hrules => Document.make_ok hrules.1 hrules.2

/-- The layers, each with what holds of every value that it reads. -/
inductive Promises : {α : Type} → Layer α → (α → Prop) → Prop where
  | hspace : Promises hspace fun c => Scan.isBlank c = true
  | spaces : Promises spaces fun cs => ∀ c ∈ cs, Scan.isBlank c = true
  | newline : Promises newline fun c => Scan.isBreak c = true
  | whitespace : Promises whitespace fun c => Scan.isWhite c = true
  | lineEnd : Promises lineEnd fun cs => cs ≠ [] ∧ ∀ c ∈ cs, Scan.isBreak c = true
  | nameChar : Promises nameChar IsNameChar
  | letter : Promises letter IsLetter
  | doubleQuotedChar : Promises doubleQuotedChar fun c => (c != '"') = true
  | singleQuotedChar : Promises singleQuotedChar fun c => (c != '\'') = true
  | literal : Promises literal Term.Valid
  | ruleName : Promises ruleName IsNameText
  | ruleRef : Promises ruleRef Term.Valid
  | term : Promises term Term.Valid
  | termList : Promises termList fun terms => terms ≠ [] ∧ ∀ t ∈ terms, t.Valid
  | expression : Promises expression AlternativesValid
  | ruleHead : Promises ruleHead IsNameText
  | ruleBody : Promises ruleBody Rule.Valid
  | rule : Promises rule Rule.Valid
  | document : Promises document Document.Valid

theorem Promises.yields {α : Type} {p : Layer α} {P : α → Prop} (h : Promises p P) : p.Yields P := by
  cases h with
  | hspace => exact Parser.yields_satisfy _ _
  | spaces => exact spaces_yields
  | newline => exact Parser.yields_satisfy _ _
  | whitespace => exact Parser.yields_satisfy _ _
  | lineEnd => exact lineEnd_yields
  | nameChar => exact nameChar_yields
  | letter => exact letter_yields
  | doubleQuotedChar => exact Parser.yields_satisfy _ _
  | singleQuotedChar => exact Parser.yields_satisfy _ _
  | literal => exact literal_yields
  | ruleName => exact ruleName_yields
  | ruleRef => exact ruleRef_yields
  | term => exact term_yields
  | termList => exact termList_yields
  | expression => exact expression_yields
  | ruleHead => exact ruleHead_yields
  | ruleBody => exact ruleBody_yields
  | rule => exact rule_yields
  | document => exact document_yields

end Layers

/-- A text is read as a document or answered with a report. -/
theorem Document.parse_ok_or_failure (text : String) :
    (∃ d, Document.parse text = .ok d ∧ d.Valid) ∨ ∃ f, Document.parse text = .error (.failure f) :=
  Layers.document_yields.parse text

/-- **No check refuses what was read**: each layer, at each offset of each text and whatever the
hint there, comes back with a value that keeps its promise or with a mismatch. So reading a
document never faults. -/
theorem Layers.run_done_or_failed :
    (∀ {α : Type} (p : Layer α) (P : α → Prop), Promises p P →
      ∀ (text : Array Char) (o : Nat) (h : Hint),
        (∃ a stop, (p.run text o h).1 = .done a stop ∧ P a) ∨ ∃ m, (p.run text o h).1 = .failed m) ∧
    (∀ text, (∃ d, Document.parse text = .ok d ∧ d.Valid) ∨
      ∃ f, Document.parse text = .error (.failure f)) := by
  refine ⟨fun p P hp text o h => ?_, Document.parse_ok_or_failure⟩
  obtain ⟨a, stop, h', hrun, ha⟩ | ⟨m, h', hrun⟩ := hp.yields text o h
  · exact .inl ⟨a, stop, congrArg Prod.fst hrun, ha⟩
  · exact .inr ⟨m, congrArg Prod.fst hrun⟩

/-- A document with a reference in it, from the second character of a text on. -/
theorem Layers.run_done_or_failed_of_reference :
    Promises document Document.Valid ∧
      ∃ d, (document.run "?<a> ::= 'x' | <b-1>\n".toList.toArray 1 none).1 = .done d 21 ∧ d.Valid := by
  let d : Document := ⟨[⟨⟨"a", by decide⟩, [[.literal "x"], [.ref ⟨"b-1", by decide⟩]], by simp, by simp⟩],
    by simp⟩
  have hdone : (document.run "?<a> ::= 'x' | <b-1>\n".toList.toArray 1 none).1 = .done d 21 := rfl
  obtain ⟨e, stop, hrun, he⟩ | ⟨m, hrun⟩ := Layers.run_done_or_failed.1 document Document.Valid .document
    "?<a> ::= 'x' | <b-1>\n".toList.toArray 1 none
  · obtain ⟨rfl, rfl⟩ : d = e ∧ 21 = stop := by simpa using hdone.symm.trans hrun
    exact ⟨.document, d, hdone, he⟩
  · cases hdone.symm.trans hrun

end BnfReader
