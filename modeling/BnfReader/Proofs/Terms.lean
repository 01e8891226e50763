import BnfReader.Proofs.Following
import BnfReader.Proofs.Scanner

/-! Names, literals and terms, as the layers and as the scanner read them.

For each layer there is one way it can go for each way the text can go on, and in each the
layer's reply and hint are set against what the scanner does with the same characters. A term
is absent, or it is read, or it is broken off; in the last case its mismatch is the one that
the scanner reports (`TermRun`). -/
namespace BnfReader
open Scan

/-! ### Explaining a mismatch -/

theorem Hint.explain_here (o : Nat) (a b : Expected) :
    Hint.explain (some ⟨o, a⟩) ⟨o, b⟩ = ⟨o, b.union a⟩ :=
  Mismatch.merge_here o b a

theorem Hint.le_explain (i : Hint) (m : Mismatch) : m.offset ≤ (i.explain m).offset := by
  cases i with
  | none => exact Nat.le_refl _
  | some a =>
    have := Mismatch.offset_merge m a
    show m.offset ≤ (m.merge a).offset
    omega

/-- A hint behind the mismatch explains nothing. -/
theorem Hint.explain_of_lt {a m : Mismatch} (i : Hint) (h : a.offset < m.offset) :
    (Hint.add (some a) i).explain m = i.explain m := by
  have hle : m.offset ≤ (i.explain m).offset := i.le_explain m
  have hsum := Hint.add_assoc (some a) i (some m)
  rw [Hint.add_explain, Hint.add_explain, Hint.add_of_lt (by omega)] at hsum
  exact Option.some.inj hsum

namespace Layers
variable {text : Array Char} {o stop : Nat} {c : Char} {cs us rest : List Char}

/-! ### Blanks -/

theorem spaces_at (h : At text o (us ++ cs)) (hus : us.all isBlank = true)
    (hcs : cs.head?.any isBlank = false) :
    (spaces.run text).Acts o (.done us (o + us.length)) none :=
  (Parser.many_satisfy_at "space" h hus hcs).hidden_done

theorem read_blanks {s : State} (hs : ∀ c, isBlank c = true → s.next c = some s)
    (hus : us.all isBlank = true) : read s o (us ++ cs) = read s (o + us.length) cs :=
  read_walk (walk_loop hs hus)

/-! ### Names -/

theorem ruleName_at (n : Name) (h : At text o (n.text.toList ++ cs))
    (hcs : cs.head?.any nameChars.contains = false) :
    (ruleName.run text).Acts o (.done n.text (o + n.text.toList.length))
      (some ⟨o + n.text.toList.length, .only "name character"⟩) := by
  obtain ⟨s, valid⟩ := n
  obtain ⟨xs, rfl⟩ : ∃ xs, s = String.ofList xs := ⟨s.toList, by simp⟩
  simp only [String.toList_ofList] at h ⊢
  cases xs with
  | nil => cases valid
  | cons c us =>
    rw [isName_ofList, Bool.and_eq_true] at valid
    have hfirst := Parser.satisfy_at (ε := Invalid) "letter" h valid.1
    have hrest := Parser.many_satisfy_at (ε := Invalid) "name character" h.tail valid.2 hcs
    have hname := Parser.map_done (fun x : Char × List Char => String.ofList (x.1 :: x.2))
      (Parser.both_done hfirst hrest)
    have hlen : o + (c :: us).length = o + 1 + us.length := by
      rw [List.length_cons]
      omega
    rw [hlen]
    exact hname.label_other "rule name" (by simp)

theorem ruleName_failed (ho : ∀ c, text[o]? = some c → letters.contains c = false) :
    (ruleName.run text).Acts o (.failed ⟨o, .only "rule name"⟩) none := by
  have hfirst : (letter.run text).Acts o (.failed ⟨o, .only "letter"⟩) none := .satisfy_failed "letter" ho
  have hname := Parser.map_failed (fun x : Char × List Char => String.ofList (x.1 :: x.2))
    (Parser.both_failed nameChar.many hfirst)
  exact hname.label_here "rule name" rfl (by simp)

theorem ruleName_at_failed (h : At text o cs) (hcs : cs.head?.any letters.contains = false) :
    (ruleName.run text).Acts o (.failed ⟨o, .only "rule name"⟩) none := by
  refine ruleName_failed fun c hc => ?_
  rw [h.getElem?] at hc
  simpa [hc] using hcs

/-- Every text begins with a name that cannot go on, or not with a letter. -/
theorem exists_name (cs : List Char) :
    (∃ (n : Name) (rest : List Char), cs = n.text.toList ++ rest ∧
      rest.head?.any nameChars.contains = false) ∨ cs.head?.any letters.contains = false := by
  cases cs with
  | nil => exact .inr rfl
  | cons c cs =>
    by_cases hc : letters.contains c = true
    · obtain ⟨us, rest, rfl, hus, hrest⟩ := exists_run nameChars.contains cs
      exact .inl ⟨(Name.single c hc).grow us hus, rest, by simp [Name.grow, Name.single], hrest⟩
    · exact .inr (by simpa using hc)

/-- What can become of a name behind its opening bracket: `p` reads the bracket and ends at
`stop`, where `cs` is left. -/
inductive BracketRun (p : Layer Char) (text : Array Char) (o stop : Nat) (cs : List Char) : Prop where
  | closed (n : Name) (rest : List Char) (last : Nat) (hint : Mismatch) :
      ((p *> ruleName <* (.char ">" : Layer Char)).run text).Acts o (.done n.text last) (some hint) →
      At text last rest → stop < last → hint.offset < last →
      (∀ b, read (.opened b) stop cs = read (b.close n) last rest) → BracketRun p text o stop cs
  | broken (m : Mismatch) (i : Hint) :
      ((p *> ruleName <* (.char ">" : Layer Char)).run text).Acts o (.failed m) i →
      stop ≤ m.offset → (∀ b, read (.opened b) stop cs = .error (i.explain m)) →
      BracketRun p text o stop cs

theorem bracketRun {p : Layer Char} {a : Char} (hp : (p.run text).Acts o (.done a stop) none)
    (h : At text stop cs) : BracketRun p text o stop cs := by
  rcases exists_name cs with ⟨n, rest, rfl, hrest⟩ | hcs
  · have hname := Parser.right_done hp (ruleName_at n h hrest)
    have hwalk : ∀ b, read (.opened b) stop (n.text.toList ++ rest) =
        read (.named b n) (stop + n.text.toList.length) rest := fun b => read_walk (walk_opened b n)
    by_cases hclose : rest.head? = some '>'
    · obtain ⟨tail, rfl⟩ := List.head?_eq_some_iff.1 hclose
      have hdone := Parser.left_done hname (Parser.char_at '>' h.append)
      refine .closed n tail _ _ hdone h.append.tail (by omega) (by exact Nat.lt_succ_self _) fun b => ?_
      rw [hwalk b, read_next]
      rfl
    · have hfail := Parser.left_failed_later hname (Parser.char_at_failed '>' h.append hclose)
      refine .broken _ _ hfail (Nat.le_add_right _ _) fun b => ?_
      rw [hwalk b, read_stuck rfl, Hint.add_none, Hint.none_add, Hint.explain_here]
      · rfl
      · intro c hc
        have hname : [c].all nameChars.contains = false := by simpa [hc] using hrest
        have hne : c ≠ '>' := fun he => hclose (he ▸ hc)
        simp only [State.next, hname, hne, if_false, Bool.false_eq_true, dite_false]
  · have hfail := Parser.left_failed (.char ">" : Layer Char)
      (Parser.right_failed_later hp (ruleName_at_failed h hcs))
    refine .broken _ _ hfail (Nat.le_refl _) fun b => ?_
    rw [read_stuck rfl]
    · rfl
    · intro c hc
      have hletter : letters.contains c = false := by simpa [hc] using hcs
      simp only [State.next, hletter, Bool.false_eq_true, dite_false]

/-! ### Literals -/

/-- The text between two quotes of one kind. -/
def quotedBy (q : Quote) : Layer String :=
  between (String.singleton q.char) (.satisfy (· != q.char) q.inner)

theorem literal_eq :
    literal = ((quotedBy .double <|> quotedBy .single).map Term.literal).label "literal" := rfl

theorem notMem_all {q : Char} {body : List Char} (hb : q ∉ body) : body.all (· != q) = true := by
  rw [List.all_eq_true]
  intro c hc
  simpa using fun he : c = q => hb (he ▸ hc)

theorem quotedBy_closed (q : Quote) {body : List Char} (h : At text o (q.char :: (body ++ q.char :: rest)))
    (hb : q.char ∉ body) :
    ((quotedBy q).run text).Acts o (.done (String.ofList body) (o + 1 + body.length + 1))
      (some ⟨o + 1 + body.length, .only q.inner⟩) := by
  have hopen := Parser.char_at (ε := Invalid) q.char h
  have hbody := Parser.many_satisfy_at (ε := Invalid) q.inner h.tail (notMem_all hb) (by simp)
  have hclose := Parser.char_at (ε := Invalid) q.char h.tail.append
  exact Parser.map_done String.ofList (Parser.left_done (Parser.right_done hopen hbody) hclose)

theorem quotedBy_open (q : Quote) {body : List Char} (h : At text o (q.char :: body))
    (hb : q.char ∉ body) :
    ((quotedBy q).run text).Acts o
      (.failed ⟨o + 1 + body.length, .only (Text.quoted (String.singleton q.char))⟩)
      (some ⟨o + 1 + body.length, .only q.inner⟩) := by
  have hopen := Parser.char_at (ε := Invalid) q.char h
  have htail : At text (o + 1) (body ++ []) := by
    rw [List.append_nil]
    exact h.tail
  have hbody := Parser.many_satisfy_at (ε := Invalid) q.inner htail (notMem_all hb) rfl
  have hclose := Parser.char_at_failed (ε := Invalid) q.char htail.append (by simp)
  exact Parser.map_failed String.ofList (Parser.left_failed_later (Parser.right_done hopen hbody) hclose)

theorem quotedBy_absent (q : Quote) (h : At text o cs) (hc : cs.head? ≠ some q.char) :
    ((quotedBy q).run text).Acts o (.failed ⟨o, .only (Text.quoted (String.singleton q.char))⟩) none :=
  Parser.map_failed String.ofList (Parser.left_failed _ (Parser.right_failed _ (Parser.char_at_failed q.char h hc)))

theorem literal_closed (q : Quote) {body : List Char} (h : At text o (q.char :: (body ++ q.char :: rest)))
    (hb : q.char ∉ body) :
    (literal.run text).Acts o (.done (.literal (String.ofList body)) (o + 1 + body.length + 1))
      (some ⟨o + 1 + body.length, .only q.inner⟩) := by
  have hq := quotedBy_closed q h hb
  rw [literal_eq]
  cases q with
  | double =>
    exact (Parser.map_done Term.literal (Parser.or_done _ hq)).label_other "literal" (by simp)
  | single =>
    have hd := quotedBy_absent .double h (by simp [Quote.char])
    exact (Parser.map_done Term.literal (Parser.or_done_later hd hq)).label_other "literal" (by simp)

theorem literal_open (q : Quote) {body : List Char} (h : At text o (q.char :: body))
    (hb : q.char ∉ body) :
    (literal.run text).Acts o
      (.failed ⟨o + 1 + body.length, .only (Text.quoted (String.singleton q.char))⟩)
      (some ⟨o + 1 + body.length, .only q.inner⟩) := by
  have hq := quotedBy_open q h hb
  rw [literal_eq]
  cases q with
  | double =>
    have hs := quotedBy_absent .single h (by simp [Quote.char])
    have hor := Parser.or_failed hq hs
    rw [Mismatch.merge_of_gt (by show o < o + 1 + _; omega)] at hor
    exact (Parser.map_failed Term.literal hor).label_other "literal" (by simp; omega)
  | single =>
    have hd := quotedBy_absent .double h (by simp [Quote.char])
    have hor := Parser.or_failed hd hq
    rw [Mismatch.merge_of_lt (by show o < o + 1 + _; omega)] at hor
    exact (Parser.map_failed Term.literal hor).label_other "literal" (by simp; omega)

theorem literal_absent (h : At text o cs) (hc : ∀ q : Quote, cs.head? ≠ some q.char) :
    (literal.run text).Acts o (.failed ⟨o, .only "literal"⟩) none := by
  have hor := Parser.or_failed (quotedBy_absent .double h (hc .double)) (quotedBy_absent .single h (hc .single))
  rw [Mismatch.merge_here] at hor
  rw [literal_eq]
  exact (Parser.map_failed Term.literal hor).label_here "literal" rfl (by simp)

/-! ### References -/

theorem ruleRef_absent (h : At text o cs) (hc : cs.head? ≠ some '<') :
    (ruleRef.run text).Acts o (.failed ⟨o, .only "rule reference"⟩) none := by
  have hopen := Parser.char_at_failed (ε := Invalid) '<' h hc
  have hname := Parser.left_failed (.char ">" : Layer Char) (Parser.right_failed ruleName hopen)
  exact (Parser.convert_failed Term.refTo hname).label_here "rule reference" rfl (by simp)

theorem refTo_text (n : Name) : Term.refTo n.text = .ok (.ref n) := by
  simp only [Term.refTo, Name.ofString, n.valid, dite_true]
  rfl

/-! ### Terms -/

/-- What can become of a term: it is not there at all, it is read, or it is broken off. -/
inductive TermRun (text : Array Char) (o : Nat) (cs : List Char) : Prop where
  | absent :
      (term.run text).Acts o (.failed ⟨o, .ofList ["literal", "rule reference"]⟩) none →
      cs.head?.any isOpening = false → TermRun text o cs
  | closed (t : Term) (rest : List Char) (last : Nat) (hint : Mismatch) :
      (term.run text).Acts o (.done t last) (some hint) → At text last rest → o < last →
      hint.offset < last → cs.head?.any isOpening = true →
      (∀ slot, read (.gap slot) o cs = read (slot.fill t) last rest) → TermRun text o cs
  | broken (m : Mismatch) (i : Hint) :
      (term.run text).Acts o (.failed m) i → o < m.offset → cs.head?.any isOpening = true →
      (∀ slot, read (.gap slot) o cs = .error (i.explain m)) → TermRun text o cs

theorem termRun_ref (h : At text o ('<' :: cs)) : TermRun text o ('<' :: cs) := by
  have hno := literal_absent h (by intro q; cases q <;> simp [Quote.char])
  have henter : ∀ slot, read (.gap slot) o ('<' :: cs) = read (.opened (.ref slot)) (o + 1) cs :=
    fun slot => read_next rfl
  cases bracketRun (Parser.char_at '<' h) h.tail with
  | closed n rest last hint hrun hat hlast hhint hread =>
    have href := (Parser.convert_done hrun (refTo_text n)).label_other "rule reference" (by simp)
    refine .closed (.ref n) rest last hint (Parser.or_done_later hno href) hat (by omega) hhint rfl ?_
    intro slot
    rw [henter, hread]
    rfl
  | broken m i hrun hm hread =>
    have href : (ruleRef.run text).Acts o (.failed m) i :=
      (Parser.convert_failed Term.refTo hrun).label_other "rule reference" (by rintro _ ⟨⟩; omega)
    have hor := Parser.or_failed hno href
    rw [Mismatch.merge_of_lt (by exact hm)] at hor
    refine .broken m i hor hm rfl fun slot => ?_
    rw [henter, hread]

theorem termRun_literal (q : Quote) (h : At text o (q.char :: cs)) : TermRun text o (q.char :: cs) := by
  have hopening : (q.char :: cs).head?.any isOpening = true := by cases q <;> rfl
  have henter : ∀ slot, read (.gap slot) o (q.char :: cs) = read (.literal slot q []) (o + 1) cs :=
    fun slot => read_next (by cases q <;> rfl)
  by_cases hq : q.char ∈ cs
  · obtain ⟨body, rest, rfl, hb⟩ := List.eq_append_cons_of_mem hq
    refine .closed (.literal (String.ofList body)) rest _ _ (Parser.or_done _ (literal_closed q h hb))
      h.tail.append.tail (by omega) (by exact Nat.lt_succ_self _) hopening fun slot => ?_
    rw [henter, read_walk (walk_literal slot q [] hb), read_next]
    simp [State.next]
  · have hlit := literal_open q h hq
    have href := ruleRef_absent h (by cases q <;> simp [Quote.char])
    have hor := Parser.or_failed hlit href
    rw [Mismatch.merge_of_gt (by show o < o + 1 + _; omega)] at hor
    refine .broken _ _ hor (by show o < o + 1 + _; omega) hopening fun slot => ?_
    have hwalk : read (.literal slot q []) (o + 1) (cs ++ []) = _ := read_walk (walk_literal slot q [] hq)
    rw [List.append_nil] at hwalk
    rw [henter, hwalk, read_stuck rfl (by simp), Hint.add_none, Hint.explain_here]
    cases q <;> rfl

theorem termRun (h : At text o cs) : TermRun text o cs := by
  by_cases hopen : cs.head?.any isOpening = true
  · cases cs with
    | nil => simp at hopen
    | cons c cs =>
      simp only [List.head?_cons, Option.any_some, isOpening, Bool.or_eq_true, beq_iff_eq] at hopen
      rcases hopen with (rfl | rfl) | rfl
      · exact termRun_ref h
      · exact termRun_literal .double h
      · exact termRun_literal .single h
  · have hno : ∀ x, isOpening x = true → cs.head? ≠ some x := by
      intro x hx he
      exact hopen (by rw [he]; exact hx)
    have hlit := literal_absent h (by intro q; apply hno; cases q <;> rfl)
    have href := ruleRef_absent h (hno '<' rfl)
    have hor := Parser.or_failed hlit href
    rw [Mismatch.merge_here] at hor
    exact .absent hor (by simpa using hopen)

end Layers
end BnfReader
