import BnfReader.Proofs.Agreement
import BnfReader.Proofs.Readings

/-! A document is read rule by rule.

Calls of the parser for one rule, each where the one before ended (`Parser.Calls`), come to the
same rules as the parser for documents, and to the end of the text just when that one accepts
it. The two treat line ends differently: between the rules of a document a line end must stand,
while the parser for one rule takes it along if it is there.

What makes them agree is that no rule can stand right behind another: the name at its head would
have been read as a term of the rule before it (`Layers.no_rule_behind`). So a call that finds no
line end is the last one. -/
namespace BnfReader
open Scan

/-! ### Calls -/

namespace Parser
variable {ε α : Type} {text : Array Char} {o last : Nat}

/-- Calls of a parser, each at the offset and with the hint where the one before ended: the
values they come back with and the offset they come to. -/
inductive Calls (p : Parser ε α) (text : Array Char) : Nat → Hint → List α → Nat → Prop where
  | none {o : Nat} {h : Hint} : Calls p text o h [] o
  | call {o stop last : Nat} {h h' : Hint} {a : α} {as : List α} :
      p.run text o h = (.done a stop, h') → Calls p text stop h' as last →
      Calls p text o h (a :: as) last

theorem calls_nil {p : Parser ε α} {h : Hint} : p.Calls text o h [] last ↔ o = last := by
  constructor
  · intro hcalls
    cases hcalls
    rfl
  · intro hlast
    subst hlast
    exact .none

/-- The first call comes back with what the parser reads there. -/
theorem calls_cons {p : Parser ε α} {a : α} {stop : Nat} (hr : p.Reads text o a stop) (h : Hint) :
    ∃ h', ∀ b bs last, p.Calls text o h (b :: bs) last ↔ b = a ∧ p.Calls text stop h' bs last := by
  obtain ⟨i, hi⟩ := hr
  refine ⟨h.add i, fun b bs last => ⟨fun hcalls => ?_, fun ⟨hb, hcalls⟩ => ?_⟩⟩
  · cases hcalls with
    | call hrun hrest =>
      rw [hi h] at hrun
      cases hrun
      exact ⟨rfl, hrest⟩
  · subst hb
    exact .call (hi h) hcalls

theorem calls_singleton {p : Parser ε α} {h : Hint} {a : α} :
    p.Calls text o h [a] last ↔ p.Reads text o a last := by
  constructor
  · intro hcalls
    cases hcalls with
    | call hrun hrest =>
      cases hrest
      exact (p.reads_iff_run h).2 ⟨_, hrun⟩
  · intro hr
    obtain ⟨h', hcons⟩ := calls_cons hr h
    exact (hcons a [] last).2 ⟨rfl, .none⟩

theorem not_calls_cons {p : Parser ε α} (hno : ∀ a stop, ¬ p.Reads text o a stop) {h : Hint} {a : α}
    {as : List α} : ¬ p.Calls text o h (a :: as) last := by
  intro hcalls
  cases hcalls with
  | call hrun _ => exact hno _ _ ((p.reads_iff_run h).2 ⟨_, hrun⟩)

/-- Where nothing can be read behind the first call, it is the only one. -/
theorem calls_last {p : Parser ε α} {a b : α} {bs : List α} {stop : Nat} (hr : p.Reads text o a stop)
    (hno : ∀ b stop', ¬ p.Reads text stop b stop') (h : Hint) :
    p.Calls text o h (b :: bs) last ↔ b = a ∧ bs = [] ∧ stop = last := by
  obtain ⟨h', hcons⟩ := calls_cons hr h
  rw [hcons]
  cases bs with
  | nil => simp [calls_nil]
  | cons b' bs => simp [not_calls_cons hno]

end Parser

namespace Scan

/-- Where a document is complete and the next character leads nowhere, the end decides. -/
theorem read_complete_iff {s : State} {o : Nat} {cs : List Char} {d d' : Document} (hd : s.document? = some d)
    (hstuck : ∀ c, cs.head? = some c → s.next c = none) : read s o cs = .ok d' ↔ cs = [] ∧ d = d' := by
  cases cs with
  | nil => simp [read, hd]
  | cons c cs => simp [read_stop (hstuck c rfl)]

end Scan

namespace Layers
variable {text : Array Char} {o q last : Nat} {cs rest : List Char}

/-! ### No rule right behind a rule -/

/-- Where the alternatives of a rule end, no further term can be read. -/
theorem expression_ended {tss : List (List Term)} {t : Term} {stop : Nat}
    (h : expression.Reads text o tss last) (ht : item.Reads text last t stop) : stop = last := by
  obtain ⟨⟨ts, tss'⟩, hboth, -⟩ := Parser.reads_map.1 h
  obtain ⟨mid, hfirst, hmore⟩ := Parser.reads_both.1 hboth
  obtain ⟨i, hchain⟩ := Parser.many_reads hmore
  rcases hchain.last_item with rfl | ⟨o', ts', hfurther⟩
  · exact Parser.many1_ended hfirst ht
  · obtain ⟨bar, mid', -, hlist⟩ := Parser.reads_right.1 hfurther
    exact Parser.many1_ended hlist ht

theorem refTo_of_make {name : String} {alternatives : List (List Term)} {r : Rule}
    (h : Rule.make name alternatives = .ok r) : ∃ t, Term.refTo name = .ok t := by
  unfold Rule.make at h
  split at h
  · cases h
  next n hname =>
    have hvalid : isName name = true := by
      by_cases hvalid : isName name = true
      · exact hvalid
      · simp [Name.ofString, hvalid] at hname
    exact ⟨_, refTo_text ⟨name, hvalid⟩⟩

/-- The head of a rule begins with its name in brackets. -/
theorem bracket_of_ruleHead {name : String} (h : Ahead text q q rest) (hr : ruleHead.Reads text q name last) :
    ∃ stop, ((.char "<" : Layer Char) *> ruleName <* (.char ">" : Layer Char)).Reads text q name stop := by
  obtain ⟨-, o₁, hmarker, -⟩ := Parser.reads_left.1 hr
  obtain ⟨-, o₂, hblanks, -⟩ := Parser.reads_left.1 hmarker
  obtain ⟨-, stop, hbracket, -⟩ := Parser.reads_left.1 hblanks
  obtain ⟨c', o₃, hopened, hclose⟩ := Parser.reads_left.1 hbracket
  obtain ⟨c, o₄, hspaced, hname⟩ := Parser.reads_right.1 hopened
  obtain ⟨us, q', hspaces, hopen⟩ := Parser.reads_right.1 hspaced
  -- There are no blanks to skip before the bracket.
  obtain ⟨vs, hskip⟩ := h.spaces
  obtain ⟨-, rfl⟩ := Step.Reads.unique hspaces ⟨none, hskip⟩
  exact ⟨stop, Parser.reads_left.2 ⟨c', o₃, Parser.reads_right.2 ⟨c, o₄, hopen, hname⟩, hclose⟩⟩

/-- A name in brackets can be read as a term. -/
theorem term_of_bracket {name : String} {t : Term} {stop : Nat} (h : At text q cs)
    (hr : ((.char "<" : Layer Char) *> ruleName <* (.char ">" : Layer Char)).Reads text q name stop)
    (ht : Term.refTo name = .ok t) : term.Reads text q t stop ∧ q < stop := by
  obtain ⟨c', o₁, hopened, hclose⟩ := Parser.reads_left.1 hr
  obtain ⟨c, o₂, hopen, i, hname⟩ := Parser.reads_right.1 hopened
  obtain ⟨hthere, hc, ho₂⟩ := Parser.satisfy_reads hopen
  obtain ⟨-, -, hstop⟩ := Parser.satisfy_reads hclose
  have hle := (ruleName.run_stays text hname).1
  have hliteral := literal_absent h fun quote hquote => by
    rw [← h.getElem?, hthere] at hquote
    rw [Option.some.inj hquote] at hc
    cases quote <;> cases hc
  obtain ⟨j, href⟩ := Parser.reads_convert.2 ⟨name, hr, ht⟩
  exact ⟨⟨_, Parser.or_done_later hliteral (href.label_other "rule reference" (by simp))⟩, by omega⟩

/-- The name at the head of a rule could also be read as a term. -/
theorem term_of_ruleBody {r : Rule} (h : Ahead text q q rest) (hr : ruleBody.Reads text q r last) :
    ∃ t stop, term.Reads text q t stop ∧ q < stop := by
  obtain ⟨⟨name, alternatives⟩, hboth, hmake⟩ := Parser.reads_convert.1 hr
  obtain ⟨mid, hhead, -⟩ := Parser.reads_both.1 hboth
  obtain ⟨t, ht⟩ := refTo_of_make hmake
  obtain ⟨stop, hbracket⟩ := bracket_of_ruleHead h hhead
  exact ⟨t, stop, term_of_bracket h.at_end hbracket ht⟩

/-- No rule can be read right behind a rule: the repetition of terms would have gone on. -/
theorem no_rule_behind {r : Rule} (h : ruleBody.Reads text o r q) (hahead : Ahead text q q rest) (r' : Rule)
    (stop : Nat) : ¬ ruleBody.Reads text q r' stop := by
  intro h'
  obtain ⟨⟨name, alternatives⟩, hboth, -⟩ := Parser.reads_convert.1 h
  obtain ⟨mid, -, hbody⟩ := Parser.reads_both.1 hboth
  obtain ⟨us, last, hexpression, hspaces⟩ := Parser.reads_left.1 hbody
  obtain ⟨t, stop', hterm, hstop⟩ := term_of_ruleBody hahead h'
  have hended := expression_ended hexpression (Parser.reads_right.2 ⟨us, q, hspaces, hterm⟩)
  obtain ⟨i, hskip⟩ := hspaces
  have hle := (spaces.run_stays text hskip).1
  omega

/-! ### Rules with their line ends -/

theorem rule_reads {r : Rule} : rule.Reads text o r last ↔
    ∃ bs mid, ruleBody.Reads text o r mid ∧ (lineEnd.optional []).Reads text mid bs last :=
  Parser.reads_left

theorem rule_absent (hno : ∀ r stop, ¬ ruleBody.Reads text o r stop) (r : Rule) (stop : Nat) :
    ¬ rule.Reads text o r stop := by
  intro h
  obtain ⟨bs, mid, hbody, -⟩ := rule_reads.1 h
  exact hno r mid hbody

/-- What can become of a call at `o`, where a rule begins at `q`: there is no rule, or there is
a rule and nothing can be read behind it, or another rule begins on the next line. -/
inductive RuleRun (text : Array Char) (o q : Nat) (cs : List Char) : Prop where
  | broken : (∀ r stop, ¬ rule.Reads text o r stop) →
      (∀ rules d, read (.opened (.head rules)) (q + 1) cs ≠ .ok d) → RuleRun text o q cs
  | last (r : Rule) (stop : Nat) (rest : List Char) : rule.Reads text o r stop → At text stop rest →
      (∀ r' stop', ¬ rule.Reads text stop r' stop') →
      (∀ rules d, read (.opened (.head rules)) (q + 1) cs = .ok d ↔ rest = [] ∧ .snoc rules r = d) →
      RuleRun text o q cs
  | more (r : Rule) (stop : Nat) (tail : List Char) : rule.Reads text o r stop →
      Ahead text stop stop ('<' :: tail) → o < stop →
      (∀ rules, read (.opened (.head rules)) (q + 1) cs =
        read (.opened (.head (rules ++ [r]))) (stop + 1) tail) → RuleRun text o q cs

/-- Without a line end behind it a rule is the last one. -/
theorem ruleRun_unbroken {r : Rule} (hr : ruleBody.Reads text o r q) (h : Ahead text q q rest)
    (hwhite : rest.head?.any isWhite = false) :
    rule.Reads text o r q ∧ ∀ r' stop, ¬ rule.Reads text q r' stop := by
  refine ⟨rule_reads.2 ⟨[], q, hr, ?_⟩, rule_absent (no_rule_behind hr h)⟩
  exact ⟨_, (lineEnd_failed [] h.at_end rfl hwhite).optional_failed []⟩

/-- With a line end behind it, a rule is followed by the next one or by nothing. -/
theorem ruleRun_line {r : Rule} {stop : Nat} {c : Char} (hr : ruleBody.Reads text o r stop) (ho : o ≤ stop)
    (h : At text stop (c :: rest)) (hbreak : isBreak c = true)
    (hreads : ∀ rules, read (.opened (.head rules)) (q + 1) cs = read (.behind rules r) stop (c :: rest)) :
    RuleRun text o q cs := by
  obtain ⟨w, rest, rfl, hw, hrest⟩ := exists_run isWhite rest
  obtain ⟨bs, hend⟩ := lineEnd_done [] h rfl hbreak hw hrest
  have hrule : rule.Reads text o r (stop + 1 + w.length) :=
    rule_reads.2 ⟨bs, stop, hr, _, hend.optional_other [] (by simp)⟩
  have hat : At text (stop + 1 + w.length) rest := h.tail.append
  have hahead := ahead_of_not_white hat hrest
  have hfresh : ∀ rules, read (.opened (.head rules)) (q + 1) cs =
      read (.fresh (.snoc rules r)) (stop + 1 + w.length) rest := by
    intro rules
    rw [hreads, read_behind_break rules r hbreak hw]
  by_cases hopen : rest.head? = some '<'
  · obtain ⟨tail, rfl⟩ := List.head?_eq_some_iff.1 hopen
    refine .more r _ tail hrule hahead (by omega) fun rules => ?_
    rw [hfresh]
    exact read_next rfl
  · refine .last r _ rest hrule hat (rule_absent (ruleBody_absent hahead hopen).not_reads) fun rules d => ?_
    rw [hfresh]
    exact read_complete_iff rfl (fresh_stuck _ hrest hopen)

theorem ruleRun (h : Ahead text o q ('<' :: cs)) : RuleRun text o q cs := by
  cases bodyRun h with
  | broken m i hrun hm hread =>
    refine .broken (rule_absent hrun.not_reads) fun rules d => ?_
    rw [hread]
    simp
  | closed r q' rest m hrun hahead hq hhalts =>
    have hbody : ruleBody.Reads text o r q' := ⟨_, hrun⟩
    cases hhalts with
    | doomed hm hcs hreports =>
      -- What was begun behind the rule is broken off, so there is more text, but no rule in it.
      obtain ⟨hrule, hno⟩ := ruleRun_unbroken hbody hahead (continues_not_white hcs)
      have hrest : rest ≠ [] := by
        intro hnil
        rw [hnil] at hcs
        cases hcs
      refine .last r q' rest hrule hahead.at_end hno fun rules d => ?_
      rw [hreports]
      simp [hrest]
    | settled hm hcs hreads =>
      by_cases hbreak : rest.head?.any isBreak = true
      · cases rest with
        | nil => cases hbreak
        | cons c rest =>
          have hle := h.le
          exact ruleRun_line hbody (by omega) hahead.at_end hbreak hreads
      · have hwhite : rest.head?.any isWhite = false := by
          rw [any_isWhite, hahead.sharp, Bool.false_or]
          simpa using hbreak
        obtain ⟨hrule, hno⟩ := ruleRun_unbroken hbody hahead hwhite
        refine .last r q' rest hrule hahead.at_end hno fun rules d => ?_
        rw [hreads]
        exact read_complete_iff rfl (behind_stuck rules r hcs hwhite)

/-! ### Rules in turn -/

/-- From the bracket of a rule on, the scanner reads the rules that calls come back with. -/
theorem opened_iff_calls (h : Ahead text o q ('<' :: cs)) (rules : List Rule) (d : Document) (hint : Hint) :
    read (.opened (.head rules)) (q + 1) cs = .ok d ↔
      ∃ r rs, d.rules = rules ++ r :: rs ∧ rule.Calls text o hint (r :: rs) text.size := by
  -- Each call takes characters, so the induction is on how many are left.
  induction hn : text.size - o using Nat.strongRecOn generalizing o q cs rules hint with
  | _ n ih =>
    cases ruleRun h with
    | broken hno hread =>
      constructor
      · intro hd
        exact absurd hd (hread rules d)
      · intro ⟨r, rs, _, hcalls⟩
        exact absurd hcalls (Parser.not_calls_cons hno)
    | last r stop rest hrule hat hno hread =>
      have hend : stop = text.size ↔ rest = [] := by
        rw [hat.size, ← List.length_eq_zero_iff]
        omega
      rw [hread]
      constructor
      · intro ⟨hrest, hd⟩
        subst hd
        exact ⟨r, [], rfl, (Parser.calls_last hrule hno hint).2 ⟨rfl, rfl, hend.2 hrest⟩⟩
      · intro ⟨r', rs, hd, hcalls⟩
        obtain ⟨rfl, rfl, hstop⟩ := (Parser.calls_last hrule hno hint).1 hcalls
        refine ⟨hend.1 hstop, ?_⟩
        cases d
        cases hd
        rfl
    | more r stop tail hrule hahead hstop hread =>
      obtain ⟨hint', hcalls⟩ := Parser.calls_cons hrule hint
      have hsize := hahead.at_end.le
      rw [hread, ih _ (by omega) hahead (rules ++ [r]) hint' rfl]
      constructor
      · intro ⟨r', rs, hd, hrs⟩
        exact ⟨r, r' :: rs, by simp [hd], (hcalls r (r' :: rs) text.size).2 ⟨rfl, hrs⟩⟩
      · intro ⟨r', rs, hd, hr'⟩
        obtain ⟨rfl, hrs⟩ := (hcalls r' rs text.size).1 hr'
        cases rs with
        | nil =>
          have hlast := Parser.calls_nil.1 hrs
          have hmore := hahead.at_end.size
          rw [List.length_cons] at hmore
          omega
        | cons r'' rs => exact ⟨r'', rs, by simp [hd], hrs⟩

/-- The scanner reads the rules that calls from the start of the text come back with. -/
theorem start_iff_calls (text : Array Char) (d : Document) (hint : Hint) :
    read .start 0 text.toList = .ok d ↔ rule.Calls text 0 hint d.rules text.size := by
  obtain ⟨q, cs, hahead, hskip⟩ := Ahead.of_at (At.zero text)
  obtain ⟨r, rs, hd⟩ := List.exists_cons_of_ne_nil d.some_rule
  rw [hskip .start start_blank]
  by_cases hopen : cs.head? = some '<'
  · obtain ⟨tail, rfl⟩ := List.head?_eq_some_iff.1 hopen
    rw [read_next (show State.start.next '<' = some (.opened (.head [])) from rfl),
      opened_iff_calls hahead [] d hint, hd]
    simp only [List.nil_append, List.cons.injEq]
    constructor
    · intro ⟨r', rs', ⟨hr, hrs⟩, hcalls⟩
      rwa [hr, hrs]
    · intro hcalls
      exact ⟨r, rs, ⟨rfl, rfl⟩, hcalls⟩
  · have hno := rule_absent (ruleBody_absent hahead hopen).not_reads
    rw [read_stuck rfl (start_stuck hahead.sharp hopen), hd]
    simp [Parser.not_calls_cons hno]

end Layers

/-- **Reading rule by rule is reading the document**: calls of the parser for one rule, each
where the one before ended, come back with the rules of a document and to the end of the text
just when the text is read as that document. So one call and the end is a document of one rule. -/
theorem Document.parse_ok_iff_calls (text : String) :
    (∀ (d : Document) (hint : Hint), Document.parse text = .ok d ↔
      Layers.rule.Calls text.toList.toArray 0 hint d.rules text.length) ∧
    (∀ r, (Layers.rule <* (.eof : Layers.Layer Unit)).parse text = .ok r ↔
      Document.parse text = .ok ⟨[r], List.cons_ne_nil r []⟩) := by
  have hsize : text.toList.toArray.size = text.length := String.length_toList
  have hcalls : ∀ (d : Document) (hint : Hint), Document.parse text = .ok d ↔
      Layers.rule.Calls text.toList.toArray 0 hint d.rules text.length := by
    intro d hint
    rw [← hsize, ← Layers.start_iff_calls, Document.parse_ok_iff_walk, ← read_ok_iff (o := 0)]
  refine ⟨hcalls, fun r => ?_⟩
  rw [hcalls _ none, Parser.calls_singleton, Parser.parse_ok_iff_reads, ← hsize]
  simp only [Parser.reads_left, Parser.reads_eof]
  constructor
  · intro ⟨_, _, _, hr, hend, _⟩
    rwa [← hend]
  · intro hr
    exact ⟨_, (), _, hr, rfl, rfl⟩

end BnfReader
