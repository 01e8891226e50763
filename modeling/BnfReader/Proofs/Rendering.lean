import BnfReader.Proofs.Agreement

/-! The texts of a document.

A document can be written in many ways: blanks stand anywhere between the parts, a literal
takes either quote that it does not have, and lines are broken and left empty at will. The
relations `RendersAs` say which texts a term, a rule and a document have, with no word about
how a text is read.

The scanner ties them to the parser. Along a rendering it walks from `start` to a state where
the document is complete; and in every state it reaches, what it has read is a rendering that
is finished up to that point (`State.Reads`). -/
namespace BnfReader
open Scan

/-! ### Renderings -/

/-- A reference is its name in angle brackets; a literal is its text between two quotes of a
kind that it does not have. -/
inductive Term.RendersAs : Term → List Char → Prop where
  | ref (n : Name) : RendersAs (.ref n) ('<' :: (n.text.toList ++ ['>']))
  | literal (q : Quote) (body : String) : q.char ∉ body.toList →
      RendersAs (.literal body) (q.char :: (body.toList ++ [q.char]))

/-- One or more terms, blanks before each. -/
inductive SequenceRendersAs : List Term → List Char → Prop where
  | one {t : Term} {gap u : List Char} : gap.all isBlank = true → t.RendersAs u →
      SequenceRendersAs [t] (gap ++ u)
  | more {ts : List Term} {t : Term} {u gap v : List Char} : SequenceRendersAs ts u →
      gap.all isBlank = true → t.RendersAs v → SequenceRendersAs (ts ++ [t]) (u ++ (gap ++ v))

/-- One or more sequences, a bar with blanks around it between them. -/
inductive AlternativesRenderAs : List (List Term) → List Char → Prop where
  | one {ts : List Term} {u : List Char} : SequenceRendersAs ts u → AlternativesRenderAs [ts] u
  | more {as : List (List Term)} {ts : List Term} {u before after v : List Char} :
      AlternativesRenderAs as u → before.all isBlank = true → after.all isBlank = true →
      SequenceRendersAs ts v →
      AlternativesRenderAs (as ++ [ts]) (u ++ (before ++ '|' :: (after ++ v)))

/-- The name of a rule in brackets, the marker and the alternatives, blanks anywhere between. -/
inductive Rule.RendersAs (r : Rule) : List Char → Prop where
  | mk {before gap gap' body after : List Char} : before.all isBlank = true → gap.all isBlank = true →
      gap'.all isBlank = true → AlternativesRenderAs r.alternatives body → after.all isBlank = true →
      RendersAs r (before ++ '<' :: (r.name.text.toList ++ '>' ::
        (gap ++ "::=".toList ++ gap' ++ body ++ after)))

/-- One or more rules, blank space with a line break in it between them. -/
inductive RulesRenderAs : List Rule → List Char → Prop where
  | one {r : Rule} {u : List Char} : r.RendersAs u → RulesRenderAs [r] u
  | more {rs : List Rule} {r : Rule} {u space v : List Char} : RulesRenderAs rs u →
      space.all isWhite = true → space.any isBreak = true → r.RendersAs v →
      RulesRenderAs (rs ++ [r]) (u ++ (space ++ v))

/-- The rules of the document, then any blank space. -/
inductive Document.RendersAs (d : Document) : List Char → Prop where
  | mk {u space : List Char} : RulesRenderAs d.rules u → space.all isWhite = true →
      RendersAs d (u ++ space)

namespace Scan

/-! ### Along a rendering -/

section
variable {s : State} {u : List Char}

theorem named_close (b : Bracket) (n : Name) : (State.named b n).next '>' = some (b.close n) := rfl

/-- A term, from any state that enters a slot. -/
theorem walk_term {slot : Slot} {t : Term} (hs : ∀ c, isOpening c = true → s.next c = slot.enter c)
    (h : t.RendersAs u) : walk s u = some (slot.fill t) := by
  cases h with
  | ref n =>
    have henter : s.next '<' = some (.opened (.ref slot)) := hs '<' rfl
    rw [walk_next henter]
    refine walk_trans (walk_opened _ n) ?_
    rw [walk_next (named_close (.ref slot) n)]
    rfl
  | literal q body hbody =>
    have henter : s.next q.char = some (.literal slot q []) := by
      cases q
      · exact hs '"' rfl
      · exact hs '\'' rfl
    have hclose : (State.literal slot q body.toList).next q.char = some (slot.fill (.literal body)) := by
      simp only [State.next, if_true, String.ofList_toList]
    rw [walk_next henter]
    refine walk_trans (walk_literal slot q [] hbody) ?_
    rw [List.nil_append, walk_next hclose]
    rfl

theorem walk_sequence {ts : List Term} (slot : Slot) (h : SequenceRendersAs ts u) :
    ∃ t rest, ts = t :: rest ∧
      walk (.gap slot) u = some (.behind slot.rules ((slot.put t).extend rest)) := by
  induction h with
  | @one t gap u hgap ht =>
    refine ⟨t, [], rfl, ?_⟩
    rw [Rule.extend_nil]
    exact walk_trans (walk_loop (gap_blank slot) hgap) (walk_term (gap_opening slot) ht)
  | @more ts t u gap v _ hgap ht ih =>
    obtain ⟨first, rest, rfl, hwalk⟩ := ih
    refine ⟨first, rest ++ [t], rfl, ?_⟩
    rw [← Rule.extend_extend]
    exact walk_trans hwalk (walk_trans (walk_loop (behind_blank _ _) hgap)
      (walk_term (behind_opening _ _) ht))

theorem walk_alternatives {as : List (List Term)} (rules : List Rule) (n : Name)
    (h : AlternativesRenderAs as u) : ∃ r : Rule, r.name = n ∧ r.alternatives = as ∧
      walk (.gap (.first rules n)) u = some (.behind rules r) := by
  induction h with
  | one hts =>
    obtain ⟨t, rest, rfl, hwalk⟩ := walk_sequence (.first rules n) hts
    exact ⟨(Rule.single n t).extend rest, rfl, rfl, hwalk⟩
  | more _ hbefore hafter hts ih =>
    obtain ⟨r, hname, rfl, hwalk⟩ := ih
    obtain ⟨t, rest, rfl, hwalk'⟩ := walk_sequence (.branch rules r) hts
    refine ⟨r.branch t rest, hname, rfl, ?_⟩
    have hrule : (Slot.put (.branch rules r) t).extend rest = r.branch t rest := Rule.branch_extend r t [] rest
    rw [hrule] at hwalk'
    refine walk_trans hwalk (walk_trans (walk_loop (behind_blank _ _) hbefore) ?_)
    rw [walk_next (show (State.behind rules r).next '|' = some (.gap (.branch rules r)) from rfl)]
    exact walk_trans (walk_loop (gap_blank _) hafter) hwalk'

/-- A rule, from any state in which the head of one may stand. -/
theorem walk_rule {r : Rule} {rules : List Rule} (hblank : ∀ c, isBlank c = true → s.next c = some s)
    (hopen : s.next '<' = some (.opened (.head rules))) (h : r.RendersAs u) :
    walk s u = some (.behind rules r) := by
  obtain ⟨hbefore, hgap, hgap', hbody, hafter⟩ := h
  obtain ⟨r', hname, halternatives, hwalk⟩ := walk_alternatives rules r.name hbody
  obtain rfl : r' = r := Rule.ext hname halternatives
  refine walk_trans (walk_loop hblank hbefore) ?_
  rw [walk_next hopen]
  refine walk_trans (walk_opened (.head rules) _) ?_
  rw [walk_next (named_close (.head rules) r'.name)]
  refine walk_trans (t := .behind rules r') ?_ (walk_loop (behind_blank _ _) hafter)
  refine walk_trans (t := .gap (.first rules r'.name)) ?_ hwalk
  refine walk_trans ?_ (walk_loop (gap_blank _) hgap')
  exact walk_trans (walk_loop (head_blank rules _) hgap) rfl

/-- Blank space behind a rule ends its line if it has a line break. -/
theorem walk_space (rules : List Rule) (r : Rule) (hu : u.all isWhite = true) :
    walk (.behind rules r) u =
      some (if u.any isBreak = true then .fresh (.snoc rules r) else .behind rules r) := by
  induction u with
  | nil => rfl
  | cons c u ih =>
    rw [List.all_cons, Bool.and_eq_true] at hu
    by_cases hc : isBreak c = true
    · rw [walk_next (behind_break rules r c hc), walk_loop (fresh_white _) hu.2, List.any_cons, hc]
      rfl
    · have hblank : isBlank c = true := by
        have hc' := hu.1
        rw [isWhite_eq, Bool.or_eq_true] at hc'
        exact hc'.resolve_right hc
      rw [walk_next (behind_blank rules r c hblank), ih hu.2, List.any_cons, Bool.eq_false_iff.2 hc]
      rfl

theorem walk_rules {rs : List Rule} (h : RulesRenderAs rs u) :
    ∃ rules r, rs = rules ++ [r] ∧ walk .start u = some (.behind rules r) := by
  induction h with
  | one hr => exact ⟨[], _, rfl, walk_rule start_blank rfl hr⟩
  | more _ hspace hbreak hr ih =>
    obtain ⟨rules, r, rfl, hwalk⟩ := ih
    refine ⟨rules ++ [r], _, rfl, ?_⟩
    have hfresh := walk_space rules r hspace
    rw [if_pos hbreak] at hfresh
    refine walk_trans hwalk (walk_trans hfresh (walk_rule (fun c hc => ?_) rfl hr))
    exact fresh_white _ c (by rw [isWhite_eq, hc]; rfl)

theorem walk_document {d : Document} (h : d.RendersAs u) :
    ∃ s, walk .start u = some s ∧ s.document? = some d := by
  obtain ⟨hrules, hspace⟩ := h
  obtain ⟨rules, r, hsplit, hwalk⟩ := walk_rules hrules
  refine ⟨_, walk_trans hwalk (walk_space rules r hspace), ?_⟩
  obtain rfl : d = .snoc rules r := by
    cases d
    cases hsplit
    rfl
  split <;> rfl

end
end Scan

/-- A literal by its characters. -/
theorem Term.RendersAs.ofList {q : Quote} {body : List Char} (h : q.char ∉ body) :
    (Term.literal (String.ofList body)).RendersAs (q.char :: (body ++ [q.char])) := by
  have hliteral := Term.RendersAs.literal q (String.ofList body) (by rwa [String.toList_ofList])
  rwa [String.toList_ofList] at hliteral

/-! ### What has been read

A state describes the text before it: the finished rules as a rendering, and the unfinished
one up to where it breaks off. -/

/-- One more term behind the alternatives belongs to the last of them. -/
theorem AlternativesRenderAs.extend {as : List (List Term)} {t : Term} {u gap v : List Char}
    (h : AlternativesRenderAs as u) (has : as ≠ []) (hgap : gap.all isBlank = true) (ht : t.RendersAs v) :
    AlternativesRenderAs (as.dropLast ++ [as.getLast has ++ [t]]) (u ++ (gap ++ v)) := by
  cases h with
  | one hts => exact .one (.more hts hgap ht)
  | more hstart hbefore hafter hts =>
    have hmore := AlternativesRenderAs.more hstart hbefore hafter (.more hts hgap ht)
    simpa using hmore

/-- What may stand before the head of a rule: blanks, or the rules before it and a line break. -/
inductive Leads : List Rule → List Char → Prop where
  | first {u : List Char} : u.all isBlank = true → Leads [] u
  | after {rules : List Rule} {u space : List Char} : RulesRenderAs rules u →
      space.all isWhite = true → space.any isBreak = true → Leads rules (u ++ space)

namespace Scan

/-- The rules before and the name of a new one, up to its marker. -/
inductive ReadsHead (rules : List Rule) (n : Name) : List Char → Prop where
  | mk {u gap : List Char} : Leads rules u → gap.all isBlank = true →
      ReadsHead rules n (u ++ '<' :: (n.text.toList ++ '>' :: gap))

/-- The rules before and a new one, up to its last term. -/
inductive ReadsRule (rules : List Rule) (r : Rule) : List Char → Prop where
  | mk {u body : List Char} : ReadsHead rules r.name u → AlternativesRenderAs r.alternatives body →
      ReadsRule rules r (u ++ ("::=".toList ++ body))

/-- The text before a slot. -/
inductive Slot.Reads : Slot → List Char → Prop where
  | first {rules : List Rule} {n : Name} {u gap : List Char} : ReadsHead rules n u →
      gap.all isBlank = true → Reads (.first rules n) (u ++ ("::=".toList ++ gap))
  | next {rules : List Rule} {r : Rule} {u gap : List Char} : ReadsRule rules r u →
      gap.all isBlank = true → Reads (.next rules r) (u ++ gap)
  | branch {rules : List Rule} {r : Rule} {u gap gap' : List Char} : ReadsRule rules r u →
      gap.all isBlank = true → gap'.all isBlank = true →
      Reads (.branch rules r) (u ++ (gap ++ '|' :: gap'))

/-- The text before an opening bracket. -/
def Bracket.Reads : Bracket → List Char → Prop
  | .head rules => Leads rules
  | .ref slot => slot.Reads

/-- The text before a state. -/
inductive State.Reads : State → List Char → Prop where
  | start {u : List Char} : u.all isBlank = true → Reads .start u
  | fresh {d : Document} {u space : List Char} : RulesRenderAs d.rules u → space.all isWhite = true →
      space.any isBreak = true → Reads (.fresh d) (u ++ space)
  | opened {b : Bracket} {u : List Char} : b.Reads u → Reads (.opened b) (u ++ ['<'])
  | named {b : Bracket} {n : Name} {u : List Char} : b.Reads u →
      Reads (.named b n) (u ++ '<' :: n.text.toList)
  | head {rules : List Rule} {n : Name} {u : List Char} : ReadsHead rules n u → Reads (.head rules n) u
  | colon {rules : List Rule} {n : Name} {u : List Char} : ReadsHead rules n u →
      Reads (.colon rules n) (u ++ [':'])
  | colons {rules : List Rule} {n : Name} {u : List Char} : ReadsHead rules n u →
      Reads (.colons rules n) (u ++ [':', ':'])
  | gap {slot : Slot} {u : List Char} : slot.Reads u → Reads (.gap slot) u
  | literal {slot : Slot} {q : Quote} {u body : List Char} : slot.Reads u → q.char ∉ body →
      Reads (.literal slot q body) (u ++ q.char :: body)
  | behind {rules : List Rule} {r : Rule} {u : List Char} : (Slot.next rules r).Reads u →
      Reads (.behind rules r) u

section
variable {rules : List Rule} {r : Rule} {n : Name} {slot : Slot} {t : Term} {s s' : State} {c : Char}
  {u v gap : List Char}

theorem all_snoc {p : Char → Bool} (hu : u.all p = true) (hc : p c = true) : (u ++ [c]).all p = true := by
  rw [List.all_append, hu, List.all_cons, hc]
  rfl

/-- A chain of conditions gave a state at its first one or further on. -/
theorem of_ite_some {p : Prop} [Decidable p] {x : Option State}
    (h : (if p then some s else x) = some s') : p ∧ s = s' ∨ ¬ p ∧ x = some s' := by
  by_cases hp : p
  · rw [if_pos hp, Option.some.injEq] at h
    exact .inl ⟨hp, h⟩
  · rw [if_neg hp] at h
    exact .inr ⟨hp, h⟩

/-! #### Blanks -/

theorem ReadsHead.blank (h : ReadsHead rules n u) (hc : isBlank c = true) :
    ReadsHead rules n (u ++ [c]) := by
  obtain ⟨hlead, hgap⟩ := h
  have hhead := ReadsHead.mk (n := n) hlead (all_snoc hgap hc)
  simpa using hhead

theorem Slot.Reads.blank (h : slot.Reads u) (hc : isBlank c = true) : slot.Reads (u ++ [c]) := by
  cases h with
  | first hhead hgap =>
    have hslot := Slot.Reads.first hhead (all_snoc hgap hc)
    simpa using hslot
  | next hrule hgap =>
    have hslot := Slot.Reads.next hrule (all_snoc hgap hc)
    simpa using hslot
  | branch hrule hgap hgap' =>
    have hslot := Slot.Reads.branch hrule hgap (all_snoc hgap' hc)
    simpa using hslot

/-! #### Terms -/

/-- A term in a slot makes a rule. -/
theorem Slot.Reads.put (h : slot.Reads u) (ht : t.RendersAs v) : ReadsRule slot.rules (slot.put t) (u ++ v) := by
  cases h with
  | first hhead hgap =>
    have hrule := ReadsRule.mk (r := .single _ t) hhead (.one (.one hgap ht))
    simpa [Slot.rules, Slot.put] using hrule
  | @next rules r _ _ hrule hgap =>
    obtain ⟨hhead, hbody⟩ := hrule
    have hrule := ReadsRule.mk (r := r.extend [t]) hhead (hbody.extend r.some_alternative hgap ht)
    simpa [Slot.rules, Slot.put] using hrule
  | @branch rules r _ _ _ hrule hgap hgap' =>
    obtain ⟨hhead, hbody⟩ := hrule
    have hsequence : SequenceRendersAs [t] v := .one List.all_nil ht
    have hrule := ReadsRule.mk (r := r.branch t []) hhead (.more hbody hgap hgap' hsequence)
    simpa [Slot.rules, Slot.put] using hrule

theorem Slot.Reads.fill (h : slot.Reads u) (ht : t.RendersAs v) : (slot.fill t).Reads (u ++ v) := by
  have hnext := Slot.Reads.next (h.put ht) List.all_nil
  rw [List.append_nil] at hnext
  exact .behind hnext

theorem Slot.Reads.enter (h : slot.Reads u) (hs : slot.enter c = some s) : s.Reads (u ++ [c]) := by
  rcases of_ite_some hs with ⟨rfl, rfl⟩ | ⟨-, hs⟩
  · exact .opened h
  rcases of_ite_some hs with ⟨rfl, rfl⟩ | ⟨-, hs⟩
  · exact .literal h List.not_mem_nil
  rcases of_ite_some hs with ⟨rfl, rfl⟩ | ⟨-, hs⟩
  · exact .literal h List.not_mem_nil
  · cases hs

theorem Bracket.Reads.close {b : Bracket} (h : b.Reads u) :
    (b.close n).Reads (u ++ '<' :: (n.text.toList ++ ['>'])) := by
  cases b with
  | head rules => exact .head (.mk h rfl)
  | ref slot => exact Slot.Reads.fill h (.ref n)

/-! #### Rules -/

/-- A new rule, complete with the blanks behind it. -/
theorem ReadsRule.complete (h : ReadsRule rules r u) (hgap : gap.all isBlank = true) :
    RulesRenderAs (rules ++ [r]) (u ++ gap) := by
  obtain ⟨⟨hlead, hmarker⟩, hbody⟩ := h
  cases hlead with
  | first hbefore =>
    have hrule := Rule.RendersAs.mk hbefore hmarker List.all_nil hbody hgap
    have hrules := RulesRenderAs.one hrule
    simpa using hrules
  | after hrules hspace hbreak =>
    have hrule := Rule.RendersAs.mk List.all_nil hmarker
      List.all_nil hbody hgap
    have hmore := RulesRenderAs.more hrules hspace hbreak hrule
    simpa using hmore

theorem Slot.Reads.complete (h : (Slot.next rules r).Reads u) : RulesRenderAs (rules ++ [r]) u := by
  cases h with
  | next hrule hgap => exact hrule.complete hgap

/-- A line break behind a rule. -/
theorem Slot.Reads.line (h : (Slot.next rules r).Reads u) (hc : isBreak c = true) :
    (State.fresh (.snoc rules r)).Reads (u ++ [c]) := by
  refine .fresh (show RulesRenderAs (Document.snoc rules r).rules u from h.complete) ?_ ?_
  · rw [List.all_cons, isWhite_eq, hc, Bool.or_true]
    rfl
  · rw [List.any_cons, hc]
    rfl

/-- A bar behind a rule. -/
theorem Slot.Reads.bar (h : (Slot.next rules r).Reads u) : (Slot.branch rules r).Reads (u ++ ['|']) := by
  cases h with
  | next hrule hgap =>
    rw [List.append_assoc]
    exact .branch hrule hgap List.all_nil

/-! #### Steps and runs -/

theorem next_opened {b : Bracket} (h : (State.opened b).next c = some s') :
    ∃ hc : Layers.letters.contains c = true, State.named b (.single c hc) = s' := by
  simp only [State.next] at h
  split at h
  · next hc => exact ⟨hc, Option.some.inj h⟩
  · cases h

theorem next_named {b : Bracket} (h : (State.named b n).next c = some s') :
    (∃ hc : [c].all Layers.nameChars.contains = true, State.named b (n.grow [c] hc) = s') ∨
      c = '>' ∧ b.close n = s' := by
  simp only [State.next] at h
  split at h
  · next hc => exact .inl ⟨hc, Option.some.inj h⟩
  split at h
  · next hc => exact .inr ⟨hc, Option.some.inj h⟩
  · cases h

/-- **What has been read stays a rendering**, one character after the other. -/
theorem State.Reads.next (h : s.Reads u) (hnext : s.next c = some s') : s'.Reads (u ++ [c]) := by
  cases h with
  | start hu =>
    rcases of_ite_some hnext with ⟨hc, rfl⟩ | ⟨-, hnext⟩
    · exact .start (all_snoc hu hc)
    rcases of_ite_some hnext with ⟨rfl, rfl⟩ | ⟨-, hnext⟩
    · exact .opened (show Bracket.Reads (.head []) u from .first hu)
    · cases hnext
  | @fresh d v space hrules hspace hbreak =>
    rcases of_ite_some hnext with ⟨hc, rfl⟩ | ⟨-, hnext⟩
    · rw [List.append_assoc]
      refine .fresh hrules (all_snoc hspace hc) ?_
      rw [List.any_append, hbreak]
      rfl
    rcases of_ite_some hnext with ⟨rfl, rfl⟩ | ⟨-, hnext⟩
    · exact .opened (show Bracket.Reads (.head d.rules) (v ++ space) from .after hrules hspace hbreak)
    · cases hnext
  | @opened b v hb =>
    obtain ⟨hc, rfl⟩ := next_opened hnext
    have hnamed := State.Reads.named (n := .single c hc) hb
    simpa [Name.single] using hnamed
  | @named b n v hb =>
    rcases next_named hnext with ⟨hc, rfl⟩ | ⟨rfl, rfl⟩
    · have hnamed := State.Reads.named (n := n.grow [c] hc) hb
      simpa [Name.grow] using hnamed
    · have hclose := Bracket.Reads.close (n := n) hb
      simpa using hclose
  | head hhead =>
    rcases of_ite_some hnext with ⟨hc, rfl⟩ | ⟨-, hnext⟩
    · exact .head (hhead.blank hc)
    rcases of_ite_some hnext with ⟨rfl, rfl⟩ | ⟨-, hnext⟩
    · exact .colon hhead
    · cases hnext
  | colon hhead =>
    rcases of_ite_some hnext with ⟨rfl, rfl⟩ | ⟨-, hnext⟩
    · rw [List.append_assoc]
      exact .colons hhead
    · cases hnext
  | colons hhead =>
    rcases of_ite_some hnext with ⟨rfl, rfl⟩ | ⟨-, hnext⟩
    · rw [List.append_assoc]
      exact .gap (.first hhead List.all_nil)
    · cases hnext
  | gap hslot =>
    rcases of_ite_some hnext with ⟨hc, rfl⟩ | ⟨-, hnext⟩
    · exact .gap (hslot.blank hc)
    · exact hslot.enter hnext
  | literal hslot hbody =>
    rcases of_ite_some hnext with ⟨rfl, rfl⟩ | ⟨hc, hnext⟩
    · rw [List.append_assoc]
      exact hslot.fill (.ofList hbody)
    · cases hnext
      rw [List.append_assoc]
      refine .literal hslot ?_
      rw [List.mem_append, List.mem_singleton, not_or]
      exact ⟨hbody, fun he => hc he.symm⟩
  | behind hslot =>
    rcases of_ite_some hnext with ⟨hc, rfl⟩ | ⟨-, hnext⟩
    · exact .behind (hslot.blank hc)
    rcases of_ite_some hnext with ⟨hc, rfl⟩ | ⟨-, hnext⟩
    · exact hslot.line hc
    rcases of_ite_some hnext with ⟨rfl, rfl⟩ | ⟨-, hnext⟩
    · exact .gap hslot.bar
    · exact hslot.enter hnext

theorem State.Reads.walk (h : s.Reads u) (hwalk : walk s v = some s') : s'.Reads (u ++ v) := by
  induction v generalizing s u with
  | nil =>
    cases hwalk
    rwa [List.append_nil]
  | cons c v ih =>
    simp only [Scan.walk] at hwalk
    split at hwalk
    · next t ht =>
      have hrest := ih (h.next ht) hwalk
      rwa [List.append_assoc] at hrest
    · cases hwalk

theorem State.Reads.document {d : Document} (h : s.Reads u) (hd : s.document? = some d) : d.RendersAs u := by
  cases h with
  | fresh hrules hspace hbreak =>
    cases hd
    exact .mk hrules hspace
  | @behind rules r _ hslot =>
    cases hd
    have hdocument := Document.RendersAs.mk (show RulesRenderAs (Document.snoc rules r).rules u from hslot.complete)
      List.all_nil
    rwa [List.append_nil] at hdocument
  | _ => cases hd

end
end Scan

/-! ### What the parser accepts -/

/-- A rendering of a document is read as that document. -/
theorem Document.RendersAs.parse {d : Document} {text : String} (h : d.RendersAs text.toList) :
    Document.parse text = .ok d :=
  (Document.parse_ok_iff_walk text d).2 (walk_document h)

/-- **The parser accepts exactly the texts of documents**: it reads a text as a document if and
only if the document can be written so. Any other text is answered with a report. -/
theorem Document.parse_ok_iff_rendersAs (text : String) :
    (∀ d, Document.parse text = .ok d ↔ d.RendersAs text.toList) ∧
      ((∀ d : Document, ¬ d.RendersAs text.toList) ↔ ∃ f, Document.parse text = .error (.failure f)) := by
  have haccepts : ∀ d, Document.parse text = .ok d ↔ d.RendersAs text.toList := by
    refine fun d => ⟨fun h => ?_, Document.RendersAs.parse⟩
    obtain ⟨s, hwalk, hd⟩ := (Document.parse_ok_iff_walk text d).1 h
    have hreads := State.Reads.walk (.start List.all_nil) hwalk
    exact hreads.document hd
  refine ⟨haccepts, fun hnone => ?_, fun ⟨f, hf⟩ d hd => ?_⟩
  · have hreports := Document.parse_eq_read text
    split at hreports
    · next d _ => exact absurd ((haccepts d).1 hreports) (hnone d)
    · exact ⟨_, hreports⟩
  · have hok := (haccepts d).2 hd
    rw [hf] at hok
    cases hok

end BnfReader
