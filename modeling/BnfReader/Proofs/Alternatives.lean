import BnfReader.Proofs.Terms

/-! Alternatives, as the layers and as the scanner read them.

A repetition looks ahead over blanks and stops in one of two ways (`Halts`). Either nothing
that could go on stands there, and what was wanted is the hint it leaves. Or something was
begun there and broken off further on; then the hint is the mismatch that the scanner reports,
and the layers around it, which look no further than the place where it began, never
overtake it. -/
namespace BnfReader
open Scan

/-- From `o` on there are blanks up to `q`, where `cs` is left, which begins with no blank. -/
structure Ahead (text : Array Char) (o q : Nat) (cs : List Char) : Prop where
  blanks : ∃ us, us.all isBlank = true ∧ At text o (us ++ cs) ∧ q = o + us.length
  sharp : cs.head?.any isBlank = false

namespace Ahead
variable {text : Array Char} {o q : Nat} {cs : List Char}

theorem le (h : Ahead text o q cs) : o ≤ q := by
  obtain ⟨us, _, _, rfl⟩ := h.blanks
  exact Nat.le_add_right _ _

theorem at_end (h : Ahead text o q cs) : At text q cs := by
  obtain ⟨us, _, hat, rfl⟩ := h.blanks
  exact hat.append

/-- Without the blanks. -/
theorem here (h : Ahead text o q cs) : Ahead text q q cs :=
  ⟨⟨[], rfl, h.at_end, rfl⟩, h.sharp⟩

/-- From each offset there is something ahead, and a state that blanks do not change reads on
from there. -/
theorem of_at (h : At text o cs) : ∃ q rest, Ahead text o q rest ∧
    ∀ s : State, (∀ c, isBlank c = true → s.next c = some s) → read s o cs = read s q rest := by
  obtain ⟨us, rest, rfl, hus, hrest⟩ := exists_run isBlank cs
  exact ⟨o + us.length, rest, ⟨⟨us, hus, h, rfl⟩, hrest⟩, fun s hs => Layers.read_blanks hs hus⟩

theorem spaces (h : Ahead text o q cs) : ∃ us, (Layers.spaces.run text).Acts o (.done us q) none := by
  obtain ⟨us, hus, hat, rfl⟩ := h.blanks
  exact ⟨us, Layers.spaces_at hat hus h.sharp⟩

end Ahead

/-- How a repetition stops at `q`, where `cs` is left, with the hint `m`. -/
inductive Halts (begins : Char → Bool) (wanted : Expected) (q : Nat) (cs : List Char) (m : Mismatch)
    (reads reports : Prop) : Prop where
  | settled : m = ⟨q, wanted⟩ → cs.head?.any begins = false → reads →
      Halts begins wanted q cs m reads reports
  | doomed : q < m.offset → cs.head?.any begins = true → reports →
      Halts begins wanted q cs m reads reports

theorem Halts.le {begins : Char → Bool} {wanted : Expected} {q : Nat} {cs : List Char} {m : Mismatch}
    {reads reports : Prop} (h : Halts begins wanted q cs m reads reports) : q ≤ m.offset := by
  cases h with
  | settled hm =>
    subst hm
    exact Nat.le_refl q
  | doomed hm => exact Nat.le_of_lt hm

theorem Halts.imp {begins : Char → Bool} {wanted : Expected} {q : Nat} {cs : List Char} {m : Mismatch}
    {reads reports reads' reports' : Prop} (h : Halts begins wanted q cs m reads reports)
    (hr : reads → reads') (hr' : reports → reports') : Halts begins wanted q cs m reads' reports' := by
  cases h with
  | settled hm hcs h => exact .settled hm hcs (hr h)
  | doomed hm hcs h => exact .doomed hm hcs (hr' h)

namespace Layers
variable {text : Array Char} {o q : Nat} {cs : List Char}

/-- Behind a term, a term goes into the same alternative. -/
theorem read_behind_opening (rules : List Rule) (r : Rule) (hcs : cs.head?.any isOpening = true) :
    read (.behind rules r) q cs = read (.gap (.next rules r)) q cs := by
  cases cs with
  | nil => simp at hcs
  | cons c cs =>
    simp only [List.head?_cons, Option.any_some, isOpening, Bool.or_eq_true, beq_iff_eq] at hcs
    rcases hcs with (rfl | rfl) | rfl <;> rfl

/-! ### Runs of terms -/

/-- What a term is announced as. -/
def termWanted : Expected := .ofList ["literal", "rule reference"]

/-- A term and the blanks before it. -/
def item : Layer Term := spaces *> term

/-- What can become of a term behind blanks. -/
inductive ItemRun (text : Array Char) (o q : Nat) (cs : List Char) : Prop where
  | absent : (item.run text).Acts o (.failed ⟨q, termWanted⟩) none →
      cs.head?.any isOpening = false → ItemRun text o q cs
  | closed (t : Term) (last q' : Nat) (rest : List Char) (hint : Mismatch) :
      (item.run text).Acts o (.done t last) (some hint) → Ahead text last q' rest → q < last →
      hint.offset < last → cs.head?.any isOpening = true →
      (∀ slot, read (.gap slot) q cs = read (slot.fill t) q' rest) → ItemRun text o q cs
  | broken (m : Mismatch) (i : Hint) :
      (item.run text).Acts o (.failed m) i → q < m.offset → cs.head?.any isOpening = true →
      (∀ slot, read (.gap slot) q cs = .error (i.explain m)) → ItemRun text o q cs

theorem itemRun (h : Ahead text o q cs) : ItemRun text o q cs := by
  obtain ⟨us, hspaces⟩ := h.spaces
  cases termRun h.at_end with
  | absent hrun hcs => exact .absent (Parser.right_failed_later hspaces hrun) hcs
  | closed t rest last hint hrun hat hlast hhint hcs hread =>
    obtain ⟨q', rest', hahead, hskip⟩ := Ahead.of_at hat
    refine .closed t last q' rest' hint (Parser.right_done hspaces hrun) hahead hlast hhint hcs ?_
    intro slot
    rw [hread]
    exact hskip _ (behind_blank _ _)
  | broken m i hrun hm hcs hread =>
    exact .broken m i (Parser.right_failed_later hspaces hrun) hm hcs hread

/-- Terms behind a term, as many as there are. -/
theorem items_chain (h : Ahead text o q cs) : ∃ ts last q' rest m,
    Step.Chain (item.run text) o ts last (some m) ∧ Ahead text last q' rest ∧
      Halts isOpening termWanted q' rest m
        (∀ rules r, read (.behind rules r) q cs = read (.behind rules (r.extend ts)) q' rest)
        (∀ rules r, read (.behind rules r) q cs = .error m) := by
  -- Each term takes characters, so the induction is on how many are left.
  induction hn : text.size - o using Nat.strongRecOn generalizing o q cs with
  | _ n ih =>
    cases itemRun h with
    | absent hrun hcs =>
      refine ⟨[], o, q, cs, _, .missed hrun, h, .settled rfl hcs fun rules r => ?_⟩
      rw [Rule.extend_nil]
    | broken m i hrun hm hcs hread =>
      refine ⟨[], o, q, cs, i.explain m, ?_, h, .doomed ?_ hcs fun rules r => ?_⟩
      · rw [← Hint.add_explain]
        exact .missed hrun
      · exact Nat.lt_of_lt_of_le hm (i.le_explain m)
      · rw [read_behind_opening rules r hcs, hread]
    | closed t last q' rest hint hrun hahead hlast hhint hcs hread =>
      have hle := h.le
      have hsize := hahead.at_end.le
      have hle' := hahead.le
      obtain ⟨ts, last', q'', rest', m, hchain, hahead', hhalts⟩ := ih _ (by omega) hahead rfl
      have hlast' := hchain.le (item.run_stays text)
      have hfirst : ∀ rules r, read (.behind rules r) q cs = read (.behind rules (r.extend [t])) q' rest := by
        intro rules r
        rw [read_behind_opening rules r hcs, hread]
        rfl
      refine ⟨t :: ts, last', q'', rest', m, ?_, hahead', hhalts.imp ?_ ?_⟩
      · have hround := Step.Chain.round hrun (by omega) hchain
        have := hahead'.le
        have := hhalts.le
        rwa [Hint.add_of_lt (by omega)] at hround
      · intro hreads rules r
        rw [hfirst, hreads, Rule.extend_extend]
        rfl
      · intro hreports rules r
        rw [hfirst, hreports]

/-- What can become of an alternative. -/
inductive TermListRun (text : Array Char) (o q : Nat) (cs : List Char) : Prop where
  | broken (m : Mismatch) (i : Hint) : (termList.run text).Acts o (.failed m) i → q ≤ m.offset →
      (∀ slot, read (.gap slot) q cs = .error (i.explain m)) → TermListRun text o q cs
  | closed (t : Term) (ts : List Term) (last q' : Nat) (rest : List Char) (m : Mismatch) :
      (termList.run text).Acts o (.done (t :: ts) last) (some m) → Ahead text last q' rest → q < last →
      Halts isOpening termWanted q' rest m
        (∀ slot, read (.gap slot) q cs = read (.behind slot.rules ((slot.put t).extend ts)) q' rest)
        (∀ slot, read (.gap slot) q cs = .error m) → TermListRun text o q cs

theorem termListRun (h : Ahead text o q cs) : TermListRun text o q cs := by
  cases itemRun h with
  | absent hrun hcs =>
    refine .broken _ _ (Parser.many1_failed hrun) (Nat.le_refl _) fun slot => ?_
    rw [read_stuck rfl]
    · rfl
    · intro c hc
      have hblank : isBlank c = false := by simpa [hc] using h.sharp
      have hopening : isOpening c = false := by simpa [hc] using hcs
      simp only [isOpening, Bool.or_eq_false_iff, beq_eq_false_iff_ne] at hopening
      simp only [State.next, hblank, Slot.enter, hopening, Bool.false_eq_true, if_false]
  | broken m i hrun hm hcs hread =>
    exact .broken m i (Parser.many1_failed hrun) (Nat.le_of_lt hm) hread
  | closed t last q' rest hint hrun hahead hlast hhint hcs hread =>
    obtain ⟨ts, last', q'', rest', m, hchain, hahead', hhalts⟩ := items_chain hahead
    have hlast' := hchain.le (item.run_stays text)
    refine .closed t ts last' q'' rest' m ?_ hahead' (by omega) (hhalts.imp ?_ ?_)
    · have hall := Parser.many1_chain hrun hchain
      have := hahead'.le
      have := hhalts.le
      rwa [Hint.add_of_lt (by omega)] at hall
    · intro hreads slot
      rw [hread]
      exact hreads _ _
    · intro hreports slot
      rw [hread]
      exact hreports _ _

/-! ### Alternatives -/

/-- A bar and the blanks around it. -/
def separator : Layer Char := spaces *> (.char "|" : Layer Char) <* spaces

/-- One more alternative. -/
def furtherList : Layer (List Term) := separator *> termList

theorem separator_done (h : Ahead text o q ('|' :: cs)) : ∃ q' rest,
    (separator.run text).Acts o (.done '|' q') none ∧ Ahead text q' q' rest ∧ q < q' ∧
      ∀ rules r, read (.behind rules r) q ('|' :: cs) = read (.gap (.branch rules r)) q' rest := by
  obtain ⟨us, hspaces⟩ := h.spaces
  obtain ⟨q', rest, hahead, hskip⟩ := Ahead.of_at h.at_end.tail
  obtain ⟨vs, hspaces'⟩ := hahead.spaces
  refine ⟨q', rest, Parser.left_done (Parser.right_done hspaces (Parser.char_at '|' h.at_end)) hspaces',
    hahead.here, hahead.le, fun rules r => ?_⟩
  rw [← hskip _ (gap_blank _)]
  exact read_next rfl

theorem separator_failed (h : Ahead text o q cs) (hcs : cs.head? ≠ some '|') :
    (separator.run text).Acts o (.failed ⟨q, .only "'|'"⟩) none := by
  obtain ⟨us, hspaces⟩ := h.spaces
  exact Parser.left_failed spaces
    (Parser.right_failed_later hspaces (Parser.char_at_failed '|' h.at_end hcs))

/-- What can go on behind a term. -/
def continues (c : Char) : Bool := isOpening c || c == '|'

/-- What can go on behind a term, as it is announced. -/
def furtherWanted : Expected := .ofList ["'|'", "literal", "rule reference"]

/-- What can become of one more alternative. -/
inductive FurtherRun (text : Array Char) (o q : Nat) (cs : List Char) : Prop where
  | absent : (furtherList.run text).Acts o (.failed ⟨q, .only "'|'"⟩) none →
      cs.head? ≠ some '|' → FurtherRun text o q cs
  | broken (m : Mismatch) (i : Hint) : (furtherList.run text).Acts o (.failed m) i → q < m.offset →
      cs.head? = some '|' → (∀ rules r, read (.behind rules r) q cs = .error (i.explain m)) →
      FurtherRun text o q cs
  | closed (t : Term) (ts : List Term) (last q' : Nat) (rest : List Char) (m : Mismatch) :
      (furtherList.run text).Acts o (.done (t :: ts) last) (some m) → Ahead text last q' rest → q < last →
      Halts isOpening termWanted q' rest m
        (∀ rules r, read (.behind rules r) q cs = read (.behind rules (r.branch t ts)) q' rest)
        (∀ rules r, read (.behind rules r) q cs = .error m) → FurtherRun text o q cs

theorem furtherRun (h : Ahead text o q cs) : FurtherRun text o q cs := by
  by_cases hbar : cs.head? = some '|'
  · obtain ⟨tail, rfl⟩ := List.head?_eq_some_iff.1 hbar
    obtain ⟨q₂, cs₂, hsep, hahead₂, hq₂, hread₂⟩ := separator_done h
    cases termListRun hahead₂ with
    | broken m i hrun hm hread =>
      refine .broken m (Hint.add none i) (Parser.right_failed_later hsep hrun) (by omega) hbar fun rules r => ?_
      rw [hread₂, hread, Hint.none_add]
    | closed t ts last q' rest m hrun hahead hlast hhalts =>
      refine .closed t ts last q' rest m ?_ hahead (by omega) (hhalts.imp ?_ ?_)
      · have hdone := Parser.right_done hsep hrun
        rwa [Hint.none_add] at hdone
      · intro hreads rules r
        rw [hread₂, hreads]
        exact congrArg (fun r => read (.behind rules r) q' rest) (Rule.branch_extend r t [] ts)
      · intro hreports rules r
        rw [hread₂, hreports]
  · exact .absent (Parser.right_failed termList (separator_failed h hbar)) hbar

/-- Alternatives behind an alternative, as many as there are. The alternative before them was
read from each slot to the rule `put slot`, or is broken off already. -/
theorem lists_chain (h : Ahead text o q cs) {m : Mismatch} {source : Slot → Except Mismatch Document}
    {put : Slot → Rule}
    (hbefore : Halts isOpening termWanted q cs m
      (∀ slot, source slot = read (.behind slot.rules (put slot)) q cs)
      (∀ slot, source slot = .error m)) :
    ∃ tss last q' rest i m', Step.Chain (furtherList.run text) o tss last i ∧ Ahead text last q' rest ∧
      (∀ ts ∈ tss, ts ≠ []) ∧ Hint.add (some m) i = some m' ∧
      Halts continues furtherWanted q' rest m'
        (∀ slot r, r.name = (put slot).name → r.alternatives = (put slot).alternatives ++ tss →
          source slot = read (.behind slot.rules r) q' rest)
        (∀ slot, source slot = .error m') := by
  induction hn : text.size - o using Nat.strongRecOn generalizing o q cs m put with
  | _ n ih =>
    cases hbefore with
    | doomed hm hcs hreports =>
      obtain ⟨c, hc, hopening⟩ := (Option.any_eq_true _ _).1 hcs
      have hbar : cs.head? ≠ some '|' := by
        rw [hc]
        rintro ⟨⟩
        cases hopening
      refine ⟨[], o, q, cs, _, m, .missed (Parser.right_failed termList (separator_failed h hbar)), h,
        by simp, Hint.add_of_gt hm, .doomed hm ?_ hreports⟩
      simp [hc, continues, hopening]
    | settled hm hcs hreads =>
      cases furtherRun h with
      | absent hrun hbar =>
        refine ⟨[], o, q, cs, _, ⟨q, furtherWanted⟩, .missed hrun, h, by simp, ?_, .settled rfl ?_ ?_⟩
        · rw [hm, Hint.none_add, Hint.some_add_some, Mismatch.merge_here]
          rfl
        · cases hh : cs.head? with
          | none => rfl
          | some c =>
            rw [hh] at hcs hbar
            simp only [Option.any_some] at hcs
            simpa [continues, hcs] using hbar
        · intro slot r hname halternatives
          obtain rfl : r = put slot := Rule.ext hname (by simpa using halternatives)
          exact hreads slot
      | broken m₁ i hrun hm₁ hbar hread =>
        have hrow := Step.Chain.missed hrun
        rw [Hint.add_explain] at hrow
        have hq : q < (i.explain m₁).offset := Nat.lt_of_lt_of_le hm₁ (i.le_explain m₁)
        refine ⟨[], o, q, cs, _, i.explain m₁, hrow, h, by simp, ?_, .doomed hq ?_ fun slot => ?_⟩
        · rw [hm, Hint.add_of_lt hq]
        · rw [hbar]
          rfl
        · rw [hreads, hread]
      | closed t ts last q₁ rest₁ m₁ hrun hahead₁ hlast hhalts =>
        have hle := h.le
        have hsize₁ := hahead₁.at_end.le
        have hafter₁ : Halts isOpening termWanted q₁ rest₁ m₁
            (∀ slot, source slot = read (.behind slot.rules ((put slot).branch t ts)) q₁ rest₁)
            (∀ slot, source slot = .error m₁) :=
          hhalts.imp (fun hr slot => (hreads slot).trans (hr _ _)) fun hr slot => (hreads slot).trans (hr _ _)
        obtain ⟨tss, last', q', rest, i, m', hchain, hahead, hne, hsum, hafter⟩ :=
          ih _ (by have := hahead₁.le; omega) hahead₁ hafter₁ rfl
        have hrow := Step.Chain.round hrun (by omega) hchain
        rw [hsum] at hrow
        have hlast' := hchain.le (furtherList.run_stays text)
        have hle' := hahead.le
        have hm' := hafter.le
        refine ⟨(t :: ts) :: tss, last', q', rest, some m', m', hrow, hahead, ?_, ?_, hafter.imp ?_ id⟩
        · exact List.forall_mem_cons.2 ⟨by simp, hne⟩
        · rw [hm, Hint.add_of_lt (by show q < _; omega)]
        · intro hreads' slot r hname halternatives
          refine hreads' slot r hname ?_
          rw [halternatives]
          simp [Rule.branch]

/-- What can become of the alternatives of a rule. -/
inductive ExpressionRun (text : Array Char) (o q : Nat) (cs : List Char) : Prop where
  | broken (m : Mismatch) (i : Hint) : (expression.run text).Acts o (.failed m) i → q ≤ m.offset →
      (∀ slot, read (.gap slot) q cs = .error (i.explain m)) → ExpressionRun text o q cs
  | closed (tss : List (List Term)) (last q' : Nat) (rest : List Char) (m : Mismatch) :
      (expression.run text).Acts o (.done tss last) (some m) → Ahead text last q' rest → q < last →
      tss ≠ [] → (∀ ts ∈ tss, ts ≠ []) →
      Halts continues furtherWanted q' rest m
        (∀ rules (r : Rule), r.alternatives = tss →
          read (.gap (.first rules r.name)) q cs = read (.behind rules r) q' rest)
        (∀ slot, read (.gap slot) q cs = .error m) → ExpressionRun text o q cs

theorem expressionRun (h : Ahead text o q cs) : ExpressionRun text o q cs := by
  cases termListRun h with
  | broken m i hrun hm hread =>
    exact .broken m i (Parser.map_failed _ (Parser.both_failed _ hrun)) hm hread
  | closed t ts last q₁ rest₁ m₁ hrun hahead₁ hlast hhalts =>
    obtain ⟨tss, last', q', rest, i, m, hchain, hahead, hne, hsum, hafter⟩ := lists_chain hahead₁ hhalts
    have hlast' := hchain.le (furtherList.run_stays text)
    have hall := Parser.map_done (fun x : List Term × List (List Term) => x.1 :: x.2)
      (Parser.both_done hrun (Parser.many_chain hchain))
    rw [hsum] at hall
    refine .closed ((t :: ts) :: tss) last' q' rest m hall hahead (by omega) (by simp) ?_
      (hafter.imp ?_ id)
    · exact List.forall_mem_cons.2 ⟨by simp, hne⟩
    · intro hreads rules r halts
      refine hreads (.first rules r.name) r rfl ?_
      rw [halts]
      simp [Slot.put, Rule.single, Rule.extend]

end Layers
end BnfReader
