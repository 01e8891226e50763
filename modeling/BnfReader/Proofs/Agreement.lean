import BnfReader.Proofs.Rules

/-! The layers and the scanner read the same documents.

The lines of a document are followed as the alternatives of a rule were: a further line is
read, or broken off, or not there, and then the end of the text decides. `Document.parse_eq_read`
puts it together: the backtracking parser gives, on every text, the document or the report that
the scanner gives, so whatever is asked about reading can be asked about `Scan.read`. -/
namespace BnfReader
open Scan

namespace Layers
variable {text : Array Char} {o : Nat} {c : Char} {cs us w rest : List Char}

/-! ### Line ends -/

/-- A line break and the blanks before it. -/
def lineBreak : Layer Char := spaces *> newline

theorem any_isWhite (c : Option Char) : c.any isWhite = (c.any isBlank || c.any isBreak) := by
  cases c with
  | none => rfl
  | some c => exact isWhite_eq c

/-- Where no blank space stands there is nothing to skip. -/
theorem ahead_of_not_white (h : At text o rest) (hrest : rest.head?.any isWhite = false) :
    Ahead text o o rest := by
  rw [any_isWhite, Bool.or_eq_false_iff] at hrest
  exact ⟨⟨[], rfl, h, rfl⟩, hrest.1⟩

theorem lineBreak_done (h : At text o (us ++ c :: cs)) (hus : us.all isBlank = true)
    (hc : isBreak c = true) : (lineBreak.run text).Acts o (.done c (o + us.length + 1)) none := by
  have hblank : isBlank c = false := by
    simp only [isBreak, Bool.or_eq_true, beq_iff_eq] at hc
    rcases hc with rfl | rfl <;> rfl
  exact Parser.right_done (spaces_at h hus hblank) (Parser.satisfy_at "line break" h.append hc)

theorem lineBreak_failed (h : At text o (us ++ cs)) (hus : us.all isBlank = true)
    (hcs : cs.head?.any isWhite = false) :
    (lineBreak.run text).Acts o (.failed ⟨o + us.length, .only "line break"⟩) none := by
  rw [any_isWhite, Bool.or_eq_false_iff] at hcs
  exact Parser.right_failed_later (spaces_at h hus hcs.1)
    (Parser.satisfy_at_failed "line break" h.append hcs.2)

/-- Line breaks in blank space, as many as there are. Blanks behind the last of them are not
taken, but the next break is looked for behind them. -/
theorem breaks_chain (h : At text o (w ++ rest)) (hw : w.all isWhite = true)
    (hrest : rest.head?.any isWhite = false) : ∃ bs last us,
    Step.Chain (lineBreak.run text) o bs last (some ⟨o + w.length, .only "line break"⟩) ∧
      At text last (us ++ rest) ∧ us.all isWhite = true ∧ last + us.length = o + w.length := by
  induction hn : w.length using Nat.strongRecOn generalizing o w with
  | _ n ih =>
    obtain ⟨us, w₁, rfl, hus, hw₁⟩ := exists_run isBlank w
    cases w₁ with
    | nil =>
      rw [List.append_nil] at h hn hw
      refine ⟨[], o, us, ?_, h, hw, by omega⟩
      rw [← hn]
      exact .missed (lineBreak_failed h hus hrest)
    | cons c w₁ =>
      rw [List.all_append, List.all_cons, Bool.and_eq_true, Bool.and_eq_true] at hw
      have hc : isBreak c = true := by
        have hblank : isBlank c = false := hw₁
        simpa [isWhite_eq, hblank] using hw.2.1
      rw [List.append_assoc, List.cons_append] at h
      rw [List.length_append, List.length_cons] at hn
      obtain ⟨bs, last, vs, hchain, hat, hvs, hlen⟩ := ih _ (by omega) h.append.tail hw.2.2 rfl
      refine ⟨c :: bs, last, vs, ?_, hat, hvs, by omega⟩
      have hround := Step.Chain.round (lineBreak_done h hus hc) (by omega) hchain
      rwa [Hint.none_add, show o + us.length + 1 + w₁.length = o + n by omega] at hround

theorem lineEnd_done (us : List Char) (h : At text o (us ++ c :: (w ++ rest))) (hus : us.all isBlank = true)
    (hc : isBreak c = true) (hw : w.all isWhite = true) (hrest : rest.head?.any isWhite = false) :
    ∃ bs, (lineEnd.run text).Acts o (.done bs (o + us.length + 1 + w.length))
      (some ⟨o + us.length + 1 + w.length, .ofList ["line break", "whitespace"]⟩) := by
  obtain ⟨bs, last, vs, hchain, hat, hvs, hlen⟩ := breaks_chain h.append.tail hw hrest
  have hbreaks := Parser.many1_chain (lineBreak_done h hus hc) hchain
  have hwhite := Parser.many_satisfy_at (ε := Invalid) "whitespace" hat hvs hrest
  have hall := (Parser.left_done hbreaks hwhite).label_other "line break" (by simp)
  rw [hlen, Hint.none_add, Hint.some_add_some, Mismatch.merge_here] at hall
  exact ⟨c :: bs, hall⟩

theorem lineEnd_failed (us : List Char) (h : At text o (us ++ rest)) (hus : us.all isBlank = true)
    (hrest : rest.head?.any isWhite = false) :
    (lineEnd.run text).Acts o (.failed ⟨o + us.length, .only "line break"⟩) none := by
  have hbreaks := Parser.left_failed whitespace.many (Parser.many1_failed (lineBreak_failed h hus hrest))
  by_cases hlen : us.length = 0
  · rw [hlen] at hbreaks ⊢
    exact hbreaks.label_here "line break" rfl (by simp)
  · refine hbreaks.label_other "line break" ?_
    rintro m ⟨⟩
    show o + us.length ≠ o
    omega

/-! ### Lines -/

/-- A line end and a rule behind it. -/
def line : Layer Rule := lineEnd *> ruleBody

/-- Behind a rule, a line break and blank space lead to a fresh line. -/
theorem read_behind_break (rules : List Rule) (r : Rule) (hc : isBreak c = true)
    (hw : w.all isWhite = true) :
    read (.behind rules r) o (c :: (w ++ rest)) = read (.fresh (.snoc rules r)) (o + 1 + w.length) rest := by
  rw [read_next (behind_break rules r c hc)]
  exact read_walk (walk_loop (fresh_white _) hw)

theorem continues_not_white (hcs : cs.head?.any continues = true) : cs.head?.any isWhite = false := by
  cases cs with
  | nil => simp at hcs
  | cons c cs =>
    simp only [List.head?_cons, Option.any_some, continues, isOpening, Bool.or_eq_true, beq_iff_eq] at hcs
    rcases hcs with ((rfl | rfl) | rfl) | rfl <;> rfl

/-- Before the first rule, nothing but its bracket leads on from the blanks. -/
theorem start_stuck (hblank : cs.head?.any isBlank = false) (hopen : cs.head? ≠ some '<') :
    ∀ c, cs.head? = some c → State.start.next c = none := by
  intro c hc
  have hne : c ≠ '<' := fun he => hopen (he ▸ hc)
  have hblank' : isBlank c = false := by simpa [hc] using hblank
  simp only [State.next, hblank', hne, Bool.false_eq_true, if_false]

theorem fresh_stuck (d : Document) (hwhite : cs.head?.any isWhite = false) (hopen : cs.head? ≠ some '<') :
    ∀ c, cs.head? = some c → (State.fresh d).next c = none := by
  intro c hc
  have hne : c ≠ '<' := fun he => hopen (he ▸ hc)
  have hwhite' : isWhite c = false := by simpa [hc] using hwhite
  simp only [State.next, hwhite', hne, Bool.false_eq_true, if_false]

theorem behind_stuck (rules : List Rule) (r : Rule) (hcs : cs.head?.any continues = false)
    (hwhite : cs.head?.any isWhite = false) :
    ∀ c, cs.head? = some c → (State.behind rules r).next c = none := by
  intro c hc
  rw [hc] at hcs hwhite
  simp only [Option.any_some, continues, isOpening, isWhite_eq, Bool.or_eq_false_iff,
    beq_eq_false_iff_ne] at hcs hwhite
  simp only [State.next, hwhite, hcs, Slot.enter, Bool.false_eq_true, if_false]

/-- What can become of a further line behind a rule. -/
inductive LineRun (text : Array Char) (o : Nat) (cs : List Char) : Prop where
  | absent : (line.run text).Acts o (.failed ⟨o, .only "line break"⟩) none →
      cs.head?.any isWhite = false → LineRun text o cs
  | blank (w rest : List Char) : cs = w ++ rest → 0 < w.length → w.all isWhite = true →
      rest.head?.any isWhite = false → rest.head? ≠ some '<' →
      (line.run text).Acts o (.failed ⟨o + w.length, .only "'<'"⟩)
        (some ⟨o + w.length, .ofList ["line break", "whitespace"]⟩) →
      (∀ rules r, read (.behind rules r) o cs = read (.fresh (.snoc rules r)) (o + w.length) rest) →
      LineRun text o cs
  | broken (w rest : List Char) (m : Mismatch) (i : Hint) : cs = w ++ rest → w.all isWhite = true →
      rest.head? = some '<' → (line.run text).Acts o (.failed m) i → o + w.length < m.offset →
      (∀ rules r, read (.behind rules r) o cs = .error (i.explain m)) → LineRun text o cs
  | closed (r' : Rule) (q : Nat) (rest : List Char) (m : Mismatch) :
      (line.run text).Acts o (.done r' q) (some m) → Ahead text q q rest → o < q →
      Halts continues furtherWanted q rest m
        (∀ rules r, read (.behind rules r) o cs = read (.behind (rules ++ [r]) r') q rest)
        (∀ rules r, read (.behind rules r) o cs = .error m) → LineRun text o cs

theorem lineRun (h : Ahead text o o cs) : LineRun text o cs := by
  by_cases hbreak : cs.head?.any isBreak = true
  · cases cs with
    | nil => cases hbreak
    | cons c cs =>
      obtain ⟨w, rest, rfl, hw, hrest⟩ := exists_run isWhite cs
      obtain ⟨bs, hend⟩ := lineEnd_done [] h.at_end rfl hbreak hw hrest
      have hwhite : (c :: w).all isWhite = true := by
        rw [List.all_cons, hw, isWhite_eq, show isBreak c = true from hbreak]
        simp
      have hlen : o + ([] : List Char).length + 1 + w.length = o + (c :: w).length := by
        rw [List.length_nil, List.length_cons]
        omega
      rw [hlen] at hend
      have hread : ∀ rules r, read (.behind rules r) o (c :: (w ++ rest)) =
          read (.fresh (.snoc rules r)) (o + (c :: w).length) rest := by
        intro rules r
        rw [read_behind_break rules r hbreak hw, ← hlen]
        rfl
      have hat : At text (o + (c :: w).length) rest := At.append h.at_end
      have hahead := ahead_of_not_white hat hrest
      by_cases hopen : rest.head? = some '<'
      · obtain ⟨tail, rfl⟩ := List.head?_eq_some_iff.1 hopen
        have hopened : ∀ rules r, read (.behind rules r) o (c :: (w ++ '<' :: tail)) =
            read (.opened (.head (rules ++ [r]))) (o + (c :: w).length + 1) tail := by
          intro rules r
          rw [hread]
          exact read_next rfl
        cases bodyRun hahead with
        | broken m i hrun hm hread' =>
          refine .broken (c :: w) ('<' :: tail) m _ rfl hwhite rfl (Parser.right_failed_later hend hrun) hm ?_
          intro rules r
          rw [hopened, hread', Hint.explain_of_lt i hm]
        | closed r' q rest m hrun hahead' hq hhalts =>
          have hm := hhalts.le
          have hdone := Parser.right_done hend hrun
          rw [Hint.add_of_lt (Nat.lt_of_lt_of_le hq hm)] at hdone
          refine .closed r' q rest m hdone hahead' (by omega) (hhalts.imp ?_ ?_)
          · intro hreads rules r
            rw [hopened, hreads]
          · intro hreports rules r
            rw [hopened, hreports]
      · have hfail := Parser.right_failed_later hend (ruleBody_absent hahead hopen)
        rw [Hint.add_none] at hfail
        exact .blank (c :: w) rest rfl (Nat.succ_pos _) hwhite hrest hopen hfail hread
  · have hwhite : cs.head?.any isWhite = false := by
      rw [any_isWhite, h.sharp, Bool.false_or]
      simpa using hbreak
    exact .absent (Parser.right_failed ruleBody (lineEnd_failed [] h.at_end rfl hwhite)) hwhite

/-- How the lines of a document end: `w` is the blank space behind them and `rest` what is left
at its end `e`. The document is complete, or a line was begun at `e` and broken off. -/
inductive Closes (e : Nat) (rest : List Char) (m : Mismatch) (source : Except Mismatch Document)
    (rules : List Rule) : Prop where
  | complete (s : State) (d : Document) (wanted : Expected) : s.document? = some d → d.rules = rules →
      source = read s e rest → (∀ c, rest.head? = some c → s.next c = none) → m = ⟨e, wanted⟩ →
      (wanted.union (.only "whitespace")).union (.only "end of input") = s.expected →
      Closes e rest m source rules
  | doomed : e < m.offset → rest ≠ [] → source = .error m → Closes e rest m source rules

theorem lines_chain (h : Ahead text o o cs) {m : Mismatch} {source : Except Mismatch Document}
    {rules : List Rule} {r : Rule}
    (hbefore : Halts continues furtherWanted o cs m (source = read (.behind rules r) o cs)
      (source = .error m)) :
    ∃ rs last w rest i m', Step.Chain (line.run text) o rs last i ∧ At text last (w ++ rest) ∧
      w.all isWhite = true ∧ rest.head?.any isWhite = false ∧ Hint.add (some m) i = some m' ∧
      Closes (last + w.length) rest m' source (rules ++ r :: rs) := by
  induction hn : text.size - o using Nat.strongRecOn generalizing o cs m rules r with
  | _ n ih =>
    cases hbefore with
    | doomed hm hcs hreports =>
      have hwhite := continues_not_white hcs
      have hfail := Parser.right_failed ruleBody (lineEnd_failed [] h.at_end rfl hwhite)
      refine ⟨[], o, [], cs, _, m, .missed hfail, h.at_end, rfl, hwhite, Hint.add_of_gt hm, .doomed hm ?_ hreports⟩
      rintro rfl
      cases hcs
    | settled hm hcs hreads =>
      cases lineRun h with
      | absent hrun hwhite =>
        refine ⟨[], o, [], cs, _, ⟨o, furtherWanted.union (.only "line break")⟩, .missed hrun, h.at_end, rfl,
          hwhite, ?_, .complete (.behind rules r) (.snoc rules r) _ rfl rfl hreads ?_ rfl rfl⟩
        · rw [hm, Hint.none_add, Hint.some_add_some, Mismatch.merge_here]
        · exact behind_stuck rules r hcs hwhite
      | blank w rest hcs' hpos hw hrest hopen hrun hread =>
        subst hcs'
        refine ⟨[], o, w, rest, _, ⟨o + w.length,
          (Expected.ofList ["line break", "whitespace"]).union (.only "'<'")⟩, .missed hrun, h.at_end, hw, hrest,
          ?_, .complete (.fresh (.snoc rules r)) (.snoc rules r) _ rfl rfl (hreads.trans (hread rules r)) ?_ rfl rfl⟩
        · rw [hm, Hint.some_add_some, Mismatch.merge_here, Hint.add_of_lt]
          show o < o + w.length
          omega
        · exact fresh_stuck (.snoc rules r) hrest hopen
      | broken w rest m₁ i hcs' hw hopen hrun hm₁ hread =>
        subst hcs'
        obtain ⟨tail, rfl⟩ := List.head?_eq_some_iff.1 hopen
        have hle := i.le_explain m₁
        refine ⟨[], o, w, '<' :: tail, _, i.explain m₁, .missed hrun, h.at_end, hw, rfl, ?_, .doomed (by omega) (by simp)
          (hreads.trans (hread rules r))⟩
        rw [hm, Hint.add_explain, Hint.add_of_lt]
        show o < _
        omega
      | closed r' q rest m₁ hrun hahead hq hhalts =>
        have hsize := hahead.at_end.le
        have hafter : Halts continues furtherWanted q rest m₁
            (source = read (.behind (rules ++ [r]) r') q rest) (source = .error m₁) :=
          hhalts.imp (fun hr => hreads.trans (hr rules r)) fun hr => hreads.trans (hr rules r)
        obtain ⟨rs, last, w, rest', i, m', hchain, hat, hw, hrest, hsum, hcloses⟩ :=
          ih _ (by omega) hahead hafter rfl
        have hrow := Step.Chain.round hrun (by omega) hchain
        have hm' := Hint.le_of_add hsum
        have hm₁ := hhalts.le
        rw [List.append_assoc] at hcloses
        refine ⟨r' :: rs, last, w, rest', _, m', hrow, hat, hw, hrest, ?_, hcloses⟩
        rw [hsum, hm, Hint.add_of_lt]
        show o < _
        omega

/-! ### Documents -/

theorem documentMake_eq (d : Document) : Document.make d.rules = .ok d := by
  simp only [Document.make, d.some_rule, ne_eq, not_false_eq_true, dite_true]

/-- The layer reads a document that the scanner reads too, or fails with its report. -/
inductive DocumentRun (text : Array Char) : Prop where
  | closed (d : Document) (stop : Nat) (i : Hint) : (document.run text).Acts 0 (.done d stop) i →
      read .start 0 text.toList = .ok d → DocumentRun text
  | broken (m : Mismatch) (i : Hint) : (document.run text).Acts 0 (.failed m) i →
      read .start 0 text.toList = .error (i.explain m) → DocumentRun text

/-- The end of the text behind the last line decides. -/
theorem documentRun_of_lines {rs : List Rule} {last : Nat} {m : Mismatch}
    (hrules : (((ruleBody.both line.many).map fun (first, rest) => first :: rest).run text).Acts 0
      (.done rs last) (some m))
    (hat : At text last (w ++ rest)) (hw : w.all isWhite = true) (hrest : rest.head?.any isWhite = false)
    (hcloses : Closes (last + w.length) rest m (read .start 0 text.toList) rs) : DocumentRun text := by
  have hspaced := Parser.left_done hrules (Parser.many_satisfy_at (ε := Invalid) "whitespace" hat hw hrest)
  cases hcloses with
  | complete s d wanted hdoc hd hsource hnext hm hexpected =>
    cases rest with
    | nil =>
      have hmake : Document.make rs = .ok d := by
        rw [← hd]
        exact documentMake_eq d
      refine .closed d _ _ (Parser.convert_done (Parser.left_done hspaced (Parser.eof_at hat.append)) hmake) ?_
      rw [hsource]
      simp only [Scan.read, hdoc]
    | cons c rest =>
      have hfail := Parser.left_failed_later hspaced (Parser.eof_at_failed hat.append (by simp))
      refine .broken _ _ (Parser.convert_failed Document.make hfail) ?_
      rw [hsource, read_stop (hnext c rfl), State.miss, State.marked_of_document hdoc, ← hexpected, hm, Hint.add_none,
        Hint.some_add_some, Mismatch.merge_here, Hint.explain_here, Expected.union_comm]
      rfl
  | doomed hm hne hsource =>
    have hfail := Parser.left_failed_later hspaced (Parser.eof_at_failed hat.append hne)
    rw [Hint.add_none, Hint.add_of_gt hm] at hfail
    refine .broken _ _ (Parser.convert_failed Document.make hfail) ?_
    rw [hsource]
    exact congrArg Except.error (Mismatch.merge_of_lt hm).symm

theorem documentRun (text : Array Char) : DocumentRun text := by
  obtain ⟨q, cs, hahead, hskip⟩ := Ahead.of_at (At.zero text)
  have hstart := hskip .start start_blank
  by_cases hopen : cs.head? = some '<'
  · obtain ⟨tail, rfl⟩ := List.head?_eq_some_iff.1 hopen
    have hopened : read .start 0 text.toList = read (.opened (.head [])) (q + 1) tail := by
      rw [hstart]
      exact read_next rfl
    cases bodyRun hahead with
    | broken m i hrun hm hread =>
      refine .broken m i ?_ (hopened.trans (hread []))
      exact Parser.convert_failed Document.make (Parser.left_failed _ (Parser.left_failed _
        (Parser.map_failed _ (Parser.both_failed _ hrun))))
    | closed r q' rest m hrun hahead' hq hhalts =>
      have hafter : Halts continues furtherWanted q' rest m
          (read .start 0 text.toList = read (.behind [] r) q' rest)
          (read .start 0 text.toList = .error m) :=
        hhalts.imp (fun hr => hopened.trans (hr [])) fun hr => hopened.trans (hr [])
      obtain ⟨rs, last, w, rest', i, m', hchain, hat, hw, hrest, hsum, hcloses⟩ := lines_chain hahead' hafter
      have hrules := Parser.map_done (fun x : Rule × List Rule => x.1 :: x.2)
        (Parser.both_done hrun (Parser.many_chain hchain))
      rw [hsum] at hrules
      exact documentRun_of_lines hrules hat hw hrest hcloses
  · have hfail := ruleBody_absent hahead hopen
    refine .broken ⟨q, .only "'<'"⟩ none ?_ ?_
    · exact Parser.convert_failed Document.make (Parser.left_failed _ (Parser.left_failed _
        (Parser.map_failed _ (Parser.both_failed _ hfail))))
    · rw [hstart, read_stuck rfl]
      · rfl
      · exact start_stuck hahead.sharp hopen

end Layers

/-- **The backtracking parser and the scanner give the same answer on every text**: the same
document, or the same report. -/
theorem Document.parse_eq_read (text : String) :
    Document.parse text = match Scan.read .start 0 text.toList with
      | .ok d => .ok d
      | .error m => .error (.failure (Failure.ofMismatch text.toList.toArray m)) := by
  have hlist : text.toList.toArray.toList = text.toList := rfl
  cases Layers.documentRun text.toList.toArray with
  | closed d stop i hrun hread =>
    rw [← hlist, hread]
    simp only [Document.parse, Parser.parse, hrun none]
  | broken m i hrun hread =>
    rw [← hlist, hread]
    simp only [Document.parse, Parser.parse, hrun none, Hint.none_add]

/-- A text is read if the scanner gets to its end and the document is complete there. -/
theorem Document.parse_ok_iff_walk (text : String) (d : Document) :
    Document.parse text = .ok d ↔ ∃ s, walk .start text.toList = some s ∧ s.document? = some d := by
  rw [← read_ok_iff (o := 0), Document.parse_eq_read]
  split
  · next d' h => simp [h]
  · next m h => simp [h]

end BnfReader
