import BnfReader.Proofs.Stopping

/-! Line ends of every style are read alike.

A carriage return, a line feed and the two together lead the scanner from one state to states
that differ only within an open literal, whose text keeps the line ends as they are. So the
scanner follows a text and the text with its line ends unified side by side, through states
that differ only in their literals (`State.unify`): one step for each character, and for a
pair two steps on the one side and one on the other. Both stop at the same place or accept
the same document up to its literals. -/
namespace BnfReader
open Scan Text

/-! ### Documents with other literals -/

/-- The term with its text changed if it is a literal. -/
def Term.mapLiteral (f : String → String) : Term → Term
  | .literal text => .literal (f text)
  | .ref name => .ref name

/-- The rule with the texts of its literals changed. -/
def Rule.mapLiterals (f : String → String) (r : Rule) : Rule :=
  ⟨r.name, r.alternatives.map fun terms => terms.map (Term.mapLiteral f),
    by simpa using r.some_alternative,
    by simpa using r.some_term⟩

/-- The document with the texts of its literals changed. -/
def Document.mapLiterals (f : String → String) (d : Document) : Document :=
  ⟨d.rules.map (Rule.mapLiterals f), by simpa using d.some_rule⟩

section
variable (f : String → String)

theorem Rule.mapLiterals_extend (r : Rule) (ts : List Term) :
    (r.extend ts).mapLiterals f = (r.mapLiterals f).extend (ts.map (Term.mapLiteral f)) := by
  ext1
  · rfl
  · simp [Rule.mapLiterals, Rule.extend, List.getLast_map, List.map_dropLast]

theorem Rule.mapLiterals_branch (r : Rule) (t : Term) (ts : List Term) :
    (r.branch t ts).mapLiterals f = (r.mapLiterals f).branch (t.mapLiteral f) (ts.map (Term.mapLiteral f)) := by
  ext1
  · rfl
  · simp [Rule.mapLiterals, Rule.branch]

theorem Document.mapLiterals_snoc (rules : List Rule) (r : Rule) :
    (Document.snoc rules r).mapLiterals f = .snoc (rules.map (Rule.mapLiterals f)) (r.mapLiterals f) := by
  simp [Document.mapLiterals, Document.snoc]

end

namespace Scan

/-! ### States with other literals -/

/-- The rule with unified line ends in its literals. -/
def unifyRule : Rule → Rule := Rule.mapLiterals withUnixNewlines

/-- The slot with unified line ends in the literals of its rules. -/
def Slot.unify : Slot → Slot
  | .first rules name => .first (rules.map unifyRule) name
  | .next rules r => .next (rules.map unifyRule) (unifyRule r)
  | .branch rules r => .branch (rules.map unifyRule) (unifyRule r)

/-- The bracket with unified line ends in the literals before it. -/
def Bracket.unify : Bracket → Bracket
  | .head rules => .head (rules.map unifyRule)
  | .ref slot => .ref slot.unify

/-- The state with unified line ends in its literals, the open one included. -/
def State.unify : State → State
  | .start => .start
  | .fresh d => .fresh (d.mapLiterals withUnixNewlines)
  | .opened b => .opened b.unify
  | .named b name => .named b.unify name
  | .head rules name => .head (rules.map unifyRule) name
  | .colon rules name => .colon (rules.map unifyRule) name
  | .colons rules name => .colons (rules.map unifyRule) name
  | .gap slot => .gap slot.unify
  | .literal slot quote body => .literal slot.unify quote (unifyNewlines body)
  | .behind rules r => .behind (rules.map unifyRule) (unifyRule r)

/-- What has been read of an open literal. -/
def State.body : State → List Char
  | .literal _ _ body => body
  | _ => []

section
variable {s s' t : State} {c : Char} {u rest : List Char}

theorem fill_unify (slot : Slot) (t : Term) :
    slot.unify.fill (t.mapLiteral withUnixNewlines) = (slot.fill t).unify := by
  cases slot with
  | first rules name => rfl
  | next rules r => exact congrArg (State.behind _) (Rule.mapLiterals_extend _ r [t]).symm
  | branch rules r => exact congrArg (State.behind _) (Rule.mapLiterals_branch _ r t []).symm

theorem close_unify (b : Bracket) (n : Name) : b.unify.close n = (b.close n).unify := by
  cases b with
  | head rules => rfl
  | ref slot => exact fill_unify slot (.ref n)

theorem enter_unify (slot : Slot) (c : Char) : slot.unify.enter c = (slot.enter c).map State.unify := by
  simp only [Slot.enter, apply_ite (Option.map _)]
  rfl

theorem document_unify (s : State) : s.unify.document? = s.document?.map (Document.mapLiterals withUnixNewlines) := by
  cases s with
  | behind rules r => exact congrArg some (Document.mapLiterals_snoc _ rules r).symm
  | _ => rfl

theorem expected_unify (s : State) : s.unify.expected = s.expected := by cases s <;> rfl

theorem marker_unify (s : State) : s.unify.marker = s.marker := by cases s <;> rfl

/-! ### Steps -/

/-- A carriage return leads where a line feed leads. -/
theorem next_unify_return (s : State) : s.unify.next '\n' = (s.next '\r').map State.unify := by
  cases s with
  | literal slot q body =>
    have hcut : ¬ SplitsPair body ['\r'] := by simp [SplitsPair]
    cases q <;> simp [State.unify, State.next, Quote.char, unifyNewlines_append hcut, unifyNewlines_singleton,
      unifyNewline]
  | behind rules r => exact congrArg (some ∘ State.fresh) (Document.mapLiterals_snoc _ rules r).symm
  | _ => rfl

/-- Another character leads on as before, unless it ends a pair within a literal. -/
theorem next_unify_other (hc : c ≠ '\r') (hcut : ¬ SplitsPair s.body [c]) :
    s.unify.next c = (s.next c).map State.unify := by
  cases s with
  | start => simp [State.unify, State.next, apply_ite (Option.map _), Bracket.unify]
  | fresh d =>
    simp [State.unify, State.next, apply_ite (Option.map _), Bracket.unify, Document.mapLiterals, unifyRule]
  | opened b => simp [State.unify, State.next, apply_dite (Option.map _)]
  | named b n =>
    simp [State.unify, State.next, apply_dite (Option.map _), apply_ite (Option.map _), close_unify]
  | head rules n => simp [State.unify, State.next, apply_ite (Option.map _)]
  | colon rules n => simp [State.unify, State.next, apply_ite (Option.map _)]
  | colons rules n => simp [State.unify, State.next, apply_ite (Option.map _), Slot.unify]
  | gap slot => simp [State.unify, State.next, apply_ite (Option.map _), enter_unify]
  | literal slot q body =>
    have hopen : unifyNewlines (body ++ [c]) = unifyNewlines body ++ [c] := by
      rw [unifyNewlines_append (by exact hcut), unifyNewlines_singleton, unifyNewline, if_neg hc]
    have hclosed : slot.unify.fill (.literal (String.ofList (unifyNewlines body))) =
        (slot.fill (.literal (String.ofList body))).unify := by
      rw [← fill_unify, Term.mapLiteral, withUnixNewlines, String.toList_ofList]
    simp [State.unify, State.next, apply_ite (Option.map _), hopen, hclosed]
  | behind rules r =>
    simp [State.unify, State.next, apply_ite (Option.map _), ← enter_unify, Slot.unify, Document.mapLiterals_snoc]
    rfl

theorem next_unify (hcut : ¬ SplitsPair s.body [c]) :
    s.unify.next (unifyNewline c) = (s.next c).map State.unify := by
  by_cases hc : c = '\r'
  · subst hc
    exact next_unify_return s
  · rw [unifyNewline, if_neg hc]
    exact next_unify_other hc hcut

/-- The line feed of a pair makes no difference. -/
theorem next_pair (h : s.next '\r' = some s') : ∃ t, s'.next '\n' = some t ∧ t.unify = s'.unify := by
  cases s with
  | fresh d =>
    cases h
    exact ⟨_, rfl, rfl⟩
  | literal slot q body =>
    have hfirst : ¬ SplitsPair body ['\r'] := by simp [SplitsPair]
    have hpair : ¬ SplitsPair body ['\r', '\n'] := by simp [SplitsPair]
    obtain rfl : State.literal slot q (body ++ ['\r']) = s' := by
      cases q <;> exact Option.some.inj h
    refine ⟨.literal slot q (body ++ ['\r'] ++ ['\n']), by cases q <;> rfl, ?_⟩
    simp only [State.unify, List.append_assoc, List.cons_append, List.nil_append, unifyNewlines_append hpair,
      unifyNewlines_append hfirst]
    rfl
  | behind rules r =>
    cases h
    exact ⟨_, rfl, rfl⟩
  | _ => cases h

/-- An open literal ends with the character that was read last. -/
theorem body_next (h : s.next c = some s') {x : Char} (hx : s'.body.getLast? = some x) : x = c := by
  cases s with
  | named b n => cases b <;> grind [State.next, State.body, Bracket.close, Slot.fill]
  | _ => grind [State.next, State.body, Slot.enter, Slot.fill]

/-! ### Runs -/

theorem walk_unify (h : walk s u = some t) (hcut : ¬ SplitsPair s.body u) :
    walk s.unify (unifyNewlines u) = some t.unify := by
  fun_induction unifyNewlines u generalizing s with
  | case1 =>
    cases h
    rfl
  | case2 rest ih =>
    -- Two steps on the one side, one on the other: the second leads to a state that is unified alike.
    simp only [walk] at h
    split at h
    next s' hreturn =>
      obtain ⟨s'', hfeed, hsame⟩ := next_pair hreturn
      rw [hfeed] at h
      have hrest : ¬ SplitsPair s''.body rest := by
        intro hsplits
        cases body_next hfeed hsplits.1
      have hnext := next_unify_return s
      rw [hreturn, Option.map_some, ← hsame] at hnext
      rw [walk_next hnext]
      exact ih h hrest
    next => cases h
  | case3 c rest hc ih =>
    simp only [walk] at h
    split at h
    next s' hstep =>
      have hrest : ¬ SplitsPair s'.body rest := by
        intro hsplits
        obtain rfl := body_next hstep hsplits.1
        exact not_splitsPair_singleton hc ⟨rfl, hsplits.2⟩
      have hnext := next_unify (s := s) (c := c) hcut
      rw [hstep, Option.map_some] at hnext
      rw [← unifyNewline, walk_next hnext]
      exact ih h hrest
    next => cases h

/-- The scanner does not stop within a pair. -/
theorem Stops.not_splitsPair (h : Stops .start u rest t) : ¬ SplitsPair u rest := by
  intro ⟨hlast, hhead⟩
  obtain ⟨v, rfl⟩ := List.getLast?_eq_some_iff.1 hlast
  have hwalk := h.walk
  rw [walk_append] at hwalk
  obtain ⟨s, -, hreturn⟩ := Option.bind_eq_some_iff.1 hwalk
  rw [← List.nil_append ['\r'], walk_snoc rfl] at hreturn
  obtain ⟨t', hfeed, -⟩ := next_pair hreturn
  rw [h.stuck '\n' hhead] at hfeed
  cases hfeed

/-- A state that a character does not lead on from is not within a literal. -/
theorem body_of_stuck (h : t.next c = none) : t.body = [] := by
  cases t with
  | literal slot q body =>
    simp only [State.next] at h
    split at h <;> cases h
  | _ => rfl

theorem Stops.unify (h : Stops .start u rest t) :
    Stops .start (unifyNewlines u) (unifyNewlines rest) t.unify := by
  refine ⟨walk_unify h.walk (by simp [State.body, SplitsPair]), fun c hc => ?_, fun hrest => ?_⟩
  · rw [head?_unifyNewlines] at hc
    obtain ⟨x, hx, rfl⟩ := Option.map_eq_some_iff.1 hc
    have hstuck := h.stuck x hx
    have hcut : ¬ SplitsPair t.body [x] := by simp [body_of_stuck hstuck, SplitsPair]
    rw [next_unify hcut, hstuck]
    rfl
  · have hhead := head?_unifyNewlines rest
    rw [hrest] at hhead
    rw [document_unify, h.incomplete (List.head?_eq_none_iff.1 (Option.map_eq_none_iff.1 hhead.symm))]
    rfl

end
end Scan

/-! ### Texts -/

theorem Text.withUnixNewlines_singleton (c : Char) :
    withUnixNewlines (String.singleton c) = String.singleton (unifyNewline c) := by
  rw [withUnixNewlines, String.toList_singleton, unifyNewlines_singleton]
  rfl

theorem Failure.behind_unify (v rest : List Char) (e : Expected) :
    Failure.behind (unifyNewlines v) (unifyNewlines rest) e =
      { Failure.behind v rest e with
        offset := v.length - crlfCount v
        found := (Failure.behind v rest e).found.map withUnixNewlines } := by
  have hlength : ((unifyNewlines v).length : Int) = v.length - crlfCount v := by
    have := length_unifyNewlines v
    omega
  have hfound : (unifyNewlines rest).head?.map String.singleton =
      (rest.head?.map String.singleton).map withUnixNewlines := by
    rw [head?_unifyNewlines]
    cases rest.head? with
    | none => rfl
    | some c => simp [withUnixNewlines_singleton]
  simp only [Failure.behind, hlength, lineAfter_unifyNewlines, columnAfter_unifyNewlines, hfound]

/-- **The style of line ends does not matter**: a text and the same text with its line ends
unified are read as the same document up to the line ends in its literals, or are rejected
with the same report, at an offset that is less by the pairs before it. -/
theorem Document.parse_withUnixNewlines (text : String) :
    (∀ d, Document.parse text = .ok d →
      Document.parse (withUnixNewlines text) = .ok (d.mapLiterals withUnixNewlines)) ∧
    (∀ (f : Failure) (p : Nat), Document.parse text = .error (.failure f) → f.offset = p →
      ¬ SplitsPair (text.toList.take p) (text.toList.drop p) ∧
      Document.parse (withUnixNewlines text) = .error (.failure
        { f with
          offset := p - crlfCount (text.toList.take p)
          found := f.found.map withUnixNewlines })) := by
  have htext : (withUnixNewlines text).toList = unifyNewlines text.toList := String.toList_ofList
  constructor
  · intro d h
    obtain ⟨s, hwalk, hd⟩ := (Document.parse_ok_iff_walk text d).1 h
    refine (Document.parse_ok_iff_walk _ _).2 ⟨s.unify, ?_, ?_⟩
    · rw [htext]
      exact walk_unify hwalk (by simp [State.body, SplitsPair])
    · rw [document_unify, hd]
      rfl
  · intro f p h hp
    obtain ⟨v, rest, t, hsplit, hstops, rfl⟩ := (Document.parse_failure_iff text f).1 h
    obtain rfl : v.length = p := Int.ofNat.inj hp
    -- A marker has colons only, so it neither ends nor begins with a part of a pair.
    have hreturn : '\r' ∉ t.marker := by simp [State.marker, List.mem_replicate]
    have hfeed : '\n' ∉ t.marker := by simp [State.marker, List.mem_replicate]
    have hmarker : unifyNewlines t.marker = t.marker := unifyNewlines_eq_self hreturn
    have hcut : ¬ SplitsPair t.marker rest := fun hs => hreturn (List.mem_of_getLast? hs.1)
    have hcut' : ¬ SplitsPair v t.marker := fun hs => hfeed (List.mem_of_head? hs.2)
    have hplace : ¬ SplitsPair v (t.marker ++ rest) := by
      have hend := hstops.not_splitsPair
      cases hm : t.marker with
      | nil =>
        rw [hm, List.append_nil] at hend
        exact hend
      | cons x marker =>
        rw [hm] at hcut'
        exact hcut'
    rw [hsplit, List.take_left, List.drop_left]
    refine ⟨hplace, (Document.parse_failure_iff _ _).2
      ⟨unifyNewlines v, unifyNewlines rest, t.unify, ?_, ?_, ?_⟩⟩
    · rw [htext, hsplit, unifyNewlines_append hplace, unifyNewlines_append hcut, hmarker, marker_unify]
    · have hunified := hstops.unify
      rwa [unifyNewlines_append hcut', hmarker, ← marker_unify] at hunified
    · have hleft := unifyNewlines_append hcut
      rw [hmarker] at hleft
      rw [marker_unify, expected_unify, ← hleft, Failure.behind_unify]

/-- A literal with a pair in it, and a report behind a pair and a single carriage return. -/
theorem Document.parse_withUnixNewlines_of_pairs :
    (Document.parse "<a> ::= 'x\r\ny'\r" =
        .ok ⟨[⟨⟨"a", by decide⟩, [[.literal "x\r\ny"]], by simp, by simp⟩], by simp⟩ ∧
      Document.parse (withUnixNewlines "<a> ::= 'x\r\ny'\r") =
        .ok ⟨[⟨⟨"a", by decide⟩, [[.literal "x\ny"]], by simp, by simp⟩], by simp⟩) ∧
    (Document.parse "<a> ::= 'x'\r\n\r<\r" = .error (.failure ⟨15, 3, 2, ["rule name"], some "\r"⟩) ∧
      Document.parse (withUnixNewlines "<a> ::= 'x'\r\n\r<\r") =
        .error (.failure ⟨14, 3, 2, ["rule name"], some "\n"⟩)) := by
  have haccepted : Document.parse "<a> ::= 'x\r\ny'\r" =
      .ok ⟨[⟨⟨"a", by decide⟩, [[.literal "x\r\ny"]], by simp, by simp⟩], by simp⟩ :=
    (Document.parse_ok_iff_walk _ _).2
      ⟨.fresh ⟨[⟨⟨"a", by decide⟩, [[.literal "x\r\ny"]], by simp, by simp⟩], by simp⟩, rfl, rfl⟩
  have hrejected : Document.parse "<a> ::= 'x'\r\n\r<\r" =
      .error (.failure ⟨15, 3, 2, ["rule name"], some "\r"⟩) :=
    (Document.parse_failure_iff _ _).2 ⟨"<a> ::= 'x'\r\n\r<".toList, ['\r'],
      .opened (.head [⟨⟨"a", by decide⟩, [[.literal "x"]], by simp, by simp⟩]), rfl,
      ⟨rfl, by simp only [List.head?_cons, Option.some.injEq, forall_eq']; rfl, nofun⟩, by decide⟩
  have haccepted' := (Document.parse_withUnixNewlines _).1 _ haccepted
  have hrejected' := ((Document.parse_withUnixNewlines _).2 _ 15 hrejected rfl).2
  have hliteral : withUnixNewlines "x\r\ny" = "x\ny" := by decide
  have hcount : crlfCount ("<a> ::= 'x'\r\n\r<\r".toList.take 15) = 1 := by decide
  have hfound : withUnixNewlines "\r" = "\n" := by decide
  simp only [Document.mapLiterals, Rule.mapLiterals, Term.mapLiteral, List.map_cons, List.map_nil, hliteral]
    at haccepted'
  simp only [hcount, Option.map_some, hfound] at hrejected'
  exact ⟨⟨haccepted, haccepted'⟩, hrejected, hrejected'⟩

end BnfReader
