import BnfReader.Proofs.Rendering
import BnfReader.Proofs.Stopping

/-! Documents one after the other.

Behind a document and a line feed the scanner is in a fresh line, and there it reads on as if
the text began anew, with the rules of the document before those that follow (`State.under`).
Only a line break behind nothing but blanks makes a difference: a document may not begin with
one, but it may stand between two rules. So the rules of two texts on lines of their own are
those of both, and a rejected text keeps its report, moved down and to the right, once it has
begun with more than blanks. -/
namespace BnfReader
open Scan

/-- The rules of both documents. -/
def Document.append (d d' : Document) : Document :=
  ⟨d.rules ++ d'.rules, fun h => d.some_rule (List.append_eq_nil_iff.1 h).1⟩

namespace Scan

/-! ### States behind other rules -/

/-- The slot with more rules before it. -/
def Slot.under (before : List Rule) : Slot → Slot
  | .first rules name => .first (before ++ rules) name
  | .next rules r => .next (before ++ rules) r
  | .branch rules r => .branch (before ++ rules) r

/-- The bracket with more rules before it. -/
def Bracket.under (before : List Rule) : Bracket → Bracket
  | .head rules => .head (before ++ rules)
  | .ref slot => .ref (slot.under before)

/-- The state with a document on the lines before it. -/
def State.under (d : Document) : State → State
  | .start => .fresh d
  | .fresh d' => .fresh (d.append d')
  | .opened b => .opened (b.under d.rules)
  | .named b name => .named (b.under d.rules) name
  | .head rules name => .head (d.rules ++ rules) name
  | .colon rules name => .colon (d.rules ++ rules) name
  | .colons rules name => .colons (d.rules ++ rules) name
  | .gap slot => .gap (slot.under d.rules)
  | .literal slot quote body => .literal (slot.under d.rules) quote body
  | .behind rules r => .behind (d.rules ++ rules) r

section
variable {s t : State} {c : Char} {u rest : List Char}

theorem fill_under (d : Document) (slot : Slot) (t : Term) :
    (slot.under d.rules).fill t = (slot.fill t).under d := by
  cases slot <;> rfl

theorem close_under (d : Document) (b : Bracket) (n : Name) :
    (b.under d.rules).close n = (b.close n).under d := by
  cases b with
  | head rules => rfl
  | ref slot => exact fill_under d slot (.ref n)

theorem enter_under (d : Document) (slot : Slot) (c : Char) :
    (slot.under d.rules).enter c = (slot.enter c).map (State.under d) := by
  simp only [Slot.enter, apply_ite (Option.map _)]
  rfl

theorem snoc_under (d : Document) (rules : List Rule) (r : Rule) :
    Document.snoc (d.rules ++ rules) r = d.append (.snoc rules r) := by
  simp [Document.append, Document.snoc]

/-- Behind more than blanks, a step is the same with a document before it. -/
theorem next_under (d : Document) (hs : s ≠ .start) (c : Char) :
    (s.under d).next c = (s.next c).map (State.under d) := by
  cases s with
  | start => exact absurd rfl hs
  | fresh d' => simp [State.under, State.next, apply_ite (Option.map _), Document.append, Bracket.under]
  | opened b => simp [State.under, State.next, apply_dite (Option.map _)]
  | named b n =>
    simp [State.under, State.next, apply_dite (Option.map _), apply_ite (Option.map _), close_under]
  | head rules n => simp [State.under, State.next, apply_ite (Option.map _)]
  | colon rules n => simp [State.under, State.next, apply_ite (Option.map _)]
  | colons rules n => simp [State.under, State.next, apply_ite (Option.map _), Slot.under]
  | gap slot => simp [State.under, State.next, apply_ite (Option.map _), enter_under]
  | literal slot q body => simp [State.under, State.next, apply_ite (Option.map _), fill_under]
  | behind rules r =>
    simp [State.under, State.next, apply_ite (Option.map _), ← enter_under, Slot.under, snoc_under]

/-- Where a step leads on, it leads on with a document before it. -/
theorem next_under_some (d : Document) (h : s.next c = some t) : (s.under d).next c = some (t.under d) := by
  by_cases hs : s = .start
  · subst hs
    rcases of_ite_some h with ⟨hc, rfl⟩ | ⟨-, h⟩
    · exact fresh_white d c (by rw [isWhite_eq, hc]; rfl)
    rcases of_ite_some h with ⟨rfl, rfl⟩ | ⟨-, h⟩
    · simp [State.under, State.next, Bracket.under, isWhite, isBlank]
    · cases h
  · rw [next_under d hs, h]
    rfl

theorem walk_under (d : Document) (h : walk s u = some t) : walk (s.under d) u = some (t.under d) := by
  induction u generalizing s with
  | nil =>
    cases h
    rfl
  | cons c u ih =>
    simp only [walk] at h
    split at h
    · next s' hnext =>
      rw [walk_next (next_under_some d hnext)]
      exact ih h
    · cases h

theorem document_under (d : Document) (hs : s ≠ .start) :
    (s.under d).document? = s.document?.map d.append := by
  cases s with
  | start => exact absurd rfl hs
  | behind rules r => exact congrArg some (snoc_under d rules r)
  | _ => rfl

theorem expected_under (d : Document) (hs : s ≠ .start) : (s.under d).expected = s.expected := by
  cases s with
  | start => exact absurd rfl hs
  | _ => rfl

theorem marker_under (d : Document) (s : State) : (s.under d).marker = s.marker := by
  cases s <;> rfl

/-- Where the scanner stops behind more than blanks, it stops with a document before it. -/
theorem Stops.under (d : Document) (h : Stops s u rest t) (ht : t ≠ .start) :
    Stops (s.under d) u rest (t.under d) := by
  refine ⟨walk_under d h.walk, fun c hc => ?_, fun hrest => ?_⟩
  · rw [next_under d ht, h.stuck c hc]
    rfl
  · rw [document_under d ht, h.incomplete hrest]
    rfl

theorem Stops.behind {v : List Char} (hv : Scan.walk s v = some t) {t' : State} (h : Stops t u rest t') :
    Stops s (v ++ u) rest t' :=
  ⟨walk_trans hv h.walk, h.stuck, h.incomplete⟩

/-! ### The line between -/

theorem walk_line {d : Document} (hwalk : walk .start u = some s) (hd : s.document? = some d) :
    walk .start (u ++ ['\n']) = some (State.start.under d) := by
  rw [walk_snoc hwalk]
  cases s with
  | fresh d' =>
    cases hd
    exact fresh_white d '\n' rfl
  | behind rules r =>
    cases hd
    exact behind_break rules r '\n' rfl
  | _ => cases hd

theorem blank_of_walk_start (h : walk .start u = some .start) : u.all isBlank = true := by
  have hreads := State.Reads.walk (.start List.all_nil) h
  cases hreads with
  | start hu => exact hu

end
end Scan

theorem Failure.behind_line (before v rest : List Char) (e : Expected) :
    Failure.behind (before ++ ['\n'] ++ v) rest e =
      { Failure.behind v rest e with
        offset := before.length + 1 + v.length
        line := (Failure.behind v rest e).line + lineBreaks (before ++ ['\n']) } := by
  simp only [Failure.behind, lineAfter_append_feed, columnAfter_append_feed, List.length_append,
    List.length_singleton, Int.natCast_add, Int.natCast_one]

/-- **Documents compose and reports move along**: behind an accepted text and a line feed, an
accepted text adds its rules, and a text that is rejected behind more than blanks is rejected
with the same report, further on by the characters and lines before it. -/
theorem Document.parse_lines (t₁ t₂ : String) (d₁ : Document) (h₁ : Document.parse t₁ = .ok d₁) :
    (∀ d₂, Document.parse t₂ = .ok d₂ → Document.parse (t₁ ++ "\n" ++ t₂) = .ok (d₁.append d₂)) ∧
    (∀ (f : Failure) (p : Nat), Document.parse t₂ = .error (.failure f) → f.offset = p →
      (∃ c ∈ t₂.toList.take p, c ≠ ' ' ∧ c ≠ '\t') →
      Document.parse (t₁ ++ "\n" ++ t₂) = .error (.failure
        { f with
          offset := t₁.length + 1 + p
          line := f.line + lineBreaks (t₁.toList ++ ['\n']) })) := by
  obtain ⟨s₁, hwalk₁, hd₁⟩ := (Document.parse_ok_iff_walk t₁ d₁).1 h₁
  have hline := walk_line hwalk₁ hd₁
  have htext : (t₁ ++ "\n" ++ t₂).toList = t₁.toList ++ ['\n'] ++ t₂.toList := by simp
  constructor
  · intro d₂ h₂
    obtain ⟨s₂, hwalk₂, hd₂⟩ := (Document.parse_ok_iff_walk t₂ d₂).1 h₂
    have hstart : s₂ ≠ .start := by
      rintro rfl
      cases hd₂
    refine (Document.parse_ok_iff_walk _ _).2 ⟨s₂.under d₁, ?_, ?_⟩
    · rw [htext]
      exact walk_trans hline (walk_under d₁ hwalk₂)
    · rw [document_under d₁ hstart, hd₂]
      rfl
  · rintro f p h₂ hp ⟨c, hc, hspace, htab⟩
    obtain ⟨v, rest, t, htext₂, hstops, rfl⟩ := (Document.parse_failure_iff t₂ f).1 h₂
    obtain rfl : v.length = p := Int.ofNat.inj hp
    have hstart : t ≠ .start := by
      rintro rfl
      rw [htext₂, List.take_left] at hc
      have hblank := List.all_eq_true.1 (blank_of_walk_start hstops.walk) c (List.mem_append_left _ hc)
      simp [isBlank, hspace, htab] at hblank
    refine (Document.parse_failure_iff _ _).2 ⟨t₁.toList ++ ['\n'] ++ v, rest, t.under d₁, ?_, ?_, ?_⟩
    · rw [htext, htext₂, marker_under, List.append_assoc _ v]
    · rw [marker_under, List.append_assoc _ v]
      exact .behind hline (hstops.under d₁ hstart)
    · rw [marker_under, expected_under d₁ hstart, Failure.behind_line, String.length_toList]

/-- Behind a carriage return the line feed between the texts ends no further line. -/
theorem Document.parse_lines_of_return :
    (Document.parse "<a> ::= 'x'\r" = .ok ⟨[⟨⟨"a", by decide⟩, [[.literal "x"]], by simp, by simp⟩], by simp⟩ ∧
      Document.parse " <b> ::=\r\n" =
        .error (.failure ⟨8, 1, 9, ["literal", "rule reference"], some "\r"⟩)) ∧
    Document.parse ("<a> ::= 'x'\r" ++ "\n" ++ " <b> ::=\r\n") =
      .error (.failure ⟨21, 2, 9, ["literal", "rule reference"], some "\r"⟩) := by
  have haccepted : Document.parse "<a> ::= 'x'\r" =
      .ok ⟨[⟨⟨"a", by decide⟩, [[.literal "x"]], by simp, by simp⟩], by simp⟩ := by
    rw [Document.parse_eq_read]
    rfl
  have hrejected : Document.parse " <b> ::=\r\n" =
      .error (.failure ⟨8, 1, 9, ["literal", "rule reference"], some "\r"⟩) := by
    rw [Document.parse_eq_read]
    rfl
  refine ⟨⟨haccepted, hrejected⟩, ?_⟩
  exact (Document.parse_lines _ _ _ haccepted).2 _ 8 hrejected rfl ⟨'<', by decide⟩

end BnfReader
