import BnfReader.Proofs.RoundTrip

/-! What was read can be written, in one form.

A literal that was read lacks the quote it stood in, so each part of a document that was read
can be written. What is written is read back as the same document. So the written form is
canonical: two texts are written alike just if they say the same, and a text in this form is
not changed by reading and writing it once more. -/
namespace BnfReader
open Scan

/-! ### The parts of what was read -/

theorem SequenceRendersAs.mem {ts : List Term} {u : List Char} (h : SequenceRendersAs ts u) :
    ∀ t ∈ ts, ∃ v, t.RendersAs v := by
  induction h with
  | one _ ht => simpa using ⟨_, ht⟩
  | more _ _ ht ih =>
    simp only [List.mem_append, List.mem_singleton]
    rintro t (hmem | rfl)
    · exact ih t hmem
    · exact ⟨_, ht⟩

theorem AlternativesRenderAs.mem {as : List (List Term)} {u : List Char} (h : AlternativesRenderAs as u) :
    ∀ ts ∈ as, ∃ v, SequenceRendersAs ts v := by
  induction h with
  | one hts => simpa using ⟨_, hts⟩
  | more _ _ _ hts ih =>
    simp only [List.mem_append, List.mem_singleton]
    rintro ts (hmem | rfl)
    · exact ih ts hmem
    · exact ⟨_, hts⟩

theorem RulesRenderAs.mem {rs : List Rule} {u : List Char} (h : RulesRenderAs rs u) :
    ∀ r ∈ rs, ∃ v, r.RendersAs v := by
  induction h with
  | one hr => simpa using ⟨_, hr⟩
  | more _ _ _ hr ih =>
    simp only [List.mem_append, List.mem_singleton]
    rintro r (hmem | rfl)
    · exact ih r hmem
    · exact ⟨_, hr⟩

theorem Rule.RendersAs.mem {r : Rule} {u : List Char} (h : r.RendersAs u) :
    ∀ ts ∈ r.alternatives, ∀ t ∈ ts, ∃ v, t.RendersAs v := by
  intro ts hts t ht
  obtain ⟨_, _, _, hbody, _⟩ := h
  obtain ⟨_, hsequence⟩ := hbody.mem ts hts
  exact hsequence.mem t ht

theorem Document.RendersAs.mem {d : Document} {u : List Char} (h : d.RendersAs u) :
    ∀ r ∈ d.rules, ∃ v, r.RendersAs v := by
  obtain ⟨hrules, _⟩ := h
  exact hrules.mem

/-- A text that is read as a document is one of its texts. -/
theorem Document.rendersAs_of_parse {text : String} {d : Document} (h : Document.parse text = .ok d) :
    d.RendersAs text.toList := by
  obtain ⟨s, hwalk, hd⟩ := (Document.parse_ok_iff_walk text d).1 h
  have hreads := State.Reads.walk (.start List.all_nil) hwalk
  exact hreads.document hd

/-! ### What was read can be written -/

/-- A literal that was read lacks the quote that it stood in. -/
theorem Term.RendersAs.not_bothQuotes {s : String} {u : List Char} (h : (Term.literal s).RendersAs u) :
    ¬ ('"' ∈ s.toList ∧ '\'' ∈ s.toList) := by
  intro ⟨hdouble, hsingle⟩
  cases h with
  | literal q _ hq =>
    cases q with
    | double => exact hq hdouble
    | single => exact hq hsingle

theorem Rule.RendersAs.format {r : Rule} {u : List Char} (h : r.RendersAs u) (e : Unwritable) :
    r.format ≠ .error e := by
  intro hformat
  obtain ⟨ts, hts, hformat⟩ := mapM_error (map_error hformat)
  obtain ⟨t, ht, hformat⟩ := mapM_error (map_error hformat)
  obtain ⟨s, rfl, -, hquotes⟩ := Term.format_error hformat
  obtain ⟨_, hterm⟩ := h.mem ts hts _ ht
  exact hterm.not_bothQuotes hquotes

/-- A rule of a document that was read can be written. -/
theorem Document.format_rule {text : String} {d : Document} (h : Document.parse text = .ok d) {r : Rule}
    (hr : r ∈ d.rules) (e : Unwritable) : r.format ≠ .error e := by
  obtain ⟨_, hrule⟩ := (Document.rendersAs_of_parse h).mem r hr
  exact hrule.format e

/-- No literal of a document that was read has both quotes. -/
theorem Document.not_bothQuotes {text : String} {d : Document} (h : Document.parse text = .ok d) {s : String}
    (hs : d.HasLiteral s) : ¬ ('"' ∈ s.toList ∧ '\'' ∈ s.toList) := by
  obtain ⟨r, hr, terms, hterms, hliteral⟩ := hs
  obtain ⟨_, hrule⟩ := (Document.rendersAs_of_parse h).mem r hr
  obtain ⟨_, hterm⟩ := hrule.mem terms hterms _ hliteral
  exact hterm.not_bothQuotes

/-- A document that was read can be written, and is read back from what is written. -/
theorem Document.format_of_parse {text : String} {d : Document} (h : Document.parse text = .ok d) :
    ∃ out, d.format = .ok out ∧ Document.parse out = .ok d := by
  cases hformat : d.format with
  | error e =>
    obtain ⟨s, -, hs, hquotes⟩ := Document.format_error hformat
    exact absurd hquotes (Document.not_bothQuotes h hs)
  | ok out => exact ⟨out, rfl, (Document.format_ok hformat).parse⟩

/-- **What the parser reads can be written, canonically**: none of its literals has both quotes,
its rules and the document can be written, two accepted texts are written alike just if they are
the same document, and what is written is written again as it stands. -/
theorem Document.format_canonical (text₁ text₂ : String) (d₁ d₂ : Document)
    (h₁ : Document.parse text₁ = .ok d₁) (h₂ : Document.parse text₂ = .ok d₂) :
    (∀ s, d₁.HasLiteral s → ¬ ('"' ∈ s.toList ∧ '\'' ∈ s.toList)) ∧
    (∀ r ∈ d₁.rules, ∃ line, r.format = .ok line) ∧
    ∃ out₁ out₂, d₁.format = .ok out₁ ∧ d₂.format = .ok out₂ ∧ (out₁ = out₂ ↔ d₁ = d₂) ∧
      ∃ d', Document.parse out₁ = .ok d' ∧ d'.format = .ok out₁ := by
  obtain ⟨out₁, hout₁, hback₁⟩ := Document.format_of_parse h₁
  obtain ⟨out₂, hout₂, hback₂⟩ := Document.format_of_parse h₂
  refine ⟨fun s hs => Document.not_bothQuotes h₁ hs, fun r hr => ?_, out₁, out₂, hout₁, hout₂, ?_,
    d₁, hback₁, hout₁⟩
  · cases hline : r.format with
    | error e => exact absurd hline (Document.format_rule h₁ hr e)
    | ok line => exact ⟨line, rfl⟩
  · constructor
    · intro hsame
      rw [hsame, hback₂] at hback₁
      exact (Except.ok.inj hback₁).symm
    · intro hsame
      rw [hsame, hout₂] at hout₁
      exact (Except.ok.inj hout₁).symm

/-- A literal that is one quote and a literal that is the other, in two layouts. -/
theorem Document.format_canonical_of_quotes :
    let d (s : String) : Document := ⟨[⟨⟨"a", by decide⟩, [[.literal s]], by simp, by simp⟩], by simp⟩
    Document.parse "<a> ::= '\"'" = .ok (d "\"") ∧ Document.parse " <a>::=\t\"'\"\r\n\n" = .ok (d "'") ∧
      (∀ s, (d "\"").HasLiteral s → ¬ ('"' ∈ s.toList ∧ '\'' ∈ s.toList)) ∧
      (∀ r ∈ (d "\"").rules, ∃ line, r.format = .ok line) ∧
      ∃ out₁ out₂, (d "\"").format = .ok out₁ ∧ (d "'").format = .ok out₂ ∧ (out₁ = out₂ ↔ d "\"" = d "'") ∧
        ∃ d', Document.parse out₁ = .ok d' ∧ d'.format = .ok out₁ := by
  intro d
  have h₁ : Document.parse "<a> ::= '\"'" = .ok (d "\"") := by
    rw [Document.parse_eq_read]
    rfl
  have h₂ : Document.parse " <a>::=\t\"'\"\r\n\n" = .ok (d "'") := by
    rw [Document.parse_eq_read]
    rfl
  exact ⟨h₁, h₂, Document.format_canonical _ _ _ _ h₁ h₂⟩

end BnfReader
