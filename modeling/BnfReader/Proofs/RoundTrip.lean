import BnfReader.Grammar.Format
import BnfReader.Proofs.Rendering

/-! What is written can be read back.

A formatter writes its parts in order and puts a separator between them; it gives up at the
first part that cannot be written. What it writes is one of the texts of the document, with
one blank where blanks may stand and double quotes where they can, so the parser reads the
document back from it. Only a literal that has both quotes cannot be written. -/
namespace BnfReader

/-! ### Parts in order -/

section
variable {α β ε : Type} {f : α → Except ε β} {xs : List α}

theorem map_ok {γ : Type} {x : Except ε β} {g : β → γ} {z : γ} (h : x.map g = .ok z) :
    ∃ y, x = .ok y ∧ g y = z := by
  cases x with
  | error e => cases h
  | ok y =>
    cases h
    exact ⟨y, rfl, rfl⟩

theorem map_error {γ : Type} {x : Except ε β} {g : β → γ} {e : ε} (h : x.map g = .error e) :
    x = .error e := by
  cases x with
  | error e' =>
    cases h
    rfl
  | ok y => cases h

theorem mapM_ok_cons {x : α} {ys : List β} (h : (x :: xs).mapM f = .ok ys) :
    ∃ y rest, f x = .ok y ∧ xs.mapM f = .ok rest ∧ ys = y :: rest := by
  rw [List.mapM_cons] at h
  cases hx : f x with
  | error e =>
    rw [hx] at h
    cases h
  | ok y =>
    cases hxs : xs.mapM f with
    | error e =>
      rw [hx, hxs] at h
      cases h
    | ok rest =>
      rw [hx, hxs] at h
      cases h
      exact ⟨y, rest, rfl, rfl, rfl⟩

theorem mapM_ok_mem {ys : List β} {x : α} (h : xs.mapM f = .ok ys) (hx : x ∈ xs) : ∃ y, f x = .ok y := by
  induction xs generalizing ys with
  | nil => cases hx
  | cons head tail ih =>
    obtain ⟨y, rest, hhead, htail, -⟩ := mapM_ok_cons h
    rcases List.mem_cons.1 hx with rfl | hx
    · exact ⟨y, hhead⟩
    · exact ih htail hx

theorem mapM_error {e : ε} (h : xs.mapM f = .error e) : ∃ x ∈ xs, f x = .error e := by
  induction xs with
  | nil => cases h
  | cons x xs ih =>
    rw [List.mapM_cons] at h
    cases hx : f x with
    | error e' =>
      rw [hx] at h
      cases h
      exact ⟨x, List.mem_cons_self, hx⟩
    | ok y =>
      cases hxs : xs.mapM f with
      | error e' =>
        rw [hx, hxs] at h
        cases h
        obtain ⟨x', hmem, hx'⟩ := ih hxs
        exact ⟨x', List.mem_cons_of_mem x hmem, hx'⟩
      | ok rest =>
        rw [hx, hxs] at h
        cases h

/-- Part after part behind what is already written. -/
theorem joined_behind {f : α → Except ε String} {S : List α → List Char → Prop} {separator : String}
    {before : List α} {ys zs : List String}
    (hmore : ∀ x ∈ xs, ∀ y before u, f x = .ok y → S before u →
      S (before ++ [x]) (u ++ (separator.toList ++ y.toList)))
    (hne : ys ≠ []) (hbefore : S before (separator.intercalate ys).toList) (h : xs.mapM f = .ok zs) :
    S (before ++ xs) (separator.intercalate (ys ++ zs)).toList := by
  induction xs generalizing before ys zs with
  | nil =>
    cases h
    simpa using hbefore
  | cons x xs ih =>
    obtain ⟨y, rest, hx, hxs, rfl⟩ := mapM_ok_cons h
    have hstep : S (before ++ [x]) (separator.intercalate (ys ++ [y])).toList := by
      rw [String.intercalate_append_of_ne_nil hne (by simp), String.intercalate_singleton, String.toList_append,
        String.toList_append, List.append_assoc]
      exact hmore x List.mem_cons_self y before _ hx hbefore
    have hrest := ih (fun x' hx' => hmore x' (List.mem_cons_of_mem x hx')) (by simp) hstep hxs
    simpa using hrest

/-- A relation of lists and their texts holds of all that is written with a separator, if it
holds of one part and goes on from the parts before to one more. -/
theorem joined {f : α → Except ε String} {S : List α → List Char → Prop} {separator : String}
    {ys : List String} (hone : ∀ x ∈ xs, ∀ y, f x = .ok y → S [x] y.toList)
    (hmore : ∀ x ∈ xs, ∀ y before u, f x = .ok y → S before u →
      S (before ++ [x]) (u ++ (separator.toList ++ y.toList)))
    (hne : xs ≠ []) (h : xs.mapM f = .ok ys) : S xs (separator.intercalate ys).toList := by
  cases xs with
  | nil => exact absurd rfl hne
  | cons x xs =>
    obtain ⟨y, rest, hx, hxs, rfl⟩ := mapM_ok_cons h
    have hfirst : S [x] (separator.intercalate [y]).toList := by
      rw [String.intercalate_singleton]
      exact hone x List.mem_cons_self y hx
    exact joined_behind (fun x' hx' => hmore x' (List.mem_cons_of_mem x hx')) (by simp) hfirst hxs

end

/-! ### Terms, rules and documents -/

/-- A term is written as one of its texts. -/
theorem Term.format_ok {t : Term} {text : String} (h : t.format = .ok text) : t.RendersAs text.toList := by
  cases t with
  | ref n =>
    cases h
    simpa using Term.RendersAs.ref n
  | literal s =>
    simp only [Term.format] at h
    split at h
    · next hs =>
      cases h
      simpa [Scan.Quote.char] using Term.RendersAs.literal .double s hs
    split at h
    · next hs =>
      cases h
      simpa [Scan.Quote.char] using Term.RendersAs.literal .single s hs
    · cases h

theorem formatSequence_ok {ts : List Term} {text : String} (hne : ts ≠ []) (h : formatSequence ts = .ok text) :
    SequenceRendersAs ts text.toList := by
  obtain ⟨texts, htexts, rfl⟩ := map_ok h
  refine joined (fun t _ y hy => ?_) (fun t _ y before u hy hbefore => ?_) hne htexts
  · exact .one List.all_nil (Term.format_ok hy)
  · exact .more hbefore (show [' '].all Scan.isBlank = true from rfl) (Term.format_ok hy)

theorem Rule.format_ok {r : Rule} {text : String} (h : r.format = .ok text) : r.RendersAs text.toList := by
  obtain ⟨texts, htexts, rfl⟩ := map_ok h
  have hblank : [' '].all Scan.isBlank = true := rfl
  have hbody : AlternativesRenderAs r.alternatives (" | ".intercalate texts).toList := by
    refine joined (fun ts hts y hy => ?_) (fun ts hts y before u hy hbefore => ?_) r.some_alternative htexts
    · exact .one (formatSequence_ok (r.some_term ts hts) hy)
    · exact .more hbefore hblank hblank (formatSequence_ok (r.some_term ts hts) hy)
  have hrule := Rule.RendersAs.mk List.all_nil hblank hblank hbody List.all_nil
  simpa [String.toList_append] using hrule

theorem Document.format_ok {d : Document} {text : String} (h : d.format = .ok text) :
    d.RendersAs text.toList := by
  obtain ⟨texts, htexts, rfl⟩ := map_ok h
  have hrules : RulesRenderAs d.rules ("\n".intercalate texts).toList := by
    refine joined (fun r _ y hy => ?_) (fun r _ y before u hy hbefore => ?_) d.some_rule htexts
    · exact .one (Rule.format_ok hy)
    · exact .more hbefore rfl rfl (Rule.format_ok hy)
  rw [String.toList_append]
  exact .mk hrules rfl

/-! ### What cannot be written -/

/-- The document has a literal with this text. -/
def Document.HasLiteral (d : Document) (s : String) : Prop :=
  ∃ r ∈ d.rules, ∃ terms ∈ r.alternatives, Term.literal s ∈ terms

theorem Term.format_error {t : Term} {e : Unwritable} (h : t.format = .error e) :
    ∃ s, t = .literal s ∧ e = .bothQuotes s ∧ '"' ∈ s.toList ∧ '\'' ∈ s.toList := by
  cases t with
  | ref n => cases h
  | literal s =>
    simp only [Term.format] at h
    split at h
    · cases h
    split at h
    · cases h
    · next hdouble hsingle =>
      cases h
      exact ⟨s, rfl, rfl, Decidable.not_not.1 hdouble, Decidable.not_not.1 hsingle⟩

theorem Term.format_bothQuotes {s : String} (hdouble : '"' ∈ s.toList) (hsingle : '\'' ∈ s.toList) :
    (Term.literal s).format = .error (.bothQuotes s) := by
  simp only [Term.format, hdouble, hsingle, not_true_eq_false, if_false]

/-- The formatter gives up on a literal of the document that has both quotes. -/
theorem Document.format_error {d : Document} {e : Unwritable} (h : d.format = .error e) :
    ∃ s, e = .bothQuotes s ∧ d.HasLiteral s ∧ '"' ∈ s.toList ∧ '\'' ∈ s.toList := by
  obtain ⟨r, hr, hformat⟩ := mapM_error (map_error h)
  obtain ⟨terms, hterms, hformat⟩ := mapM_error (map_error hformat)
  obtain ⟨t, ht, hformat⟩ := mapM_error (map_error hformat)
  obtain ⟨s, rfl, he, hquotes⟩ := Term.format_error hformat
  exact ⟨s, he, ⟨r, hr, terms, hterms, ht⟩, hquotes⟩

/-- Every literal of a document that is written can be written. -/
theorem Document.format_literal {d : Document} {text s : String} (h : d.format = .ok text)
    (hs : d.HasLiteral s) : ∃ y, (Term.literal s).format = .ok y := by
  obtain ⟨r, hr, terms, hterms, ht⟩ := hs
  obtain ⟨_, hrules, -⟩ := map_ok h
  obtain ⟨_, hrule⟩ := mapM_ok_mem hrules hr
  obtain ⟨_, hsequences, -⟩ := map_ok hrule
  obtain ⟨_, hsequence⟩ := mapM_ok_mem hsequences hterms
  obtain ⟨_, hliterals, -⟩ := map_ok hsequence
  exact mapM_ok_mem hliterals ht

/-- **Writing and reading back is the identity**: a document cannot be written exactly if one
of its literals has both quotes, and otherwise the parser reads it back from what is written. -/
theorem Document.parse_format (d : Document) :
    ((∃ s, d.format = .error (.bothQuotes s)) ↔
      ∃ s, d.HasLiteral s ∧ '"' ∈ s.toList ∧ '\'' ∈ s.toList) ∧
    ((∃ s, d.HasLiteral s ∧ '"' ∈ s.toList ∧ '\'' ∈ s.toList) ∨
      ∃ text, d.format = .ok text ∧ Document.parse text = .ok d) := by
  cases hformat : d.format with
  | error e =>
    obtain ⟨s, rfl, hs⟩ := Document.format_error hformat
    exact ⟨⟨fun _ => ⟨s, hs⟩, fun _ => ⟨s, rfl⟩⟩, .inl ⟨s, hs⟩⟩
  | ok text =>
    refine ⟨⟨?_, ?_⟩, .inr ⟨text, rfl, ?_⟩⟩
    · rintro ⟨s, hs⟩
      cases hs
    · rintro ⟨s, hs, hdouble, hsingle⟩
      obtain ⟨y, hy⟩ := Document.format_literal hformat hs
      rw [Term.format_bothQuotes hdouble hsingle] at hy
      cases hy
    · exact (Document.format_ok hformat).parse

end BnfReader
