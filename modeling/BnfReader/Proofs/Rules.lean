import BnfReader.Proofs.Alternatives

/-! Rules, as the layers and as the scanner read them.

The head of a rule is a name in brackets and the marker. The scanner goes through the marker
character by character, the layer compares it as a whole, so a marker that is broken off is
reported where it begins (`read_head_stuck`). Behind the head the alternatives decide. -/
namespace BnfReader
open Scan

namespace Layers
variable {text : Array Char} {o q : Nat} {cs : List Char}

/-! ### The marker -/

theorem read_head_stuck (rules : List Rule) (n : Name) (hsharp : cs.head?.any isBlank = false)
    (hmark : ¬ "::=".toList <+: cs) : read (.head rules n) q cs = .error ⟨q, .only "'::='"⟩ := by
  by_cases h₁ : cs.head? = some ':'
  · obtain ⟨cs₁, rfl⟩ := List.head?_eq_some_iff.1 h₁
    rw [read_next (show (State.head rules n).next ':' = some (.colon rules n) from rfl)]
    by_cases h₂ : cs₁.head? = some ':'
    · obtain ⟨cs₂, rfl⟩ := List.head?_eq_some_iff.1 h₂
      rw [read_next (show (State.colon rules n).next ':' = some (.colons rules n) from rfl), read_stuck rfl]
      · rfl
      · intro c hc
        have hne : c ≠ '=' := by
          rintro rfl
          obtain ⟨cs₃, rfl⟩ := List.head?_eq_some_iff.1 hc
          exact hmark ⟨cs₃, rfl⟩
        simp only [State.next, hne, if_false]
    · rw [read_stuck rfl]
      · rfl
      · intro c hc
        have hne : c ≠ ':' := fun he => h₂ (he ▸ hc)
        simp only [State.next, hne, if_false]
  · rw [read_stuck rfl]
    · rfl
    · intro c hc
      have hblank : isBlank c = false := by simpa [hc] using hsharp
      have hne : c ≠ ':' := fun he => h₁ (he ▸ hc)
      simp only [State.next, hblank, hne, Bool.false_eq_true, if_false]

/-! ### Heads -/

/-- What can become of a head behind its opening bracket at `q`. -/
inductive HeadRun (text : Array Char) (o q : Nat) (cs : List Char) : Prop where
  | broken (m : Mismatch) (i : Hint) : (ruleHead.run text).Acts o (.failed m) i → q < m.offset →
      (∀ rules, read (.opened (.head rules)) (q + 1) cs = .error (i.explain m)) → HeadRun text o q cs
  | closed (n : Name) (q' : Nat) (rest : List Char) (hint : Mismatch) :
      (ruleHead.run text).Acts o (.done n.text q') (some hint) → Ahead text q' q' rest →
      q < q' → hint.offset < q' →
      (∀ rules, read (.opened (.head rules)) (q + 1) cs = read (.gap (.first rules n)) q' rest) →
      HeadRun text o q cs

theorem headRun (h : Ahead text o q ('<' :: cs)) : HeadRun text o q cs := by
  obtain ⟨us, hspaces⟩ := h.spaces
  have hopen := Parser.right_done hspaces (Parser.char_at '<' h.at_end)
  cases bracketRun hopen h.at_end.tail with
  | broken m i hrun hm hread =>
    have hfail := Parser.left_failed spaces (Parser.left_failed (.string "::=" : Layer String)
      (Parser.left_failed spaces hrun))
    exact .broken m i hfail hm fun rules => hread (.head rules)
  | closed n rest last hint hrun hat hlast hhint hread =>
    obtain ⟨q₁, cs₁, hahead₁, hskip₁⟩ := Ahead.of_at hat
    obtain ⟨vs, hspaces₁⟩ := hahead₁.spaces
    have hname := Parser.left_done hrun hspaces₁
    rw [Hint.add_none] at hname
    have hle₁ := hahead₁.le
    have hread₁ : ∀ rules, read (.opened (.head rules)) (q + 1) cs = read (.head rules n) q₁ cs₁ := by
      intro rules
      rw [hread (.head rules)]
      exact hskip₁ _ (head_blank rules n)
    by_cases hmark : "::=".toList <+: cs₁
    · obtain ⟨cs₂, rfl⟩ := hmark
      obtain ⟨q', rest', hahead', hskip'⟩ := Ahead.of_at hahead₁.at_end.append
      obtain ⟨ws, hspaces'⟩ := hahead'.spaces
      have hdone := Parser.left_done (Parser.left_done hname (Parser.string_at "::=" hahead₁.at_end)) hspaces'
      rw [Hint.add_none, Hint.add_none] at hdone
      have hle' := hahead'.le
      refine .closed n q' rest' hint hdone hahead'.here (by omega) (by omega) fun rules => ?_
      rw [hread₁, ← hskip' _ (gap_blank _)]
      exact read_walk (show walk (.head rules n) "::=".toList = some (.gap (.first rules n)) from rfl)
    · have hfail := Parser.left_failed spaces
        (Parser.left_failed_later hname (Parser.string_at_failed "::=" hahead₁.at_end hmark))
      rw [Hint.add_none] at hfail
      refine .broken _ _ hfail (by show q < q₁; omega) fun rules => ?_
      rw [hread₁, read_head_stuck rules n hahead₁.sharp hmark]
      exact congrArg Except.error (Mismatch.merge_of_gt (by show hint.offset < q₁; omega)).symm

/-! ### Rules -/

theorem ruleBody_absent (h : Ahead text o q cs) (hcs : cs.head? ≠ some '<') :
    (ruleBody.run text).Acts o (.failed ⟨q, .only "'<'"⟩) none := by
  obtain ⟨us, hspaces⟩ := h.spaces
  have hopen := Parser.right_failed_later hspaces (Parser.char_at_failed (ε := Invalid) '<' h.at_end hcs)
  exact Parser.convert_failed _ (Parser.both_failed _ (Parser.left_failed spaces
    (Parser.left_failed (.string "::=" : Layer String) (Parser.left_failed spaces
      (Parser.left_failed (.char ">" : Layer Char) (Parser.right_failed ruleName hopen))))))

theorem make_eq (r : Rule) : Rule.make r.name.text r.alternatives = .ok r := by
  simp only [Rule.make, Name.ofString, r.name.valid, dite_true]
  rw [dif_pos ⟨r.some_alternative, r.some_term⟩]

/-- What can become of a rule behind its opening bracket at `q`. -/
inductive BodyRun (text : Array Char) (o q : Nat) (cs : List Char) : Prop where
  | broken (m : Mismatch) (i : Hint) : (ruleBody.run text).Acts o (.failed m) i → q < m.offset →
      (∀ rules, read (.opened (.head rules)) (q + 1) cs = .error (i.explain m)) → BodyRun text o q cs
  | closed (r : Rule) (q' : Nat) (rest : List Char) (m : Mismatch) :
      (ruleBody.run text).Acts o (.done r q') (some m) → Ahead text q' q' rest → q < q' →
      Halts continues furtherWanted q' rest m
        (∀ rules, read (.opened (.head rules)) (q + 1) cs = read (.behind rules r) q' rest)
        (∀ rules, read (.opened (.head rules)) (q + 1) cs = .error m) → BodyRun text o q cs

theorem bodyRun (h : Ahead text o q ('<' :: cs)) : BodyRun text o q cs := by
  cases headRun h with
  | broken m i hrun hm hread =>
    exact .broken m i (Parser.convert_failed _ (Parser.both_failed _ hrun)) hm hread
  | closed n q₁ cs₁ hint hrun hahead₁ hq₁ hhint hread =>
    cases expressionRun hahead₁ with
    | broken m i hrun' hm hread' =>
      have hfail := Parser.convert_failed (fun x : String × List (List Term) => Rule.make x.1 x.2)
        (Parser.both_failed_later hrun (Parser.left_failed spaces hrun'))
      refine .broken m _ hfail (by omega) fun rules => ?_
      rw [hread, hread', Hint.explain_of_lt i (by omega)]
    | closed tss last q' rest m hrun' hahead hlast hne hall hhalts =>
      obtain ⟨us, hspaces⟩ := hahead.spaces
      have hle := hahead.le
      have hm := hhalts.le
      have hdone := Parser.convert_done (f := fun x : String × List (List Term) => Rule.make x.1 x.2)
        (Parser.both_done hrun (Parser.left_done hrun' hspaces)) (make_eq ⟨n, tss, hne, hall⟩)
      rw [Hint.add_none, Hint.add_of_lt (by omega)] at hdone
      refine .closed ⟨n, tss, hne, hall⟩ q' rest m hdone hahead.here (by omega) (hhalts.imp ?_ ?_)
      · intro hreads rules
        rw [hread]
        exact hreads rules ⟨n, tss, hne, hall⟩ rfl
      · intro hreports rules
        rw [hread, hreports]

end Layers
end BnfReader
