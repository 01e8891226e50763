import BnfReader.Proofs.Furthest

/-! In what order mismatches are passed over does not matter.

Merging is not only associative and commutative but also idempotent, so a hint is decided by which
mismatches were passed over, not by how often, in what order or in what groups
(`Hint.foldl_note_perm`). It is the furthest of them all (`Hint.foldl_note`). A report looks at the
hint and does not change it, so it may be made at any time: the same holds of every run in which
mismatches are passed over and reported in turn (`Hint.after`). -/
namespace BnfReader

/-- What becomes of a mismatch in a run: it is passed over, or it is reported. -/
inductive Use where
  | passed (miss : Mismatch)
  | reported (miss : Mismatch)

/-- The mismatches that are passed over in a row of uses. -/
def passedOver (us : List Use) : List Mismatch :=
  us.filterMap fun u => match u with
    | .passed miss => some miss
    | .reported _ => none

namespace Hint

/-- One use of a mismatch: the hint afterwards, and the report if it is one. -/
def use (text : Array Char) (hint : Hint) : Use → Hint × Option Failure
  | .passed miss => (hint.note miss, none)
  | .reported miss => (hint, some (Failure.ofMismatch text (hint.explain miss)))

/-- The hint after a row of uses. -/
def after (text : Array Char) (hint : Hint) : List Use → Hint
  | [] => hint
  | u :: us => after text (hint.use text u).1 us

/-! ### Passing over mismatches -/

theorem note_right_comm (h : Hint) (a b : Mismatch) : (h.note a).note b = (h.note b).note a := by
  simp only [note_eq_add]
  exact add_right_comm h (some a) (some b)

theorem foldl_note (h : Hint) (ms : List Mismatch) : ms.foldl note h = h.add (Hint.sum ms) := by
  induction ms generalizing h with
  | nil => exact (add_none h).symm
  | cons m ms ih =>
    rw [List.foldl_cons, ih, note_eq_add, add_assoc]
    rfl

theorem foldl_note_perm {ms ms' : List Mismatch} (h : ms.Perm ms') (hint : Hint) :
    ms.foldl note hint = ms'.foldl note hint := by
  apply h.foldl_eq'
  intro a _ b _ between
  exact note_right_comm between a b

/-- Reports change nothing. -/
theorem after_eq_foldl (text : Array Char) (h : Hint) (us : List Use) :
    after text h us = (passedOver us).foldl note h := by
  induction us generalizing h with
  | nil => rfl
  | cons u us ih =>
    cases u with
    | passed miss => exact ih (h.note miss)
    | reported miss => exact ih h

/-! ### Reporting a mismatch -/

/-- What is reported is the furthest of the mismatch and those that were passed over. -/
theorem explain_furthest (ms : List Mismatch) (e : Mismatch) :
    IsFurthest (e :: ms) ((Hint.sum ms).explain e).offset ((Hint.sum ms).explain e).expected.items := by
  apply isFurthest_of_sum
  calc Hint.sum (e :: ms) = (Hint.sum ms).add (some e) := add_comm (some e) (Hint.sum ms)
    _ = some ((Hint.sum ms).explain e) := add_explain (Hint.sum ms) e

/-- **Order and grouping of mismatches do not matter.** Merging is associative, commutative and
idempotent. Whatever is passed over and reported in turn, from no hint at first, the hint at the end is
the one that the mismatches passed over leave in any other order: none if there were none, and
otherwise their furthest offset with all that those at that offset expected. A report made then is at
the furthest offset of these and its own mismatch, expects in order and without repetition all
that those at that offset expected, and leaves the hint as it is. -/
theorem after_any_order :
    (∀ a b c : Mismatch, (a.merge b).merge c = a.merge (b.merge c)) ∧
    (∀ a b : Mismatch, a.merge b = b.merge a) ∧ (∀ a : Mismatch, a.merge a = a) ∧
    ∀ (text : Array Char) (us : List Use) (ms : List Mismatch), ms.Perm (passedOver us) →
      after text none us = ms.foldl note none ∧ (after text none us = none ↔ ms = []) ∧
      (∀ m ∈ after text none us, IsFurthest ms m.offset m.expected.items) ∧
      ∀ e, ∃ f, use text (after text none us) (.reported e) = (after text none us, some f) ∧
        ∃ o : Nat, f.offset = o ∧ IsFurthest (e :: ms) o f.expected := by
  refine ⟨Mismatch.merge_assoc, Mismatch.merge_comm, Mismatch.merge_self, fun text us ms hperm => ?_⟩
  have hfold : after text none us = ms.foldl note none := by
    rw [after_eq_foldl, foldl_note_perm hperm]
  have hsum : after text none us = Hint.sum ms := by
    rw [hfold, foldl_note, none_add]
  refine ⟨hfold, ?_, ?_, fun e => ⟨_, rfl, _, rfl, ?_⟩⟩
  · rw [hsum]
    exact sum_eq_none
  · intro m hm
    rw [hsum] at hm
    exact isFurthest_of_sum hm
  · rw [hsum]
    exact explain_furthest ms e

/-- Two offsets by turns with a report in between, the reverse order, and a report at the end. -/
theorem after_any_order_of_turns :
    let a : Mismatch := ⟨1, .only "a"⟩
    let b : Mismatch := ⟨2, .ofList ["c", "b"]⟩
    let c : Mismatch := ⟨2, .ofList ["b", "a"]⟩
    let d : Mismatch := ⟨2, .only "d"⟩
    let us := [Use.passed b, .passed a, .reported ⟨7, .only "z"⟩, .passed c]
    let hint : Hint := some ⟨2, .ofList ["a", "b", "c"]⟩
    [c, a, b].Perm (passedOver us) ∧ after #['x', '\n'] none us = hint ∧
      IsFurthest [c, a, b] 2 ["a", "b", "c"] ∧
      use #['x', '\n'] hint (.reported d) = (hint, some ⟨2, 2, 1, ["a", "b", "c", "d"], none⟩) ∧
      IsFurthest [d, c, a, b] 2 ["a", "b", "c", "d"] := by
  intro a b c d us hint
  have hperm : [c, a, b].Perm (passedOver us) := List.reverse_perm [b, a, c]
  have hafter : after #['x', '\n'] none us = hint := by decide +kernel
  have huse : use #['x', '\n'] hint (.reported d) = (hint, some ⟨2, 2, 1, ["a", "b", "c", "d"], none⟩) := by
    decide +kernel
  obtain ⟨-, -, hhint, hreport⟩ := after_any_order.2.2.2 #['x', '\n'] us [c, a, b] hperm
  obtain ⟨f, hf, o, ho, hfurthest⟩ := hreport d
  rw [hafter, huse] at hf
  cases hf
  cases ho
  exact ⟨hperm, hafter, hhint _ hafter, huse, hfurthest⟩

end Hint
end BnfReader
