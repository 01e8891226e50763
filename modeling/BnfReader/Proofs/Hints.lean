import BnfReader.Parser.Mismatch

/-! Hints add up.

Merging is union on expectations and maximum on offsets, so it is associative, commutative and
idempotent, and with no hint as its unit it makes hints a commutative monoid (`Hint.add`). Noting a
mismatch is adding it, and so is explaining a failure. A hint further on swallows one behind it
(`Mismatch.merge_of_lt`), which is all that most runs need to know. -/
namespace BnfReader

theorem Expected.union_assoc (a b c : Expected) : (a.union b).union c = a.union (b.union c) := by
  apply Expected.ext_mem
  intro s
  simp only [Expected.mem_union, or_assoc]

theorem Expected.union_comm (a b : Expected) : a.union b = b.union a := by
  apply Expected.ext_mem
  intro s
  simp only [Expected.mem_union, or_comm]

theorem Expected.union_self (a : Expected) : a.union a = a := by
  apply Expected.ext_mem
  intro s
  simp only [Expected.mem_union, or_self]

namespace Mismatch

theorem merge_of_lt {a b : Mismatch} (h : a.offset < b.offset) : a.merge b = b := by
  rw [merge, if_pos h]

theorem merge_of_gt {a b : Mismatch} (h : b.offset < a.offset) : a.merge b = a := by
  rw [merge, if_neg (by omega), if_pos h]

theorem merge_of_eq {a b : Mismatch} (h : a.offset = b.offset) :
    a.merge b = ⟨a.offset, a.expected.union b.expected⟩ := by
  rw [merge, if_neg (by omega), if_neg (by omega)]

theorem merge_here (o : Nat) (a b : Expected) :
    Mismatch.merge ⟨o, a⟩ ⟨o, b⟩ = ⟨o, a.union b⟩ :=
  merge_of_eq rfl

theorem offset_merge (a b : Mismatch) : (a.merge b).offset = max a.offset b.offset := by
  rcases Nat.lt_trichotomy a.offset b.offset with h | h | h
  · rw [merge_of_lt h]
    omega
  · rw [merge_of_eq h]
    show a.offset = _
    omega
  · rw [merge_of_gt h]
    omega

theorem merge_assoc (a b c : Mismatch) : (a.merge b).merge c = a.merge (b.merge c) := by
  -- However the three offsets compare, the expectations at the furthest of them are united.
  grind [merge, Expected.union_assoc]

theorem merge_comm (a b : Mismatch) : a.merge b = b.merge a := by
  grind [merge, Expected.union_comm]

theorem merge_self (a : Mismatch) : a.merge a = a := by
  rw [merge_of_eq rfl, Expected.union_self]

end Mismatch

namespace Hint

/-- Both hints together; no hint adds nothing. -/
def add : Hint → Hint → Hint
  | none, h => h
  | some a, none => some a
  | some a, some b => some (a.merge b)

@[simp] theorem none_add (h : Hint) : Hint.add none h = h := rfl

@[simp] theorem add_none (h : Hint) : h.add none = h := by cases h <;> rfl

theorem some_add_some (a b : Mismatch) : Hint.add (some a) (some b) = some (a.merge b) := rfl

theorem add_assoc (a b c : Hint) : (a.add b).add c = a.add (b.add c) := by
  cases a with
  | none => rfl
  | some a => cases b with
    | none => rfl
    | some b => cases c with
      | none => rfl
      | some c => exact congrArg some (Mismatch.merge_assoc a b c)

theorem add_comm (a b : Hint) : a.add b = b.add a := by
  cases a with
  | none => rw [none_add, add_none]
  | some a => cases b with
    | none => rfl
    | some b => exact congrArg some (Mismatch.merge_comm a b)

theorem add_self (a : Hint) : a.add a = a := by
  cases a with
  | none => rfl
  | some a => exact congrArg some (Mismatch.merge_self a)

theorem add_right_comm (a b c : Hint) : (a.add b).add c = (a.add c).add b := by
  rw [add_assoc, add_comm b c, ← add_assoc]

theorem note_eq_add (h : Hint) (m : Mismatch) : h.note m = h.add (some m) := by cases h <;> rfl

/-- To explain a mismatch by a hint is to add the two. -/
theorem add_explain (i : Hint) (m : Mismatch) : i.add (some m) = some (i.explain m) := by
  cases i with
  | none => rfl
  | some a => exact congrArg some (Mismatch.merge_comm a m)

/-- Of two hints the further one stays. -/
theorem add_of_lt {a b : Mismatch} (h : a.offset < b.offset) : Hint.add (some a) (some b) = some b :=
  congrArg some (Mismatch.merge_of_lt h)

theorem add_of_gt {a b : Mismatch} (h : b.offset < a.offset) : Hint.add (some a) (some b) = some a :=
  congrArg some (Mismatch.merge_of_gt h)

theorem le_of_add {a b : Mismatch} {i : Hint} (h : Hint.add (some a) i = some b) : a.offset ≤ b.offset := by
  cases i with
  | none =>
    cases h
    exact Nat.le_refl _
  | some c =>
    cases h
    rw [Mismatch.offset_merge]
    omega

/-- The hint where it lies behind an offset. -/
def past (o : Nat) (h : Hint) : Hint := h.filter fun m => o < m.offset

@[simp] theorem past_none (o : Nat) : Hint.past o none = none := rfl

/-- A hint at an offset or further, put back where it does not go past it, is as if only
its part past the offset had been added. -/
theorem add_past {o : Nat} {i : Hint} (h : Hint) (hi : ∀ m ∈ i, o ≤ m.offset) :
    (if (h.add i).any (·.offset ≤ o) then h else h.add i) = h.add (i.past o) := by
  cases i with
  | none => simp
  | some m =>
    have hm : o ≤ m.offset := hi m rfl
    by_cases hgt : o < m.offset
    · have hp : Hint.past o (some m) = some m := by simp [past, hgt]
      rw [hp, if_neg]
      cases h with
      | none => simpa [add] using hgt
      | some a =>
        have := Mismatch.offset_merge a m
        simp only [some_add_some, Option.any_some, decide_eq_true_eq]
        omega
    · have hle : m.offset ≤ o := by omega
      have hp : Hint.past o (some m) = none := by simp [past, hle]
      rw [hp, add_none]
      cases h with
      | none => simp [add, hle]
      | some a =>
        -- A hint of the caller further on hides `m`; otherwise `m` is at `o` and is put back.
        by_cases ha : o < a.offset
        · rw [add_of_gt (by omega)]
          simp
        · have := Mismatch.offset_merge a m
          rw [some_add_some, if_pos]
          simp only [Option.any_some, decide_eq_true_eq]
          omega

end Hint
end BnfReader
