import BnfReader.Json.Limits
import Mathlib.Data.List.TakeDrop

/-! Whole numbers are read back as they were written.

A number is read as far as it goes, so what stands behind it must not go on with it (`Ends`). Its
decimal digits begin with a zero only if there is no other, and a reader takes all of them
(`wholePart?_toDigits`); what is left begins neither a fraction nor an exponent. As a text that may be
typed a number is read back too, as long as it has not too many digits (`Text.integer?_toString`). -/
namespace BnfReader.Json

/-- Whether a number goes on with a character. -/
def continuesNumber (c : Char) : Bool := c.isDigit || c == '.' || c == 'e' || c == 'E'

/-- A number in front of the text is at its end. -/
def Ends (rest : List Char) : Prop := ∀ c, rest.head? = some c → continuesNumber c = false

theorem ends_nil : Ends [] := nofun

theorem ends_cons {c : Char} (hc : continuesNumber c = false) (rest : List Char) : Ends (c :: rest) := by
  intro x hx
  cases hx
  exact hc

/-! ### Digits -/

theorem digitsValue_toDigits (n : Nat) : digitsValue (Nat.toDigits 10 n) = n := by
  have hfold : digitsValue (Nat.toDigits 10 n) = Nat.ofDigitChars 10 (Nat.toDigits 10 n) 0 := by
    rw [digitsValue, Text.ofDigits, List.foldl_map]
    rfl
  rw [hfold, Nat.ofDigitChars_ten_toDigits]

theorem exists_digit (n : Nat) : ∃ c ds, Nat.toDigits 10 n = c :: ds ∧ ∀ x ∈ c :: ds, x.isDigit = true := by
  cases hds : Nat.toDigits 10 n with
  | nil => exact absurd hds Nat.toDigits_ne_nil
  | cons c ds =>
    refine ⟨c, ds, rfl, fun x hx => ?_⟩
    rw [← hds] at hx
    exact Nat.isDigit_of_mem_toDigits (by decide) (by decide) hx

/-- Only zero begins with a zero. -/
theorem head?_toDigits {n : Nat} (hn : n ≠ 0) : (Nat.toDigits 10 n).head? ≠ some '0' := by
  induction n using Nat.strongRecOn with
  | _ n ih =>
    by_cases hlt : n < 10
    · rw [Nat.toDigits_of_lt_base hlt]
      have hall : ∀ k < 10, k ≠ 0 → [k.digitChar].head? ≠ some '0' := by decide
      exact hall n hlt hn
    · have hfront := ih (n / 10) (by omega) (by omega)
      obtain ⟨c, ds, hds, -⟩ := exists_digit (n / 10)
      rw [Nat.toDigits_of_base_le (by decide) (by omega), hds]
      rw [hds] at hfront
      exact hfront

theorem Ends.isDigit {c : Char} {rest : List Char} (h : Ends (c :: rest)) : c.isDigit = false := by
  have hc := h c rfl
  simp only [continuesNumber, Bool.or_eq_false_iff] at hc
  exact hc.1.1.1

theorem digitRun_append {ds rest : List Char} (hds : ∀ c ∈ ds, c.isDigit = true) (hrest : Ends rest) :
    digitRun (ds ++ rest) = (ds, rest) := by
  have hstop : ∀ c, rest.head? = some c → c.isDigit = false := by
    intro c hc
    obtain ⟨tail, rfl⟩ := List.head?_eq_some_iff.1 hc
    exact hrest.isDigit
  rw [digitRun, List.span_eq_takeWhile_dropWhile, List.takeWhile_append_of_pos hds, List.dropWhile_append_of_pos hds]
  cases rest with
  | nil => simp
  | cons c rest => simp [hstop c rfl]

theorem wholePart?_toDigits (n : Nat) {rest : List Char} (hrest : Ends rest) :
    wholePart? (Nat.toDigits 10 n ++ rest) = some (Nat.toDigits 10 n, rest) := by
  by_cases hn : n = 0
  · rw [hn]
    rfl
  · have hhead := head?_toDigits hn
    obtain ⟨c, ds, hds, hdigits⟩ := exists_digit n
    have hrun := digitRun_append hdigits hrest
    rw [hds] at hhead ⊢
    rw [List.cons_append] at hrun ⊢
    unfold wholePart?
    split
    next heq => exact absurd (congrArg List.head? heq) hhead
    next heq =>
      obtain ⟨rfl, -⟩ := List.cons.inj heq
      rw [if_pos (hdigits c List.mem_cons_self), hrun]
    next heq => cases heq

/-! ### Numbers -/

theorem fractionPart_of_ends {rest : List Char} (hrest : Ends rest) : fractionPart rest = ([], rest) := by
  unfold fractionPart
  split
  next tail => exact absurd (hrest '.' rfl) (by decide)
  next => rfl

theorem exponentPart?_of_ends {rest : List Char} (hrest : Ends rest) : exponentPart? rest = none := by
  unfold exponentPart?
  split
  next c tail =>
    rw [if_neg]
    intro hc
    have hends := hrest c rfl
    rcases hc with hc | hc
    · rw [hc] at hends
      exact absurd hends (by decide)
    · rw [hc] at hends
      exact absurd hends (by decide)
  next => rfl

section
variable {n : Nat} {rest : List Char}

theorem number_digits (hn : Binary64.digitCount n ≤ Text.maxDigits) (hrest : Ends rest) :
    number (Nat.toDigits 10 n ++ rest) = .ok (.int n, rest) := by
  have hwhole := wholePart?_toDigits n hrest
  -- Digits do not begin with a sign.
  have hunsigned : ∀ tail, Nat.toDigits 10 n ++ rest ≠ '-' :: tail := by
    intro tail heq
    obtain ⟨c, ds, hds, hdigits⟩ := exists_digit n
    rw [hds] at heq
    obtain ⟨rfl, -⟩ := List.cons.inj heq
    exact absurd (hdigits '-' List.mem_cons_self) (by decide)
  unfold number
  split
  next negative body hbody =>
    split at hbody
    next tail heq => exact absurd heq (hunsigned tail)
    next =>
      cases hbody
      simp only [hwhole, fractionPart_of_ends hrest, exponentPart?_of_ends hrest, digitsValue_toDigits]
      exact if_pos hn

theorem number_negative (hn : Binary64.digitCount n ≤ Text.maxDigits) (hrest : Ends rest) :
    number ('-' :: (Nat.toDigits 10 n ++ rest)) = .ok (.int (-n), rest) := by
  simp only [number, wholePart?_toDigits n hrest, fractionPart_of_ends hrest, exponentPart?_of_ends hrest,
    digitsValue_toDigits]
  exact if_pos hn

/-- No word begins with a digit, or with one behind a sign. -/
theorem scalar_digits (n : Nat) (rest : List Char) :
    scalar (Nat.toDigits 10 n ++ rest) = number (Nat.toDigits 10 n ++ rest) ∧
      scalar ('-' :: (Nat.toDigits 10 n ++ rest)) = number ('-' :: (Nat.toDigits 10 n ++ rest)) := by
  obtain ⟨c, ds, hds, hdigits⟩ := exists_digit n
  have hne : ∀ x : Char, x.isDigit = false → x ≠ c := by
    intro x hx h
    rw [h, hdigits c List.mem_cons_self] at hx
    cases hx
  rw [hds]
  constructor
  · simp [scalar, words, dropWord?, hne]
  · simp [scalar, words, dropWord?, hne]

end

/-! ### Whole numbers as they are written -/

theorem toList_toString_ofNat (m : Nat) : (toString (Int.ofNat m)).toList = Nat.toDigits 10 m := Nat.toList_repr

theorem toList_toString_negSucc (m : Nat) :
    (toString (Int.negSucc m)).toList = '-' :: Nat.toDigits 10 (m + 1) := by
  show ("-" ++ Nat.repr (m + 1)).toList = _
  rw [String.toList_append, Nat.toList_repr]
  rfl

/-- A sign or a digit comes first. -/
theorem toString_begins (n : Int) : ∃ c more, (toString n).toList = c :: more ∧ (c = '-' ∨ c.isDigit = true) := by
  cases n with
  | ofNat m =>
    obtain ⟨c, ds, hds, hdigits⟩ := exists_digit m
    exact ⟨c, ds, (toList_toString_ofNat m).trans hds, .inr (hdigits c List.mem_cons_self)⟩
  | negSucc m => exact ⟨'-', _, toList_toString_negSucc m, .inl rfl⟩

/-- A whole number with not too many digits is read to its end. -/
theorem scalar_toString {n : Int} (hn : Binary64.digitCount n.natAbs ≤ Text.maxDigits) {rest : List Char}
    (hrest : Ends rest) : scalar ((toString n).toList ++ rest) = .ok (.int n, rest) := by
  cases n with
  | ofNat m =>
    rw [toList_toString_ofNat, (scalar_digits m rest).1]
    exact number_digits hn hrest
  | negSucc m =>
    rw [toList_toString_negSucc, List.cons_append, (scalar_digits (m + 1) rest).2]
    exact number_negative hn hrest

end BnfReader.Json

namespace BnfReader.Text

/-! ### Whole numbers as they may be typed -/

theorem toNat_of_isDigit {c : Char} (h : c.isDigit = true) : 48 ≤ c.toNat ∧ c.toNat ≤ 57 := by
  simp only [Char.isDigit, Bool.and_eq_true, decide_eq_true_eq, UInt32.le_iff_toNat_le] at h
  exact h

theorem digit?_of_isDigit {c : Char} (h : c.isDigit = true) : digit? c = some (c.toNat - 48) := by
  have hascii : (decide (0x30 ≤ c.toNat) && decide (c.toNat ≤ 0x30 + 9)) = true := by
    simpa using toNat_of_isDigit h
  simp [digit?, zeros, hascii]

theorem digits?_of_isDigit {cs : List Char} (hne : cs ≠ []) (h : ∀ c ∈ cs, c.isDigit = true) :
    digits? cs = some (cs.map fun c => c.toNat - 48) := by
  fun_induction digits? cs with
  | case1 => exact absurd rfl hne
  | case2 c => simp [digit?_of_isDigit (h c List.mem_cons_self)]
  | case3 c rest _ => simp at h
  | case4 c rest hone _ ih =>
    have hrest : rest ≠ [] := fun hnil => hone hnil
    rw [digit?_of_isDigit (h c List.mem_cons_self), ih hrest fun x hx => h x (List.mem_cons_of_mem c hx)]
    rfl

/-- Between characters that are no blanks there is nothing to trim. -/
theorem trimBlanks_eq_self {cs : List Char} (h : ∀ c ∈ cs, isBlank c = false) : trimBlanks cs = cs := by
  have hkeep : ∀ {us : List Char}, (∀ c ∈ us, isBlank c = false) → us.dropWhile isBlank = us := by
    intro us hus
    cases us with
    | nil => rfl
    | cons c us => exact List.dropWhile_cons_of_neg (by simp [hus c])
  rw [trimBlanks, hkeep h, hkeep fun c hc => h c (List.mem_reverse.1 hc), List.reverse_reverse]

theorem isBlank_of_isDigit {c : Char} (h : c.isDigit = true) : isBlank c = false := by
  have hrange := toNat_of_isDigit h
  simp only [isBlank, Bool.or_eq_false_iff, Bool.and_eq_false_iff, decide_eq_false_iff_not, beq_eq_false_iff_ne]
  omega

theorem natural?_toDigits (n : Nat) :
    natural? (Nat.toDigits 10 n) = if Binary64.digitCount n ≤ maxDigits then some n else none := by
  obtain ⟨c, ds, hds, hdigits⟩ := Json.exists_digit n
  rw [← hds] at hdigits
  have hvalue : ofDigits ((Nat.toDigits 10 n).map fun c => c.toNat - 48) = n := Json.digitsValue_toDigits n
  simp only [natural?, digits?_of_isDigit Nat.toDigits_ne_nil hdigits, bind, Option.bind, hvalue, List.length_map]
  rfl

/-- A whole number is read as it is written, unless it has too many digits. -/
theorem integer?_toString (n : Int) :
    integer? (toString n) = if Binary64.digitCount n.natAbs ≤ maxDigits then some n else none := by
  cases n with
  | ofNat m =>
    obtain ⟨c, ds, hds, hdigits⟩ := Json.exists_digit m
    have htrim : trimBlanks (toString (Int.ofNat m)).toList = c :: ds := by
      rw [Json.toList_toString_ofNat, hds, trimBlanks_eq_self fun x hx => isBlank_of_isDigit (hdigits x hx)]
    have hsign : ∀ {x : Char}, x.isDigit = false → x ≠ c := by
      rintro x hx rfl
      rw [hdigits x List.mem_cons_self] at hx
      cases hx
    unfold integer?
    rw [htrim]
    split
    next heq => exact absurd (List.cons.inj heq).1.symm (hsign rfl)
    next heq => exact absurd (List.cons.inj heq).1.symm (hsign rfl)
    next =>
      rw [← hds, natural?_toDigits, apply_ite (Option.map Int.ofNat)]
      rfl
  | negSucc m =>
    have htrim : trimBlanks (toString (Int.negSucc m)).toList = '-' :: Nat.toDigits 10 (m + 1) := by
      obtain ⟨c, ds, hds, hdigits⟩ := Json.exists_digit (m + 1)
      rw [Json.toList_toString_negSucc, hds, trimBlanks_eq_self]
      exact List.forall_mem_cons.2 ⟨by decide, fun x hx => isBlank_of_isDigit (hdigits x hx)⟩
    unfold integer?
    rw [htrim]
    show ((natural? (Nat.toDigits 10 (m + 1))).bind fun n => some (n : Int)).map (- ·) = _
    rw [natural?_toDigits]
    split
    next hcount => exact (if_pos hcount).symm
    next hcount => exact (if_neg hcount).symm

end BnfReader.Text
