import BnfReader.Proofs.MadeSettings
import BnfReader.Proofs.PlainValues
import Mathlib.Data.Nat.Digits.Lemmas

/-! What is read can be written.

A value that was read has no whole number with too many digits and no container in more others than
are read (`Json.Readable`), so nothing breaks its writing off where as many levels are written
(`Readable.faultAt?_eq_none_iff`, `Readable.depth_le`). Its floating-point numbers are below 10³¹⁰ or
so, and the whole part of each has not too many digits either (`ofDecimal_bounded`). -/
namespace BnfReader

/-! ### Digits -/

/-- A number is written with at most so many digits if it is below that power of ten. -/
theorem digitCount_le {n k : Nat} (hk : 0 < k) (h : n < 10 ^ k) : Binary64.digitCount n ≤ k :=
  (Nat.length_toDigits_le_iff (by decide) hk).2 h

theorem lt_pow_digitCount (n : Nat) : n < 10 ^ Binary64.digitCount n :=
  (Nat.length_toDigits_le_iff (by decide) (List.length_pos_iff.2 Nat.toDigits_ne_nil)).1 (Nat.le_refl _)

theorem foldl_digits_lt {ds : List Nat} (h : ∀ d ∈ ds, d < 10) (n : Nat) :
    ds.foldl (fun n d => 10 * n + d) n < (n + 1) * 10 ^ ds.length := by
  induction ds generalizing n with
  | nil => simp
  | cons d ds ih =>
    rw [List.forall_mem_cons] at h
    calc ds.foldl (fun n d => 10 * n + d) (10 * n + d)
        < (10 * n + d + 1) * 10 ^ ds.length := ih h.2 _
      _ ≤ (10 * (n + 1)) * 10 ^ ds.length := Nat.mul_le_mul_right _ (by omega)
      _ = (n + 1) * 10 ^ (d :: ds).length := by rw [List.length_cons, Nat.pow_succ]; ring

theorem digitCount_ofDigits {ds : List Nat} (h : ∀ d ∈ ds, d < 10) (hlength : ds.length ≤ Text.maxDigits) :
    Binary64.digitCount (Text.ofDigits ds) ≤ Text.maxDigits := by
  have hlt := foldl_digits_lt h 0
  rw [Nat.zero_add, Nat.one_mul] at hlt
  exact digitCount_le (by decide) (Nat.lt_of_lt_of_le hlt (Nat.pow_le_pow_right (by decide) hlength))

namespace Text

theorem digit?_lt {c : Char} {d : Nat} (h : digit? c = some d) : d < 10 := by
  obtain ⟨first, hfind, rfl⟩ := Option.map_eq_some_iff.1 h
  have hrange := List.find?_some hfind
  simp only [Bool.and_eq_true, decide_eq_true_eq] at hrange
  omega

theorem digits?_lt {cs : List Char} {ds : List Nat} (h : digits? cs = some ds) : ∀ d ∈ ds, d < 10 := by
  fun_induction digits? cs generalizing ds with
  | case1 => cases h
  | case2 c =>
    obtain ⟨d, hd, rfl⟩ := Option.map_eq_some_iff.1 h
    simpa using digit?_lt hd
  | case3 c rest ih =>
    obtain ⟨d, hd, h⟩ := Option.bind_eq_some_iff.1 h
    obtain ⟨ds, hds, h⟩ := Option.bind_eq_some_iff.1 h
    cases h
    exact List.forall_mem_cons.2 ⟨digit?_lt hd, ih hds⟩
  | case4 c rest _ _ ih =>
    obtain ⟨d, hd, h⟩ := Option.bind_eq_some_iff.1 h
    obtain ⟨ds, hds, h⟩ := Option.bind_eq_some_iff.1 h
    cases h
    exact List.forall_mem_cons.2 ⟨digit?_lt hd, ih hds⟩

theorem digitCount_natural {cs : List Char} {n : Nat} (h : natural? cs = some n) :
    Binary64.digitCount n ≤ maxDigits := by
  obtain ⟨ds, hds, h⟩ := Option.bind_eq_some_iff.1 h
  split at h
  next hlength =>
    cases h
    exact digitCount_ofDigits (digits?_lt hds) hlength
  next => cases h

/-- A numeral is of a number that is not too long to be written. -/
theorem digitCount_integer {s : String} {n : Int} (h : integer? s = some n) :
    Binary64.digitCount n.natAbs ≤ maxDigits := by
  unfold integer? at h
  split at h
  next =>
    obtain ⟨m, hm, rfl⟩ := Option.map_eq_some_iff.1 h
    obtain ⟨k, hk, hm⟩ := Option.bind_eq_some_iff.1 hm
    cases hm
    rw [Int.natAbs_neg, Int.natAbs_natCast]
    exact digitCount_natural hk
  next =>
    obtain ⟨m, hm, rfl⟩ := Option.map_eq_some_iff.1 h
    exact digitCount_natural hm
  next =>
    obtain ⟨m, hm, rfl⟩ := Option.map_eq_some_iff.1 h
    exact digitCount_natural hm

end Text

/-! ### Floating-point numbers -/

namespace Binary64

/-- The whole part of a number is not too long to be written. -/
def Bounded (x : Binary64) : Prop := ∀ n, x.truncate? = some n → digitCount n.natAbs ≤ Text.maxDigits

theorem bounded_of_none {x : Binary64} (h : x.truncate? = none) : x.Bounded := by
  intro n hn
  rw [h] at hn
  cases hn

theorem roundDiv_le (n d : Nat) : roundDiv n d ≤ n / d + 1 := by
  simp only [roundDiv]
  repeat' split
  all_goals omega

/-- The most digits before the point that a number is read with. -/
def maxMagnitude : Nat := 310

/-- What all numbers that are read stay below. -/
def bound : Nat := 10 ^ maxMagnitude

/-- A fraction below the bound, scaled and rounded, is below the bound scaled. -/
theorem roundDiv_scale_le {num den : Nat} (h : num < den * bound) (k : Nat) :
    roundDiv (num * 2 ^ k) den ≤ bound * 2 ^ k ∧ roundDiv num (den * 2 ^ k) ≤ bound := by
  have hden : 0 < den := Nat.pos_of_mul_pos_right (Nat.lt_of_le_of_lt (Nat.zero_le _) h)
  have hpow := Nat.two_pow_pos k
  constructor
  · have hlt : num * 2 ^ k / den < bound * 2 ^ k := by
      rw [Nat.div_lt_iff_lt_mul hden]
      calc num * 2 ^ k < den * bound * 2 ^ k := Nat.mul_lt_mul_of_pos_right h hpow
        _ = bound * 2 ^ k * den := by ring
    have := roundDiv_le (num * 2 ^ k) den
    omega
  · have hlt : num / (den * 2 ^ k) < bound := by
      rw [Nat.div_lt_iff_lt_mul (Nat.mul_pos hden hpow)]
      calc num < den * bound := h
        _ ≤ den * bound * 2 ^ k := Nat.le_mul_of_pos_right _ hpow
        _ = bound * (den * 2 ^ k) := by ring
    have := roundDiv_le num (den * 2 ^ k)
    omega

/-- A finite number is bounded if its mantissa is, or would be as a fraction. -/
theorem bounded_finite {negative : Bool} {mantissa : Nat} {exponent : Int} (hexponent : exponent ≤ maxExponent)
    (h : mantissa ≤ bound ∨ exponent < 0 ∧ mantissa ≤ bound * 2 ^ (-exponent).toNat) :
    Bounded (.finite negative mantissa exponent) := by
  have hroom : bound * 2 ^ maxExponent.toNat < 10 ^ Text.maxDigits := by decide +kernel
  have hwhole : (scale mantissa 1 exponent).1 / (scale mantissa 1 exponent).2 ≤ bound * 2 ^ maxExponent.toNat := by
    rw [scale]
    split
    next hpositive =>
      have hmantissa : mantissa ≤ bound := by
        rcases h with h | h
        · exact h
        · omega
      have hpow : 2 ^ exponent.toNat ≤ 2 ^ maxExponent.toNat := Nat.pow_le_pow_right (by decide) (by omega)
      rw [Nat.div_one]
      exact Nat.mul_le_mul hmantissa hpow
    next hnegative =>
      have hquotient : mantissa / (1 * 2 ^ (-exponent).toNat) ≤ bound := by
        have hpow := Nat.two_pow_pos (-exponent).toNat
        rw [Nat.one_mul]
        rcases h with h | h
        · exact (Nat.div_le_self _ _).trans h
        · rw [Nat.div_le_iff_le_mul_add_pred hpow]
          rw [Nat.mul_comm] at h
          omega
      exact hquotient.trans (Nat.le_mul_of_pos_right _ (Nat.two_pow_pos _))
  intro n hn
  cases hn
  refine digitCount_le (by decide) (Nat.lt_of_le_of_lt ?_ hroom)
  split
  next => rwa [Int.natAbs_neg, Int.natAbs_natCast]
  next => rwa [Int.natAbs_natCast]

theorem ofRatio_bounded (negative : Bool) {num den : Nat} (h : num < den * bound) :
    Bounded (ofRatio negative num den) := by
  rw [ofRatio]
  split
  next => exact bounded_finite (by decide) (.inl (Nat.zero_le _))
  next =>
    generalize max (log2Ratio num den - 52) minExponent = exponent
    dsimp only
    split
    next =>
      -- Rounded up to a power of two, which is half of it one exponent higher.
      split
      next => exact bounded_of_none rfl
      next hexponent =>
        have hleading : leadingBit ≤ bound := by decide +kernel
        exact bounded_finite (Int.not_lt.1 hexponent) (.inl hleading)
    next =>
      split
      next => exact bounded_of_none rfl
      next hexponent =>
        refine bounded_finite (Int.not_lt.1 hexponent) ?_
        rw [scale]
        split
        next hpositive =>
          have hscaled := (roundDiv_scale_le h (-exponent).toNat).1
          by_cases hzero : exponent = 0
          · left
            simpa [hzero] using hscaled
          · exact .inr ⟨by omega, hscaled⟩
        next hnegative =>
          have hscaled := (roundDiv_scale_le h exponent.toNat).2
          left
          rwa [Int.neg_neg]

/-- A number that is read is bounded. -/
theorem ofDecimal_bounded (negative : Bool) (digits : Nat) (exponent : Int) :
    Bounded (ofDecimal negative digits exponent) := by
  have hdigits := lt_pow_digitCount digits
  simp only [ofDecimal]
  split
  next => exact bounded_finite (by decide) (.inl (Nat.zero_le _))
  next =>
    split
    next => exact bounded_of_none rfl
    next hmagnitude =>
      split
      next hwhole =>
        apply ofRatio_bounded
        rw [Nat.one_mul]
        calc digits * 10 ^ exponent.toNat
            < 10 ^ digitCount digits * 10 ^ exponent.toNat :=
              Nat.mul_lt_mul_of_pos_right hdigits (Nat.pow_pos (by decide))
          _ = 10 ^ (digitCount digits + exponent.toNat) := (Nat.pow_add _ _ _).symm
          _ ≤ bound := by
            refine Nat.pow_le_pow_right (by decide) ?_
            rw [maxMagnitude]
            omega
      next hfraction =>
        apply ofRatio_bounded
        calc digits < 10 ^ digitCount digits := hdigits
          _ ≤ 10 ^ ((-exponent).toNat + maxMagnitude) := by
            refine Nat.pow_le_pow_right (by decide) ?_
            rw [maxMagnitude]
            omega
          _ = 10 ^ (-exponent).toNat * bound := Nat.pow_add _ _ _

end Binary64

namespace Json

/-! ### Values -/

/-- A value within the bounds of reading. -/
inductive Readable : Nat → Json → Prop where
  | null {depth : Nat} : Readable depth .null
  | bool {depth : Nat} (b : Bool) : Readable depth (.bool b)
  | int {depth : Nat} {n : Int} : Binary64.digitCount n.natAbs ≤ Text.maxDigits → Readable depth (.int n)
  | real {depth : Nat} {x : Binary64} : x.Bounded → Readable depth (.real x)
  | string {depth : Nat} (s : String) : Readable depth (.string s)
  | array {depth : Nat} {vs : List Json} : (∀ v ∈ vs, Readable depth v) → Readable (depth + 1) (.array vs)
  | object {depth : Nat} {fs : Fields} : (∀ field ∈ fs, Readable depth field.2) → Readable (depth + 1) (.object fs)

/-- Only its depth can break off the writing of a value within the bounds of reading. -/
theorem Readable.faultAt?_eq_none_iff {depth writing : Nat} {v : Json} (h : Readable depth v) :
    v.faultAt? writing = none ↔ v.depth ≤ writing := by
  induction h generalizing writing with
  | null => exact ⟨fun _ => Nat.zero_le _, fun _ => rfl⟩
  | bool b => exact ⟨fun _ => Nat.zero_le _, fun _ => rfl⟩
  | int hn => exact ⟨fun _ => Nat.zero_le _, fun _ => if_pos hn⟩
  | real hx => exact ⟨fun _ => Nat.zero_le _, fun _ => rfl⟩
  | string s => exact ⟨fun _ => Nat.zero_le _, fun _ => rfl⟩
  | array _ ih =>
    rw [Json.depth]
    cases writing with
    | zero => exact iff_of_false (Option.some_ne_none _) (Nat.not_succ_le_zero _)
    | succ writing =>
      rw [faultAt?, itemsFault?_eq_none, Nat.add_le_add_iff_right, itemsDepth_le]
      exact forall₂_congr fun v hv => ih v hv
  | object _ ih =>
    rw [Json.depth]
    cases writing with
    | zero => exact iff_of_false (Option.some_ne_none _) (Nat.not_succ_le_zero _)
    | succ writing =>
      rw [faultAt?, fieldsFault?_eq_none, Nat.add_le_add_iff_right, fieldsDepth_le]
      exact forall₂_congr fun field hfield => ih field hfield

/-- A value within the bounds of reading is no deeper. -/
theorem Readable.depth_le {depth : Nat} {v : Json} (h : Readable depth v) : v.depth ≤ depth := by
  induction h with
  | null => exact Nat.zero_le _
  | bool b => exact Nat.zero_le _
  | int hn => exact Nat.zero_le _
  | real hx => exact Nat.zero_le _
  | string s => exact Nat.zero_le _
  | array _ ih =>
    rw [Json.depth, Nat.add_le_add_iff_right, itemsDepth_le]
    exact ih
  | object _ ih =>
    rw [Json.depth, Nat.add_le_add_iff_right, fieldsDepth_le]
    exact ih

/-- Arrays in each other. -/
def nested : Nat → Json
  | 0 => .null
  | n + 1 => .array [nested n]

theorem plain_nested (n : Nat) : (nested n).Plain := by
  induction n with
  | zero => exact .null
  | succ n ih => exact .array (List.forall_mem_singleton.2 ih)

theorem readable_nested (n : Nat) : (nested n).Readable n := by
  induction n with
  | zero => exact .null
  | succ n ih => exact .array (List.forall_mem_singleton.2 ih)

theorem depth_nested (n : Nat) : (nested n).depth = n := by
  induction n with
  | zero => rfl
  | succ n ih => rw [nested, Json.depth, itemsDepth, itemsDepth, ih, Nat.max_zero]

/-- The values of an object may be nested one level less. -/
theorem Readable.fields {depth : Nat} {fs : Fields} (h : Readable depth (.object fs)) :
    ∃ inner, depth = inner + 1 ∧ ∀ field ∈ fs, Readable inner field.2 := by
  cases h with
  | object hfields => exact ⟨_, rfl, hfields⟩

section
variable {depth fuel : Nat} {cs rest : List Char} {v : Json}

theorem isDigit_of_mem_digitRun : ∀ c ∈ (digitRun cs).1, c.isDigit = true := by
  intro c hc
  rw [digitRun, List.span_eq_takeWhile_dropWhile] at hc
  exact List.all_eq_true.1 List.all_takeWhile c hc

theorem isDigit_of_mem_wholePart {ds : List Char} (h : wholePart? cs = some (ds, rest)) :
    ∀ c ∈ ds, c.isDigit = true := by
  unfold wholePart? at h
  split at h
  next =>
    cases h
    exact List.forall_mem_singleton.2 rfl
  next =>
    split at h
    next =>
      have hds := congrArg Prod.fst (Option.some.inj h)
      rw [← show _ = ds from hds]
      exact isDigit_of_mem_digitRun
    next => cases h
  next => cases h

theorem digitCount_digitsValue {ds : List Char} (h : ∀ c ∈ ds, c.isDigit = true)
    (hlength : ds.length ≤ Text.maxDigits) : Binary64.digitCount (digitsValue ds) ≤ Text.maxDigits := by
  apply digitCount_ofDigits
  · rw [List.forall_mem_map]
    intro c hc
    have hdigit := h c hc
    simp only [Char.isDigit, Bool.and_eq_true, decide_eq_true_eq, UInt32.le_iff_toNat_le] at hdigit
    have hlast : c.toNat ≤ 57 := hdigit.2
    omega
  · rwa [List.length_map]

theorem number_readable (h : number cs = .ok (v, rest)) : Readable depth v := by
  unfold number at h
  split at h
  next negative body _ =>
    split at h
    next => cases h
    next whole behind hwhole =>
      split at h
      next fraction tail _ =>
        split at h
        next =>
          split at h
          next hlength =>
            cases h
            have hcount := digitCount_digitsValue (isDigit_of_mem_wholePart hwhole) hlength
            refine .int ?_
            split
            next => rwa [Int.natAbs_neg, Int.natAbs_natCast]
            next => rwa [Int.natAbs_natCast]
          next => cases h
        next =>
          cases h
          exact .real (Binary64.ofDecimal_bounded _ _ _)
        next =>
          cases h
          exact .real (Binary64.ofDecimal_bounded _ _ _)

theorem scalar_readable (h : scalar cs = .ok (v, rest)) : Readable depth v := by
  have hwords : ∀ word ∈ words, Readable depth word.2 := by
    simp only [words, List.forall_mem_cons]
    exact ⟨.null, .bool _, .bool _, .real (Binary64.bounded_of_none rfl), .real (Binary64.bounded_of_none rfl),
      .real (Binary64.bounded_of_none rfl), List.forall_mem_nil _⟩
  unfold scalar at h
  split at h
  next found hfound =>
    cases h
    obtain ⟨word, hmem, hword⟩ := List.exists_of_findSome?_eq_some hfound
    obtain ⟨more, -, hpair⟩ := Option.map_eq_some_iff.1 hword
    cases hpair
    exact hwords word hmem
  next => exact number_readable h

end

/-- With so much fuel, the three readers keep within the bounds: values, and rows of items and of
fields behind those that were seen. -/
structure KeepsBounds (lone : Option Char) (fuel : Nat) : Prop where
  value : ∀ {depth : Nat} {cs rest : List Char} {v : Json}, value lone fuel depth cs = .ok (v, rest) →
    Readable depth v
  elements : ∀ {depth : Nat} {seen : List Json} {cs rest : List Char} {v : Json},
    (∀ w ∈ seen, Readable depth w) → elements lone fuel depth seen cs = .ok (v, rest) → Readable (depth + 1) v
  members : ∀ {depth : Nat} {seen : Fields} {cs rest : List Char} {v : Json},
    (∀ field ∈ seen, Readable depth field.2) → members lone fuel depth seen cs = .ok (v, rest) →
      Readable (depth + 1) v

section
variable {lone : Option Char} {depth fuel : Nat} {cs rest : List Char} {v : Json}

theorem KeepsBounds.value_succ (hfuel : KeepsBounds lone fuel)
    (h : Json.value lone (fuel + 1) depth cs = .ok (v, rest)) : Readable depth v := by
  unfold Json.value at h
  split at h
  next =>
    split at h
    next =>
      cases h
      exact .string _
    next => cases h
  next => cases h
  next =>
    split at h
    next =>
      cases h
      exact .object (List.forall_mem_nil _)
    next => exact hfuel.members (List.forall_mem_nil _) h
  next => cases h
  next =>
    split at h
    next =>
      cases h
      exact .array (List.forall_mem_nil _)
    next => exact hfuel.elements (List.forall_mem_nil _) h
  next => exact scalar_readable h

theorem KeepsBounds.elements_succ (hfuel : KeepsBounds lone fuel) {seen : List Json}
    (hseen : ∀ w ∈ seen, Readable depth w)
    (h : Json.elements lone (fuel + 1) depth seen cs = .ok (v, rest)) : Readable (depth + 1) v := by
  unfold Json.elements at h
  split at h
  next => cases h
  next w behind hw =>
    have hall : ∀ x ∈ w :: seen, Readable depth x := List.forall_mem_cons.2 ⟨hfuel.value hw, hseen⟩
    split at h
    next =>
      cases h
      exact .array fun x hx => hall x (List.mem_reverse.1 hx)
    next => exact hfuel.elements hall h
    next => cases h

theorem KeepsBounds.members_succ (hfuel : KeepsBounds lone fuel) {seen : Fields}
    (hseen : ∀ field ∈ seen, Readable depth field.2)
    (h : Json.members lone (fuel + 1) depth seen cs = .ok (v, rest)) : Readable (depth + 1) v := by
  unfold Json.members at h
  split at h
  next =>
    split at h
    next => cases h
    next key behind _ =>
      split at h
      next =>
        split at h
        next => cases h
        next w behind hw =>
          have hall : ∀ field ∈ seen.insert key w, Readable depth field.2 :=
            Fields.forall_insert hseen (hfuel.value hw)
          split at h
          next =>
            cases h
            exact .object hall
          next => exact hfuel.members hall h
          next => cases h
      next => cases h
  next => cases h

theorem keepsBounds (lone : Option Char) (fuel : Nat) : KeepsBounds lone fuel := by
  induction fuel with
  | zero => exact ⟨nofun, fun _ => nofun, fun _ => nofun⟩
  | succ fuel ih => exact ⟨ih.value_succ, ih.elements_succ, ih.members_succ⟩

theorem readable_of_valueAlone (h : valueAlone lone depth cs = .ok v) : Readable depth v := by
  unfold valueAlone at h
  split at h
  next => cases h
  next =>
    split at h
    next => cases h
    next w behind hvalue =>
      split at h
      next =>
        cases h
        exact (keepsBounds _ _).value hvalue
      next => cases h

/-- A value that was read is within the bounds. -/
theorem readable_of_read {text : String} (h : Json.read text depth = .ok v) : Readable depth v := by
  have hwhole : wholeValue depth text.toList = .ok v := by
    rw [Json.read] at h
    cases hresult : wholeValue depth text.toList with
    | error e =>
      rw [hresult] at h
      cases h
    | ok w =>
      rw [hresult] at h
      cases h
      rfl
  unfold wholeValue at hwhole
  split at hwhole
  next =>
    split at hwhole
    next => cases hwhole
    next => cases hwhole
  next => exact readable_of_valueAlone hwhole

end
end Json
end BnfReader
