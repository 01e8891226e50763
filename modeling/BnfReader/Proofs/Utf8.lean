import BnfReader.Text.Utf8

/-! Bytes are read as a text just if they are its bytes.

Behind the first byte of a character the state says which bytes can still come. `Fills` are
the bytes that complete a character, and they are those that its encoding has behind the
first byte. -/
namespace BnfReader.Text

/-! ### Completing a character -/

/-- A character in the middle with one more byte. -/
def Partial.push (p : Partial) (b : UInt8) : Partial :=
  ⟨p.first, p.read + 1, shiftIn p.bits b, p.following - 1, 0x80, 0xBF⟩

/-- A character whose first byte was read. -/
def Lead.begun (l : Lead) (b : UInt8) : Partial := ⟨b, 1, l.bits, l.following, l.low, l.high⟩

/-- The bytes complete the character. -/
def Partial.Fills (p : Partial) : Bytes → Char → Prop
  | [], _ => False
  | b :: w, c =>
    (p.low.toNat ≤ b.toNat ∧ b.toNat ≤ p.high.toNat) ∧
      if p.following = 1 then w = [] ∧ c = Char.ofNat (shiftIn p.bits b) else (p.push b).Fills w c

theorem decodeFrom_pending {position : Nat} {seen cs : List Char} {p : Partial} {bytes : Bytes} :
    decodeFrom position seen (some p) bytes = .ok cs ↔ ∃ w c rest, bytes = w ++ rest ∧ p.Fills w c ∧
      decodeFrom (position + w.length) (c :: seen) none rest = .ok cs := by
  induction bytes generalizing position p with
  | nil =>
    constructor
    · intro h
      cases h
    · rintro ⟨w, c, rest, hw, hfills, -⟩
      obtain ⟨rfl, -⟩ := List.append_eq_nil_iff.1 hw.symm
      exact hfills.elim
  | cons b bytes ih =>
    have hfirst : (∃ w c rest, b :: bytes = w ++ rest ∧ p.Fills w c ∧
          decodeFrom (position + w.length) (c :: seen) none rest = .ok cs) ↔
        ∃ w c rest, bytes = w ++ rest ∧ p.Fills (b :: w) c ∧
          decodeFrom (position + 1 + w.length) (c :: seen) none rest = .ok cs := by
      constructor
      · rintro ⟨w, c, rest, hw, hfills, h⟩
        cases w with
        | nil => exact hfills.elim
        | cons b' w =>
          cases hw
          refine ⟨w, c, rest, rfl, hfills, ?_⟩
          rwa [List.length_cons, Nat.add_comm w.length, ← Nat.add_assoc] at h
      · rintro ⟨w, c, rest, rfl, hfills, h⟩
        refine ⟨b :: w, c, rest, rfl, hfills, ?_⟩
        rwa [List.length_cons, Nat.add_comm w.length, ← Nat.add_assoc]
    rw [hfirst]
    simp only [decodeFrom, Partial.Fills]
    by_cases hrange : b < p.low ∨ p.high < b
    · have hout : ¬ (p.low.toNat ≤ b.toNat ∧ b.toNat ≤ p.high.toNat) := by
        simp only [UInt8.lt_iff_toNat_lt] at hrange
        omega
      simp [hrange, hout]
    · have hin : p.low.toNat ≤ b.toNat ∧ b.toNat ≤ p.high.toNat := by
        simp only [UInt8.lt_iff_toNat_lt] at hrange
        omega
      rw [if_neg hrange]
      by_cases hlast : p.following = 1
      · simp only [hin, hlast, if_true, and_self, true_and]
        constructor
        · intro h
          exact ⟨[], _, bytes, rfl, ⟨rfl, Eq.refl (Char.ofNat (shiftIn p.bits b))⟩, h⟩
        · rintro ⟨w, c, rest, rfl, ⟨rfl, hc⟩, h⟩
          rwa [hc] at h
      · simp only [hin, hlast, if_false, and_self, true_and]
        exact ih

/-! ### One character -/

theorem shiftIn_eq (bits : Nat) (b : UInt8) : shiftIn bits b = bits * 64 + (b.toNat - 0x80) := rfl

theorem toNat_ofNat {n : Nat} (h : n.isValidChar) : (Char.ofNat n).val.toNat = n := by
  rw [Char.ofNat, dif_pos h]
  rfl

theorem ofNat_eq {n : Nat} (b : UInt8) (h : n = b.toNat) : UInt8.ofNat n = b := by
  rw [h, UInt8.ofNat_toNat]

/-- The three kinds of first bytes above ASCII. -/
theorem lead?_eq_some {b : UInt8} {l : Lead} : lead? b = some l ↔
    (0xC2 ≤ b.toNat ∧ b.toNat < 0xE0 ∧ l = ⟨b.toNat - 0xC0, 1, 0x80, 0xBF⟩) ∨
    (0xE0 ≤ b.toNat ∧ b.toNat < 0xF0 ∧
      l = ⟨b.toNat - 0xE0, 2, if b = 0xE0 then 0xA0 else 0x80, if b = 0xED then 0x9F else 0xBF⟩) ∨
    (0xF0 ≤ b.toNat ∧ b.toNat < 0xF5 ∧
      l = ⟨b.toNat - 0xF0, 3, if b = 0xF0 then 0x90 else 0x80, if b = 0xF4 then 0x8F else 0xBF⟩) := by
  simp only [lead?, UInt8.lt_iff_toNat_lt, UInt8.toNat_ofNat, Nat.reducePow, Nat.reduceMod]
  constructor
  · intro h
    split at h
    · cases h
    · next h1 =>
      split at h
      · next h2 => exact .inl ⟨Nat.not_lt.1 h1, h2, (Option.some.inj h).symm⟩
      · next h2 =>
        split at h
        · next h3 => exact .inr (.inl ⟨Nat.not_lt.1 h2, h3, (Option.some.inj h).symm⟩)
        · next h3 =>
          split at h
          · next h4 => exact .inr (.inr ⟨Nat.not_lt.1 h3, h4, (Option.some.inj h).symm⟩)
          · cases h
  · rintro (⟨hlow, hhigh, rfl⟩ | ⟨hlow, hhigh, rfl⟩ | ⟨hlow, hhigh, rfl⟩)
    · rw [if_neg (by omega), if_pos hhigh]
    · rw [if_neg (by omega), if_neg (by omega), if_pos hhigh]
    · rw [if_neg (by omega), if_neg (by omega), if_neg (by omega), if_pos hhigh]

section
variable {p : Prop} [Decidable p] {x y : UInt8} {n : Nat}

theorem toNat_ite_le : (if p then x else y).toNat ≤ n ↔ (p → x.toNat ≤ n) ∧ (¬ p → y.toNat ≤ n) := by
  split <;> simp [*]

theorem le_toNat_ite : n ≤ (if p then x else y).toNat ↔ (p → n ≤ x.toNat) ∧ (¬ p → n ≤ y.toNat) := by
  split <;> simp [*]

end

theorem toNat_ofNat_lt {n : Nat} (h : n < 256) : (UInt8.ofNat n).toNat = n := by
  rw [UInt8.toNat_ofNat']
  omega

/-! What completes a character of two, three and four bytes. -/

section
variable {b : UInt8} {w : Bytes} {c : Char}

theorem fills_two : (Lead.begun ⟨b.toNat - 0xC0, 1, 0x80, 0xBF⟩ b).Fills w c ↔
    ∃ b1, w = [b1] ∧ (0x80 ≤ b1.toNat ∧ b1.toNat ≤ 0xBF) ∧
      c = Char.ofNat ((b.toNat - 0xC0) * 64 + (b1.toNat - 0x80)) := by
  rcases w with _ | ⟨b1, w⟩
  · simp [Partial.Fills]
  · simp only [Partial.Fills, Lead.begun, if_true, UInt8.reduceToNat, shiftIn_eq, List.cons.injEq]
    grind

theorem fills_three : (Lead.begun ⟨b.toNat - 0xE0, 2, if b = 0xE0 then 0xA0 else 0x80,
      if b = 0xED then 0x9F else 0xBF⟩ b).Fills w c ↔
    ∃ b1 b2, w = [b1, b2] ∧ (0x80 ≤ b1.toNat ∧ b1.toNat ≤ 0xBF) ∧ (b.toNat = 0xE0 → 0xA0 ≤ b1.toNat) ∧
      (b.toNat = 0xED → b1.toNat ≤ 0x9F) ∧ (0x80 ≤ b2.toNat ∧ b2.toNat ≤ 0xBF) ∧
      c = Char.ofNat (((b.toNat - 0xE0) * 64 + (b1.toNat - 0x80)) * 64 + (b2.toNat - 0x80)) := by
  rcases w with _ | ⟨b1, _ | ⟨b2, w⟩⟩
  · simp [Partial.Fills]
  · simp [Partial.Fills, Lead.begun]
  · simp only [Partial.Fills, Lead.begun, Partial.push, if_true, if_false, toNat_ite_le, le_toNat_ite,
      ← UInt8.toNat_inj, UInt8.reduceToNat, Nat.reduceEqDiff, Nat.reduceSub, shiftIn_eq, List.cons.injEq]
    grind

theorem fills_four : (Lead.begun ⟨b.toNat - 0xF0, 3, if b = 0xF0 then 0x90 else 0x80,
      if b = 0xF4 then 0x8F else 0xBF⟩ b).Fills w c ↔
    ∃ b1 b2 b3, w = [b1, b2, b3] ∧ (0x80 ≤ b1.toNat ∧ b1.toNat ≤ 0xBF) ∧ (b.toNat = 0xF0 → 0x90 ≤ b1.toNat) ∧
      (b.toNat = 0xF4 → b1.toNat ≤ 0x8F) ∧ (0x80 ≤ b2.toNat ∧ b2.toNat ≤ 0xBF) ∧
      (0x80 ≤ b3.toNat ∧ b3.toNat ≤ 0xBF) ∧
      c = Char.ofNat ((((b.toNat - 0xF0) * 64 + (b1.toNat - 0x80)) * 64 + (b2.toNat - 0x80)) * 64 +
        (b3.toNat - 0x80)) := by
  rcases w with _ | ⟨b1, _ | ⟨b2, _ | ⟨b3, w⟩⟩⟩
  · simp [Partial.Fills]
  · simp [Partial.Fills, Lead.begun]
  · simp [Partial.Fills, Lead.begun, Partial.push]
  · simp only [Partial.Fills, Lead.begun, Partial.push, if_true, if_false, toNat_ite_le, le_toNat_ite,
      ← UInt8.toNat_inj, UInt8.reduceToNat, Nat.reduceEqDiff, Nat.reduceSub, shiftIn_eq, List.cons.injEq]
    grind

end

/-- A first byte and those that complete its character are the bytes of the character. -/
theorem encode_of_fills {b : UInt8} {l : Lead} {w : Bytes} {c : Char} (hl : lead? b = some l)
    (hfills : (l.begun b).Fills w c) : String.utf8EncodeChar c = b :: w := by
  obtain ⟨hlow, hhigh, rfl⟩ | ⟨hlow, hhigh, rfl⟩ | ⟨hlow, hhigh, rfl⟩ := lead?_eq_some.1 hl
  · obtain ⟨b1, rfl, h1, hc⟩ := fills_two.1 hfills
    generalize hn : (b.toNat - 0xC0) * 64 + (b1.toNat - 0x80) = n at hc
    have hvalid : n.isValidChar := by
      simp only [Nat.isValidChar]
      omega
    rw [hc, String.utf8EncodeChar, toNat_ofNat hvalid, if_neg (by omega), if_pos (by omega),
      ofNat_eq b (by omega), ofNat_eq b1 (by omega)]
  · obtain ⟨b1, b2, rfl, h1, hlong, hsurrogate, h2, hc⟩ := fills_three.1 hfills
    generalize hn : ((b.toNat - 0xE0) * 64 + (b1.toNat - 0x80)) * 64 + (b2.toNat - 0x80) = n at hc
    have hvalid : n.isValidChar := by
      simp only [Nat.isValidChar]
      omega
    rw [hc, String.utf8EncodeChar, toNat_ofNat hvalid, if_neg (by omega), if_neg (by omega), if_pos (by omega),
      ofNat_eq b (by omega), ofNat_eq b1 (by omega), ofNat_eq b2 (by omega)]
  · obtain ⟨b1, b2, b3, rfl, h1, hlong, hbeyond, h2, h3, hc⟩ := fills_four.1 hfills
    generalize hn : (((b.toNat - 0xF0) * 64 + (b1.toNat - 0x80)) * 64 + (b2.toNat - 0x80)) * 64 +
      (b3.toNat - 0x80) = n at hc
    have hvalid : n.isValidChar := by
      simp only [Nat.isValidChar]
      omega
    rw [hc, String.utf8EncodeChar, toNat_ofNat hvalid, if_neg (by omega), if_neg (by omega),
      if_neg (by omega), ofNat_eq b (by omega), ofNat_eq b1 (by omega), ofNat_eq b2 (by omega),
      ofNat_eq b3 (by omega)]

/-- A character above ASCII has a first byte, and the bytes behind it complete it. -/
theorem fills_of_encode {c : Char} (hc : 0x80 ≤ c.val.toNat) : ∃ b w l,
    String.utf8EncodeChar c = b :: w ∧ 0x80 ≤ b.toNat ∧ lead? b = some l ∧ (l.begun b).Fills w c := by
  have hvalid : c.val.toNat.isValidChar := c.valid
  have hself : Char.ofNat c.val.toNat = c := Char.ofNat_toNat c
  generalize hv : c.val.toNat = v at hc hvalid hself
  simp only [Nat.isValidChar] at hvalid
  have hlast : (UInt8.ofNat (v % 0x40 + 0x80)).toNat = v % 64 + 0x80 := toNat_ofNat_lt (by omega)
  have hnext : (UInt8.ofNat (v / 64 % 0x40 + 0x80)).toNat = v / 64 % 64 + 0x80 := toNat_ofNat_lt (by omega)
  rw [String.utf8EncodeChar, hv, if_neg (by omega)]
  by_cases htwo : v ≤ 0x7ff
  · rw [if_pos htwo]
    have hb : (UInt8.ofNat (v / 64 % 0x20 + 0xc0)).toNat = v / 64 + 0xC0 := by
      rw [toNat_ofNat_lt (by omega)]
      omega
    refine ⟨_, _, _, rfl, by omega, lead?_eq_some.2 (.inl ⟨by omega, by omega, rfl⟩), fills_two.2 ?_⟩
    rw [hb]
    refine ⟨_, rfl, by omega, ?_⟩
    rw [hlast]
    exact hself.symm.trans (congrArg Char.ofNat (by omega))
  rw [if_neg htwo]
  by_cases hthree : v ≤ 0xffff
  · rw [if_pos hthree]
    have hb : (UInt8.ofNat (v / 4096 % 0x10 + 0xe0)).toNat = v / 4096 + 0xE0 := by
      rw [toNat_ofNat_lt (by omega)]
      omega
    refine ⟨_, _, _, rfl, by omega, lead?_eq_some.2 (.inr (.inl ⟨by omega, by omega, rfl⟩)), fills_three.2 ?_⟩
    rw [hb]
    refine ⟨_, _, rfl, ?_⟩
    rw [hnext, hlast]
    refine ⟨by omega, by omega, by omega, by omega, ?_⟩
    exact hself.symm.trans (congrArg Char.ofNat (by omega))
  · rw [if_neg hthree]
    have hb : (UInt8.ofNat (v / 262144 % 0x08 + 0xf0)).toNat = v / 262144 + 0xF0 := by
      rw [toNat_ofNat_lt (by omega)]
      omega
    have hsecond : (UInt8.ofNat (v / 4096 % 0x40 + 0x80)).toNat = v / 4096 % 64 + 0x80 :=
      toNat_ofNat_lt (by omega)
    refine ⟨_, _, _, rfl, by omega, lead?_eq_some.2 (.inr (.inr ⟨by omega, by omega, rfl⟩)), fills_four.2 ?_⟩
    rw [hb]
    refine ⟨_, _, _, rfl, ?_⟩
    rw [hsecond, hnext, hlast]
    refine ⟨by omega, by omega, by omega, by omega, by omega, ?_⟩
    exact hself.symm.trans (congrArg Char.ofNat (by omega))

/-! ### Whole texts -/

/-- A byte of ASCII is the character of its number. -/
theorem encodeChar_ascii {b : UInt8} (hb : b.toNat < 0x80) :
    String.utf8EncodeChar (Char.ofNat b.toNat) = [b] := by
  have hvalid : b.toNat.isValidChar := by
    simp only [Nat.isValidChar]
    omega
  rw [String.utf8EncodeChar, toNat_ofNat hvalid, if_pos (by omega), UInt8.ofNat_toNat]

/-- Reading goes on behind the first character if the bytes begin with one. -/
theorem decodeFrom_cons {position : Nat} {seen cs : List Char} {b : UInt8} {bytes : Bytes} :
    decodeFrom position seen none (b :: bytes) = .ok cs ↔
      ∃ c rest, b :: bytes = String.utf8EncodeChar c ++ rest ∧
        decodeFrom (position + (String.utf8EncodeChar c).length) (c :: seen) none rest = .ok cs := by
  simp only [decodeFrom]
  constructor
  · intro h
    split at h
    · next hascii =>
      refine ⟨Char.ofNat b.toNat, bytes, ?_, ?_⟩
      · rw [encodeChar_ascii hascii]
        rfl
      · rwa [encodeChar_ascii hascii]
    · split at h
      · cases h
      · next l hl =>
        obtain ⟨w, c, rest, rfl, hfills, h⟩ := decodeFrom_pending.1 h
        have hbytes := encode_of_fills hl hfills
        refine ⟨c, rest, ?_, ?_⟩
        · rw [hbytes]
          rfl
        · rwa [hbytes, List.length_cons, Nat.add_comm w.length, ← Nat.add_assoc]
  · rintro ⟨c, rest, hbytes, h⟩
    by_cases hascii : c.val.toNat < 0x80
    · have hb : (UInt8.ofNat c.val.toNat).toNat = c.toNat := toNat_ofNat_lt (by omega)
      have hc := encodeChar_ascii (b := UInt8.ofNat c.val.toNat) (hb ▸ hascii)
      rw [hb, Char.ofNat_toNat] at hc
      rw [hc] at hbytes h
      cases hbytes
      rw [if_pos (UInt8.lt_iff_toNat_lt.2 (hb ▸ hascii)), hb, Char.ofNat_toNat]
      exact h
    · obtain ⟨b', w, l, hc, hb, hl, hfills⟩ := fills_of_encode (Nat.not_lt.1 hascii)
      rw [hc] at hbytes h
      cases hbytes
      have hnot : ¬ b < 0x80 := by
        rw [UInt8.lt_iff_toNat_lt]
        exact Nat.not_lt.2 hb
      rw [if_neg hnot, hl]
      refine decodeFrom_pending.2 ⟨w, c, rest, rfl, hfills, ?_⟩
      rwa [List.length_cons, Nat.add_comm w.length, ← Nat.add_assoc] at h

theorem decodeFrom_ok_iff {position : Nat} {seen cs : List Char} {bytes : Bytes} :
    decodeFrom position seen none bytes = .ok cs ↔
      ∃ more, cs = seen.reverse ++ more ∧ bytes = more.flatMap String.utf8EncodeChar := by
  constructor
  · intro h
    -- A character takes at least one byte, so the length of what is left bounds the characters.
    induction hlength : bytes.length using Nat.strongRecOn generalizing position seen bytes with
    | ind n ih =>
    cases bytes with
    | nil =>
      cases h
      exact ⟨[], by simp, rfl⟩
    | cons b bytes =>
      obtain ⟨c, rest, hbytes, h⟩ := decodeFrom_cons.1 h
      have hshorter : rest.length < n := by
        have hsome := List.length_pos_iff.2 (String.utf8EncodeChar_ne_nil (c := c))
        rw [← hlength, hbytes, List.length_append]
        omega
      obtain ⟨more, rfl, rfl⟩ := ih rest.length hshorter h rfl
      refine ⟨c :: more, ?_, ?_⟩
      · rw [List.reverse_cons, List.append_assoc]
        rfl
      · rw [hbytes, List.flatMap_cons]
  · rintro ⟨more, rfl, rfl⟩
    induction more generalizing position seen with
    | nil =>
      rw [List.append_nil]
      rfl
    | cons c more ih =>
      have ih := @ih (position + (String.utf8EncodeChar c).length) (c :: seen)
      rw [List.reverse_cons, List.append_assoc] at ih
      rw [List.flatMap_cons]
      cases hc : String.utf8EncodeChar c with
      | nil => exact absurd hc String.utf8EncodeChar_ne_nil
      | cons b w =>
        refine decodeFrom_cons.2 ⟨c, _, ?_, ih⟩
        rw [hc]
        rfl

/-- **Bytes are read as a text just if they are its bytes.** -/
theorem decode_ok_iff {bytes : Bytes} {s : String} : decode bytes = .ok s ↔ encode s = bytes := by
  constructor
  · intro h
    simp only [decode] at h
    cases hcs : decodeFrom 0 [] none bytes with
    | error e =>
      rw [hcs] at h
      cases h
    | ok cs =>
      rw [hcs] at h
      cases h
      obtain ⟨more, hmore, rfl⟩ := decodeFrom_ok_iff.1 hcs
      rw [encode, String.toList_ofList, hmore]
      rfl
  · rintro rfl
    have h : decodeFrom 0 [] none (encode s) = .ok s.toList := decodeFrom_ok_iff.2 ⟨s.toList, rfl, rfl⟩
    rw [decode, h]
    exact congrArg Except.ok String.ofList_toList

end BnfReader.Text
