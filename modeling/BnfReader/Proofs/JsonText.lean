import BnfReader.Grammar.Wire
import BnfReader.Proofs.WholeNumbers
import Mathlib.Data.List.Forall2

/-! JSON text is read back as it was written.

`Spells` says that characters are read as a value, whatever comes behind them that is no part of
a number. It holds of words and whole numbers, of strings whose characters are written by a form
that reading undoes (`Undoes`), and goes on from items to arrays and from fields to objects, with
any blanks between them. So it holds of what either writer makes of a value without floating-point
numbers, as long as no name stands twice in an object, no number is too long and the nesting is
not too deep (`Nested`). -/
namespace BnfReader

/-! ### Digits -/

namespace Text.Hex

theorem value?_digit {n : Nat} (hn : n < 16) : value? (digit n) = some n := by
  have hall : ∀ n < 16, value? (digit n) = some n := by decide
  exact hall n hn

theorem number?_snoc {ds : List Char} {m n : Nat} (hm : number? ds = some m) (hn : n < 16) :
    number? (ds ++ [digit n]) = some (16 * m + n) := by
  rw [number?] at hm ⊢
  rw [List.foldl_append, hm, List.foldl_cons, List.foldl_nil, value?_digit hn]
  rfl

/-- Four digits of a number that has no more. -/
theorem exists_padded_four {n : Nat} (hn : n < 0x10000) :
    ∃ a b c d, padded 4 n = [a, b, c, d] ∧ number? [a, b, c, d] = some n := by
  refine ⟨_, _, _, _, rfl, ?_⟩
  have hnone : number? [] = some 0 := rfl
  have hone := number?_snoc hnone (Nat.mod_lt (n / 16 / 16 / 16) (by decide))
  have htwo := number?_snoc hone (Nat.mod_lt (n / 16 / 16) (by decide))
  have hthree := number?_snoc htwo (Nat.mod_lt (n / 16) (by decide))
  have hfour := number?_snoc hthree (Nat.mod_lt n (by decide))
  refine hfour.trans (congrArg some ?_)
  omega

end Text.Hex

/-- A new name comes last. -/
theorem Fields.insert_of_not_mem {fs : Fields} {key : String} (h : key ∉ fs.keys) (v : Json) :
    fs.insert key v = fs ++ [(key, v)] := by
  induction fs with
  | nil => rfl
  | cons field fs ih =>
    obtain ⟨k, w⟩ := field
    simp only [Fields.keys, List.map_cons, List.mem_cons, not_or] at h ih
    rw [Fields.insert, if_neg (Ne.symm h.1), ih h.2]
    rfl

namespace Json

/-! ### Strings -/

/-- Reading undoes a form of characters: one step takes what is written of a character, if
there is something behind it. -/
def Undoes (form : Char → List Char) : Prop :=
  ∀ (lone : Option Char) (c : Char) (start : List Char) (fuel : Nat) (seen : List Char) (next : Char)
    (rest : List Char), stringFrom lone start (fuel + 1) seen (form c ++ next :: rest) =
      stringFrom lone start fuel (c :: seen) (next :: rest)

/-- A short form is a backslash and a letter that stands for the character. -/
theorem shortForm?_eq_some {c : Char} {cs : List Char} (h : shortForm? c = some cs) :
    ∃ e, cs = ['\\', e] ∧ e ≠ 'u' ∧ shortEscape? e = some c := by
  simp only [shortForm?] at h
  repeat' split at h
  all_goals cases h
  all_goals
    next hc =>
    subst hc
    exact ⟨_, rfl, by decide, rfl⟩

/-- A character without a short form is neither a quote nor a backslash. -/
theorem shortForm?_eq_none {c : Char} (h : shortForm? c = none) : c ≠ '"' ∧ c ≠ '\\' := by
  constructor
  · rintro rfl
    cases h
  · rintro rfl
    cases h

section
variable {lone : Option Char} {start : List Char} {fuel : Nat} {seen rest : List Char}

theorem stringFrom_plain {c : Char} (hquote : c ≠ '"') (hslash : c ≠ '\\') (hc : 0x20 ≤ c.toNat) :
    stringFrom lone start (fuel + 1) seen (c :: rest) = stringFrom lone start fuel (c :: seen) rest := by
  simp [stringFrom, hquote, hslash, Nat.not_lt.2 hc]

theorem stringFrom_short {e x : Char} (he : e ≠ 'u') (hx : shortEscape? e = some x) :
    stringFrom lone start (fuel + 1) seen ('\\' :: e :: rest) = stringFrom lone start fuel (x :: seen) rest := by
  simp [stringFrom, he, hx]

theorem stringFrom_unicode {cs : List Char} {x : Char} (h : unicodeEscape lone cs = .ok (x, rest)) :
    stringFrom lone start (fuel + 1) seen ('\\' :: 'u' :: cs) = stringFrom lone start fuel (x :: seen) rest := by
  simp [stringFrom, h]

/-- A character of the basic plane by its number. -/
theorem stringFrom_unit {c next : Char} (hc : c.toNat < 0x10000) :
    stringFrom lone start (fuel + 1) seen (unitEscape c.toNat ++ next :: rest) =
      stringFrom lone start fuel (c :: seen) (next :: rest) := by
  have hvalid : c.toNat.isValidChar := c.valid
  simp only [Nat.isValidChar] at hvalid
  have hhigh : isHighUnit c.toNat = false := by
    simp only [isHighUnit, Bool.and_eq_false_iff, decide_eq_false_iff_not]
    omega
  have hlow : isLowUnit c.toNat = false := by
    simp only [isLowUnit, Bool.and_eq_false_iff, decide_eq_false_iff_not]
    omega
  obtain ⟨a, b, c', d, hdigits, hnumber⟩ := Text.Hex.exists_padded_four hc
  rw [unitEscape, hdigits]
  refine stringFrom_unicode ?_
  simp [unicodeEscape, hnumber, hhigh, hlow]

/-- A character above the basic plane by the numbers of its units. -/
theorem stringFrom_pair {c next : Char} (hc : 0x10000 ≤ c.toNat) :
    stringFrom lone start (fuel + 1) seen (unitEscape (0xD800 + (c.toNat - 0x10000) / 0x400) ++
        unitEscape (0xDC00 + (c.toNat - 0x10000) % 0x400) ++ next :: rest) =
      stringFrom lone start fuel (c :: seen) (next :: rest) := by
  have hvalid : c.toNat.isValidChar := c.valid
  simp only [Nat.isValidChar] at hvalid
  generalize hhigh : 0xD800 + (c.toNat - 0x10000) / 0x400 = high
  generalize hlow : 0xDC00 + (c.toNat - 0x10000) % 0x400 = low
  have hisHigh : isHighUnit high = true := by
    simp only [isHighUnit, Bool.and_eq_true, decide_eq_true_eq]
    omega
  have hisLow : isLowUnit low = true := by
    simp only [isLowUnit, Bool.and_eq_true, decide_eq_true_eq]
    omega
  have hjoin : joinUnits high low = c.toNat := by
    show 0x10000 + (high - 0xD800) * 0x400 + (low - 0xDC00) = c.toNat
    omega
  obtain ⟨a, b, c', d, hdigits, hnumber⟩ := Text.Hex.exists_padded_four (n := high) (by omega)
  obtain ⟨a', b', c'', d', hdigits', hnumber'⟩ := Text.Hex.exists_padded_four (n := low) (by omega)
  rw [unitEscape, unitEscape, hdigits, hdigits']
  refine stringFrom_unicode ?_
  simp [unicodeEscape, hnumber, hnumber', hisHigh, hisLow, hjoin]

end

theorem asciiForm_undoes : Undoes asciiForm := by
  intro lone c start fuel seen next rest
  simp only [asciiForm]
  split
  · next cs hshort =>
    obtain ⟨e, rfl, he, hx⟩ := shortForm?_eq_some hshort
    exact stringFrom_short he hx
  · next hshort =>
    obtain ⟨hquote, hslash⟩ := shortForm?_eq_none hshort
    split
    · next hplain => exact stringFrom_plain hquote hslash hplain.1
    · split
      · next hunit => exact stringFrom_unit hunit
      · next hpair => exact stringFrom_pair (Nat.not_lt.1 hpair)

theorem plainForm_undoes : Undoes plainForm := by
  intro lone c start fuel seen next rest
  simp only [plainForm]
  split
  · next cs hshort =>
    obtain ⟨e, rfl, he, hx⟩ := shortForm?_eq_some hshort
    exact stringFrom_short he hx
  · next hshort =>
    obtain ⟨hquote, hslash⟩ := shortForm?_eq_none hshort
    split
    · next hcontrol => exact stringFrom_unit (Nat.lt_trans hcontrol (by decide))
    · next hcontrol => exact stringFrom_plain hquote hslash (Nat.not_lt.1 hcontrol)

/-- Every character takes room. -/
theorem Undoes.length_le {form : Char → List Char} (hform : Undoes form) (cs : List Char) :
    cs.length ≤ (cs.flatMap form).length := by
  have hsome : ∀ c, form c ≠ [] := by
    intro c hc
    have h := hform none c [] 1 [] '"' []
    rw [hc] at h
    simp [stringFrom] at h
  induction cs with
  | nil => exact Nat.le_refl 0
  | cons c cs ih =>
    have hc := List.length_pos_iff.2 (hsome c)
    rw [List.flatMap_cons, List.length_append, List.length_cons]
    omega

/-- A string is read to its closing quote. -/
theorem stringFrom_flatMap {form : Char → List Char} (hform : Undoes form) {lone : Option Char}
    {start seen cs rest : List Char} {fuel : Nat} (hfuel : cs.length < fuel) :
    stringFrom lone start fuel seen (cs.flatMap form ++ '"' :: rest) =
      .ok (String.ofList (seen.reverse ++ cs), rest) := by
  induction cs generalizing fuel seen with
  | nil =>
    cases fuel with
    | zero => cases hfuel
    | succ fuel => simp [stringFrom]
  | cons c cs ih =>
    cases fuel with
    | zero => cases hfuel
    | succ fuel =>
      have ih := @ih (c :: seen) fuel (Nat.lt_of_succ_lt_succ hfuel)
      rw [List.reverse_cons, List.append_assoc] at ih
      rw [List.flatMap_cons, List.append_assoc]
      cases hrest : cs.flatMap form ++ '"' :: rest with
      | nil => simp at hrest
      | cons next more =>
        rw [hform, ← hrest]
        exact ih

theorem stringBody_quote {form : Char → List Char} (hform : Undoes form) {lone : Option Char} {s : String}
    {rest : List Char} : stringBody lone (s.toList.flatMap form ++ '"' :: rest) = .ok (s, rest) := by
  have hroom := hform.length_le s.toList
  rw [stringBody, stringFrom_flatMap hform (by rw [List.length_append]; omega)]
  simp

/-! ### Blanks -/

/-- Whether a character is passed over between the parts of a text. -/
def isBlank (c : Char) : Bool := c == ' ' || c == '\t' || c == '\n' || c == '\r'

theorem skip_append {ws : List Char} (hws : ws.all isBlank = true) (cs : List Char) : skip (ws ++ cs) = skip cs :=
  List.dropWhile_append_of_pos (List.all_eq_true.1 hws)

theorem skip_cons {c : Char} (hc : isBlank c = false) (cs : List Char) : skip (c :: cs) = c :: cs :=
  List.dropWhile_cons_of_neg (by simpa [isBlank] using hc)

theorem continuesNumber_of_isBlank {c : Char} (hc : isBlank c = true) : continuesNumber c = false := by
  simp only [isBlank, Bool.or_eq_true, beq_iff_eq] at hc
  rcases hc with ((rfl | rfl) | rfl) | rfl <;> decide

/-- A number ends where blanks lead to a place at which it would. -/
theorem Ends.of_skip {rest : List Char} (h : Ends (skip rest)) : Ends rest := by
  cases rest with
  | nil => exact ends_nil
  | cons c rest =>
    by_cases hc : isBlank c = true
    · exact ends_cons (continuesNumber_of_isBlank hc) rest
    · rw [skip_cons (by simpa using hc)] at h
      exact h

theorem ends_of_skip {c : Char} {rest more : List Char} (h : skip rest = c :: more)
    (hc : continuesNumber c = false) : Ends rest := by
  apply Ends.of_skip
  rw [h]
  exact ends_cons hc more

/-! ### Values -/

/-- A character that is neither passed over nor taken for the end of an array or for a mark of
the encoding. -/
def opens (c : Char) : Bool := !isBlank c && c != ']' && c != '\uFEFF'

theorem isBlank_of_opens {c : Char} (hc : opens c = true) : isBlank c = false := by
  simp only [opens, Bool.and_eq_true, Bool.not_eq_true'] at hc
  exact hc.1.1

/-- The characters are read as the value, whatever is behind them that goes on with no number. -/
structure Spells (depth : Nat) (cs : List Char) (v : Json) : Prop where
  begins : ∃ c more, cs = c :: more ∧ opens c = true
  reads : ∀ lone fuel rest, 2 * cs.length ≤ fuel → Ends rest → value lone fuel depth (cs ++ rest) = .ok (v, rest)

theorem exists_succ_of_lt {m n : Nat} (h : m < n) : ∃ k, n = k + 1 := ⟨n - 1, by omega⟩

theorem spells_string {form : Char → List Char} (hform : Undoes form) (depth : Nat) (s : String) :
    Spells depth ('"' :: (s.toList.flatMap form ++ ['"'])) (.string s) := by
  refine ⟨⟨'"', _, rfl, by decide⟩, fun lone fuel rest hfuel _ => ?_⟩
  rw [List.length_cons] at hfuel
  obtain ⟨fuel, rfl⟩ := exists_succ_of_lt (m := 0) (n := fuel) (by omega)
  have hbody : stringBody lone (s.toList.flatMap form ++ '"' :: rest) = .ok (s, rest) := stringBody_quote hform
  rw [List.cons_append, List.append_assoc, value]
  simp only [List.singleton_append, hbody]

/-- A word or a number that begins like none of the other values. -/
theorem spells_scalar {depth : Nat} {cs : List Char} {v : Json} {c : Char} {more : List Char} (hcs : cs = c :: more)
    (hopens : opens c = true) (hquote : c ≠ '"') (hbrace : c ≠ '{') (hbracket : c ≠ '[')
    (h : ∀ rest, Ends rest → scalar (cs ++ rest) = .ok (v, rest)) : Spells depth cs v := by
  refine ⟨⟨c, more, hcs, hopens⟩, fun lone fuel rest hfuel hrest => ?_⟩
  rw [hcs, List.length_cons] at hfuel
  obtain ⟨fuel, rfl⟩ := exists_succ_of_lt (m := 0) (n := fuel) (by omega)
  rw [← h rest hrest, hcs, List.cons_append, value]
  · exact fun _ heq => hquote (List.cons.inj heq).1
  · exact fun _ heq _ => hbrace (List.cons.inj heq).1
  · exact fun _ _ heq _ => hbrace (List.cons.inj heq).1
  · exact fun _ heq _ => hbracket (List.cons.inj heq).1
  · exact fun _ _ heq _ => hbracket (List.cons.inj heq).1

theorem spells_null (depth : Nat) : Spells depth "null".toList .null :=
  spells_scalar rfl (by decide) (by decide) (by decide) (by decide) fun _ _ => rfl

theorem spells_bool (depth : Nat) (b : Bool) : Spells depth (boolText b).toList (.bool b) := by
  cases b with
  | false => exact spells_scalar rfl (by decide) (by decide) (by decide) (by decide) fun _ _ => rfl
  | true => exact spells_scalar rfl (by decide) (by decide) (by decide) (by decide) fun _ _ => rfl

theorem spells_int (depth : Nat) {n : Int} (hn : Binary64.digitCount n.natAbs ≤ Text.maxDigits) :
    Spells depth (toString n).toList (.int n) := by
  obtain ⟨c, more, hcs, hc⟩ := toString_begins n
  have hne : ∀ x : Char, x.isDigit = false → x ≠ '-' → c ≠ x := by
    intro x hx hsign h
    rw [h] at hc
    rcases hc with hc | hc
    · exact hsign hc
    · rw [hc] at hx
      cases hx
  refine spells_scalar hcs ?_ (hne _ (by decide) (by decide)) (hne _ (by decide) (by decide))
    (hne _ (by decide) (by decide)) fun rest hrest => scalar_toString hn hrest
  simp [opens, isBlank, hne]

/-! ### Arrays -/

section
variable {lone : Option Char} {depth fuel : Nat} {texts : List (List Char)} {vs : List Json} {gap close : List Char}

theorem elements_begin (gap : List Char) (h : List.Forall₂ (Spells depth) texts vs) (hne : texts ≠ []) :
    ∃ c more, (',' :: gap).intercalate texts = c :: more ∧ opens c = true := by
  cases h with
  | nil => exact absurd rfl hne
  | @cons text v texts vs hv hvs =>
    obtain ⟨c, more, rfl, hc⟩ := hv.begins
    cases texts with
    | nil => exact ⟨c, more, List.intercalate_singleton, hc⟩
    | cons text' texts =>
      rw [List.intercalate_cons_cons]
      exact ⟨c, _, rfl, hc⟩

/-- Values with commas between them, to the closing bracket. -/
theorem elements_row {seen : List Json} {rest : List Char} (h : List.Forall₂ (Spells depth) texts vs)
    (hne : texts ≠ []) (hgap : gap.all isBlank = true) (hclose : close.all isBlank = true)
    (hfuel : 2 * ((',' :: gap).intercalate texts).length < fuel) :
    elements lone fuel depth seen ((',' :: gap).intercalate texts ++ (close ++ ']' :: rest)) =
      .ok (.array (seen.reverse ++ vs), rest) := by
  induction h generalizing fuel seen with
  | nil => exact absurd rfl hne
  | @cons text v texts vs hv hvs ih =>
    obtain ⟨fuel, rfl⟩ := exists_succ_of_lt hfuel
    cases texts with
    | nil =>
      cases hvs
      have hskip : skip (close ++ ']' :: rest) = ']' :: rest := by
        rw [skip_append hclose, skip_cons (by decide)]
      have hends : Ends (close ++ ']' :: rest) := ends_of_skip hskip (by decide)
      rw [List.intercalate_singleton] at hfuel ⊢
      rw [elements, hv.reads _ fuel _ (by omega) hends]
      simp only [hskip, List.reverse_cons]
    | cons text' texts =>
      obtain ⟨c, more, hrow, hc⟩ := elements_begin gap hvs (by simp)
      rw [List.intercalate_cons_cons] at hfuel ⊢
      simp only [List.length_append, List.length_cons] at hfuel
      have hrest := @ih fuel (v :: seen) (by simp) (by omega)
      rw [hrow] at hrest ⊢
      have hskip : skip (gap ++ (c :: more ++ (close ++ ']' :: rest))) = c :: more ++ (close ++ ']' :: rest) := by
        rw [skip_append hgap, List.cons_append, skip_cons (isBlank_of_opens hc)]
      rw [elements, List.append_assoc, List.append_assoc, List.cons_append,
        hv.reads _ fuel _ (by omega) (ends_cons (by decide) _)]
      simp only [skip_cons (c := ',') (by decide), hskip, hrest, List.reverse_cons, List.append_assoc,
        List.singleton_append]

theorem spells_array (h : List.Forall₂ (Spells depth) texts vs) (hne : texts ≠ [])
    (hgap : gap.all isBlank = true) (hclose : close.all isBlank = true) :
    Spells (depth + 1) ('[' :: (gap ++ ((',' :: gap).intercalate texts ++ (close ++ [']'])))) (.array vs) := by
  refine ⟨⟨'[', _, rfl, by decide⟩, fun lone fuel rest hfuel _ => ?_⟩
  simp only [List.length_cons, List.length_append] at hfuel
  obtain ⟨fuel, rfl⟩ := exists_succ_of_lt (m := 0) (n := fuel) (by omega)
  obtain ⟨c, more, hrow, hc⟩ := elements_begin gap h hne
  have hrest : elements lone fuel depth [] (c :: (more ++ (close ++ ']' :: rest))) = .ok (.array vs, rest) := by
    rw [← List.cons_append, ← hrow]
    exact elements_row h hne hgap hclose (by omega)
  have hskip : skip (gap ++ (c :: (more ++ (close ++ ']' :: rest)))) = c :: (more ++ (close ++ ']' :: rest)) := by
    rw [skip_append hgap, skip_cons (isBlank_of_opens hc)]
  simp only [hrow, List.cons_append, List.append_assoc, List.nil_append, value, hskip]
  split
  · next heq =>
    rw [(List.cons.inj heq).1] at hc
    exact absurd hc (by decide)
  · exact hrest

theorem spells_array_nil : Spells (depth + 1) ['[', ']'] (.array []) := by
  refine ⟨⟨'[', _, rfl, by decide⟩, fun lone fuel rest hfuel _ => ?_⟩
  obtain ⟨fuel, rfl⟩ := exists_succ_of_lt (m := 0) (n := fuel) (Nat.lt_of_lt_of_le (by decide) hfuel)
  simp [value, skip_cons (c := ']') (by decide)]

end

/-! ### Objects -/

/-- The characters are read as a field: its name, a colon and what spells its value. -/
inductive SpellsField (depth : Nat) : List Char → String × Json → Prop where
  | mk {form : Char → List Char} {key : String} {v : Json} {gap cs : List Char} : Undoes form →
      gap.all isBlank = true → Spells depth cs v →
      SpellsField depth ('"' :: (key.toList.flatMap form ++ '"' :: ':' :: (gap ++ cs))) (key, v)

section
variable {lone : Option Char} {depth fuel : Nat} {texts : List (List Char)} {fs : Fields} {gap close : List Char}

/-- Reading a field takes its name and then its value. -/
theorem SpellsField.parts (lone : Option Char) {text : List Char} {key : String} {v : Json}
    (h : SpellsField depth text (key, v)) (hfuel : 2 * text.length ≤ fuel) {rest : List Char} (hrest : Ends rest) :
    ∃ body after, text ++ rest = '"' :: body ∧ stringBody lone body = .ok (key, ':' :: after) ∧
      value lone fuel depth (skip after) = .ok (v, rest) := by
  obtain @⟨form, key, v, gap, cs, hform, hgap, hv⟩ := h
  simp only [List.length_cons, List.length_append] at hfuel
  obtain ⟨c, more, rfl, hc⟩ := hv.begins
  refine ⟨key.toList.flatMap form ++ '"' :: ':' :: (gap ++ (c :: more ++ rest)), gap ++ (c :: more ++ rest), ?_,
    stringBody_quote hform, ?_⟩
  · simp only [List.cons_append, List.append_assoc]
  · rw [skip_append hgap, List.cons_append, skip_cons (isBlank_of_opens hc), ← List.cons_append]
    exact hv.reads _ fuel rest (by omega) hrest

section
variable {text rest more : List Char} {seen : Fields} {key : String} {v : Json}

theorem members_last (h : SpellsField depth text (key, v)) (hfuel : 2 * text.length ≤ fuel)
    (hskip : skip rest = '}' :: more) :
    members lone (fuel + 1) depth seen (text ++ rest) = .ok (.object (seen.insert key v), more) := by
  have hrest : Ends rest := ends_of_skip hskip (by decide)
  obtain ⟨body, after, htext, hname, hvalue⟩ := h.parts lone hfuel hrest
  rw [htext]
  simp only [members, hname, skip_cons (c := ':') (by decide), hvalue, hskip]

theorem members_more (h : SpellsField depth text (key, v)) (hfuel : 2 * text.length ≤ fuel)
    (hskip : skip rest = ',' :: more) :
    members lone (fuel + 1) depth seen (text ++ rest) = members lone fuel depth (seen.insert key v) (skip more) := by
  have hrest : Ends rest := ends_of_skip hskip (by decide)
  obtain ⟨body, after, htext, hname, hvalue⟩ := h.parts lone hfuel hrest
  rw [htext]
  simp only [members, hname, skip_cons (c := ':') (by decide), hvalue, hskip]

end

theorem members_begin (gap : List Char) (h : List.Forall₂ (SpellsField depth) texts fs) (hne : texts ≠ []) :
    ∃ more, (',' :: gap).intercalate texts = '"' :: more := by
  cases h with
  | nil => exact absurd rfl hne
  | @cons text field texts fs hfield hfs =>
    cases hfield
    cases texts with
    | nil => exact ⟨_, List.intercalate_singleton⟩
    | cons text' texts =>
      rw [List.intercalate_cons_cons]
      exact ⟨_, rfl⟩

/-- Fields with commas between them, to the closing brace. -/
theorem members_row {seen : Fields} {rest : List Char} (h : List.Forall₂ (SpellsField depth) texts fs)
    (hne : texts ≠ []) (hgap : gap.all isBlank = true) (hclose : close.all isBlank = true)
    (hkeys : (seen ++ fs).keys.Nodup) (hfuel : 2 * ((',' :: gap).intercalate texts).length < fuel) :
    members lone fuel depth seen ((',' :: gap).intercalate texts ++ (close ++ '}' :: rest)) =
      .ok (.object (seen ++ fs), rest) := by
  induction h generalizing fuel seen with
  | nil => exact absurd rfl hne
  | @cons text field texts fs hfield hfs ih =>
    obtain ⟨key, v⟩ := field
    have hnew : seen.insert key v = seen ++ [(key, v)] := by
      refine Fields.insert_of_not_mem ?_ v
      simp only [Fields.keys, List.map_append, List.map_cons, List.nodup_append] at hkeys
      exact fun hmem => hkeys.2.2 key hmem key List.mem_cons_self rfl
    obtain ⟨fuel, rfl⟩ := exists_succ_of_lt hfuel
    cases texts with
    | nil =>
      cases hfs
      have hskip : skip (close ++ '}' :: rest) = '}' :: rest := by
        rw [skip_append hclose, skip_cons (by decide)]
      rw [List.intercalate_singleton] at hfuel ⊢
      rw [members_last hfield (by omega) hskip, hnew]
    | cons text' texts =>
      rw [List.intercalate_cons_cons] at hfuel ⊢
      simp only [List.length_append, List.length_cons] at hfuel
      have hrest := @ih fuel (seen ++ [(key, v)]) (by simp) (by simpa using hkeys) (by omega)
      obtain ⟨more, hrow⟩ := members_begin gap hfs (by simp)
      rw [hrow] at hrest ⊢
      have hskip : skip (gap ++ ('"' :: more ++ (close ++ '}' :: rest))) =
          '"' :: more ++ (close ++ '}' :: rest) := by
        rw [skip_append hgap, List.cons_append, skip_cons (by decide)]
      have hcomma : skip (',' :: gap ++ ('"' :: more ++ (close ++ '}' :: rest))) =
          ',' :: (gap ++ ('"' :: more ++ (close ++ '}' :: rest))) := skip_cons (by decide) _
      rw [List.append_assoc, List.append_assoc, members_more hfield (by omega) hcomma, hskip, hnew, hrest,
        List.append_assoc, List.singleton_append]

theorem spells_object (h : List.Forall₂ (SpellsField depth) texts fs) (hne : texts ≠ [])
    (hgap : gap.all isBlank = true) (hclose : close.all isBlank = true) (hkeys : fs.keys.Nodup) :
    Spells (depth + 1) ('{' :: (gap ++ ((',' :: gap).intercalate texts ++ (close ++ ['}'])))) (.object fs) := by
  refine ⟨⟨'{', _, rfl, by decide⟩, fun lone fuel rest hfuel _ => ?_⟩
  simp only [List.length_cons, List.length_append] at hfuel
  obtain ⟨fuel, rfl⟩ := exists_succ_of_lt (m := 0) (n := fuel) (by omega)
  obtain ⟨more, hrow⟩ := members_begin gap h hne
  have hrest : members lone fuel depth [] ('"' :: (more ++ (close ++ '}' :: rest))) = .ok (.object fs, rest) := by
    rw [← List.cons_append, ← hrow]
    exact members_row h hne hgap hclose hkeys (by omega)
  have hskip : skip (gap ++ ('"' :: (more ++ (close ++ '}' :: rest)))) =
      '"' :: (more ++ (close ++ '}' :: rest)) := by
    rw [skip_append hgap, skip_cons (by decide)]
  simp only [hrow, List.cons_append, List.append_assoc, List.nil_append, value, hskip]
  exact hrest

theorem spells_object_nil : Spells (depth + 1) ['{', '}'] (.object []) := by
  refine ⟨⟨'{', _, rfl, by decide⟩, fun lone fuel rest hfuel _ => ?_⟩
  obtain ⟨fuel, rfl⟩ := exists_succ_of_lt (m := 0) (n := fuel) (Nat.lt_of_lt_of_le (by decide) hfuel)
  simp [value, skip_cons (c := '}') (by decide)]

end

/-! ### Writing -/

/-- A value without floating-point numbers, nested at most so deep; no whole number is too long
and no name stands twice in an object. -/
inductive Nested : Nat → Json → Prop where
  | null {depth : Nat} : Nested depth .null
  | bool {depth : Nat} (b : Bool) : Nested depth (.bool b)
  | int {depth : Nat} {n : Int} : Binary64.digitCount n.natAbs ≤ Text.maxDigits → Nested depth (.int n)
  | string {depth : Nat} (s : String) : Nested depth (.string s)
  | array {depth : Nat} {vs : List Json} : (∀ v ∈ vs, Nested depth v) → Nested (depth + 1) (.array vs)
  | object {depth : Nat} {fs : Fields} : fs.keys.Nodup → (∀ field ∈ fs, Nested depth field.2) →
      Nested (depth + 1) (.object fs)

theorem toList_quote (form : Char → List Char) (s : String) :
    (quote form s).toList = '"' :: (s.toList.flatMap form ++ ['"']) := by
  rw [quote, String.toList_ofList, List.cons_append]

theorem compactItems_eq_map (vs : List Json) : compactItems vs = vs.map compact := by
  induction vs with
  | nil => rfl
  | cons v vs ih => rw [compactItems, ih, List.map_cons]

theorem compactFields_eq_map (fs : Fields) :
    compactFields fs = fs.map fun field => quote plainForm field.1 ++ ":" ++ compact field.2 := by
  induction fs with
  | nil => rfl
  | cons field fs ih => rw [compactFields, ih, List.map_cons]

theorem prettyItems_eq_map (level : Nat) (vs : List Json) : prettyItems level vs = vs.map (prettyAt level) := by
  induction vs with
  | nil => rfl
  | cons v vs ih => rw [prettyItems, ih, List.map_cons]

theorem prettyFields_eq_map (level : Nat) (fs : Fields) :
    prettyFields level fs = fs.map fun field => quote asciiForm field.1 ++ ": " ++ prettyAt level field.2 := by
  induction fs with
  | nil => rfl
  | cons field fs ih => rw [prettyFields, ih, List.map_cons]

theorem pushn_blank (n : Nat) : ("".pushn ' ' n).toList.all isBlank = true := by
  rw [String.pushn_eq_repeat_push]
  induction n with
  | zero => rfl
  | succ n ih =>
    rw [Nat.repeat, String.toList_push, List.all_append, ih]
    rfl

theorem newline_blank (level : Nat) : (newline level).toList.all isBlank = true := by
  rw [newline, String.toList_append, List.all_append, pushn_blank]
  rfl

section
variable {depth : Nat} {w : Json → String}

/-- An array whose values are written so that they are read back. -/
theorem spells_items {vs : List Json} (gap close : String) (h : ∀ v ∈ vs, Spells depth (w v).toList v)
    (hne : vs ≠ []) (hgap : gap.toList.all isBlank = true) (hclose : close.toList.all isBlank = true) :
    Spells (depth + 1) ("[" ++ gap ++ ("," ++ gap).intercalate (vs.map w) ++ close ++ "]").toList (.array vs) := by
  have hvs : List.Forall₂ (Spells depth) ((vs.map w).map String.toList) vs := by
    rw [List.map_map, List.forall₂_map_left_iff, List.forall₂_same]
    exact h
  simpa using spells_array hvs (by simpa using hne) hgap hclose

/-- An object whose values are written so that they are read back. -/
theorem spells_fields {form : Char → List Char} {fs : Fields} (colon gap close : String) (hform : Undoes form)
    (h : ∀ field ∈ fs, Spells depth (w field.2).toList field.2) (hne : fs ≠ [])
    (hcolon : colon.toList.all isBlank = true) (hgap : gap.toList.all isBlank = true)
    (hclose : close.toList.all isBlank = true) (hkeys : fs.keys.Nodup) :
    Spells (depth + 1) ("\x7b" ++ gap ++ ("," ++ gap).intercalate
      (fs.map fun field => quote form field.1 ++ (":" ++ colon) ++ w field.2) ++ close ++ "\x7d").toList
      (.object fs) := by
  have hfs : List.Forall₂ (SpellsField depth)
      ((fs.map fun field => quote form field.1 ++ (":" ++ colon) ++ w field.2).map String.toList) fs := by
    rw [List.map_map, List.forall₂_map_left_iff, List.forall₂_same]
    intro field hmem
    have hfield := @SpellsField.mk depth form field.1 _ _ _ hform hcolon (h field hmem)
    simpa [toList_quote] using hfield
  simpa using spells_object hfs (by simpa using hne) hgap hclose hkeys

end

/-- A value on one line is read back. -/
theorem Nested.compact {depth : Nat} {v : Json} (h : v.Nested depth) : Spells depth v.compact.toList v := by
  induction h with
  | null => exact spells_null _
  | bool b =>
    rw [Json.compact]
    exact spells_bool _ b
  | int hn =>
    rw [Json.compact]
    exact spells_int _ hn
  | string s =>
    rw [Json.compact, toList_quote]
    exact spells_string plainForm_undoes _ s
  | @array depth vs _ ih =>
    rw [Json.compact, compactItems_eq_map]
    cases vs with
    | nil => exact spells_array_nil
    | cons v vs => simpa using spells_items "" "" ih (by simp) rfl rfl
  | @object depth fs hkeys _ ih =>
    rw [Json.compact, compactFields_eq_map]
    cases fs with
    | nil => exact spells_object_nil
    | cons field fs =>
      simpa using spells_fields "" "" "" plainForm_undoes ih (by simp) rfl rfl rfl hkeys

/-- A value over several lines is read back. -/
theorem Nested.prettyAt {depth : Nat} {v : Json} (h : v.Nested depth) (level : Nat) :
    Spells depth (v.prettyAt level).toList v := by
  induction h generalizing level with
  | null => exact spells_null _
  | bool b =>
    rw [Json.prettyAt]
    exact spells_bool _ b
  | int hn =>
    rw [Json.prettyAt]
    exact spells_int _ hn
  | string s =>
    rw [Json.prettyAt, toList_quote]
    exact spells_string asciiForm_undoes _ s
  | @array depth vs _ ih =>
    cases vs with
    | nil => 
      rw [Json.prettyAt]
      exact spells_array_nil
    | cons v vs =>
      rw [Json.prettyAt, prettyItems_eq_map]
      exact spells_items _ _ (fun v hv => ih v hv _) (by simp) (newline_blank _) (newline_blank _)
  | @object depth fs hkeys _ ih =>
    cases fs with
    | nil =>
      rw [Json.prettyAt]
      exact spells_object_nil
    | cons field fs =>
      rw [Json.prettyAt, prettyFields_eq_map]
      exact spells_fields " " _ _ asciiForm_undoes (fun field hfield => ih field hfield _) (by simp) rfl
        (newline_blank _) (newline_blank _) hkeys

/-! ### Whole texts -/

/-- A text that spells a value, perhaps with blanks behind it, is read as the value. -/
theorem Spells.read {depth : Nat} {text : String} {v : Json} {cs : List Char} (h : Spells depth cs v)
    (ws : List Char) (hws : ws.all isBlank = true) (htext : text.toList = cs ++ ws) :
    Json.read text depth = .ok v := by
  obtain ⟨c, more, rfl, hc⟩ := h.begins
  have hmark : c ≠ '\uFEFF' := by
    rintro rfl
    exact absurd hc (by decide)
  have hskip : skip (c :: more ++ ws) = c :: more ++ ws := by
    rw [List.cons_append, skip_cons (isBlank_of_opens hc)]
  have hend : skip ws = [] := by
    simpa [skip] using skip_append hws []
  have hvalue := h.reads none (2 * (c :: more ++ ws).length + 2) ws (by rw [List.length_append]; omega)
    (.of_skip (by rw [hend]; exact ends_nil))
  have halone : valueAlone none depth (c :: more ++ ws) = .ok v := by
    unfold valueAlone
    split
    · next heq => exact absurd (List.cons.inj heq).1 hmark
    · simp only [hskip, hvalue, hend]
  rw [Json.read, wholeValue, htext, halone]
  rfl

theorem Nested.read_compact {depth : Nat} {v : Json} (h : v.Nested depth) : Json.read v.compact depth = .ok v :=
  h.compact.read [] rfl (by rw [List.append_nil])

theorem Nested.read_pretty {depth : Nat} {v : Json} (h : v.Nested depth) :
    Json.read (v.pretty ++ "\n") depth = .ok v :=
  (h.prettyAt 0).read ['\n'] rfl (by rw [Json.pretty, String.toList_append]; rfl)

end Json

/-! ### Documents -/

theorem Term.toJson_nested (t : Term) (depth : Nat) : t.toJson.Nested (depth + 1) := by
  cases t with
  | literal text =>
    refine .object (by simp [Fields.keys]) ?_
    simp only [List.forall_mem_cons]
    exact ⟨.string _, .string _, nofun⟩
  | ref name =>
    refine .object (by simp [Fields.keys]) ?_
    simp only [List.forall_mem_cons]
    exact ⟨.string _, .string _, nofun⟩

theorem Rule.toJson_nested (r : Rule) (depth : Nat) : r.toJson.Nested (depth + 4) := by
  refine .object (by simp [Fields.keys]) ?_
  simp only [List.forall_mem_cons]
  refine ⟨.string _, .array ?_, nofun⟩
  simp only [List.forall_mem_map]
  intro terms _
  refine .array ?_
  simp only [List.forall_mem_map]
  exact fun t _ => t.toJson_nested depth

/-- How many containers stand in each other in what is written of a document. -/
def Document.jsonDepth : Nat := 6

theorem Document.toJson_nested (d : Document) {depth : Nat} (h : jsonDepth ≤ depth) : d.toJson.Nested depth := by
  obtain ⟨more, rfl⟩ : ∃ more, depth = more + 6 := ⟨depth - 6, (Nat.sub_add_cancel h).symm⟩
  refine .object (by simp [Fields.keys]) ?_
  simp only [List.forall_mem_cons]
  refine ⟨.array ?_, nofun⟩
  simp only [List.forall_mem_map]
  exact fun r _ => r.toJson_nested more

/-- A document on one line is read back. -/
theorem Document.read_compact (d : Document) {depth : Nat} (h : jsonDepth ≤ depth) :
    Json.read d.toJson.compact depth = .ok d.toJson :=
  (d.toJson_nested h).read_compact

/-- A document over several lines is read back. -/
theorem Document.read_pretty (d : Document) {depth : Nat} (h : jsonDepth ≤ depth) :
    Json.read (d.toJson.pretty ++ "\n") depth = .ok d.toJson :=
  (d.toJson_nested h).read_pretty

end BnfReader
