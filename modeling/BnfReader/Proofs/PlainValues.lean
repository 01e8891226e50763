import BnfReader.Proofs.JsonText
import BnfReader.Proofs.LineBreaks
import BnfReader.Proofs.Utf8
import BnfReader.Settings.Store

/-! Plain values come back from files.

A value is plain when there is no floating-point number in it and no name stands twice in one of
its objects (`Json.Plain`). One that is written to its end has no number that reading does not take
(`Plain.nested`), so it is read back if it is no deeper than what is read. Between the two stands
the file: its line ends are unified, which changes nothing, since no carriage return is written as
such (`return_not_mem_prettyAt`). -/
namespace BnfReader.Json

/-- A value without floating-point numbers, no name twice in an object. -/
inductive Plain : Json → Prop where
  | null : Plain .null
  | bool (b : Bool) : Plain (.bool b)
  | int (n : Int) : Plain (.int n)
  | string (s : String) : Plain (.string s)
  | array {vs : List Json} : (∀ v ∈ vs, Plain v) → Plain (.array vs)
  | object {fs : Fields} : fs.keys.Nodup → (∀ field ∈ fs, Plain field.2) → Plain (.object fs)

/-! ### Faults -/

theorem itemsFault?_eq_none {depth : Nat} {vs : List Json} :
    itemsFault? depth vs = none ↔ ∀ v ∈ vs, faultAt? depth v = none := by
  induction vs with
  | nil => exact ⟨fun _ => nofun, fun _ => rfl⟩
  | cons v vs ih => rw [itemsFault?, Option.or_eq_none_iff, ih, List.forall_mem_cons]

theorem fieldsFault?_eq_none {depth : Nat} {fs : Fields} :
    fieldsFault? depth fs = none ↔ ∀ field ∈ fs, faultAt? depth field.2 = none := by
  induction fs with
  | nil => exact ⟨fun _ => nofun, fun _ => rfl⟩
  | cons field fs ih => rw [fieldsFault?, Option.or_eq_none_iff, ih, List.forall_mem_cons]

/-! ### Depths -/

theorem itemsDepth_le {n : Nat} {vs : List Json} : itemsDepth vs ≤ n ↔ ∀ v ∈ vs, v.depth ≤ n := by
  induction vs with
  | nil => exact ⟨fun _ => nofun, fun _ => Nat.zero_le n⟩
  | cons v vs ih => rw [itemsDepth, Nat.max_le, ih, List.forall_mem_cons]

theorem fieldsDepth_le {n : Nat} {fs : Fields} : fieldsDepth fs ≤ n ↔ ∀ field ∈ fs, field.2.depth ≤ n := by
  induction fs with
  | nil => exact ⟨fun _ => nofun, fun _ => Nat.zero_le n⟩
  | cons field fs ih => rw [fieldsDepth, Nat.max_le, ih, List.forall_mem_cons]

/-- A plain value that nothing breaks off is read back where it is not too deep. -/
theorem Plain.nested {v : Json} (h : v.Plain) {depth writing : Nat} (hdepth : v.depth ≤ depth)
    (hfault : v.faultAt? writing = none) : v.Nested depth := by
  induction h generalizing depth writing with
  | null => exact .null
  | bool b => exact .bool b
  | int n =>
    rw [faultAt?, ite_eq_left_iff] at hfault
    refine .int (Decidable.byContradiction fun hn => ?_)
    cases hfault hn
  | string s => exact .string s
  | array _ ih =>
    rw [Json.depth] at hdepth
    obtain ⟨depth, rfl⟩ := exists_succ_of_lt hdepth
    cases writing with
    | zero => cases hfault
    | succ writing =>
      rw [faultAt?, itemsFault?_eq_none] at hfault
      rw [Nat.add_le_add_iff_right, itemsDepth_le] at hdepth
      exact .array fun v hv => ih v hv (hdepth v hv) (hfault v hv)
  | object hkeys _ ih =>
    rw [Json.depth] at hdepth
    obtain ⟨depth, rfl⟩ := exists_succ_of_lt hdepth
    cases writing with
    | zero => cases hfault
    | succ writing =>
      rw [faultAt?, fieldsFault?_eq_none] at hfault
      rw [Nat.add_le_add_iff_right, fieldsDepth_le] at hdepth
      exact .object hkeys fun field hfield => ih field hfield (hdepth field hfield) (hfault field hfield)

/-! ### Carriage returns -/

/-- Texts without a character make one without it. -/
theorem not_mem_intercalate {c : Char} {sep : String} {texts : List String} (hsep : c ∉ sep.toList)
    (h : ∀ text ∈ texts, c ∉ text.toList) : c ∉ (sep.intercalate texts).toList := by
  rw [String.toList_intercalate]
  induction texts with
  | nil => exact List.not_mem_nil
  | cons text texts ih =>
    rw [List.forall_mem_cons] at h
    have hrest := ih h.2
    cases texts with
    | nil => simpa using h.1
    | cons text' texts =>
      rw [List.map_cons, List.map_cons, List.intercalate_cons_cons]
      simp only [List.mem_append, not_or]
      exact ⟨⟨h.1, hsep⟩, hrest⟩

theorem return_not_mem_unitEscape (n : Nat) : '\r' ∉ unitEscape n := by
  have hdigit : ∀ m, '\r' ≠ Text.Hex.digit (m % 16) := by
    intro m
    have hall : ∀ k < 16, '\r' ≠ Text.Hex.digit k := by decide
    exact hall _ (Nat.mod_lt m (by decide))
  simp [unitEscape, Text.Hex.padded, hdigit]

theorem return_not_mem_asciiForm (c : Char) : '\r' ∉ asciiForm c := by
  simp only [asciiForm]
  split
  next cs hshort =>
    obtain ⟨e, rfl, -, hx⟩ := shortForm?_eq_some hshort
    have he : '\r' ≠ e := by
      intro he
      rw [← he] at hx
      cases hx
    simpa using he
  next hshort =>
    split
    next hplain =>
      rw [List.mem_singleton]
      intro hc
      rw [← hc] at hplain
      exact absurd hplain (by decide)
    next =>
      split
      next => exact return_not_mem_unitEscape _
      next =>
        rw [List.mem_append, not_or]
        exact ⟨return_not_mem_unitEscape _, return_not_mem_unitEscape _⟩

theorem return_not_mem_quote (s : String) : '\r' ∉ (quote asciiForm s).toList := by
  simp [toList_quote, return_not_mem_asciiForm]

theorem return_not_mem_newline (level : Nat) : '\r' ∉ (newline level).toList := by
  have hspaces : '\r' ∉ ("".pushn ' ' (2 * level)).toList := by
    rw [String.pushn_eq_repeat_push]
    induction 2 * level with
    | zero => exact List.not_mem_nil
    | succ n ih => simpa [Nat.repeat] using ih
  simpa [newline] using hspaces

theorem return_not_mem_toString (n : Int) : '\r' ∉ (toString n).toList := by
  have hdigits : ∀ m, '\r' ∉ Nat.toDigits 10 m := by
    intro m hmem
    have hdigit := Nat.isDigit_of_mem_toDigits (by decide) (by decide) hmem
    cases hdigit
  cases n with
  | ofNat m =>
    rw [toList_toString_ofNat]
    exact hdigits m
  | negSucc m =>
    rw [toList_toString_negSucc]
    exact List.not_mem_cons_of_ne_of_not_mem (by decide) (hdigits (m + 1))

/-- Rows between brackets, each on a line of its own. -/
theorem return_not_mem_rows {opening closing : String} {rows : List String} (level : Nat)
    (hopening : '\r' ∉ opening.toList) (hclosing : '\r' ∉ closing.toList)
    (hrows : ∀ row ∈ rows, '\r' ∉ row.toList) :
    '\r' ∉ (opening ++ newline (level + 1) ++ ("," ++ newline (level + 1)).intercalate rows ++
      newline level ++ closing).toList := by
  have hsep : '\r' ∉ ("," ++ newline (level + 1)).toList := by
    simpa using return_not_mem_newline (level + 1)
  have hrow := not_mem_intercalate hsep hrows
  simp only [String.toList_append, List.mem_append, not_or] at hrow ⊢
  exact ⟨⟨⟨⟨hopening, return_not_mem_newline _⟩, hrow⟩, return_not_mem_newline _⟩, hclosing⟩

/-- A plain value is written without carriage returns. -/
theorem Plain.return_not_mem_prettyAt {v : Json} (h : v.Plain) (level : Nat) :
    '\r' ∉ (v.prettyAt level).toList := by
  induction h generalizing level with
  | null =>
    rw [prettyAt]
    decide
  | bool b =>
    rw [prettyAt]
    cases b with
    | false => decide
    | true => decide
  | int n =>
    rw [prettyAt]
    exact return_not_mem_toString n
  | string s =>
    rw [prettyAt]
    exact return_not_mem_quote s
  | @array vs _ ih =>
    cases vs with
    | nil =>
      rw [prettyAt]
      decide
    | cons v vs =>
      rw [prettyAt, prettyItems_eq_map]
      apply return_not_mem_rows level (by decide) (by decide)
      rw [List.forall_mem_map]
      exact fun v hv => ih v hv _
  | @object fs _ _ ih =>
    cases fs with
    | nil =>
      rw [prettyAt]
      decide
    | cons field fs =>
      rw [prettyAt, prettyFields_eq_map]
      apply return_not_mem_rows level (by decide) (by decide)
      rw [List.forall_mem_map]
      intro field hfield
      simp only [String.toList_append, List.mem_append, not_or]
      exact ⟨⟨return_not_mem_quote _, by decide⟩, ih field hfield _⟩

/-! ### Files -/

section
variable {v : Json} {depth writing : Nat}

/-- What is in the file of a plain value that nothing breaks off. -/
theorem Plain.fileText_written (h : v.Plain) (hfault : v.faultAt? writing = none) :
    fileText (Text.encode (v.written writing)) = .ok v.pretty := by
  have hunified : Text.unifyNewlines v.pretty.toList = v.pretty.toList :=
    Text.unifyNewlines_eq_self (h.return_not_mem_prettyAt 0)
  rw [fileText, written, hfault, Text.decode_ok_iff.2 rfl]
  simp [Except.map, Text.withUnixNewlines, hunified]

/-- Plain values that are written to their end are read back where they are not too deep. -/
theorem Plain.read_pretty (h : v.Plain) (hdepth : v.depth ≤ depth) (hfault : v.faultAt? writing = none) :
    Json.read v.pretty depth = .ok v :=
  ((h.nested hdepth hfault).prettyAt 0).read [] rfl (by rw [List.append_nil, pretty])

end

end BnfReader.Json
