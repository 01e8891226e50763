import BnfReader.Proofs.NewlineStyle
import Mathlib.Data.List.Induction

/-! Reports name the place that a reader would.

A reader goes through the text character by character and counts lines and columns on the way
(`Cursor.advance`). What a report computes from counts of line ends and from the last of them is
the same for every place (`cursor_after`), also between a carriage return and its line feed. At
any other place the line and the column lead back to the offset: the lines of the text before
that line and the characters of the line before that column are all that stands before the place
(`offset_eq_lineOffset`). Reports on documents are only at such places. -/
namespace BnfReader
open Text

/-! ### Counting on the way -/

/-- Where a reader is: the line and the column, from 1, and whether a carriage return was read
last. -/
structure Cursor where
  line : Nat
  column : Nat
  afterReturn : Bool

namespace Cursor

/-- One character further. A line feed right behind a carriage return ends no other line. -/
def advance (p : Cursor) (c : Char) : Cursor :=
  if c = '\n' then
    if p.afterReturn then ⟨p.line, 1, false⟩ else ⟨p.line + 1, 1, false⟩
  else if c = '\r' then ⟨p.line + 1, 1, true⟩
  else ⟨p.line, p.column + 1, false⟩

/-- Where a reader is behind a text. -/
def after (before : List Char) : Cursor := before.foldl advance ⟨1, 1, false⟩

theorem after_snoc (u : List Char) (c : Char) : after (u ++ [c]) = (after u).advance c := by
  rw [after, List.foldl_append]
  rfl

end Cursor

section
variable {u : List Char} {c : Char}

theorem columnAfter_snoc_break (hc : c = '\n' ∨ c = '\r') : columnAfter (u ++ [c]) = 1 := by
  rw [columnAfter, List.reverse_append]
  rcases hc with rfl | rfl <;> rfl

theorem columnAfter_snoc (hfeed : c ≠ '\n') (hreturn : c ≠ '\r') :
    columnAfter (u ++ [c]) = columnAfter u + 1 := by
  have hin : (c != '\n' && c != '\r') = true := by simp [hfeed, hreturn]
  rw [columnAfter, columnAfter, List.reverse_append, List.reverse_singleton, List.singleton_append,
    List.takeWhile_cons, if_pos hin, List.length_cons]

theorem lineAfter_snoc (h : ¬ SplitsPair u [c]) :
    lineAfter (u ++ [c]) = lineAfter u + [unifyNewline c].count '\n' := by
  rw [lineAfter_eq_count, lineAfter_eq_count, unifyNewlines_append h, unifyNewlines_singleton, List.count_append]
  omega

/-- The line feed of a pair ends no other line than its carriage return. -/
theorem lineAfter_pair (h : SplitsPair u ['\n']) : lineAfter (u ++ ['\n']) = lineAfter u := by
  obtain ⟨v, rfl⟩ := List.getLast?_eq_some_iff.1 h.1
  have hpair : ¬ SplitsPair v ['\r', '\n'] := by simp [SplitsPair]
  have hreturn : ¬ SplitsPair v ['\r'] := by simp [SplitsPair]
  rw [lineAfter_eq_count, lineAfter_eq_count, List.append_assoc, List.singleton_append, unifyNewlines_append hpair,
    unifyNewlines_append hreturn]
  rfl

end

/-- Counting on the way comes to the line and the column of the whole. -/
theorem cursor_after (u : List Char) :
    Cursor.after u = ⟨lineAfter u, columnAfter u, u.getLast? = some '\r'⟩ := by
  induction u using List.reverseRecOn with
  | nil => rfl
  | append_singleton u c ih =>
    rw [Cursor.after_snoc, ih, Cursor.advance, List.getLast?_concat]
    by_cases hfeed : c = '\n'
    · subst hfeed
      by_cases hlast : u.getLast? = some '\r'
      · simp [hlast, lineAfter_pair ⟨hlast, rfl⟩, columnAfter_snoc_break]
      · have hcut : ¬ SplitsPair u ['\n'] := fun h => hlast h.1
        simp [hlast, lineAfter_snoc hcut, columnAfter_snoc_break, unifyNewline]
    · have hcut : ¬ SplitsPair u [c] := fun h => hfeed (Option.some.inj h.2)
      by_cases hreturn : c = '\r'
      · subst hreturn
        simp [lineAfter_snoc hcut, columnAfter_snoc_break, unifyNewline]
      · simp [hfeed, hreturn, lineAfter_snoc hcut, columnAfter_snoc hfeed hreturn, unifyNewline]

/-! ### The lines of a text -/

/-- The lines of a text, each with its line end; the last has none and may be empty. -/
def lines : List Char → List (List Char)
  | [] => [[]]
  | '\r' :: '\n' :: rest => ['\r', '\n'] :: lines rest
  | c :: rest =>
    if c = '\r' ∨ c = '\n' then [c] :: lines rest
    else
      match lines rest with
      | [] => [[c]]
      | line :: more => (c :: line) :: more

/-- The offset at which a line begins, the lines counted from 1. -/
def lineOffset (text : List Char) (line : Nat) : Nat := ((lines text).take (line - 1)).flatten.length

theorem lines_ne_nil (cs : List Char) : lines cs ≠ [] := by
  fun_cases lines cs with
  | case1 => simp
  | case2 rest => simp
  | case3 c rest h hbreak => simp
  | case4 c rest h hbreak hnil => simp
  | case5 c rest h hbreak line more hlines => simp

theorem OpensLine.tail {c : Char} {rest : List Char} (h : OpensLine (c :: rest)) : OpensLine rest := by
  intro x hx
  apply h
  rw [List.getLast?_cons, hx]
  rfl

/-- Whole lines in front of a text are its first lines. -/
theorem lines_append {w v : List Char} (hw : OpensLine w) (hcut : ¬ SplitsPair w v) :
    ∃ ls, lines (w ++ v) = ls ++ lines v ∧ ls.flatten = w ∧ ls.length = lineBreaks w := by
  fun_induction lineBreaks w with
  | case1 => exact ⟨[], rfl, rfl, rfl⟩
  | case2 rest ih =>
    obtain ⟨ls, hls, hflat, hlen⟩ := ih hw.tail.tail fun h => hcut (h.append_left ['\r', '\n'])
    refine ⟨['\r', '\n'] :: ls, ?_, ?_, ?_⟩
    · rw [List.cons_append, List.cons_append, lines, hls]
      rfl
    · rw [List.flatten_cons, hflat]
      rfl
    · rw [List.length_cons, hlen]
  | case3 c rest hpair hbreak ih =>
    obtain ⟨ls, hls, hflat, hlen⟩ := ih hw.tail fun h => hcut (h.append_left [c])
    have hnext : ∀ tail, c = '\r' → rest ++ v = '\n' :: tail → False := by
      intro tail hc hrest
      cases rest with
      | nil =>
        subst hc
        exact hcut ⟨rfl, congrArg List.head? hrest⟩
      | cons x rest =>
        obtain ⟨rfl, -⟩ := List.cons.inj hrest
        exact hpair rest hc rfl
    refine ⟨[c] :: ls, ?_, ?_, ?_⟩
    · rw [List.cons_append, lines.eq_3 c (rest ++ v) hnext, if_pos hbreak, hls]
      rfl
    · rw [List.flatten_cons, hflat]
      rfl
    · rw [List.length_cons, hlen]
  | case4 c rest hpair hbreak ih =>
    obtain ⟨ls, hls, hflat, hlen⟩ := ih hw.tail fun h => hcut (h.append_left [c])
    -- The text goes on in the line of `c`, since a line begins only behind a line end.
    cases ls with
    | nil =>
      obtain rfl : [] = rest := hflat
      exact absurd (hw c rfl).symm hbreak
    | cons line more =>
      refine ⟨(c :: line) :: more, ?_, ?_, hlen⟩
      · have hreturn : c ≠ '\r' := fun h => hbreak (.inl h)
        rw [List.cons_append, lines.eq_3 c (rest ++ v) fun _ h => absurd h hreturn, if_neg hbreak, hls]
        rfl
      · rw [List.flatten_cons, List.cons_append, ← List.flatten_cons, hflat]

/-- A place that cuts no pair is in its line, as many characters from its start as the column says. -/
theorem offset_eq_lineOffset {u v : List Char} (hcut : ¬ SplitsPair u v) :
    lineAfter u ≤ (lines (u ++ v)).length ∧
      u.length = lineOffset (u ++ v) (lineAfter u) + (columnAfter u - 1) := by
  obtain ⟨w, line, rfl, hw, hline⟩ := exists_last_line u
  have hcut' : ¬ SplitsPair w (line ++ v) := by
    cases line with
    | nil => rwa [List.append_nil] at hcut
    | cons c line => exact fun h => (hline c List.mem_cons_self).1 (Option.some.inj h.2)
  obtain ⟨ls, hls, hflat, hlen⟩ := lines_append hw hcut'
  have hnumber : lineAfter (w ++ line) = ls.length + 1 := by
    have hcutLine : ¬ SplitsPair w line := fun h => (hline _ (List.mem_of_head? h.2)).1 rfl
    have hnone : line.count '\n' = 0 := List.count_eq_zero.2 fun h => (hline _ h).1 rfl
    have hsame : unifyNewlines line = line := unifyNewlines_eq_self fun h => (hline _ h).2 rfl
    rw [lineAfter_eq_count, unifyNewlines_append hcutLine, hsame, List.count_append, hnone, hlen, lineBreaks_eq_count]
  have hsome := List.length_pos_iff.2 (lines_ne_nil (line ++ v))
  rw [lineOffset, columnAfter_append hw hline, hnumber, List.append_assoc, hls, Nat.add_sub_cancel, Nat.add_sub_cancel,
    List.take_left, hflat, List.length_append, List.length_append]
  exact ⟨by omega, rfl⟩

/-! ### Reports -/

open Scan in
/-- A report on a document is not within a pair. -/
theorem Scan.Stops.not_splitsPair_marker {v rest : List Char} {t : State} (h : Stops .start (v ++ t.marker) rest t) :
    ¬ SplitsPair v (t.marker ++ rest) := by
  have hend := h.not_splitsPair
  cases hmarker : t.marker with
  | nil =>
    rw [hmarker, List.append_nil] at hend
    exact hend
  | cons c marker =>
    -- A marker that was begun is reported with its first colon.
    have hcolon : c = ':' := List.eq_of_mem_replicate (hmarker ▸ List.mem_cons_self : c ∈ t.marker)
    intro hs
    rw [hcolon] at hs
    cases hs.2

theorem Failure.ofMismatch_split {text : List Char} {m : Mismatch} (hm : m.offset ≤ text.length) :
    Failure.ofMismatch text.toArray m = .behind (text.take m.offset) (text.drop m.offset) m.expected := by
  have hplace := Failure.ofMismatch_behind (text.take m.offset) (text.drop m.offset) m.expected
  rw [List.take_append_drop, List.length_take, Nat.min_eq_left hm] at hplace
  exact hplace

/-- **Line and column are right for every place.** The report of a mismatch anywhere in a text has
the line and the column of a reader who has gone through the text up to it. Unless the place is
between a carriage return and its line feed, it is so many characters behind the start of that
line of the text as the column says, so no two such places have the same line and column; and a
report on a document is always at such a place. -/
theorem Failure.ofMismatch_placed (text : String) :
    (∀ m : Mismatch, m.offset ≤ text.length →
      let f := Failure.ofMismatch text.toList.toArray m
      let reader := Cursor.after (text.toList.take m.offset)
      f.offset = m.offset ∧ f.line = reader.line ∧ f.column = reader.column ∧
        (¬ SplitsPair (text.toList.take m.offset) (text.toList.drop m.offset) →
          reader.line ≤ (lines text.toList).length ∧
          m.offset = lineOffset text.toList reader.line + (reader.column - 1))) ∧
    (∀ m m' : Mismatch, m.offset ≤ text.length → m'.offset ≤ text.length →
      ¬ SplitsPair (text.toList.take m.offset) (text.toList.drop m.offset) →
      ¬ SplitsPair (text.toList.take m'.offset) (text.toList.drop m'.offset) → m.offset ≠ m'.offset →
      let f := Failure.ofMismatch text.toList.toArray m
      let f' := Failure.ofMismatch text.toList.toArray m'
      (f.line, f.column) ≠ (f'.line, f'.column)) ∧
    ∀ (f : Failure) (p : Nat), Document.parse text = .error (.failure f) → f.offset = p →
      p ≤ text.length ∧ ¬ SplitsPair (text.toList.take p) (text.toList.drop p) := by
  have hback : ∀ o, ¬ SplitsPair (text.toList.take o) (text.toList.drop o) → o ≤ text.length →
      lineAfter (text.toList.take o) ≤ (lines text.toList).length ∧
      o = lineOffset text.toList (lineAfter (text.toList.take o)) + (columnAfter (text.toList.take o) - 1) := by
    intro o hcut ho
    have hplace := offset_eq_lineOffset hcut
    rwa [List.take_append_drop, List.length_take, String.length_toList, Nat.min_eq_left ho] at hplace
  refine ⟨fun m hm => ?_, fun m m' hm hm' hcut hcut' hne => ?_, fun f p hf hp => ?_⟩
  · intro f reader
    have hf : f = _ := Failure.ofMismatch_split (String.length_toList ▸ hm)
    have hreader : reader = _ := cursor_after (text.toList.take m.offset)
    rw [hf, hreader]
    refine ⟨?_, rfl, rfl, fun hcut => hback m.offset hcut hm⟩
    rw [Failure.behind, List.length_take, String.length_toList, Nat.min_eq_left hm]
  · intro f f' hsame
    rw [show f = _ from Failure.ofMismatch_split (String.length_toList ▸ hm),
      show f' = _ from Failure.ofMismatch_split (String.length_toList ▸ hm')] at hsame
    obtain ⟨hline, hcolumn⟩ := Prod.mk.inj hsame
    have hplace := (hback m.offset hcut hm).2
    have hplace' := (hback m'.offset hcut' hm').2
    rw [Int.ofNat.inj hline, Int.ofNat.inj hcolumn, ← hplace'] at hplace
    exact hne hplace
  · obtain ⟨v, rest, t, hsplit, hstops, rfl⟩ := (Document.parse_failure_iff text f).1 hf
    obtain rfl : v.length = p := Int.ofNat.inj hp
    rw [← String.length_toList, hsplit, List.take_left, List.drop_left, List.length_append]
    exact ⟨Nat.le_add_right .., hstops.not_splitsPair_marker⟩

/-- Places before, within and behind a pair, and a report before it. -/
theorem Failure.ofMismatch_placed_of_pair :
    let report := fun o => Failure.ofMismatch "<\r\nx".toList.toArray ⟨o, .none⟩
    ((report 2).line = 2 ∧ (report 2).column = 1) ∧ 4 = lineOffset "<\r\nx".toList 2 + (2 - 1) ∧
      ((report 1).line, (report 1).column) ≠ ((report 4).line, (report 4).column) ∧
      Document.parse "<\r\nx" = .error (.failure ⟨1, 1, 2, ["rule name"], some "\r"⟩) ∧
      ¬ SplitsPair ['<'] ['\r', '\n', 'x'] := by
  intro report
  obtain ⟨hplaced, hdistinct, hdocument⟩ := Failure.ofMismatch_placed "<\r\nx"
  have hstart : ¬ SplitsPair ("<\r\nx".toList.take 1) ("<\r\nx".toList.drop 1) := by simp [SplitsPair]
  have hend : ¬ SplitsPair ("<\r\nx".toList.take 4) ("<\r\nx".toList.drop 4) := by simp [SplitsPair]
  have hrejected : Document.parse "<\r\nx" = .error (.failure ⟨1, 1, 2, ["rule name"], some "\r"⟩) :=
    (Document.parse_failure_iff _ _).2 ⟨['<'], ['\r', '\n', 'x'], .opened (.head []), rfl,
      ⟨rfl, by simp only [List.head?_cons, Option.some.injEq, forall_eq']; rfl,
        fun h => absurd h (List.cons_ne_nil _ _)⟩, by decide⟩
  have hwithin := hplaced ⟨2, .none⟩ (by decide)
  have hbehind := hplaced ⟨4, .none⟩ (by decide)
  refine ⟨⟨hwithin.2.1, hwithin.2.2.1⟩, (hbehind.2.2.2 hend).2, ?_, hrejected, (hdocument _ 1 hrejected rfl).2⟩
  exact hdistinct ⟨1, .none⟩ ⟨4, .none⟩ (by decide) (by decide) hstart hend (by decide)

end BnfReader
