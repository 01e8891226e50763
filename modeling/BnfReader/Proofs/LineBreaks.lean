import BnfReader.Parser.Failure
import BnfReader.Text.Newlines

/-! Lines and columns do not depend on how lines end.

A line ends at a carriage return, at a line feed, or once at the two together. Written as a
line feed each, the line ends of a text can be counted one by one: the number of a line is the
number of line feeds before it, and a column is a distance from the last of them. So neither
changes when the line ends are unified (`lineAfter_unifyNewlines`, `length_lastLine_unifyNewlines`),
and an offset goes back by the pairs before it (`length_unifyNewlines`). A text may be cut and
its parts unified alone, as long as no pair is cut through (`SplitsPair`). -/
namespace BnfReader

namespace Text
variable {c : Char} {cs u v w rest : List Char}

/-! ### Pairs -/

/-- A carriage return ends `u` and its line feed begins `v`. -/
def SplitsPair (u v : List Char) : Prop := u.getLast? = some '\r' ∧ v.head? = some '\n'

theorem SplitsPair.append_left (h : SplitsPair u v) (w : List Char) : SplitsPair (w ++ u) v := by
  refine ⟨?_, h.2⟩
  rw [List.getLast?_append, h.1]
  rfl

/-- The first character of a text is no pair with the next, as the unifier sees it. -/
theorem not_splitsPair_singleton (h : ∀ tail, c = '\r' → rest = '\n' :: tail → False) :
    ¬ SplitsPair [c] rest := by
  intro ⟨hc, hrest⟩
  obtain ⟨tail, rfl⟩ := List.head?_eq_some_iff.1 hrest
  exact h tail (Option.some.inj hc) rfl

theorem crlfCount_cons (h : ¬ SplitsPair [c] rest) : crlfCount (c :: rest) = crlfCount rest := by
  cases rest with
  | nil => rfl
  | cons x rest =>
    have hne : ¬ (c = '\r' ∧ x = '\n') := by
      rintro ⟨rfl, rfl⟩
      exact h ⟨rfl, rfl⟩
    rw [crlfCount, if_neg hne, Nat.zero_add]

theorem crlfCount_pair (rest : List Char) : crlfCount ('\r' :: '\n' :: rest) = crlfCount rest + 1 := by
  have hfeed : ¬ SplitsPair ['\n'] rest := by simp [SplitsPair]
  rw [crlfCount, crlfCount_cons hfeed, if_pos ⟨rfl, rfl⟩, Nat.add_comm]

/-! ### Unifying -/

/-- The character that stands for a line end of one character. -/
def unifyNewline (c : Char) : Char := if c = '\r' then '\n' else c

theorem unifyNewline_ne_return (c : Char) : unifyNewline c ≠ '\r' := by
  unfold unifyNewline
  split
  · decide
  · assumption

theorem unifyNewlines_cons (h : ¬ SplitsPair [c] rest) :
    unifyNewlines (c :: rest) = unifyNewline c :: unifyNewlines rest := by
  rw [unifyNewlines.eq_3]
  · rfl
  · rintro tail rfl rfl
    exact h ⟨rfl, rfl⟩

theorem unifyNewlines_singleton (c : Char) : unifyNewlines [c] = [unifyNewline c] :=
  unifyNewlines_cons (by simp [SplitsPair])

theorem head?_unifyNewlines (cs : List Char) : (unifyNewlines cs).head? = cs.head?.map unifyNewline := by
  fun_cases unifyNewlines cs with
  | case1 => rfl
  | case2 rest => rfl
  | case3 c rest h => rfl

theorem getLast?_unifyNewlines (cs : List Char) :
    (unifyNewlines cs).getLast? = cs.getLast?.map unifyNewline := by
  fun_induction unifyNewlines cs with
  | case1 => rfl
  | case2 rest ih =>
    cases rest with
    | nil => rfl
    | cons x rest => simp [List.getLast?_cons, ih]
  | case3 c rest h ih =>
    rw [List.getLast?_cons, List.getLast?_cons, ih]
    cases rest.getLast? with
    | none => rfl
    | some x => rfl

/-- Unifying shortens the text by one character for each pair. -/
theorem length_unifyNewlines (cs : List Char) : (unifyNewlines cs).length + crlfCount cs = cs.length := by
  fun_induction unifyNewlines cs with
  | case1 => rfl
  | case2 rest ih =>
    rw [crlfCount_pair, List.length_cons, List.length_cons, List.length_cons]
    omega
  | case3 c rest h ih =>
    rw [crlfCount_cons (not_splitsPair_singleton h), List.length_cons, List.length_cons]
    omega

/-- Each line end becomes one line feed. -/
theorem count_unifyNewlines (cs : List Char) :
    (unifyNewlines cs).count '\n' + crlfCount cs = cs.count '\n' + cs.count '\r' := by
  fun_induction unifyNewlines cs with
  | case1 => rfl
  | case2 rest ih =>
    simp [crlfCount_pair]
    omega
  | case3 c rest h ih =>
    rw [crlfCount_cons (not_splitsPair_singleton h)]
    by_cases hc : c = '\r'
    · subst hc
      simp
      omega
    · by_cases hn : c = '\n' <;> simp [hc, hn] <;> omega

theorem unifyNewlines_append (h : ¬ SplitsPair u v) :
    unifyNewlines (u ++ v) = unifyNewlines u ++ unifyNewlines v := by
  fun_induction unifyNewlines u with
  | case1 => rfl
  | case2 rest ih =>
    have hrest : ¬ SplitsPair rest v := fun hs => h (hs.append_left ['\r', '\n'])
    rw [List.cons_append, List.cons_append, List.cons_append, ← ih hrest]
    rfl
  | case3 c rest hc ih =>
    have hpair : ¬ SplitsPair [c] (rest ++ v) := by
      cases rest with
      | nil => exact h
      | cons x rest =>
        have hx : ¬ SplitsPair [c] (x :: rest) := not_splitsPair_singleton hc
        exact hx
    have hrest : ¬ SplitsPair rest v := fun hs => h (hs.append_left [c])
    rw [List.cons_append, List.cons_append, unifyNewlines_cons hpair, ih hrest]
    rfl

theorem return_not_mem_unifyNewlines (cs : List Char) : '\r' ∉ unifyNewlines cs := by
  fun_induction unifyNewlines cs with
  | case1 => exact List.not_mem_nil
  | case2 rest ih => simpa using ih
  | case3 c rest h ih => exact List.not_mem_cons_of_ne_of_not_mem (unifyNewline_ne_return c).symm ih

theorem unifyNewlines_eq_self (h : '\r' ∉ cs) : unifyNewlines cs = cs := by
  induction cs with
  | nil => rfl
  | cons c cs ih =>
    rw [List.mem_cons, not_or] at h
    have hpair : ¬ SplitsPair [c] cs := fun hs => h.1 (Option.some.inj hs.1).symm
    rw [unifyNewlines_cons hpair, ih h.2, unifyNewline, if_neg (Ne.symm h.1)]

theorem unifyNewlines_unifyNewlines (cs : List Char) :
    unifyNewlines (unifyNewlines cs) = unifyNewlines cs :=
  unifyNewlines_eq_self (return_not_mem_unifyNewlines cs)

end Text

open Text
variable {u v : List Char}

/-! ### Lines -/

theorem lineAfter_eq_count (u : List Char) : lineAfter u = (unifyNewlines u).count '\n' + 1 := by
  have := count_unifyNewlines u
  unfold lineAfter
  omega

theorem lineAfter_unifyNewlines (u : List Char) : lineAfter (unifyNewlines u) = lineAfter u := by
  rw [lineAfter_eq_count, lineAfter_eq_count, unifyNewlines_unifyNewlines]

/-- How many lines end in a text: at a carriage return with its line feed, and at either alone. -/
def lineBreaks : List Char → Nat
  | [] => 0
  | '\r' :: '\n' :: rest => lineBreaks rest + 1
  | c :: rest => if c = '\r' ∨ c = '\n' then lineBreaks rest + 1 else lineBreaks rest

theorem lineBreaks_eq_count (u : List Char) : lineBreaks u = (unifyNewlines u).count '\n' := by
  fun_induction unifyNewlines u with
  | case1 => rfl
  | case2 rest ih =>
    rw [lineBreaks, ih, List.count_cons_self]
  | case3 c rest h ih =>
    rw [lineBreaks.eq_3 c rest h, ih]
    by_cases hc : c = '\r'
    · simp [hc]
    · by_cases hn : c = '\n' <;> simp [hc, hn]

/-- Behind a line feed the lines go on from those before it. -/
theorem lineAfter_append_feed (u v : List Char) :
    lineAfter (u ++ ['\n'] ++ v) = lineAfter v + lineBreaks (u ++ ['\n']) := by
  have hcut : ¬ SplitsPair (u ++ ['\n']) v := by simp [SplitsPair]
  rw [lineAfter_eq_count, lineAfter_eq_count, lineBreaks_eq_count, unifyNewlines_append hcut, List.count_append]
  omega

/-! ### Columns -/

/-- The column after `before`: one more than the characters since the last line end. -/
def columnAfter (before : List Char) : Nat :=
  (before.reverse.takeWhile fun c => c != '\n' && c != '\r').length + 1

/-- A line begins behind `u`. -/
def OpensLine (u : List Char) : Prop := ∀ c, u.getLast? = some c → c = '\n' ∨ c = '\r'

theorem exists_last_line (u : List Char) :
    ∃ lines line, u = lines ++ line ∧ OpensLine lines ∧ ∀ c ∈ line, c ≠ '\n' ∧ c ≠ '\r' := by
  let inLine : Char → Bool := fun c => c != '\n' && c != '\r'
  refine ⟨(u.reverse.dropWhile inLine).reverse, (u.reverse.takeWhile inLine).reverse, ?_, ?_, ?_⟩
  · rw [← List.reverse_append, List.takeWhile_append_dropWhile, List.reverse_reverse]
  · intro c hc
    have hstop := List.head?_dropWhile_not inLine u.reverse
    rw [List.getLast?_reverse] at hc
    rw [hc] at hstop
    simpa [inLine, Decidable.or_iff_not_imp_left] using hstop
  · intro c hc
    have hall := List.all_eq_true.1 (List.all_takeWhile (p := inLine) (l := u.reverse)) c (List.mem_reverse.1 hc)
    simpa [inLine] using hall

theorem columnAfter_append {lines line : List Char} (hlines : OpensLine lines)
    (hline : ∀ c ∈ line, c ≠ '\n' ∧ c ≠ '\r') : columnAfter (lines ++ line) = line.length + 1 := by
  have hkeep : ∀ c ∈ line.reverse, (c != '\n' && c != '\r') = true := by simpa using hline
  rw [columnAfter, List.reverse_append, List.takeWhile_append_of_pos hkeep]
  rcases List.eq_nil_or_concat lines with rfl | ⟨pre, c, rfl⟩
  · simp
  · have hc := hlines c (by simp)
    rcases hc with rfl | rfl <;> simp

/-- Behind a line feed the columns begin again. -/
theorem columnAfter_append_feed (u v : List Char) : columnAfter (u ++ ['\n'] ++ v) = columnAfter v := by
  obtain ⟨lines, line, rfl, hlines, hline⟩ := exists_last_line v
  have hopens : OpensLine (u ++ ['\n'] ++ lines) := by
    intro c hc
    rw [List.getLast?_append] at hc
    cases hlast : lines.getLast? with
    | none =>
      rw [hlast, List.getLast?_append] at hc
      exact .inl (Option.some.inj hc).symm
    | some x =>
      rw [hlast] at hc
      exact hlines c (hlast.trans hc)
  rw [← List.append_assoc, columnAfter_append hopens hline, columnAfter_append hlines hline]

theorem columnAfter_unifyNewlines (u : List Char) : columnAfter (unifyNewlines u) = columnAfter u := by
  obtain ⟨lines, line, rfl, hlines, hline⟩ := exists_last_line u
  have hcut : ¬ SplitsPair lines line := fun hs => (hline _ (List.mem_of_head? hs.2)).1 rfl
  have hsame : unifyNewlines line = line := unifyNewlines_eq_self fun hr => (hline _ hr).2 rfl
  have hopens : OpensLine (unifyNewlines lines) := by
    intro c hc
    rw [getLast?_unifyNewlines] at hc
    obtain ⟨x, hx, rfl⟩ := Option.map_eq_some_iff.1 hc
    rcases hlines x hx with rfl | rfl
    · exact .inl rfl
    · exact .inl rfl
  rw [unifyNewlines_append hcut, hsame, columnAfter_append hopens hline, columnAfter_append hlines hline]

end BnfReader
