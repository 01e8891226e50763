import BnfReader.Proofs.Agreement
import BnfReader.Proofs.Checks
import BnfReader.Proofs.Readings

/-! Names and line ends take the longest run.

Where a name or a line end stops is settled by the characters at its offset alone: both take the longest
run of characters of one kind (`runAt`), a name if the run begins with a letter, a line end if there is
a break anywhere in it.

What a name is, is said in two places, where one is checked and where a text is read. The two agree
(`Layers.ruleName_reads_names`): a text passes the check just if it is read as a name to its end, and
just if it is read as a reference between angle brackets. -/
namespace BnfReader
open Scan

/-- The longest run of characters of one kind from an offset of a text on. -/
def runAt (kind : Char → Bool) (text : Array Char) (o : Nat) : List Char :=
  (text.toList.drop o).takeWhile kind

section
variable {kind : Char → Bool} {text : Array Char} {o : Nat} {us rest : List Char}

/-- What goes before a character of another kind, or before the end, is the longest run. -/
theorem At.runAt_eq (h : At text o (us ++ rest)) (hus : us.all kind = true)
    (hrest : rest.head?.any kind = false) : runAt kind text o = us := by
  have hstop : rest.takeWhile kind = [] := by
    cases rest with
    | nil => rfl
    | cons c rest => exact List.takeWhile_cons_of_neg (Bool.eq_false_iff.1 hrest)
  rw [runAt, h.left, List.takeWhile_append_of_pos (List.all_eq_true.1 hus), hstop, List.append_nil]

/-- A run as long as a text that goes on from the offset is that text. -/
theorem At.eq_of_length (h : At text o (us ++ rest)) (hlen : (runAt kind text o).length = us.length) :
    runAt kind text o = us := by
  have hprefix : runAt kind text o <+: us ++ rest := by
    rw [← h.left]
    exact List.takeWhile_prefix kind
  exact (List.prefix_of_prefix_length_le hprefix (List.prefix_append us rest) (Nat.le_of_eq hlen)).eq_of_length hlen

end

/-! ### Reading to the end -/

namespace Parser
variable {ε α : Type} {p : Parser ε α} {a : α}

theorem parse_to_end_iff {s : String} :
    (p <* (.eof : Parser ε Unit)).parse s = .ok a ↔ p.Reads s.toList.toArray 0 a s.toList.length := by
  simp only [parse_ok_iff_reads, reads_left, reads_eof, List.size_toArray]
  constructor
  · intro ⟨_, _, mid, hp, hmid, _⟩
    rwa [hmid] at hp
  · intro hp
    exact ⟨_, (), _, hp, rfl, rfl⟩

theorem Yields.reads {P : α → Prop} (hp : p.Yields P) {text : Array Char} {o stop : Nat}
    (h : p.Reads text o a stop) : P a := by
  obtain ⟨h', hrun⟩ := (p.reads_iff_run none).1 h
  obtain ⟨b, _, _, hdone, hb⟩ | ⟨_, _, hfailed⟩ := hp text o none
  · cases hrun.symm.trans hdone
    exact hb
  · cases hrun.symm.trans hfailed

end Parser

namespace Layers
variable {text : Array Char} {o stop : Nat}

/-! ### Names -/

/-- A name is read where a letter stands, and is the longest run of name characters there. -/
theorem ruleName_reads_iff {v : String} : ruleName.Reads text o v stop ↔
    (∃ c, text[o]? = some c ∧ IsLetter c) ∧ v.toList = runAt nameChars.contains text o ∧
      stop = o + v.toList.length := by
  by_cases hletter : ∃ c, text[o]? = some c ∧ IsLetter c
  · obtain ⟨c, hc, hletter⟩ := hletter
    have hat : At text o (text.toList.drop o) := ⟨Nat.le_of_lt (Array.getElem?_eq_some_iff.1 hc).1, rfl⟩
    rcases exists_name (text.toList.drop o) with ⟨n, rest, hcs, hrest⟩ | hcs
    · rw [hcs] at hat
      have hname : ruleName.Reads text o n.text (o + n.text.toList.length) := ⟨_, ruleName_at n hat hrest⟩
      obtain ⟨x, xs, hn, hx, hxs⟩ := (isName_iff n.text).1 n.valid
      have hall : n.text.toList.all nameChars.contains = true := by
        rw [hn, List.all_eq_true, List.forall_mem_cons]
        exact ⟨(nameChars_iff x).2 (.inl hx), fun y hy => (nameChars_iff y).2 (hxs y hy)⟩
      rw [hat.runAt_eq hall hrest]
      constructor
      · intro h
        obtain ⟨rfl, rfl⟩ := h.unique hname
        exact ⟨⟨c, hc, hletter⟩, rfl, rfl⟩
      · intro ⟨_, hv, hstop⟩
        rw [hstop, String.toList_inj.1 hv]
        exact hname
    · rw [← hat.getElem?, hc, Option.any_some, (letters_iff c).2 hletter] at hcs
      cases hcs
  · refine ⟨fun h => absurd h (Step.Acts.not_reads (ruleName_failed fun c hc => ?_) v stop),
      fun h => absurd h.1 hletter⟩
    rw [Bool.eq_false_iff]
    exact fun hcontains => hletter ⟨c, hc, (letters_iff c).1 hcontains⟩

/-- A reference is a name between angle brackets. -/
theorem ruleRef_reads {t : Term} (h : ruleRef.Reads text o t stop) : ∃ (n : Name) (mid : Nat), t = .ref n ∧
    ruleName.Reads text (o + 1) n.text mid ∧ stop = mid + 1 := by
  obtain ⟨name, hbracket, hmade⟩ := Parser.reads_convert.1 (Parser.reads_label.1 h)
  obtain ⟨_, mid, hopened, hclose⟩ := Parser.reads_left.1 hbracket
  obtain ⟨_, _, hopen, hname⟩ := Parser.reads_right.1 hopened
  obtain ⟨-, -, rfl⟩ := Parser.satisfy_reads hopen
  obtain ⟨-, -, hstop⟩ := Parser.satisfy_reads hclose
  have hvalid : isName name = true := (isName_iff name).2 (ruleName_yields.reads hname)
  rw [refTo_text ⟨name, hvalid⟩] at hmade
  cases hmade
  exact ⟨⟨name, hvalid⟩, mid, rfl, hname, hstop⟩

theorem ruleName_parse_iff {s v : String} :
    (ruleName <* (.eof : Layer Unit)).parse s = .ok v ↔ isName s = true ∧ v = s := by
  have hat : At s.toList.toArray 0 (s.toList ++ []) := by
    rw [List.append_nil]
    exact .zero _
  rw [Parser.parse_to_end_iff]
  constructor
  · intro h
    obtain ⟨-, hv, hstop⟩ := ruleName_reads_iff.1 h
    have hname := (isName_iff v).2 (ruleName_yields.reads h)
    have hlen : (runAt nameChars.contains s.toList.toArray 0).length = s.toList.length := by
      rw [← hv]
      omega
    obtain rfl : v = s := String.toList_inj.1 (hv.trans (hat.eq_of_length hlen))
    exact ⟨hname, rfl⟩
  · intro ⟨hname, hv⟩
    rw [hv]
    have hread : ruleName.Reads s.toList.toArray 0 s (0 + s.toList.length) := ⟨_, ruleName_at ⟨s, hname⟩ hat rfl⟩
    rwa [Nat.zero_add] at hread

theorem term_parse_iff {s : String} {t : Term} :
    (term <* (.eof : Layer Unit)).parse ("<" ++ s ++ ">") = .ok t ↔ ∃ n : Name, n.text = s ∧ t = .ref n := by
  have hchars : ("<" ++ s ++ ">").toList = '<' :: (s.toList ++ ['>']) := by
    simp only [String.toList_append]
    rfl
  have hat : At ('<' :: (s.toList ++ ['>'])).toArray 0 ('<' :: (s.toList ++ ['>'])) := .zero _
  have hliteral := literal_absent hat fun q => by cases q <;> simp [Quote.char]
  have hlen : ('<' :: (s.toList ++ ['>'])).length = 0 + 1 + s.toList.length + 1 := by
    simp only [List.length_cons, List.length_append, List.length_nil]
    omega
  rw [Parser.parse_to_end_iff, term, Parser.reads_or_later (hchars ▸ hliteral), hchars, hlen]
  constructor
  · intro h
    obtain ⟨n, mid, rfl, hname, hstop⟩ := ruleRef_reads h
    obtain ⟨-, hn, hmid⟩ := ruleName_reads_iff.1 hname
    refine ⟨n, String.toList_inj.1 (hn.trans (hat.tail.eq_of_length ?_)), rfl⟩
    rw [← hn]
    omega
  · rintro ⟨n, rfl, rfl⟩
    have hopened := Parser.right_done (Parser.char_at '<' hat) (ruleName_at n hat.tail rfl)
    have hclosed := Parser.left_done hopened (Parser.char_at '>' hat.tail.append)
    exact ⟨_, (Parser.convert_done hclosed (refTo_text n)).label_other "rule reference" (by simp)⟩

theorem ofString_ok_iff (use : NameUse) (s : String) : (∃ n, Name.ofString use s = .ok n) ↔ isName s = true := by
  rw [Name.ofString]
  split
  next h => simp [h]
  next h => simp [h]

/-- **What is checked as a name is what is read as one.** A text passes the check just if it is read as a
name to its end, and just if it is read as a reference to its end when it stands between angle
brackets; otherwise both readings end with a report. Anywhere in a text a name is read just where an
ASCII letter stands, as the longest run of name characters there. -/
theorem ruleName_reads_names :
    (∀ (use : NameUse) (s : String),
      ((∃ n, Name.ofString use s = .ok n) ↔ (ruleName <* (.eof : Layer Unit)).parse s = .ok s) ∧
      ((∃ n, Name.ofString use s = .ok n) ↔
        ∃ n : Name, n.text = s ∧ (term <* (.eof : Layer Unit)).parse ("<" ++ s ++ ">") = .ok (.ref n)) ∧
      ((∃ n, Name.ofString use s = .ok n) ∨
        (∃ f, (ruleName <* (.eof : Layer Unit)).parse s = .error (.failure f)) ∧
          ∃ f, (term <* (.eof : Layer Unit)).parse ("<" ++ s ++ ">") = .error (.failure f))) ∧
    ∀ (text : Array Char) (o : Nat) (h : Hint),
      (∀ v stop, (∃ h', ruleName.run text o h = (.done v stop, h')) ↔ (∃ c, text[o]? = some c ∧ IsLetter c) ∧
        v.toList = runAt nameChars.contains text o ∧ stop = o + v.toList.length) ∧
      ((∃ c, text[o]? = some c ∧ IsLetter c) ∨ ∃ m h', ruleName.run text o h = (.failed m, h')) := by
  refine ⟨fun use s => ?_, fun text o h => ⟨fun v stop => ?_, ?_⟩⟩
  · simp only [ofString_ok_iff, ruleName_parse_iff, term_parse_iff]
    refine ⟨by simp, ⟨fun hname => ⟨⟨s, hname⟩, rfl, _, rfl, rfl⟩, ?_⟩, ?_⟩
    · rintro ⟨n, rfl, -⟩
      exact n.valid
    · by_cases hname : isName s = true
      · exact .inl hname
      refine .inr ⟨?_, ?_⟩
      · obtain ⟨v, hv, -⟩ | hfailure := (ruleName_yields.left Parser.yields_eof).parse s
        · exact absurd (ruleName_parse_iff.1 hv).1 hname
        · exact hfailure
      · obtain ⟨t, ht, -⟩ | hfailure := (term_yields.left Parser.yields_eof).parse ("<" ++ s ++ ">")
        · obtain ⟨n, rfl, -⟩ := term_parse_iff.1 ht
          exact absurd n.valid hname
        · exact hfailure
  · rw [← Parser.reads_iff_run, ruleName_reads_iff]
  · obtain ⟨v, stop, h', hrun, -⟩ | hfailed := ruleName_yields text o h
    · exact .inl (ruleName_reads_iff.1 ((ruleName.reads_iff_run h).2 ⟨h', hrun⟩)).1
    · exact .inr hfailed

/-- Breaks, letters and digits beyond ASCII are no part of a name. -/
example : isName "a\n" = false ∧ isName "aé" = false ∧ isName "a٣" = false := by decide +kernel

/-! ### Line ends -/

theorem any_isBreak (w : List Char) : w.any isBreak = true ↔ '\r' ∈ w ∨ '\n' ∈ w := by
  simp only [List.any_eq_true, isBreak, Bool.or_eq_true, beq_iff_eq]
  constructor
  · rintro ⟨c, hc, rfl | rfl⟩
    · exact .inl hc
    · exact .inr hc
  · rintro (h | h)
    · exact ⟨_, h, .inl rfl⟩
    · exact ⟨_, h, .inr rfl⟩

/-- A line end with blank space in front of it: the first break divides the blanks before it, which are looked
at once, from the rest of the space. -/
theorem lineEnd_of_space {w rest : List Char} (h : At text o (w ++ rest)) (hw : w.all isWhite = true)
    (hrest : rest.head?.any isWhite = false) :
    w.any isBreak = true ∧ (∃ bs, (lineEnd.run text).Acts o (.done bs (o + w.length))
      (some ⟨o + w.length, .ofList ["line break", "whitespace"]⟩)) ∨
    w.any isBreak = false ∧ (lineEnd.run text).Acts o (.failed ⟨o + w.length, .only "line break"⟩) none := by
  obtain ⟨us, behind, rfl, hus, hbehind⟩ := exists_run isBlank w
  have hblanks : us.any isBreak = false := by
    rw [List.any_eq_false]
    intro c hc hbreak
    have hblank := List.all_eq_true.1 hus c hc
    simp only [isBreak, isBlank, Bool.or_eq_true, beq_iff_eq] at hbreak hblank
    rcases hbreak with rfl | rfl <;> simp at hblank
  cases behind with
  | nil =>
    rw [List.append_nil] at h ⊢
    exact .inr ⟨hblanks, lineEnd_failed us h hus hrest⟩
  | cons c w =>
    rw [List.all_append, List.all_cons, Bool.and_eq_true, Bool.and_eq_true] at hw
    have hblank : isBlank c = false := hbehind
    have hbreak : isBreak c = true := by simpa [isWhite_eq, hblank] using hw.2.1
    rw [List.append_assoc, List.cons_append] at h
    obtain ⟨bs, hend⟩ := lineEnd_done us h hus hbreak hw.2.2 hrest
    have hlen : o + us.length + 1 + w.length = o + (us ++ c :: w).length := by
      rw [List.length_append, List.length_cons]
      omega
    rw [hlen] at hend
    exact .inl ⟨by rw [List.any_append, List.any_cons, hbreak, Bool.true_or, Bool.or_true], bs, hend⟩

/-- **A line end takes all blank space or nothing.** It is read just if there is a break in the blank space at
its offset. Then it takes the whole of that space and notes that a break or more space could have
followed; otherwise a break is missed behind the space, and the hint stays. -/
theorem lineEnd_takes_space (text : Array Char) (o : Nat) (ho : o ≤ text.size) (h : Hint) :
    let space := runAt isWhite text o
    ((∃ bs stop h', lineEnd.run text o h = (.done bs stop, h')) ↔ '\r' ∈ space ∨ '\n' ∈ space) ∧
    ('\r' ∈ space ∨ '\n' ∈ space → ∃ bs, lineEnd.run text o h =
      (.done bs (o + space.length), h.note ⟨o + space.length, .ofList ["line break", "whitespace"]⟩)) ∧
    (¬ ('\r' ∈ space ∨ '\n' ∈ space) →
      lineEnd.run text o h = (.failed ⟨o + space.length, .only "line break"⟩, h)) := by
  intro space
  obtain ⟨us, rest, hcs, hus, hrest⟩ := exists_run isWhite (text.toList.drop o)
  have hat : At text o (us ++ rest) := ⟨ho, hcs⟩
  obtain rfl : space = us := hat.runAt_eq hus hrest
  rw [← any_isBreak]
  rcases lineEnd_of_space hat hus hrest with ⟨hbreak, bs, hdone⟩ | ⟨hbreak, hfailed⟩
  · have hrun := hdone h
    rw [← Hint.note_eq_add] at hrun
    exact ⟨⟨fun _ => hbreak, fun _ => ⟨bs, _, _, hrun⟩⟩, fun _ => ⟨bs, hrun⟩, fun hno => absurd hbreak hno⟩
  · have hrun := hfailed h
    rw [Hint.add_none] at hrun
    rw [hbreak, hrun]
    refine ⟨⟨?_, nofun⟩, nofun, fun _ => rfl⟩
    rintro ⟨bs, stop, h', ⟨⟩⟩

/-- Blanks, breaks and blanks again: all taken, with no hint before; and blanks alone, where a break is missed
behind them. -/
theorem lineEnd_takes_space_of_blanks :
    1 ≤ "x \t\r\n \ny ".toList.toArray.size ∧
      (∃ bs, lineEnd.run "x \t\r\n \ny ".toList.toArray 1 none =
        (.done bs 7, some ⟨7, .ofList ["line break", "whitespace"]⟩)) ∧
      8 ≤ "x \t\r\n \ny ".toList.toArray.size ∧
      lineEnd.run "x \t\r\n \ny ".toList.toArray 8 none = (.failed ⟨9, .only "line break"⟩, none) := by
  have hdone := lineEnd_takes_space "x \t\r\n \ny ".toList.toArray 1 (by decide +kernel) none
  have hfailed := lineEnd_takes_space "x \t\r\n \ny ".toList.toArray 8 (by decide +kernel) none
  exact ⟨by decide +kernel, hdone.2.1 (by decide +kernel), by decide +kernel, hfailed.2.2 (by decide +kernel)⟩

end Layers
end BnfReader
