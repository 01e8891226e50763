import BnfReader.Command.Run

/-! An escaped text in a style is always printed.

Escaping writes every tag of a text behind an odd number of backslashes and leaves all else as it
is (`Escaped`). Nothing becomes a tag by that: a bracket that opens none still opens none, since
only backslashes come between the characters and what follows the text is a bracket
(`tag?_eq_none_of_escaped`). So of the tags around the text only the last may end a style, and the
one it ends has been begun. That is what the usual console owes those who complain
(`Console.usual_takesEscaped`). -/
namespace BnfReader
namespace Markup

/-! ### Tags -/

section
variable {cs rest word : List Char}

/-- A tag is its word in brackets, whatever is behind it. -/
theorem tag?_bracketed {c : Char} {more : List Char} (hc : opensTag c = true) (hmore : ∀ x ∈ more, inTag x = true)
    (z : List Char) : ∃ hz, tag? ('[' :: c :: (more ++ ']' :: z)) = some (c :: more, ⟨z, hz⟩) := by
  have htake : (more ++ ']' :: z).takeWhile inTag = more := by
    rw [List.takeWhile_append_of_pos hmore]
    simp [inTag]
  have hdrop : (more ++ ']' :: z).dropWhile inTag = ']' :: z := by
    rw [List.dropWhile_append_of_pos hmore]
    simp [inTag]
  refine ⟨by simp only [List.length_cons, List.length_append]; omega, ?_⟩
  simp only [tag?, if_pos hc, htake]
  split
  next rest h =>
    rw [hdrop] at h
    cases h
    rfl
  next h => exact absurd hdrop (h z)

/-- What a tag is found in. -/
theorem eq_of_tag? {r : { rest : List Char // rest.length < cs.length }} (h : tag? cs = some (word, r)) :
    ∃ c more, word = c :: more ∧ opensTag c = true ∧ (∀ x ∈ more, inTag x = true) ∧
      cs = '[' :: c :: (more ++ ']' :: r.val) := by
  unfold tag? at h
  split at h
  next c more =>
    split at h
    next hc =>
      split at h
      next rest hdrop =>
        cases h
        refine ⟨c, more.takeWhile inTag, rfl, hc, List.all_eq_true.1 List.all_takeWhile, ?_⟩
        rw [← hdrop, List.takeWhile_append_dropWhile]
      next => cases h
    next => cases h
  next => cases h

/-- A text that begins with no tag: an opening bracket is not followed by a word and a closing one. -/
theorem tag?_eq_none_iff :
    tag? cs = none ↔ ∀ c more, cs = '[' :: c :: more → opensTag c = true →
      (more.dropWhile inTag).head? ≠ some ']' := by
  unfold tag?
  constructor
  · intro h c more hcs hc hhead
    subst hcs
    simp only [if_pos hc] at h
    split at h
    next => cases h
    next hdrop =>
      obtain ⟨rest, hrest⟩ := List.head?_eq_some_iff.1 hhead
      exact hdrop rest hrest
  · intro h
    split
    next c more =>
      split
      next hc =>
        split
        next rest hdrop =>
          refine absurd ?_ (h c more rfl hc)
          rw [hdrop]
          rfl
        next => rfl
      next => rfl
    next => rfl

theorem tag?_backslash (cs : List Char) : tag? ('\\' :: cs) = none := rfl

end

/-! ### Escaping -/

/-- What becomes of a text behind some backslashes: those before a tag are doubled and one is
added, and all else stays. -/
inductive Escaped : Nat → List Char → List Char → Prop where
  | tag {n : Nat} {cs word : List Char} {r : { rest : List Char // rest.length < cs.length }} {ys : List Char} :
      tag? cs = some (word, r) → Escaped 0 r.val ys →
        Escaped n cs (List.replicate (2 * n + 1) '\\' ++ (bracketed word ++ ys))
  | done {n : Nat} : Escaped n [] (List.replicate n '\\')
  | backslash {n : Nat} {rest ys : List Char} : Escaped (n + 1) rest ys → Escaped n ('\\' :: rest) ys
  | char {n : Nat} {c : Char} {rest ys : List Char} : tag? (c :: rest) = none → c ≠ '\\' → Escaped 0 rest ys →
      Escaped n (c :: rest) (List.replicate n '\\' ++ c :: ys)

section
variable {n k : Nat} {cs ys more : List Char}

/-- Backslashes come first if there were any. -/
theorem Escaped.head? (h : Escaped n cs ys) (hn : 0 < n) : ys.head? = some '\\' := by
  induction h with
  | tag => rfl
  | @done n =>
    cases n with
    | zero => cases hn
    | succ n => rfl
  | backslash _ ih => exact ih (Nat.succ_pos _)
  | @char n =>
    cases n with
    | zero => cases hn
    | succ n => rfl

theorem inTag_replicate : ∀ x ∈ List.replicate n '\\', inTag x = true := by
  intro x hx
  rw [List.eq_of_mem_replicate hx]
  rfl

/-- Where no closing bracket comes before an opening one, none does in what is escaped. -/
theorem Escaped.head?_dropWhile (h : Escaped n cs ys) (hcs : (cs.dropWhile inTag).head? ≠ some ']') :
    ((ys ++ (List.replicate k '\\' ++ '[' :: more)).dropWhile inTag).head? ≠ some ']' := by
  induction h with
  | tag htag _ _ =>
    rw [List.append_assoc, List.dropWhile_append_of_pos inTag_replicate]
    simp [bracketed, inTag]
  | done =>
    rw [List.dropWhile_append_of_pos inTag_replicate, List.dropWhile_append_of_pos inTag_replicate]
    simp [inTag]
  | backslash _ ih =>
    apply ih
    simpa [inTag] using hcs
  | @char n c rest ys _ _ _ ih =>
    rw [List.append_assoc, List.dropWhile_append_of_pos inTag_replicate, List.cons_append]
    by_cases hc : inTag c = true
    · rw [List.dropWhile_cons_of_pos hc] at hcs ⊢
      exact ih hcs
    · rw [List.dropWhile_cons_of_neg hc] at hcs ⊢
      exact hcs

/-- A character that begins no tag begins none when what follows it is escaped. -/
theorem tag?_eq_none_of_escaped {c : Char} (hc : tag? (c :: cs) = none) (h : Escaped 0 cs ys) :
    tag? (c :: (ys ++ (List.replicate k '\\' ++ '[' :: more))) = none := by
  rw [tag?_eq_none_iff] at hc ⊢
  intro d behind hcons hd
  obtain ⟨rfl, heq⟩ := List.cons.inj hcons
  -- The character behind the bracket begins a word, so it is no backslash and no bracket.
  have hhead : (ys ++ (List.replicate k '\\' ++ '[' :: more)).head? = some d := by rw [heq]; rfl
  have hslash : d ≠ '\\' := by
    intro hd'
    rw [hd'] at hd
    exact absurd hd (by decide)
  cases h with
  | tag htag hys => exact absurd (Option.some.inj hhead).symm hslash
  | done =>
    cases k with
    | zero =>
      cases hhead
      exact absurd hd (by decide)
    | succ k => exact absurd (Option.some.inj hhead).symm hslash
  | backslash hys =>
    rw [List.head?_append, hys.head? Nat.one_pos] at hhead
    exact absurd (Option.some.inj hhead).symm hslash
  | char htag hne hys =>
    obtain ⟨rfl, rfl⟩ := List.cons.inj heq
    exact hys.head?_dropWhile (hc _ _ rfl hd)

end

/-! ### Printing -/

section
variable {n k size : Nat} {cs ys : List Char} {begun : Tag}

theorem piecesFrom_backslashes (size : Nat) (seen : List Char) (m n : Nat) (cs : List Char) :
    piecesFrom size seen m (List.replicate n '\\' ++ cs) = piecesFrom size seen (m + n) cs := by
  induction n generalizing m with
  | zero => simp
  | succ n ih =>
    rw [List.replicate_succ, List.cons_append, piecesFrom]
    simp only [tag?_backslash]
    rw [ih, Nat.add_assoc, Nat.add_comm 1]

theorem piecesFrom_tag {seen z : List Char} {c : Char} {more : List Char} (hc : opensTag c = true)
    (hmore : ∀ x ∈ more, inTag x = true) :
    ∃ position, piecesFrom size seen n ('[' :: c :: (more ++ ']' :: z)) =
      .text seen.reverse :: .tag n position (c :: more) :: piecesFrom size [] 0 z := by
  obtain ⟨hz, htag⟩ := tag?_bracketed hc hmore z
  rw [piecesFrom]
  · simp only [htag]
    exact ⟨_, rfl⟩
  · decide

theorem printFrom_text {tags : List Tag} {ps : List Piece} {printed : List Char} (h : printFrom tags ps = .ok printed)
    (cs : List Char) : printFrom tags (.text cs :: ps) = .ok (unescaped cs ++ printed) := by
  simp only [printFrom, h, bind, Except.bind, pure, Except.pure]

/-- A tag behind an odd number of backslashes is printed as it is. -/
theorem printFrom_plain {tags : List Tag} {ps : List Piece} {printed : List Char} (hn : n % 2 = 1)
    (h : printFrom tags ps = .ok printed) (position : Nat) (word : List Char) :
    printFrom tags (.tag n position word :: ps) = .ok (List.replicate (n / 2) '\\' ++ bracketed word ++ printed) := by
  simp only [printFrom, if_pos hn, h, bind, Except.bind, pure, Except.pure]

/-- A closing tag ends a style that was begun, unless it is printed as it is. -/
theorem printFrom_closing (hbegun : begun.checkParameter = .ok ()) (position : Nat) :
    ∃ printed, printFrom [begun] [.tag n position ['/'], .text []] = .ok printed := by
  by_cases hn : n % 2 = 1
  · exact ⟨_, printFrom_plain hn rfl position ['/']⟩
  · have hend : endStyle [begun] (Tag.ofWord ['/']) position = .ok [] := by
      show (begun.checkParameter >>= fun _ => pure []) = _
      rw [hbegun]
      rfl
    have hslash : (Tag.ofWord ['/']).name.head? = some '/' := rfl
    simp only [printFrom, if_neg hn, if_pos hslash, hend, bind, Except.bind, pure, Except.pure]
    exact ⟨_, rfl⟩

/-- In a style, an escaped text is printed to the end of the style. -/
theorem Escaped.printFrom (h : Escaped n cs ys) (hbegun : begun.checkParameter = .ok ()) (seen : List Char) :
    ∃ printed, printFrom [begun] (piecesFrom size seen 0 (ys ++ (List.replicate k '\\' ++ ['[', '/', ']']))) =
      .ok printed := by
  induction h generalizing seen with
  | @tag n cs word r ys htag _ ih =>
    obtain ⟨c, more, rfl, hc, hmore, -⟩ := eq_of_tag? htag
    obtain ⟨printed, hprinted⟩ := ih []
    rw [List.append_assoc, piecesFrom_backslashes]
    obtain ⟨position, hpieces⟩ := piecesFrom_tag hc hmore
    simp only [bracketed, List.cons_append, List.append_assoc, List.nil_append] at hpieces ⊢
    rw [hpieces]
    exact ⟨_, printFrom_text (printFrom_plain (by omega) hprinted _ _) _⟩
  | @done n =>
    rw [piecesFrom_backslashes, piecesFrom_backslashes]
    have hslash : ∀ x ∈ ([] : List Char), inTag x = true := nofun
    obtain ⟨position, hpieces⟩ := piecesFrom_tag (c := '/') (z := []) (by decide) hslash
    obtain ⟨printed, hprinted⟩ := printFrom_closing hbegun position
    rw [show ['[', '/', ']'] = '[' :: '/' :: ([] ++ ']' :: []) from rfl, hpieces, piecesFrom]
    exact ⟨_, printFrom_text hprinted _⟩
  | backslash _ ih => exact ih seen
  | @char n c rest ys htag hc hys ih =>
    rw [List.append_assoc, piecesFrom_backslashes, List.cons_append, piecesFrom]
    · simp only [tag?_eq_none_of_escaped htag hys]
      exact ih _
    · exact hc

end
end Markup

/-! ### Consoles -/

/-- The console prints complaints about any text. -/
def Console.TakesEscaped (console : Console) : Prop :=
  ∀ text, ∃ printed, console.line (Markup.styled "bold red" (console.escape text)) = .ok printed

theorem Console.TakesEscaped.complaint {console : Console} (h : console.TakesEscaped) (text : String) :
    ∃ printed, Command.complaint console [console.escape text] = .ok printed := by
  obtain ⟨printed, hprinted⟩ := h text
  have hjoin : String.join [console.escape text] = console.escape text := by simp [String.join]
  exact ⟨printed, by rw [Command.complaint, hjoin, hprinted]; rfl⟩

end BnfReader
