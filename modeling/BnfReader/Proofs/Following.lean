import BnfReader.Parser.Failure
import BnfReader.Proofs.Locality

/-! Following a parser along a text.

The rules of `Step.Acts` for the ways to build parsers, and then for what is left of the text
at an offset (`At`): one character, a run of characters of one kind, a fixed text and the end.
A run of characters takes as many as there are and leaves the next one expected. -/
namespace BnfReader

namespace Parser
variable {ε α β : Type} {text : Array Char} {o stop last : Nat} {miss : Mismatch} {i j : Hint}

/-! ### Sequencing -/

theorem both_done {p : Parser ε α} {q : Parser ε β} {a : α} {b : β}
    (hp : (p.run text).Acts o (.done a stop) i) (hq : (q.run text).Acts stop (.done b last) j) :
    ((p.both q).run text).Acts o (.done (a, b) last) (i.add j) := by
  have h : ((p.both q).run text).Acts o (.done (a, b) last) (i.add (j.add none)) :=
    hp.andThen_done (hq.andThen_done (.pure (a, b) last))
  rwa [Hint.add_none] at h

theorem both_failed {p : Parser ε α} (q : Parser ε β) (hp : (p.run text).Acts o (.failed miss) i) :
    ((p.both q).run text).Acts o (.failed miss) i :=
  hp.andThen_failed _

theorem both_failed_later {p : Parser ε α} {q : Parser ε β} {a : α}
    (hp : (p.run text).Acts o (.done a stop) i) (hq : (q.run text).Acts stop (.failed miss) j) :
    ((p.both q).run text).Acts o (.failed miss) (i.add j) :=
  hp.andThen_done (hq.andThen_failed _)

theorem convert_done {p : Parser ε α} {f : α → Except ε β} {a : α} {b : β}
    (hp : (p.run text).Acts o (.done a stop) i) (hf : f a = .ok b) :
    ((p.convert f).run text).Acts o (.done b stop) i := by
  have h : ((p.convert f).run text).Acts o (.done b stop) (i.add none) :=
    hp.andThen_done (.give_ok hf stop)
  rwa [Hint.add_none] at h

theorem convert_failed {p : Parser ε α} (f : α → Except ε β)
    (hp : (p.run text).Acts o (.failed miss) i) :
    ((p.convert f).run text).Acts o (.failed miss) i :=
  hp.andThen_failed _

theorem map_done {p : Parser ε α} (f : α → β) {a : α} (hp : (p.run text).Acts o (.done a stop) i) :
    ((p.map f).run text).Acts o (.done (f a) stop) i :=
  convert_done hp rfl

theorem map_failed {p : Parser ε α} (f : α → β) (hp : (p.run text).Acts o (.failed miss) i) :
    ((p.map f).run text).Acts o (.failed miss) i :=
  convert_failed _ hp

theorem right_done {p : Parser ε α} {q : Parser ε β} {a : α} {b : β}
    (hp : (p.run text).Acts o (.done a stop) i) (hq : (q.run text).Acts stop (.done b last) j) :
    ((p *> q).run text).Acts o (.done b last) (i.add j) :=
  map_done Prod.snd (both_done hp hq)

theorem right_failed {p : Parser ε α} (q : Parser ε β) (hp : (p.run text).Acts o (.failed miss) i) :
    ((p *> q).run text).Acts o (.failed miss) i :=
  map_failed Prod.snd (both_failed q hp)

theorem right_failed_later {p : Parser ε α} {q : Parser ε β} {a : α}
    (hp : (p.run text).Acts o (.done a stop) i) (hq : (q.run text).Acts stop (.failed miss) j) :
    ((p *> q).run text).Acts o (.failed miss) (i.add j) :=
  map_failed Prod.snd (both_failed_later hp hq)

theorem left_done {p : Parser ε α} {q : Parser ε β} {a : α} {b : β}
    (hp : (p.run text).Acts o (.done a stop) i) (hq : (q.run text).Acts stop (.done b last) j) :
    ((p <* q).run text).Acts o (.done a last) (i.add j) :=
  map_done Prod.fst (both_done hp hq)

theorem left_failed {p : Parser ε α} (q : Parser ε β) (hp : (p.run text).Acts o (.failed miss) i) :
    ((p <* q).run text).Acts o (.failed miss) i :=
  map_failed Prod.fst (both_failed q hp)

theorem left_failed_later {p : Parser ε α} {q : Parser ε β} {a : α}
    (hp : (p.run text).Acts o (.done a stop) i) (hq : (q.run text).Acts stop (.failed miss) j) :
    ((p <* q).run text).Acts o (.failed miss) (i.add j) :=
  map_failed Prod.fst (both_failed_later hp hq)

/-! ### Choice and repetition -/

theorem run_or (p q : Parser ε α) :
    (p <|> q).run text = Step.firstOf [p.run text, q.run text] none := rfl

theorem or_done {p : Parser ε α} (q : Parser ε α) {a : α} (hp : (p.run text).Acts o (.done a stop) i) :
    ((p <|> q).run text).Acts o (.done a stop) i := by
  rw [run_or]
  exact hp.firstOf_done _ none

theorem or_done_later {p q : Parser ε α} {a : α} (hp : (p.run text).Acts o (.failed miss) i)
    (hq : (q.run text).Acts o (.done a stop) j) :
    ((p <|> q).run text).Acts o (.done a stop) (i.add j) := by
  rw [run_or]
  exact hp.firstOf_failed (hq.firstOf_done [] _)

theorem or_failed {p q : Parser ε α} {miss' : Mismatch} (hp : (p.run text).Acts o (.failed miss) i)
    (hq : (q.run text).Acts o (.failed miss') j) :
    ((p <|> q).run text).Acts o (.failed (miss.merge miss')) (i.add j) := by
  have h : (Step.firstOf [p.run text, q.run text] none).Acts o (.failed (miss.merge miss'))
      (i.add (j.add none)) :=
    hp.firstOf_failed (hq.firstOf_failed (.firstOf_some o (miss.merge miss')))
  rwa [Hint.add_none] at h

theorem many_chain {p : Parser ε α} {as : List α} (hc : Step.Chain (p.run text) o as last i) :
    (p.many.run text).Acts o (.done as last) i :=
  hc.many (p.run_stays text)

theorem many1_chain {p : Parser ε α} {a : α} {as : List α} (hp : (p.run text).Acts o (.done a stop) i)
    (hc : Step.Chain (p.run text) stop as last j) :
    (p.many1.run text).Acts o (.done (a :: as) last) (i.add j) := by
  have h : (p.many1.run text).Acts o (.done (a :: as) last) (i.add (j.add none)) :=
    hp.andThen_done ((hc.many (p.run_stays text)).andThen_done (.pure (a :: as) last))
  rwa [Hint.add_none] at h

theorem many1_failed {p : Parser ε α} (hp : (p.run text).Acts o (.failed miss) i) :
    (p.many1.run text).Acts o (.failed miss) i :=
  hp.andThen_failed _

end Parser

/-! ### What is left of a text -/

/-- Every text begins with a run of characters of one kind, perhaps empty, which cannot go on. -/
theorem exists_run (p : Char → Bool) (cs : List Char) :
    ∃ us rest, cs = us ++ rest ∧ us.all p = true ∧ rest.head?.any p = false := by
  refine ⟨cs.takeWhile p, cs.dropWhile p, List.takeWhile_append_dropWhile.symm, List.all_takeWhile, ?_⟩
  have h := List.head?_dropWhile_not p cs
  cases hh : (cs.dropWhile p).head? with
  | none => rfl
  | some c =>
    rw [hh] at h
    exact h

/-- At `o` the characters `cs` are left of the text. -/
structure At (text : Array Char) (o : Nat) (cs : List Char) : Prop where
  le : o ≤ text.size
  left : text.toList.drop o = cs

namespace At
variable {text : Array Char} {o : Nat} {c : Char} {cs us : List Char}

theorem zero (text : Array Char) : At text 0 text.toList := ⟨Nat.zero_le _, rfl⟩

theorem size (h : At text o cs) : text.size = o + cs.length := by
  have hlen := congrArg List.length h.left
  rw [List.length_drop, Array.length_toList] at hlen
  have := h.le
  omega

theorem getElem? (h : At text o cs) : text[o]? = cs.head? := by
  rw [← h.left, List.head?_drop, Array.getElem?_toList]

theorem append (h : At text o (us ++ cs)) : At text (o + us.length) cs := by
  refine ⟨?_, ?_⟩
  · have := h.size
    rw [List.length_append] at this
    omega
  · rw [← List.drop_drop, h.left, List.drop_left]

theorem tail (h : At text o (c :: cs)) : At text (o + 1) cs :=
  append (show At text o ([c] ++ cs) from h)

end At

namespace Parser
variable {ε : Type} {text : Array Char} {o : Nat} {cs : List Char}

/-! ### Characters -/

theorem satisfy_at {accepts : Char → Bool} {c : Char} (description : String)
    (h : At text o (c :: cs)) (hc : accepts c = true) :
    ((satisfy accepts description : Parser ε Char).run text).Acts o (.done c (o + 1)) none :=
  .satisfy_done description h.getElem? hc

theorem satisfy_at_failed {accepts : Char → Bool} (description : String) (h : At text o cs)
    (hc : cs.head?.any accepts = false) :
    ((satisfy accepts description : Parser ε Char).run text).Acts o
      (.failed ⟨o, .only description⟩) none := by
  refine .satisfy_failed description fun c hget => ?_
  rw [h.getElem?] at hget
  simpa [hget] using hc

/-- A run of characters of one kind takes all there are. -/
theorem many_satisfy_at {accepts : Char → Bool} (description : String) {us : List Char}
    (h : At text o (us ++ cs)) (hus : us.all accepts = true) (hcs : cs.head?.any accepts = false) :
    ((satisfy accepts description : Parser ε Char).many.run text).Acts o (.done us (o + us.length))
      (some ⟨o + us.length, .only description⟩) := by
  apply many_chain
  induction us generalizing o with
  | nil => exact .missed (satisfy_at_failed description h hcs)
  | cons c us ih =>
    rw [List.all_cons, Bool.and_eq_true] at hus
    have hround := Step.Chain.round (satisfy_at description h hus.1) (by omega) (ih h.tail hus.2)
    simpa [Nat.add_assoc, Nat.add_comm 1] using hround

/-- The character that a text of one character stands for. -/
theorem char_at (c : Char) (h : At text o (c :: cs)) :
    ((char (String.singleton c) : Parser ε Char).run text).Acts o (.done c (o + 1)) none :=
  satisfy_at _ h (by simp)

theorem char_at_failed (c : Char) (h : At text o cs) (hc : cs.head? ≠ some c) :
    ((char (String.singleton c) : Parser ε Char).run text).Acts o
      (.failed ⟨o, .only (Text.quoted (String.singleton c))⟩) none := by
  refine satisfy_at_failed _ h ?_
  cases hh : cs.head? with
  | none => rfl
  | some x =>
    rw [hh] at hc
    simpa using hc

/-! ### Fixed texts and the end -/

theorem string_at (s : String) (h : At text o (s.toList ++ cs)) :
    ((string s : Parser ε String).run text).Acts o (.done s (o + s.length)) none := by
  have hsize := h.size
  rw [List.length_append, String.length_toList] at hsize
  refine .string_done (by omega) ?_
  rw [Array.toList_extract, List.extract_eq_take_drop, h.left, Nat.add_sub_cancel_left,
    ← String.length_toList, List.take_left]

theorem string_at_failed (s : String) (h : At text o cs) (hs : ¬ s.toList <+: cs) :
    ((string s : Parser ε String).run text).Acts o (.failed ⟨o, .only (Text.quoted s)⟩) none := by
  refine .string_failed fun hp => hs ?_
  rw [← hp.2, Array.toList_extract, List.extract_eq_take_drop, h.left]
  exact List.take_prefix _ _

theorem eof_at (h : At text o []) : ((eof : Parser ε Unit).run text).Acts o (.done () o) none :=
  .eof_done (by simpa using h.size.symm)

theorem eof_at_failed (h : At text o cs) (hcs : cs ≠ []) :
    ((eof : Parser ε Unit).run text).Acts o (.failed ⟨o, .only "end of input"⟩) none := by
  refine .eof_failed ?_
  have hpos := List.length_pos_iff.2 hcs
  have := h.size
  omega

end Parser
end BnfReader
