import BnfReader.Proofs.Agreement

/-! Reports say exactly what may stand where reading stopped.

A text is *viable* if it can be continued to one that the parser accepts. The report of a
rejected text points behind a viable part of it, and its descriptions name the characters
that keep the text viable there: no such character is missing, and none that is named would
fail. Blanks are left out, and the marker of a rule is reported as a whole, at its first
character.

All of this is read off the scanner. Every state can be completed, so a text is viable just
when the scanner gets through it (`viable_iff_walk`); and what a state expects are the
characters that lead on from it (`Scan.State.next_iff_begins`). -/
namespace BnfReader
open Scan

/-- Some continuation of the text is accepted. -/
def Viable (u : List Char) : Prop := ∃ v d, Document.parse (String.ofList (u ++ v)) = .ok d

/-- The characters that a described thing can begin with. The end of the input has none. -/
def begins (description : String) (c : Char) : Bool :=
  if description = "'<'" ∨ description = "rule reference" then c == '<'
  else if description = "'>'" then c == '>'
  else if description = "'|'" then c == '|'
  else if description = "'::='" then c == ':'
  else if description = "literal" then c == '"' || c == '\''
  else if description = "'\"'" then c == '"'
  else if description = "\"'\"" then c == '\''
  else if description = "any character except '\"'" then c != '"'
  else if description = "any character except \"'\"" then c != '\''
  else if description = "rule name" then between 'A' 'Z' c || between 'a' 'z' c
  else if description = "name character" then
    between 'A' 'Z' c || between 'a' 'z' c || between '0' '9' c || c == '-'
  else if description = "line break" then c == '\r' || c == '\n'
  else if description = "whitespace" then c == ' ' || c == '\t' || c == '\r' || c == '\n'
  else false

/-- A report on a text that is true of it and leaves nothing out. -/
structure Failure.Exact (f : Failure) (text : List Char) (p : Nat) : Prop where
  offset : f.offset = p
  /-- Up to the place, the text can be continued. -/
  viable : Viable (text.take p)
  /-- Nothing was found only at the end. -/
  found_none : f.found = none → p = text.length
  /-- What was found stands there; it cannot stand there, or it begins a broken marker. -/
  found_some : ∀ s, f.found = some s → ∃ c, s = String.singleton c ∧ text[p]? = some c ∧
    (¬ Viable (text.take (p + 1)) ∨ f.expected = ["'::='"] ∧ ¬ "::=".toList <+: text.drop p)
  some_expected : f.expected ≠ []
  /-- The end of the input is expected just where a document is complete. -/
  complete : "end of input" ∈ f.expected ↔ ∃ d, Document.parse (String.ofList (text.take p)) = .ok d
  /-- The descriptions name the characters that can stand there, blanks apart. -/
  characters : ∀ c, c ≠ ' ' → c ≠ '\t' →
    (Viable (text.take p ++ [c]) ↔ ∃ x ∈ f.expected, begins x c = true)

namespace Scan

/-! ### Every state can be completed -/

/-- Some characters lead from the state to a complete document. -/
def State.Completes (s : State) : Prop := ∃ v t d, walk s v = some t ∧ t.document? = some d

theorem State.Completes.of_next {s s' : State} {c : Char} (hnext : s.next c = some s') (h : s'.Completes) :
    s.Completes := by
  obtain ⟨v, t, d, hwalk, hd⟩ := h
  exact ⟨c :: v, t, d, (walk_next hnext).trans hwalk, hd⟩

theorem completes_behind (rules : List Rule) (r : Rule) : (State.behind rules r).Completes :=
  ⟨[], _, _, rfl, rfl⟩

theorem completes_literal (slot : Slot) (q : Quote) (body : List Char) :
    (State.literal slot q body).Completes := by
  have hclose : (State.literal slot q body).next q.char = some (slot.fill (.literal (String.ofList body))) :=
    if_pos rfl
  exact .of_next hclose (completes_behind _ _)

theorem completes_gap (slot : Slot) : (State.gap slot).Completes :=
  .of_next (gap_opening slot '"' rfl) (completes_literal slot .double [])

theorem completes_colons (rules : List Rule) (n : Name) : (State.colons rules n).Completes :=
  .of_next (show (State.colons rules n).next '=' = some (.gap (.first rules n)) from rfl) (completes_gap _)

theorem completes_colon (rules : List Rule) (n : Name) : (State.colon rules n).Completes :=
  .of_next (show (State.colon rules n).next ':' = some (.colons rules n) from rfl) (completes_colons rules n)

theorem completes_head (rules : List Rule) (n : Name) : (State.head rules n).Completes :=
  .of_next (show (State.head rules n).next ':' = some (.colon rules n) from rfl) (completes_colon rules n)

theorem completes_named (b : Bracket) (n : Name) : (State.named b n).Completes := by
  refine .of_next (show (State.named b n).next '>' = some (b.close n) from rfl) ?_
  cases b with
  | head rules => exact completes_head rules n
  | ref slot => exact completes_behind _ _

theorem completes_opened (b : Bracket) : (State.opened b).Completes :=
  .of_next (show (State.opened b).next 'a' = some (.named b (.single 'a' (by decide))) from rfl)
    (completes_named b _)

theorem State.completes (s : State) : s.Completes := by
  cases s with
  | start => exact .of_next (show State.start.next '<' = some (.opened (.head [])) from rfl) (completes_opened _)
  | fresh d => exact ⟨[], _, d, rfl, rfl⟩
  | opened b => exact completes_opened b
  | named b n => exact completes_named b n
  | head rules n => exact completes_head rules n
  | colon rules n => exact completes_colon rules n
  | colons rules n => exact completes_colons rules n
  | gap slot => exact completes_gap slot
  | literal slot q body => exact completes_literal slot q body
  | behind rules r => exact completes_behind rules r

end Scan

/-- A text is viable just when the scanner gets through it. -/
theorem viable_iff_walk (u : List Char) : Viable u ↔ ∃ s, walk .start u = some s := by
  constructor
  · rintro ⟨v, d, hparse⟩
    obtain ⟨t, hwalk, -⟩ := (Document.parse_ok_iff_walk _ d).1 hparse
    rw [String.toList_ofList, walk_append] at hwalk
    obtain ⟨s, hs, -⟩ := Option.bind_eq_some_iff.1 hwalk
    exact ⟨s, hs⟩
  · rintro ⟨s, hs⟩
    obtain ⟨v, t, d, hwalk, hd⟩ := s.completes
    refine ⟨v, d, (Document.parse_ok_iff_walk _ d).2 ⟨t, ?_, hd⟩⟩
    rw [String.toList_ofList]
    exact walk_trans hs hwalk

namespace Scan

theorem walk_snoc {s s' : State} {u : List Char} (h : walk s u = some s') (c : Char) :
    walk s (u ++ [c]) = s'.next c := by
  rw [walk_append, h, Option.bind_some]
  simp only [walk]
  split
  · next t ht => exact ht.symm
  · next ht => exact ht.symm

/-! ### What a state expects -/

theorem quoted_double : Text.quoted (String.singleton Quote.double.char) = "'\"'" := rfl

theorem quoted_single : Text.quoted (String.singleton Quote.single.char) = "\"'\"" := rfl

theorem enter_isSome (slot : Slot) (c : Char) : (slot.enter c).isSome = isOpening c := by
  unfold Slot.enter isOpening
  split
  · simp_all
  · split
    · simp_all
    · split <;> simp_all

/-- What is expected names the characters that lead on, blanks apart. -/
theorem State.next_iff_begins (s : State) (hs : s.marked = 0) {c : Char} (hc : isBlank c = false) :
    (s.next c).isSome = true ↔ ∃ x ∈ s.expected, begins x c = true := by
  cases s with
  | start => simp [State.next, State.expected, begins, hc]
  | fresh d =>
    have hnext : ((State.fresh d).next c).isSome = true ↔ isWhite c = true ∨ c = '<' := by
      simp [State.next, apply_ite Option.isSome]
    have hbegins : (∃ x ∈ (State.fresh d).expected, begins x c = true) ↔
        c = '<' ∨ isBreak c = true ∨ isWhite c = true := by
      simp [State.expected, begins, isBreak, isWhite, isBlank]
    grind [isWhite_eq]
  | opened b =>
    have hnext : ((State.opened b).next c).isSome = Layers.letters.contains c := by
      cases hletter : Layers.letters.contains c <;> simp only [State.next, hletter] <;> rfl
    rw [hnext, letters_contains]
    simp [State.expected, begins]
  | named b n =>
    have hnext : ((State.named b n).next c).isSome = (Layers.nameChars.contains c || c == '>') := by
      simp [State.next, apply_dite Option.isSome, apply_ite Option.isSome, Bool.beq_eq_decide_eq]
    rw [hnext, nameChars_contains]
    simp [State.expected, begins, or_comm]
  | head rules n => simp [State.next, State.expected, begins, hc]
  | colon rules n => cases hs
  | colons rules n => cases hs
  | gap slot =>
    have hnext : ((State.gap slot).next c).isSome = isOpening c := by
      simp [State.next, hc, enter_isSome]
    have hbegins : (∃ x ∈ (State.gap slot).expected, begins x c = true) ↔
        (c = '"' ∨ c = '\'') ∨ c = '<' := by
      simp [State.expected, begins]
    grind [isOpening]
  | literal slot q body =>
    have hnext : ((State.literal slot q body).next c).isSome = true := by
      simp [State.next, apply_ite Option.isSome]
    cases q with
    | double => simp [hnext, State.expected, begins, quoted_double, Quote.inner, Decidable.em]
    | single => simp [hnext, State.expected, begins, quoted_single, Quote.inner, Decidable.em]
  | behind rules r =>
    have hnext : ((State.behind rules r).next c).isSome = true ↔
        isBreak c = true ∨ c = '|' ∨ isOpening c = true := by
      simp [State.next, hc, enter_isSome, apply_ite Option.isSome]
    have hbegins : (∃ x ∈ (State.behind rules r).expected, begins x c = true) ↔
        c = '|' ∨ isBreak c = true ∨ (c = '"' ∨ c = '\'') ∨ c = '<' ∨ isWhite c = true := by
      simp [State.expected, begins, isBreak, isWhite, isBlank]
    grind [isWhite_eq, isOpening]

theorem State.document_iff_expected (s : State) :
    (∃ d, s.document? = some d) ↔ "end of input" ∈ s.expected := by
  cases s with
  | literal slot q body =>
    cases q with
    | double => simp [State.document?, State.expected, quoted_double, Quote.inner]
    | single => simp [State.document?, State.expected, quoted_single, Quote.inner]
  | _ => simp [State.document?, State.expected]

/-! ### Where reading stops -/

/-- Reading stops behind some characters, at the end or before one that leads nowhere. -/
theorem read_error {s : State} {o : Nat} {cs : List Char} {m : Mismatch} (h : read s o cs = .error m) :
    ∃ u rest t, cs = u ++ rest ∧ walk s u = some t ∧ m = t.miss (o + u.length) ∧
      ∀ c, rest.head? = some c → t.next c = none := by
  induction cs generalizing s o with
  | nil =>
    simp only [read] at h
    split at h
    · cases h
    · cases h
      refine ⟨[], [], s, rfl, rfl, rfl, fun c hc => ?_⟩
      cases hc
  | cons c cs ih =>
    cases hnext : s.next c with
    | none =>
      rw [read_stop hnext] at h
      cases h
      refine ⟨[], c :: cs, s, rfl, rfl, rfl, fun c' hc' => ?_⟩
      cases hc'
      exact hnext
    | some s' =>
      rw [read_next hnext] at h
      obtain ⟨u, rest, t, rfl, hwalk, hm, hstop⟩ := ih h
      refine ⟨c :: u, rest, t, rfl, (walk_next hnext).trans hwalk, ?_, hstop⟩
      rw [hm, List.length_cons, Nat.add_assoc, Nat.add_comm 1]

/-- Within a marker, each state goes back to one with a colon less and the same report. -/
theorem next_marked {s s' : State} {c : Char} (h : s.next c = some s') (hs : s'.marked ≠ 0) :
    c = ':' ∧ s'.marked = s.marked + 1 ∧ s.expected = s'.expected := by
  cases s with
  | named b n => cases b <;> grind [State.next, State.marked, Bracket.close, Slot.fill]
  | _ => grind [State.next, State.marked, State.expected, Slot.enter, Slot.fill]

theorem walk_last {s s' : State} {u : List Char} (h : walk s u = some s') (hs : s ≠ s') :
    ∃ v c t, u = v ++ [c] ∧ walk s v = some t ∧ t.next c = some s' := by
  rcases List.eq_nil_or_concat u with rfl | ⟨v, c, rfl⟩
  · cases h
    exact absurd rfl hs
  · rw [List.concat_eq_append, walk_append] at h
    obtain ⟨t, ht, hlast⟩ := Option.bind_eq_some_iff.1 h
    refine ⟨v, c, t, List.concat_eq_append, ht, ?_⟩
    rw [← hlast, ← List.nil_append [c], walk_snoc rfl]

/-- Before the colons of an unfinished marker stands a state that expects the marker. -/
theorem walk_before_marker {u : List Char} {t : State} (h : walk .start u = some t) :
    ∃ v s, u = v ++ List.replicate t.marked ':' ∧ walk .start v = some s ∧ s.marked = 0 ∧
      s.expected = t.expected := by
  induction hk : t.marked generalizing u t with
  | zero => exact ⟨u, t, (List.append_nil u).symm, h, hk, rfl⟩
  | succ k ih =>
    have hne : State.start ≠ t := by
      rintro rfl
      cases hk
    obtain ⟨v, c, s', rfl, hwalk, hnext⟩ := walk_last h hne
    obtain ⟨rfl, hmarked, hexpected⟩ := next_marked hnext (by omega)
    obtain ⟨v', s, rfl, hwalk', hs, hsame⟩ := ih hwalk (by omega)
    refine ⟨v', s, ?_, hwalk', hs, hsame.trans hexpected⟩
    rw [List.append_assoc, ← List.replicate_succ']

/-- A marker that cannot go on is no marker. -/
theorem marker_broken {t : State} {rest : List Char} (ht : t.marked ≠ 0)
    (hstop : ∀ c, rest.head? = some c → t.next c = none) :
    t.expected = .only "'::='" ∧ ¬ "::=".toList <+: List.replicate t.marked ':' ++ rest := by
  cases t with
  | colon rules n =>
    refine ⟨rfl, fun hmarker => ?_⟩
    obtain ⟨tail, rfl⟩ : ∃ tail, rest = ':' :: '=' :: tail := by
      obtain ⟨tail, htail⟩ := hmarker
      exact ⟨tail, by simpa [State.marked] using htail.symm⟩
    cases hstop ':' rfl
  | colons rules n =>
    refine ⟨rfl, fun hmarker => ?_⟩
    obtain ⟨tail, rfl⟩ : ∃ tail, rest = '=' :: tail := by
      obtain ⟨tail, htail⟩ := hmarker
      exact ⟨tail, by simpa [State.marked, List.replicate] using htail.symm⟩
    cases hstop '=' rfl
  | _ => exact absurd rfl ht

/-- The place of a mismatch in a text: the state before it expects what is reported, and what
follows does not lead on, or begins a marker that is broken off. -/
structure StopsAt (m : Mismatch) (u rest : List Char) (s : State) : Prop where
  walk : walk .start u = some s
  unmarked : s.marked = 0
  offset : m.offset = u.length
  expected : m.expected = s.expected
  stuck : ∀ c, rest.head? = some c → s.next c = none ∨
    s.expected = .only "'::='" ∧ ¬ "::=".toList <+: rest

theorem read_stopsAt {text : List Char} {m : Mismatch} (h : read .start 0 text = .error m) :
    ∃ u rest s, text = u ++ rest ∧ StopsAt m u rest s := by
  obtain ⟨u, rest, t, rfl, hwalk, rfl, hstop⟩ := read_error h
  obtain ⟨v, s, rfl, hwalk', hs, hexpected⟩ := walk_before_marker hwalk
  refine ⟨v, List.replicate t.marked ':' ++ rest, s, by simp, hwalk', hs, ?_, hexpected.symm, fun c hc => ?_⟩
  · simp [State.miss]
  · by_cases ht : t.marked = 0
    · rw [ht, List.replicate_zero, List.append_nil, hwalk'] at hwalk
      cases hwalk
      rw [ht, List.replicate_zero, List.nil_append] at hc
      exact .inl (hstop c hc)
    · rw [hexpected]
      exact .inr (marker_broken ht hstop)

end Scan

/-! ### Reports -/

section
variable {u rest : List Char} {s : State} {m : Mismatch}

theorem viable_snoc_iff (h : walk .start u = some s) (c : Char) :
    Viable (u ++ [c]) ↔ (s.next c).isSome = true := by
  rw [viable_iff_walk, walk_snoc h, Option.isSome_iff_exists]

theorem accepted_iff (h : walk .start u = some s) :
    (∃ d, Document.parse (String.ofList u) = .ok d) ↔ ∃ d, s.document? = some d := by
  simp only [Document.parse_ok_iff_walk, String.toList_ofList, h, Option.some.injEq, exists_eq_left']

theorem Scan.State.some_expected (s : State) : s.expected.items ≠ [] := by
  have hmem : ∃ x, x ∈ s.expected := by
    cases s with
    | start | opened | head | colon | colons => exact ⟨_, Expected.mem_only.2 rfl⟩
    | fresh | named | gap | literal | behind => exact ⟨_, Expected.mem_ofList.2 List.mem_cons_self⟩
  obtain ⟨x, hx⟩ := hmem
  exact List.ne_nil_of_mem hx

theorem Scan.StopsAt.exact (h : StopsAt m u rest s) :
    (Failure.ofMismatch (u ++ rest).toArray m).Exact (u ++ rest) u.length := by
  have hthere : (u ++ rest)[u.length]? = rest.head? := by
    rw [List.getElem?_append_right (Nat.le_refl _), Nat.sub_self, List.head?_eq_getElem?]
  have hfound : (Failure.ofMismatch (u ++ rest).toArray m).found = rest.head?.map String.singleton := by
    simp only [Failure.ofMismatch, h.offset, List.getElem?_toArray, hthere]
  have hexpected : (Failure.ofMismatch (u ++ rest).toArray m).expected = s.expected.items :=
    congrArg Expected.items h.expected
  constructor
  case offset => exact congrArg Nat.cast h.offset
  case viable =>
    rw [List.take_left, viable_iff_walk]
    exact ⟨s, h.walk⟩
  case found_none =>
    intro hnone
    rw [hfound, Option.map_eq_none_iff, List.head?_eq_none_iff] at hnone
    rw [hnone, List.append_nil]
  case found_some =>
    intro x hx
    rw [hfound, Option.map_eq_some_iff] at hx
    obtain ⟨c, hc, rfl⟩ := hx
    refine ⟨c, rfl, hthere.trans hc, ?_⟩
    rcases h.stuck c hc with hnext | ⟨hmarker, hbroken⟩
    · left
      obtain ⟨tail, rfl⟩ := List.head?_eq_some_iff.1 hc
      have htake : (u ++ c :: tail).take (u.length + 1) = u ++ [c] := by
        rw [List.take_length_add_append]
        rfl
      rw [htake, viable_snoc_iff h.walk, hnext]
      exact Bool.false_ne_true
    · right
      rw [List.drop_left, hexpected, hmarker]
      exact ⟨rfl, hbroken⟩
  case some_expected =>
    rw [hexpected]
    exact s.some_expected
  case complete =>
    rw [List.take_left, hexpected, accepted_iff h.walk, State.document_iff_expected]
    exact Iff.rfl
  case characters =>
    intro c hspace htab
    have hblank : isBlank c = false := by simp [isBlank, hspace, htab]
    rw [List.take_left, hexpected, viable_snoc_iff h.walk, s.next_iff_begins h.unmarked hblank]
    exact Iff.rfl

end

/-- **Reports are exact**: where a text is rejected, the report points behind a viable part of
it, and what it expects there is what could stand there, no more and no less. -/
theorem Document.parse_failure_exact (text : String) (f : Failure)
    (h : Document.parse text = .error (.failure f)) : ∃ p, f.Exact text.toList p := by
  rw [Document.parse_eq_read] at h
  split at h
  · cases h
  · next m hread =>
    cases h
    obtain ⟨u, rest, s, htext, hstop⟩ := read_stopsAt hread
    rw [htext]
    exact ⟨u.length, hstop.exact⟩

/-- The report of a marker that breaks off at the end of the text. -/
theorem Document.parse_failure_exact_of_marker :
    Document.parse "<a> :" = .error (.failure ⟨4, 1, 5, ["'::='"], some ":"⟩) ∧
      ∃ p, Failure.Exact ⟨4, 1, 5, ["'::='"], some ":"⟩ "<a> :".toList p := by
  have hparse : Document.parse "<a> :" = .error (.failure ⟨4, 1, 5, ["'::='"], some ":"⟩) := by
    rw [Document.parse_eq_read]
    rfl
  exact ⟨hparse, Document.parse_failure_exact "<a> :" _ hparse⟩

end BnfReader
