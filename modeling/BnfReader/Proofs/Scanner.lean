import BnfReader.Grammar.Layers

/-! Reading a document one character at a time.

The layers read a document by trying parsers in turn and stepping back. Here is a reader that
never steps back: a `Scan.State` says what stands before the next character, `State.next`
where that character leads, and `Scan.read` follows a text to its end or to the first
character that leads nowhere. A state holds the finished parts of the document, so what it
has read so far cannot be ill formed, and it knows what may come next (`State.expected`).

That both readers give the same answer, reports included, is `Document.parse_eq_read` in
`Proofs/Agreement`. -/
namespace BnfReader

/-! ### Names -/

/-- Two properties of ASCII characters are the same if they agree on each of them. -/
theorem ascii_ext {f g : Char → Bool} (hf : ∀ c, f c = true → c.toNat < 128)
    (hg : ∀ c, g c = true → c.toNat < 128)
    (h : ∀ n : Fin 128, f (Char.ofNat n) = g (Char.ofNat n)) (c : Char) : f c = g c := by
  by_cases hc : c.toNat < 128
  · simpa using h ⟨c.toNat, hc⟩
  · have hfc : f c = false := Bool.eq_false_iff.2 fun h => hc (hf c h)
    have hgc : g c = false := Bool.eq_false_iff.2 fun h => hc (hg c h)
    rw [hfc, hgc]

theorem toNat_of_between {lo hi c : Char} (h : between lo hi c = true) : c.toNat ≤ hi.toNat := by
  simp only [between, Bool.and_eq_true, decide_eq_true_eq] at h
  exact h.2

/-- The letters of names are the ASCII letters. -/
theorem letters_contains (c : Char) :
    Layers.letters.contains c = (between 'A' 'Z' c || between 'a' 'z' c) := by
  have hsmall : ∀ x ∈ Layers.letters, x.toNat < 128 := by
    have hall : Layers.letters.all (fun x => x.toNat < 128) = true := by decide +kernel
    simpa only [List.all_eq_true, decide_eq_true_eq] using hall
  refine ascii_ext (f := Layers.letters.contains)
    (g := fun x => between 'A' 'Z' x || between 'a' 'z' x)
    (fun x hx => hsmall x (List.contains_iff_mem.1 hx)) (fun x hx => ?_) (by decide +kernel) c
  rcases Bool.or_eq_true_iff.1 hx with h | h
  · exact Nat.lt_of_le_of_lt (toNat_of_between h) (by decide)
  · exact Nat.lt_of_le_of_lt (toNat_of_between h) (by decide)

/-- The characters of names are the ASCII letters, the digits and the dash. -/
theorem nameChars_contains (c : Char) : Layers.nameChars.contains c =
    (between 'A' 'Z' c || between 'a' 'z' c || between '0' '9' c || c == '-') := by
  have hsmall : ∀ x ∈ "0123456789-".toList, x.toNat < 128 := by
    have hall : "0123456789-".toList.all (fun x => x.toNat < 128) = true := by decide +kernel
    simpa only [List.all_eq_true, decide_eq_true_eq] using hall
  have hrest : "0123456789-".toList.contains c = (between '0' '9' c || c == '-') := by
    refine ascii_ext (f := "0123456789-".toList.contains) (g := fun x => between '0' '9' x || x == '-')
      (fun x hx => hsmall x (List.contains_iff_mem.1 hx)) (fun x hx => ?_) (by decide +kernel) c
    rcases Bool.or_eq_true_iff.1 hx with h | h
    · exact Nat.lt_of_le_of_lt (toNat_of_between h) (by decide)
    · rw [beq_iff_eq.1 h]
      decide
  rw [Layers.nameChars, List.contains_append, letters_contains, hrest]
  simp only [Bool.or_assoc]

theorem isName_ofList (c : Char) (cs : List Char) : isName (String.ofList (c :: cs)) =
    (Layers.letters.contains c && cs.all Layers.nameChars.contains) := by
  simp only [isName, String.toList_ofList, letters_contains]
  congr 2
  funext x
  exact (nameChars_contains x).symm

namespace Name

@[ext] theorem ext {a b : Name} (h : a.text = b.text) : a = b := by
  cases a
  cases b
  cases h
  rfl

/-- The name of one letter. -/
def single (c : Char) (hc : Layers.letters.contains c = true) : Name :=
  ⟨String.ofList [c], by simp only [isName_ofList, hc, List.all_nil, Bool.and_self]⟩

/-- The name with more characters behind it. -/
def grow (n : Name) (cs : List Char) (hcs : cs.all Layers.nameChars.contains = true) : Name :=
  ⟨String.ofList (n.text.toList ++ cs), by
    obtain ⟨text, valid⟩ := n
    obtain ⟨xs, rfl⟩ : ∃ xs, text = String.ofList xs := ⟨text.toList, by simp⟩
    cases xs with
    | nil => cases valid
    | cons x xs =>
      rw [isName_ofList, Bool.and_eq_true] at valid
      rw [String.toList_ofList, List.cons_append, isName_ofList, List.all_append, valid.1, valid.2, hcs]
      rfl⟩

end Name

/-! ### Rules, grown from the left -/

namespace Rule

@[ext] theorem ext {a b : Rule} (hn : a.name = b.name) (ha : a.alternatives = b.alternatives) : a = b := by
  cases a
  cases b
  cases hn
  cases ha
  rfl

/-- The rule with one alternative of one term. -/
def single (name : Name) (t : Term) : Rule :=
  ⟨name, [[t]], by simp, by simp⟩

/-- The rule with more terms in its last alternative. -/
def extend (r : Rule) (ts : List Term) : Rule :=
  ⟨r.name, r.alternatives.dropLast ++ [r.alternatives.getLast r.some_alternative ++ ts], by simp, by
    intro terms hterms
    rcases List.mem_append.1 hterms with h | h
    · exact r.some_term terms (List.dropLast_subset _ h)
    · have hlast := r.some_term _ (List.getLast_mem r.some_alternative)
      rw [List.mem_singleton.1 h]
      simp [hlast]⟩

/-- The rule with one more alternative. -/
def branch (r : Rule) (t : Term) (ts : List Term) : Rule :=
  ⟨r.name, r.alternatives ++ [t :: ts], by simp, by
    intro terms hterms
    rcases List.mem_append.1 hterms with h | h
    · exact r.some_term terms h
    · rw [List.mem_singleton.1 h]
      simp⟩

theorem extend_nil (r : Rule) : r.extend [] = r := by
  ext1
  · rfl
  · simp [extend, List.dropLast_concat_getLast]

theorem extend_extend (r : Rule) (ts us : List Term) : (r.extend ts).extend us = r.extend (ts ++ us) := by
  ext1
  · rfl
  · simp [extend]

theorem branch_extend (r : Rule) (t : Term) (ts us : List Term) :
    (r.branch t ts).extend us = r.branch t (ts ++ us) := by
  ext1
  · rfl
  · simp [extend, branch]

end Rule

/-- The document of some rules and one more. -/
def Document.snoc (rules : List Rule) (r : Rule) : Document := ⟨rules ++ [r], by simp⟩

namespace Scan

/-! ### Classes of characters -/

def isBlank (c : Char) : Bool := c == ' ' || c == '\t'

def isBreak (c : Char) : Bool := c == '\r' || c == '\n'

def isWhite (c : Char) : Bool := isBlank c || c == '\r' || c == '\n'

theorem isWhite_eq (c : Char) : isWhite c = (isBlank c || isBreak c) := by
  simp only [isWhite, isBreak, Bool.or_assoc]

/-- A character that a term can begin with. -/
def isOpening (c : Char) : Bool := c == '<' || c == '"' || c == '\''

/-- The two quotes that literals stand in. -/
inductive Quote where
  | double
  | single
deriving DecidableEq

def Quote.char : Quote → Char
  | .double => '"'
  | .single => '\''

/-- What a character of the literal is called. -/
def Quote.inner : Quote → String
  | .double => "any character except '\"'"
  | .single => "any character except \"'\""

/-! ### States -/

/-- Where the next term goes: behind the finished rules and the marker of a new one, into the
last alternative of a rule, or into a new alternative of it. -/
inductive Slot where
  | first (rules : List Rule) (name : Name)
  | next (rules : List Rule) (r : Rule)
  | branch (rules : List Rule) (r : Rule)

/-- What a name in angle brackets is: the head of a rule or a reference. -/
inductive Bracket where
  | head (rules : List Rule)
  | ref (slot : Slot)

/-- What stands before the next character. -/
inductive State where
  /-- Nothing but blanks. -/
  | start
  /-- A document and a line break, and blank space behind it. -/
  | fresh (d : Document)
  /-- An opening bracket. -/
  | opened (b : Bracket)
  /-- A name behind its opening bracket, perhaps not all of it. -/
  | named (b : Bracket) (name : Name)
  /-- The name of a new rule in its brackets. -/
  | head (rules : List Rule) (name : Name)
  /-- One character of the marker behind the name. -/
  | colon (rules : List Rule) (name : Name)
  /-- Two characters of the marker behind the name. -/
  | colons (rules : List Rule) (name : Name)
  /-- The marker or a bar, with no term behind it yet. -/
  | gap (slot : Slot)
  /-- A literal that is still open. -/
  | literal (slot : Slot) (quote : Quote) (body : List Char)
  /-- A term, and with it a complete rule. -/
  | behind (rules : List Rule) (r : Rule)

/-- The finished rules before a slot. -/
def Slot.rules : Slot → List Rule
  | .first rules _ => rules
  | .next rules _ => rules
  | .branch rules _ => rules

/-- The rule with a term put into the slot. -/
def Slot.put : Slot → Term → Rule
  | .first _ name, t => .single name t
  | .next _ r, t => r.extend [t]
  | .branch _ r, t => r.branch t []

/-- The state behind a term that was put into a slot. -/
def Slot.fill (slot : Slot) (t : Term) : State := .behind slot.rules (slot.put t)

/-- The state behind a name and its closing bracket. -/
def Bracket.close : Bracket → Name → State
  | .head rules, name => .head rules name
  | .ref slot, name => slot.fill (.ref name)

/-- The state behind the first character of a term. -/
def Slot.enter (slot : Slot) (c : Char) : Option State :=
  if c = '<' then some (.opened (.ref slot))
  else if c = '"' then some (.literal slot .double [])
  else if c = '\'' then some (.literal slot .single [])
  else none

namespace State

/-- The state behind one more character; `none` if it cannot stand here. -/
def next : State → Char → Option State
  | .start, c =>
    if isBlank c then some .start
    else if c = '<' then some (.opened (.head []))
    else none
  | .fresh d, c =>
    if isWhite c then some (.fresh d)
    else if c = '<' then some (.opened (.head d.rules))
    else none
  | .opened b, c =>
    if h : Layers.letters.contains c = true then some (.named b (.single c h))
    else none
  | .named b n, c =>
    if h : [c].all Layers.nameChars.contains = true then some (.named b (n.grow [c] h))
    else if c = '>' then some (b.close n)
    else none
  | .head rules n, c =>
    if isBlank c then some (.head rules n)
    else if c = ':' then some (.colon rules n)
    else none
  | .colon rules n, c => if c = ':' then some (.colons rules n) else none
  | .colons rules n, c => if c = '=' then some (.gap (.first rules n)) else none
  | .gap slot, c => if isBlank c then some (.gap slot) else slot.enter c
  | .literal slot quote body, c =>
    if c = quote.char then some (slot.fill (.literal (String.ofList body)))
    else some (.literal slot quote (body ++ [c]))
  | .behind rules r, c =>
    if isBlank c then some (.behind rules r)
    else if isBreak c then some (.fresh (.snoc rules r))
    else if c = '|' then some (.gap (.branch rules r))
    else (Slot.next rules r).enter c

/-- The document that is complete here, if one is. -/
def document? : State → Option Document
  | .fresh d => some d
  | .behind rules r => some (.snoc rules r)
  | _ => none

/-- What may come next. Blanks are never mentioned, and the marker is expected as a whole. -/
def expected : State → Expected
  | .start => .only "'<'"
  | .fresh _ => .ofList ["'<'", "end of input", "line break", "whitespace"]
  | .opened _ => .only "rule name"
  | .named _ _ => .ofList ["'>'", "name character"]
  | .head _ _ | .colon _ _ | .colons _ _ => .only "'::='"
  | .gap _ => .ofList ["literal", "rule reference"]
  | .literal _ quote _ => .ofList [Text.quoted (String.singleton quote.char), quote.inner]
  | .behind _ _ =>
    .ofList ["'|'", "end of input", "line break", "literal", "rule reference", "whitespace"]

/-- How many characters of the marker have been read. -/
def marked : State → Nat
  | .colon _ _ => 1
  | .colons _ _ => 2
  | _ => 0

/-- The mismatch where the text cannot go on from here; within a marker it is placed where
the marker begins. -/
def miss (s : State) (o : Nat) : Mismatch := ⟨o - s.marked, s.expected⟩

theorem marked_of_document {s : State} {d : Document} (h : s.document? = some d) : s.marked = 0 := by
  cases s <;> first | rfl | cases h

end State

/-! ### Blanks, line breaks and openings -/

theorem start_blank (c : Char) (hc : isBlank c = true) : State.start.next c = some .start := by
  simp only [State.next, hc, if_true]

theorem fresh_white (d : Document) (c : Char) (hc : isWhite c = true) :
    (State.fresh d).next c = some (.fresh d) := by
  simp only [State.next, hc, if_true]

theorem head_blank (rules : List Rule) (n : Name) (c : Char) (hc : isBlank c = true) :
    (State.head rules n).next c = some (.head rules n) := by
  simp only [State.next, hc, if_true]

theorem gap_blank (slot : Slot) (c : Char) (hc : isBlank c = true) :
    (State.gap slot).next c = some (.gap slot) := by
  simp only [State.next, hc, if_true]

theorem behind_blank (rules : List Rule) (r : Rule) (c : Char) (hc : isBlank c = true) :
    (State.behind rules r).next c = some (.behind rules r) := by
  simp only [State.next, hc, if_true]

theorem behind_break (rules : List Rule) (r : Rule) (c : Char) (hc : isBreak c = true) :
    (State.behind rules r).next c = some (.fresh (.snoc rules r)) := by
  simp only [isBreak, Bool.or_eq_true, beq_iff_eq] at hc
  rcases hc with rfl | rfl <;> rfl

theorem gap_opening (slot : Slot) (c : Char) (hc : isOpening c = true) :
    (State.gap slot).next c = slot.enter c := by
  simp only [isOpening, Bool.or_eq_true, beq_iff_eq] at hc
  rcases hc with (rfl | rfl) | rfl <;> rfl

theorem behind_opening (rules : List Rule) (r : Rule) (c : Char) (hc : isOpening c = true) :
    (State.behind rules r).next c = (Slot.next rules r).enter c := by
  simp only [isOpening, Bool.or_eq_true, beq_iff_eq] at hc
  rcases hc with (rfl | rfl) | rfl <;> rfl

/-! ### Reading -/

/-- The document of a text that goes on with the given characters at an offset. -/
def read (s : State) (o : Nat) : List Char → Except Mismatch Document
  | [] =>
    match s.document? with
    | some d => .ok d
    | none => .error (s.miss o)
  | c :: cs =>
    match s.next c with
    | some s' => read s' (o + 1) cs
    | none => .error (s.miss o)

/-- The state behind some characters, if all of them can stand here. -/
def walk (s : State) : List Char → Option State
  | [] => some s
  | c :: cs =>
    match s.next c with
    | some s' => walk s' cs
    | none => none

section
variable {s s' : State} {o : Nat} {c : Char} {cs us : List Char}

theorem read_next (h : s.next c = some s') : read s o (c :: cs) = read s' (o + 1) cs := by
  simp only [read, h]

theorem read_stop (h : s.next c = none) : read s o (c :: cs) = .error (s.miss o) := by
  simp only [read, h]

/-- Where no document is complete and the next character leads nowhere, reading stops. -/
theorem read_stuck (hend : s.document? = none) (hnext : ∀ c, cs.head? = some c → s.next c = none) :
    read s o cs = .error (s.miss o) := by
  cases cs with
  | nil => simp only [read, hend]
  | cons c cs => exact read_stop (hnext c rfl)

theorem read_walk (h : walk s us = some s') : read s o (us ++ cs) = read s' (o + us.length) cs := by
  induction us generalizing s o with
  | nil =>
    cases h
    rfl
  | cons c us ih =>
    simp only [walk] at h
    split at h
    · next t ht =>
      rw [List.cons_append, read_next ht, ih h, List.length_cons, Nat.add_comm us.length 1, Nat.add_assoc]
    · cases h

theorem walk_append (s : State) (us vs : List Char) :
    walk s (us ++ vs) = (walk s us).bind fun t => walk t vs := by
  induction us generalizing s with
  | nil => rfl
  | cons c us ih =>
    simp only [List.cons_append, walk]
    split
    · exact ih _
    · rfl

theorem walk_next (h : s.next c = some s') : walk s (c :: cs) = walk s' cs := by
  simp only [walk, h]

theorem walk_trans {t : State} (hu : walk s us = some t) (hv : walk t cs = some s') :
    walk s (us ++ cs) = some s' := by
  rw [walk_append, hu]
  exact hv

/-- The scanner reads a document if it gets to the end and the document is complete there. -/
theorem read_ok_iff {d : Document} : read s o cs = .ok d ↔ ∃ t, walk s cs = some t ∧ t.document? = some d := by
  induction cs generalizing s o with
  | nil =>
    simp only [read, walk, Option.some.injEq, exists_eq_left']
    split
    · next d' hd => simp [hd]
    · next hd => simp [hd]
  | cons c cs ih =>
    simp only [read, walk]
    split
    · exact ih
    · simp

/-- Characters that change nothing, in a row. -/
theorem walk_loop {p : Char → Bool} (hs : ∀ c, p c = true → s.next c = some s)
    (hus : us.all p = true) : walk s us = some s := by
  induction us with
  | nil => rfl
  | cons c us ih =>
    rw [List.all_cons, Bool.and_eq_true] at hus
    simp only [walk, hs c hus.1]
    exact ih hus.2

theorem walk_name (b : Bracket) (n : Name) (hus : us.all Layers.nameChars.contains = true) :
    walk (.named b n) us = some (.named b (n.grow us hus)) := by
  induction us generalizing n with
  | nil =>
    refine congrArg (fun n => some (State.named b n)) (Name.ext ?_)
    simp [Name.grow]
  | cons c us ih =>
    have hsplit := hus
    rw [List.all_cons, Bool.and_eq_true] at hsplit
    have hc : [c].all Layers.nameChars.contains = true := by
      rw [List.all_cons, hsplit.1]
      rfl
    have hnext : (State.named b n).next c = some (.named b (n.grow [c] hc)) := dif_pos hc
    simp only [walk, hnext]
    rw [ih _ hsplit.2]
    refine congrArg (fun n => some (State.named b n)) (Name.ext ?_)
    simp [Name.grow]

theorem walk_opened (b : Bracket) (n : Name) : walk (.opened b) n.text.toList = some (.named b n) := by
  obtain ⟨s, valid⟩ := n
  obtain ⟨xs, rfl⟩ : ∃ xs, s = String.ofList xs := ⟨s.toList, by simp⟩
  simp only [String.toList_ofList]
  cases xs with
  | nil => cases valid
  | cons c us =>
    have hsplit := valid
    rw [isName_ofList, Bool.and_eq_true] at hsplit
    have hnext : (State.opened b).next c = some (.named b (.single c hsplit.1)) := dif_pos hsplit.1
    simp only [walk, hnext]
    rw [walk_name b _ hsplit.2]
    refine congrArg (fun n => some (State.named b n)) (Name.ext ?_)
    simp [Name.grow, Name.single]

theorem walk_literal (slot : Slot) (quote : Quote) (body : List Char) (hus : quote.char ∉ us) :
    walk (.literal slot quote body) us = some (.literal slot quote (body ++ us)) := by
  induction us generalizing body with
  | nil =>
    rw [List.append_nil]
    rfl
  | cons c us ih =>
    rw [List.mem_cons, not_or] at hus
    have hnext : (State.literal slot quote body).next c = some (.literal slot quote (body ++ [c])) :=
      if_neg (Ne.symm hus.1)
    simp only [walk, hnext]
    rw [ih _ hus.2, List.append_assoc]
    rfl

end
end Scan
end BnfReader
