import BnfReader.Parser.Run
import BnfReader.Proofs.Hints

/-! What a step does, apart from the hint it finds.

`Step.Acts p o r i` says that at `o` the step `p` replies `r` and adds the hint `i`, whatever
hint was there before. There is one rule for each way to put steps together and each way
its parts can end, so that a run is followed rule by rule, and the hints left on the way are
summed. Repetition has its rounds as a chain (`Step.Chain`); the bound on its rounds is met
by every step that stays within its text (`Step.Acts.many`). -/
namespace BnfReader

/-- An offset that a run from `o` can come to: not before `o`, and behind the end of the text
only if it is `o` itself. -/
def Within (text : Array Char) (o e : Nat) : Prop := o ≤ e ∧ (e ≤ text.size ∨ e = o)

theorem Within.refl (text : Array Char) (o : Nat) : Within text o o := ⟨Nat.le_refl o, .inr rfl⟩

theorem Within.trans {text : Array Char} {a b c : Nat} (h : Within text a b) (k : Within text b c) :
    Within text a c := by
  unfold Within at *
  omega

/-- The end and the mismatch of a reply are places of a run from `o`, and the reply is a fault
only where `faulty` allows it. -/
def Reply.Within {ε α : Type} (text : Array Char) (faulty : Prop) (o : Nat) : Reply ε α → Prop
  | .done _ stop => BnfReader.Within text o stop
  | .failed miss => BnfReader.Within text o miss.offset
  | .fault _ => faulty

theorem Reply.Within.trans {ε α : Type} {text : Array Char} {faulty : Prop} {o o' : Nat}
    {r : Reply ε α} (h : BnfReader.Within text o o') (hr : r.Within text faulty o') :
    r.Within text faulty o := by
  cases r with
  | done a stop => exact BnfReader.Within.trans h hr
  | failed miss => exact BnfReader.Within.trans h hr
  | fault cause => exact hr

/-- The place of a hint, as one of a run from `o`. -/
def Hint.Within (text : Array Char) (o : Nat) (i : Hint) : Prop :=
  ∀ m ∈ i, BnfReader.Within text o m.offset

namespace Hint

theorem within_none (text : Array Char) (o : Nat) : Hint.Within text o none := by
  intro m hm
  cases hm

theorem within_some {text : Array Char} {o : Nat} {m : Mismatch} (h : BnfReader.Within text o m.offset) :
    Hint.Within text o (some m) := by
  intro m' hm
  cases hm
  exact h

theorem Within.trans {text : Array Char} {o o' : Nat} {i : Hint} (h : BnfReader.Within text o o')
    (hi : i.Within text o') : i.Within text o :=
  fun m hm => h.trans (hi m hm)

theorem Within.add {text : Array Char} {o : Nat} {i j : Hint} (hi : i.Within text o)
    (hj : j.Within text o) : (i.add j).Within text o := by
  intro m hm
  cases i with
  | none => exact hj m hm
  | some a => cases j with
    | none => exact hi m hm
    | some b =>
      cases hm
      have ha := hi a rfl
      have hb := hj b rfl
      rw [BnfReader.Within, Mismatch.offset_merge]
      unfold BnfReader.Within at ha hb
      omega

theorem Within.past {text : Array Char} {o : Nat} {i : Hint} (hi : i.Within text o) (k : Nat) :
    (i.past k).Within text o := by
  intro m hm
  exact hi m (Option.mem_filter_iff.1 hm).1

end Hint

namespace Step
variable {ε α β : Type} {o stop : Nat} {miss : Mismatch} {cause : Fault ε} {i j : Hint}

/-- At `o` the step replies `r` and adds the hint `i`, whatever hint it finds. -/
def Acts (p : Step ε α) (o : Nat) (r : Reply ε α) (i : Hint) : Prop := ∀ h, p o h = (r, h.add i)

namespace Acts

/-- A step acts in one way at an offset. -/
theorem unique {p : Step ε α} {r r' : Reply ε α} (h : p.Acts o r i) (h' : p.Acts o r' j) :
    r = r' ∧ i = j := by
  have := (h none).symm.trans (h' none)
  simpa using this

/-! ### Sequencing -/

theorem pure (a : α) (o : Nat) : (Step.pure a : Step ε α).Acts o (.done a o) none := by
  intro h
  rw [Hint.add_none]
  rfl

theorem andThen_done {p : Step ε α} {next : α → Step ε β} {a : α} {r : Reply ε β}
    (hp : p.Acts o (.done a stop) i) (hn : (next a).Acts stop r j) :
    (p.andThen next).Acts o r (i.add j) := by
  intro h
  simp only [Step.andThen, hp h, hn (h.add i), Hint.add_assoc]

theorem andThen_failed {p : Step ε α} (next : α → Step ε β) (hp : p.Acts o (.failed miss) i) :
    (p.andThen next).Acts o (.failed miss) i := by
  intro h
  simp only [Step.andThen, hp h]

theorem andThen_fault {p : Step ε α} (next : α → Step ε β) (hp : p.Acts o (.fault cause) i) :
    (p.andThen next).Acts o (.fault cause) i := by
  intro h
  simp only [Step.andThen, hp h]

theorem give_ok {r : Except ε α} {a : α} (hr : r = .ok a) (o : Nat) :
    (Step.give r).Acts o (.done a o) none := by
  intro h
  simp only [Step.give, hr, Hint.add_none]

theorem give_error {r : Except ε α} {e : ε} (hr : r = .error e) (o : Nat) :
    (Step.give r).Acts o (.fault (.refused e)) none := by
  intro h
  simp only [Step.give, hr, Hint.add_none]

/-! ### Looking at the text -/

theorem satisfy_done {text : Array Char} {accepts : Char → Bool} {c : Char} (description : String)
    (hc : text[o]? = some c) (ha : accepts c = true) :
    (Step.satisfy text accepts description : Step ε Char).Acts o (.done c (o + 1)) none := by
  intro h
  simp only [Step.satisfy, hc, ha, Hint.add_none, if_true]

theorem satisfy_failed {text : Array Char} {accepts : Char → Bool} (description : String)
    (hc : ∀ c, text[o]? = some c → accepts c = false) :
    (Step.satisfy text accepts description : Step ε Char).Acts o
      (.failed ⟨o, .only description⟩) none := by
  intro h
  rw [Hint.add_none, Step.satisfy]
  cases ht : text[o]? with
  | none => rfl
  | some c => simp [hc c ht]

theorem string_done {text : Array Char} {s : String} (hs : o + s.length ≤ text.size)
    (he : (text.extract o (o + s.length)).toList = s.toList) :
    (Step.string text s : Step ε String).Acts o (.done s (o + s.length)) none := by
  intro h
  simp only [Step.string, hs, he, and_self, if_true, Hint.add_none]

theorem string_failed {text : Array Char} {s : String}
    (hs : ¬ (o + s.length ≤ text.size ∧ (text.extract o (o + s.length)).toList = s.toList)) :
    (Step.string text s : Step ε String).Acts o (.failed ⟨o, .only (Text.quoted s)⟩) none := by
  intro h
  simp only [Step.string, hs, if_false, Hint.add_none]

theorem eof_done {text : Array Char} (ho : o = text.size) :
    (Step.eof text : Step ε Unit).Acts o (.done () o) none := by
  intro h
  simp only [Step.eof, ho, if_true, Hint.add_none]

theorem eof_failed {text : Array Char} (ho : o ≠ text.size) :
    (Step.eof text : Step ε Unit).Acts o (.failed ⟨o, .only "end of input"⟩) none := by
  intro h
  simp only [Step.eof, ho, if_false, Hint.add_none]

/-! ### Choice -/

theorem firstOf_done {p : Step ε α} {a : α} (ps : List (Step ε α)) (best : Hint)
    (hp : p.Acts o (.done a stop) i) : (firstOf (p :: ps) best).Acts o (.done a stop) i := by
  intro h
  simp only [firstOf, hp h]

theorem firstOf_fault {p : Step ε α} (ps : List (Step ε α)) (best : Hint)
    (hp : p.Acts o (.fault cause) i) : (firstOf (p :: ps) best).Acts o (.fault cause) i := by
  intro h
  simp only [firstOf, hp h]

theorem firstOf_failed {p : Step ε α} {ps : List (Step ε α)} {best : Hint} {r : Reply ε α}
    (hp : p.Acts o (.failed miss) i) (hps : (firstOf ps (best.note miss)).Acts o r j) :
    (firstOf (p :: ps) best).Acts o r (i.add j) := by
  intro h
  simp only [firstOf, hp h, hps (h.add i), Hint.add_assoc]

theorem firstOf_none (o : Nat) : (firstOf [] none : Step ε α).Acts o (.fault .noBranch) none := by
  intro h
  simp only [firstOf, Hint.add_none]

theorem firstOf_some (o : Nat) (miss : Mismatch) :
    (firstOf [] (some miss) : Step ε α).Acts o (.failed miss) none := by
  intro h
  simp only [firstOf, Hint.add_none]

/-! ### Options and annotations -/

theorem optional_failed {p : Step ε α} (default : α) (hp : p.Acts o (.failed miss) i) :
    (optional p default).Acts o (.done default o) (i.add (some miss)) := by
  intro h
  simp only [optional, hp h, Hint.note_eq_add, Hint.add_assoc]

theorem optional_other {p : Step ε α} (default : α) {r : Reply ε α} (hp : p.Acts o r i)
    (hr : ∀ m, r ≠ .failed m) : (optional p default).Acts o r i := by
  intro h
  cases r with
  | failed m => exact absurd rfl (hr m)
  | _ => simp only [optional, hp h]

theorem label_here {p : Step ε α} (description : String) (hp : p.Acts o (.failed miss) i)
    (hm : miss.offset = o) (hi : ∀ m ∈ i, o ≤ m.offset) :
    (label p description).Acts o (.failed ⟨o, .only description⟩) (i.past o) := by
  intro h
  simp only [label, hp h, hm, if_true, Hint.add_past h hi]

theorem label_other {p : Step ε α} (description : String) {r : Reply ε α} (hp : p.Acts o r i)
    (hr : ∀ m, r = .failed m → m.offset ≠ o) : (label p description).Acts o r i := by
  intro h
  cases r with
  | failed m => simp only [label, hp h, hr m rfl, if_false]
  | _ => simp only [label, hp h]

theorem hidden_done {p : Step ε α} {a : α} (hp : p.Acts o (.done a stop) i) :
    (hidden p).Acts o (.done a stop) none := by
  intro h
  simp only [hidden, hp h, Hint.add_none]

theorem hidden_other {p : Step ε α} {r : Reply ε α} (hp : p.Acts o r i)
    (hr : ∀ a stop, r ≠ .done a stop) : (hidden p).Acts o r i := by
  intro h
  cases r with
  | done a stop => exact absurd rfl (hr a stop)
  | _ => simp only [hidden, hp h]

/-! ### Repetition -/

theorem manyFrom_failed {p : Step ε α} (budget : Nat) (seen : List α)
    (hp : p.Acts o (.failed miss) i) :
    (manyFrom p budget seen).Acts o (.done seen.reverse o) (i.add (some miss)) := by
  intro h
  unfold manyFrom
  simp only [hp h, Hint.note_eq_add, Hint.add_assoc]

theorem manyFrom_fault {p : Step ε α} (budget : Nat) (seen : List α)
    (hp : p.Acts o (.fault cause) i) : (manyFrom p budget seen).Acts o (.fault cause) i := by
  intro h
  unfold manyFrom
  simp only [hp h]

theorem manyFrom_idle {p : Step ε α} {a : α} (budget : Nat) (seen : List α)
    (hp : p.Acts o (.done a o) i) : (manyFrom p budget seen).Acts o (.done seen.reverse o) i := by
  intro h
  unfold manyFrom
  simp only [hp h, if_true]

theorem manyFrom_spent {p : Step ε α} {a : α} (seen : List α) (hp : p.Acts o (.done a stop) i) :
    (manyFrom p 0 seen).Acts o (.done seen.reverse o) i := by
  intro h
  unfold manyFrom
  simp only [hp h, ite_self]

theorem manyFrom_round {p : Step ε α} {a : α} {budget : Nat} {seen : List α} {r : Reply ε (List α)}
    (hp : p.Acts o (.done a stop) i) (hne : stop ≠ o)
    (hrest : (manyFrom p budget (a :: seen)).Acts stop r j) :
    (manyFrom p (budget + 1) seen).Acts o r (i.add j) := by
  intro h
  unfold manyFrom
  simp only [hp h, hne, if_false, hrest (h.add i), Hint.add_assoc]

end Acts

/-- The rounds of a repetition from an offset: the values, where they end, and what they
add to the hint. The last round is a mismatch, or an item that consumes nothing. -/
inductive Chain (p : Step ε α) : Nat → List α → Nat → Hint → Prop where
  | missed {o : Nat} {miss : Mismatch} {i : Hint} :
      p.Acts o (.failed miss) i → Chain p o [] o (i.add (some miss))
  | idle {o : Nat} {a : α} {i : Hint} : p.Acts o (.done a o) i → Chain p o [] o i
  | round {o stop last : Nat} {a : α} {as : List α} {i j : Hint} :
      p.Acts o (.done a stop) i → stop ≠ o → Chain p stop as last j →
      Chain p o (a :: as) last (i.add j)

/-- Where the step matches it stays within the text. -/
def Stays (text : Array Char) (p : Step ε α) : Prop :=
  ∀ {o : Nat} {a : α} {stop : Nat} {i : Hint}, p.Acts o (.done a stop) i → Within text o stop

theorem Chain.le {text : Array Char} {p : Step ε α} (hp : p.Stays text) {o last : Nat} {as : List α}
    {i : Hint} (hc : Chain p o as last i) : o ≤ last := by
  induction hc with
  | missed => exact Nat.le_refl _
  | idle => exact Nat.le_refl _
  | round ha _ _ ih => exact Nat.le_trans (hp ha).1 ih

/-- As many rounds as characters are left are enough for a chain. -/
theorem Chain.manyFrom {text : Array Char} {p : Step ε α} (hp : p.Stays text) {o last : Nat}
    {as : List α} {i : Hint} (hc : Chain p o as last i) {budget : Nat} (hb : text.size - o ≤ budget)
    (seen : List α) : (manyFrom p budget seen).Acts o (.done (seen.reverse ++ as) last) i := by
  induction hc generalizing budget seen with
  | missed hm => simpa using hm.manyFrom_failed budget seen
  | idle ha => simpa using ha.manyFrom_idle budget seen
  | @round o stop last a as i j ha hne _ ih =>
    -- A round that moves on leaves fewer characters, so the budget is not spent yet.
    have hw := hp ha
    unfold Within at hw
    obtain ⟨b, rfl⟩ : ∃ b, budget = b + 1 := ⟨budget - 1, by omega⟩
    have hrest := ih (show text.size - stop ≤ b by omega) (a :: seen)
    simpa using ha.manyFrom_round hne hrest

theorem Chain.many {text : Array Char} {p : Step ε α} (hp : p.Stays text) {o last : Nat}
    {as : List α} {i : Hint} (hc : Chain p o as last i) :
    (many text p).Acts o (.done as last) i :=
  hc.manyFrom hp (Nat.le_refl _) []

end Step
end BnfReader
