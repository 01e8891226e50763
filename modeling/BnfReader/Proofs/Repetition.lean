import BnfReader.Proofs.Bounds
import BnfReader.Proofs.Readings

/-! What a repetition takes, and what it gives back.

A repetition takes the items that lie one behind the other from its offset, as long as each moves on
(`MaximalRun`). Since a parser reads one thing at an offset, there is one such run and no other
(`MaximalRun.unique`). A list with separators is its first item and the run of separators that are each followed
by an item (`Parser.ReadsBehind`), so it ends where an item ended: a separator without an item behind it is
left to what comes next. -/
namespace BnfReader

/-- The items from an offset to the end of the last one, each with its own end. Each begins where the
one before it ended and moves on, and what can be read behind the last consumes nothing. -/
inductive MaximalRun {α : Type} (reads : Nat → α → Nat → Prop) : Nat → List (α × Nat) → Nat → Prop where
  | ended {o : Nat} : (∀ a stop, reads o a stop → stop = o) → MaximalRun reads o [] o
  | item {o stop last : Nat} {a : α} {items : List (α × Nat)} :
      reads o a stop → o < stop → MaximalRun reads stop items last →
      MaximalRun reads o ((a, stop) :: items) last

namespace MaximalRun
variable {α : Type} {reads : Nat → α → Nat → Prop} {o last last' : Nat} {items items' : List (α × Nat)}

/-- Where one thing is read at an offset, there is one run. -/
theorem unique (hone : ∀ {o a b stop stop'}, reads o a stop → reads o b stop' → a = b ∧ stop = stop')
    (h : MaximalRun reads o items last) (h' : MaximalRun reads o items' last') :
    items' = items ∧ last' = last := by
  induction h generalizing items' last' with
  | ended hidle =>
    cases h' with
    | ended => exact ⟨rfl, rfl⟩
    | item hreads hmoves => exact absurd (hidle _ _ hreads) (Nat.ne_of_gt hmoves)
  | item hreads hmoves _ ih =>
    cases h' with
    | ended hidle => exact absurd (hidle _ _ hreads) (Nat.ne_of_gt hmoves)
    | item hreads' _ hrest' =>
      obtain ⟨rfl, rfl⟩ := hone hreads hreads'
      obtain ⟨rfl, rfl⟩ := ih hrest'
      exact ⟨rfl, rfl⟩

theorem idle_at_last (h : MaximalRun reads o items last) {a : α} {stop : Nat} (ha : reads last a stop) :
    stop = last := by
  induction h with
  | ended hidle => exact hidle a stop ha
  | item _ _ _ ih => exact ih ha

end MaximalRun

/-- The rounds of a repetition are a maximal run. -/
theorem Step.Chain.maximal {ε α : Type} {text : Array Char} {p : Step ε α} (hp : p.Stays text) {o last : Nat}
    {as : List α} {i : Hint} (hc : Chain p o as last i) :
    ∃ items, MaximalRun p.Reads o items last ∧ items.map Prod.fst = as := by
  induction hc with
  | missed hm =>
    refine ⟨[], .ended ?_, rfl⟩
    intro a stop ha
    exact absurd ha (hm.not_reads a stop)
  | idle hidle =>
    refine ⟨[], .ended ?_, rfl⟩
    intro a stop ha
    exact (ha.unique ⟨_, hidle⟩).2
  | @round o stop last a as i j ha hmoved _ ih =>
    obtain ⟨items, hrun, hvalues⟩ := ih
    have hmoves : o < stop := Nat.lt_of_le_of_ne (hp ha).1 (Ne.symm hmoved)
    exact ⟨(a, stop) :: items, .item ⟨i, ha⟩ hmoves hrun, congrArg (a :: ·) hvalues⟩

namespace Parser
variable {ε α β : Type} {text : Array Char} {o : Nat}

/-- At `o` a separator is read, and an item right behind it. -/
def ReadsBehind (p : Parser ε α) (separator : Parser ε β) (text : Array Char) (o : Nat) (a : α) (stop : Nat) : Prop :=
  ∃ b mid, separator.Reads text o b mid ∧ p.Reads text mid a stop

theorem right_reads_eq (p : Parser ε α) (separator : Parser ε β) (text : Array Char) :
    (separator *> p).Reads text = p.ReadsBehind separator text := by
  funext o a stop
  exact propext reads_right

/-- A total parser that does not fail reads something. -/
theorem Total.failed_or_reads {p : Parser ε α} (hp : p.Total) (text : Array Char) (o : Nat) :
    (∃ m i, (p.run text).Acts o (.failed m) i) ∨ ∃ a stop, p.Reads text o a stop := by
  obtain ⟨r, i, hacts, hr, _⟩ := p.run_isLocal text (.inl hp : p.Total ∨ False) o
  cases r with
  | done a stop => exact .inr ⟨a, stop, i, hacts⟩
  | failed m => exact .inl ⟨m, i, hacts⟩
  | fault cause => exact absurd hr id

theorem Total.right {p : Parser ε α} {q : Parser ε β} (hp : p.Total) (hq : q.Total) : (p *> q).Total :=
  ⟨⟨hp, hq⟩, fun _ => ⟨_, rfl⟩⟩

/-- A repetition reads its maximal run. -/
theorem many_reads_run {p : Parser ε α} (hp : p.Total) (text : Array Char) (o : Nat) :
    ∃ items last, MaximalRun (p.Reads text) o items last ∧ p.many.Reads text o (items.map Prod.fst) last := by
  obtain ⟨as, last, i, hchain⟩ := (p.run_isLocal text (.inl hp : p.Total ∨ False)).exists_chain o
  obtain ⟨items, hrun, hvalues⟩ := hchain.maximal (p.run_stays text)
  refine ⟨items, last, hrun, i, ?_⟩
  rw [hvalues]
  exact many_chain hchain

theorem sepBy1_failed {p : Parser ε α} (separator : Parser ε β) {m : Mismatch} {i : Hint}
    (hp : (p.run text).Acts o (.failed m) i) : ((p.sepBy1 separator).run text).Acts o (.failed m) i :=
  map_failed _ (both_failed _ hp)

/-- A list with separators reads its first item and then the maximal run of separators and items. -/
theorem sepBy1_reads_run {p : Parser ε α} {separator : Parser ε β} (hp : p.Total) (hs : separator.Total) {a : α}
    {first : Nat} (ha : p.Reads text o a first) :
    ∃ items last, MaximalRun (p.ReadsBehind separator text) first items last ∧
      (p.sepBy1 separator).Reads text o (a :: items.map Prod.fst) last := by
  obtain ⟨items, last, hrun, j, hmany⟩ := many_reads_run (hs.right hp) text first
  obtain ⟨i, hi⟩ := ha
  rw [right_reads_eq] at hrun
  exact ⟨items, last, hrun, _, map_done _ (both_done hi hmany)⟩

/-- A list with separators matches where its item does. -/
theorem sepBy1_reads_iff {p : Parser ε α} {separator : Parser ε β} (hp : p.Total) (hs : separator.Total) :
    (∃ as last, (p.sepBy1 separator).Reads text o as last) ↔ ∃ a first, p.Reads text o a first := by
  constructor
  · intro ⟨as, last, hlist⟩
    rcases hp.failed_or_reads text o with ⟨m, i, hfailed⟩ | hitem
    · exact absurd hlist ((sepBy1_failed separator hfailed).not_reads as last)
    · exact hitem
  · intro ⟨a, first, ha⟩
    obtain ⟨items, last, -, hlist⟩ := sepBy1_reads_run hp hs ha
    exact ⟨a :: items.map Prod.fst, last, hlist⟩

theorem readsBehind_unique {p : Parser ε α} {separator : Parser ε β} {a b : α} {stop stop' : Nat}
    (h : p.ReadsBehind separator text o a stop) (h' : p.ReadsBehind separator text o b stop') :
    a = b ∧ stop = stop' := by
  rw [← right_reads_eq] at h h'
  exact h.unique h'

/-- **A repetition takes the one maximal run.** At each offset of each text a total parser has one maximal
run of items that each move on; where it ends the parser fails, or reads something empty. A
repetition comes back with the values of these items and ends where they end, whatever hint it finds,
and never fails. A list with separators matches where its item does, and otherwise fails as the item does.
Behind the first item it takes the one maximal run of separators that are each followed by an
item, and ends where they end, so that a separator there has no item behind it that moves on. -/
theorem many_takes_maximal_run (p : Parser ε α) (hp : p.Total) (separator : Parser ε β) (hs : separator.Total)
    (text : Array Char) (o : Nat) :
    (∃ items last, MaximalRun (p.Reads text) o items last ∧
      (∀ items' last', MaximalRun (p.Reads text) o items' last' → items' = items ∧ last' = last) ∧
      ((∀ h, ∃ m h', p.run text last h = (.failed m, h')) ∨ ∃ a, p.Reads text last a last) ∧
      ∀ h, ∃ h', p.many.run text o h = (.done (items.map Prod.fst) last, h')) ∧
    ((∃ as last, (p.sepBy1 separator).Reads text o as last) ↔ ∃ a first, p.Reads text o a first) ∧
    (∀ h m h', p.run text o h = (.failed m, h') → (p.sepBy1 separator).run text o h = (.failed m, h')) ∧
    ∀ a first, p.Reads text o a first → ∃ items last, MaximalRun (p.ReadsBehind separator text) first items last ∧
      (∀ items' last', MaximalRun (p.ReadsBehind separator text) first items' last' →
        items' = items ∧ last' = last) ∧
      (∀ b mid, separator.Reads text last b mid → ∀ a stop, p.Reads text mid a stop → stop = last) ∧
      ∀ h, ∃ h', (p.sepBy1 separator).run text o h = (.done (a :: items.map Prod.fst) last, h') := by
  refine ⟨?_, sepBy1_reads_iff hp hs, fun h m h' hrun => ?_, fun a first ha => ?_⟩
  · obtain ⟨items, last, hrun, hmany⟩ := many_reads_run hp text o
    refine ⟨items, last, hrun, fun items' last' => hrun.unique Step.Reads.unique, ?_, fun h => ?_⟩
    · rcases hp.failed_or_reads text last with ⟨m, i, hfailed⟩ | ⟨a, stop, ha⟩
      · exact .inl fun h => ⟨m, h.add i, hfailed h⟩
      · rw [hrun.idle_at_last ha] at ha
        exact .inr ⟨a, ha⟩
    · exact (reads_iff_run p.many h).1 hmany
  · obtain ⟨r, i, hacts, -⟩ := p.run_isLocal_true text o
    rw [hacts h] at hrun
    cases hrun
    exact sepBy1_failed separator hacts h
  · obtain ⟨items, last, hrun, hlist⟩ := sepBy1_reads_run hp hs ha
    refine ⟨items, last, hrun, fun items' last' => hrun.unique readsBehind_unique, ?_, fun h => ?_⟩
    · intro b mid hb a stop ha
      exact hrun.idle_at_last ⟨b, mid, hb, ha⟩
    · exact (reads_iff_run (p.sepBy1 separator) h).1 hlist

/-- Two items, and a separator behind them that is given back. -/
theorem many_takes_maximal_run_of_list :
    let p : Parser Empty Char := char "a"
    let comma : Parser Empty Char := char ","
    let text := #['a', ',', 'a', ',', 'b']
    p.Total ∧ comma.Total ∧ p.Reads text 0 'a' 1 ∧ comma.Reads text 3 ',' 4 ∧
      (∃ items, MaximalRun (p.ReadsBehind comma text) 1 items 3 ∧ items.map Prod.fst = ['a']) ∧
      ∃ items, MaximalRun (p.Reads text) 0 items 1 ∧ items.map Prod.fst = ['a'] := by
  intro p comma text
  have hitem : p.Reads text 0 'a' 1 := (reads_iff_run p none).2 ⟨none, by decide +kernel⟩
  have hcomma : comma.Reads text 3 ',' 4 := (reads_iff_run comma none).2 ⟨none, by decide +kernel⟩
  have hlist : (p.sepBy1 comma).run text 0 none = (.done ['a', 'a'] 3, some ⟨4, .only "'a'"⟩) := by
    decide +kernel
  have hmany : p.many.run text 0 none = (.done ['a'] 1, some ⟨1, .only "'a'"⟩) := by decide +kernel
  obtain ⟨⟨items, last, hrun, -, -, hvalues⟩, -, -, hbehind⟩ := many_takes_maximal_run p trivial comma trivial text 0
  obtain ⟨items', last', hrun', -, -, hvalues'⟩ := hbehind 'a' 1 hitem
  refine ⟨trivial, trivial, hitem, hcomma, ?_, ?_⟩
  · obtain ⟨h', hsame⟩ := hvalues' none
    rw [hlist] at hsame
    injection hsame with hreply
    injection hreply with hitems hlast
    rw [← hlast] at hrun'
    exact ⟨items', hrun', (List.cons.inj hitems).2.symm⟩
  · obtain ⟨h', hsame⟩ := hvalues none
    rw [hmany] at hsame
    injection hsame with hreply
    injection hreply with hitems hlast
    rw [← hlast] at hrun
    exact ⟨items, hrun, hitems.symm⟩

-- An item that consumes nothing ends a repetition and is dropped.
example : ((char "a" : Parser Empty Char).optional 'z').many.run #['a', 'b'] 0 none =
    (.done ['a'] 1, some ⟨1, .only "'a'"⟩) := by
  decide +kernel

end Parser
end BnfReader
