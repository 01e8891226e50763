import BnfReader.Parser.Failure
import BnfReader.Proofs.Locality
import BnfReader.Proofs.Watching

/-! How far a run can come, and that it ends.

All that happens in a run from an offset happens within the run (`Event.Within`): no mismatch is
raised or noted before the offset or behind the end of the text, and past the end all is at the
offset itself. One round of a repetition that moves on leaves fewer characters, so the number of
characters left is rounds enough and no repetition is broken off, however deep they are nested.
A repetition is a finite chain of rounds for the same reason. -/
namespace BnfReader

/-- The place of an event is one of a run from `o`, and no repetition is broken off. -/
def Event.Within (text : Array Char) (o : Nat) : Event → Prop
  | .raised miss => BnfReader.Within text o miss.offset
  | .noted miss => BnfReader.Within text o miss.offset
  | .late => True
  | .spent => False

theorem Event.Within.trans {text : Array Char} {o o' : Nat} {e : Event} (h : BnfReader.Within text o o')
    (he : e.Within text o') : e.Within text o := by
  cases e with
  | raised miss => exact BnfReader.Within.trans h he
  | noted miss => exact BnfReader.Within.trans h he
  | late => trivial
  | spent => exact he

/-- A place of a run lies in the text if the run begins there, and otherwise where it begins. -/
theorem Within.bounds {text : Array Char} {o e : Nat} (h : Within text o e) :
    o ≤ e ∧ (o ≤ text.size → e ≤ text.size) ∧ (text.size < o → e = o) := by
  unfold Within at h
  omega

namespace Step
variable {ε α : Type} {text : Array Char} {faulty : Prop} {p : Step ε α}

theorem IsLocal.within (hp : p.IsLocal text faulty) (o : Nat) (h : Hint) : (p o h).1.Within text faulty o := by
  obtain ⟨r, i, hacts, hr, _⟩ := hp o
  rw [hacts h]
  exact hr

theorem IsLocal.done_within (hp : p.IsLocal text faulty) {o stop : Nat} {h h' : Hint} {a : α}
    (hrun : p o h = (.done a stop, h')) : Within text o stop := by
  have hwithin := hp.within o h
  rw [hrun] at hwithin
  exact hwithin

theorem IsLocal.failed_within (hp : p.IsLocal text faulty) {o : Nat} {h h' : Hint} {miss : Mismatch}
    (hrun : p o h = (.failed miss, h')) : Within text o miss.offset := by
  have hwithin := hp.within o h
  rw [hrun] at hwithin
  exact hwithin

/-- A repetition of a step that never faults comes to its end. -/
theorem IsLocal.exists_chain (hp : p.IsLocal text False) (o : Nat) : ∃ as last i, Chain p o as last i := by
  -- The characters left are fewer in each round that moves on.
  induction hn : text.size - o using Nat.strongRecOn generalizing o with
  | _ n ih =>
    obtain ⟨r, i, hacts, hr, _⟩ := hp o
    cases r with
    | failed miss => exact ⟨[], o, _, .missed hacts⟩
    | fault cause => exact absurd hr id
    | done a stop =>
      by_cases hidle : stop = o
      · subst hidle
        exact ⟨[], stop, i, .idle hacts⟩
      · unfold Reply.Within Within at hr
        obtain ⟨as, last, j, hchain⟩ := ih (text.size - stop) (by omega) stop rfl
        exact ⟨a :: as, last, i.add j, .round hacts hidle hchain⟩

end Step

namespace Watched
variable {ε α β : Type} {text : Array Char}

/-- The step keeps the law of hints, and all that happens in it happens within its run. -/
structure Bounded (text : Array Char) (w : Watched ε α) : Prop where
  isLocal : w.step.IsLocal text True
  events : ∀ o h, ∀ e ∈ w.log o h, e.Within text o

/-! ### One lemma for each form -/

theorem bounded_quiet {p : Step ε α} (hp : p.IsLocal text True) : (quiet p).Bounded text :=
  ⟨hp, fun _ _ _ he => absurd he List.not_mem_nil⟩

theorem bounded_primitive {p : Step ε α} (hp : p.IsLocal text True) : (primitive p).Bounded text := by
  refine ⟨hp, fun o h e he => ?_⟩
  simp only [primitive] at he
  split at he
  next miss _ hrun =>
    rw [List.mem_singleton.1 he]
    exact hp.failed_within hrun
  next => exact absurd he List.not_mem_nil

theorem bounded_andThen {p : Watched ε α} {next : α → Watched ε β} (hp : p.Bounded text)
    (hn : ∀ a, (next a).Bounded text) : (p.andThen next).Bounded text := by
  refine ⟨Step.isLocal_andThen hp.isLocal fun a => (hn a).isLocal, fun o h e he => ?_⟩
  rcases List.mem_append.1 he with he | he
  · exact hp.events o h e he
  · split at he
    next a stop h' hrun => exact ((hn a).events stop h' e he).trans (hp.isLocal.done_within hrun)
    next => exact absurd he List.not_mem_nil

theorem bounded_all {ps : List (Watched ε α)} (hps : ∀ p ∈ ps, p.Bounded text) : (all ps).Bounded text := by
  induction ps with
  | nil => exact bounded_quiet (Step.isLocal_pure [])
  | cons p ps ih =>
    have hrest := ih fun q hq => hps q (List.mem_cons_of_mem p hq)
    apply bounded_andThen (hps p List.mem_cons_self)
    intro a
    exact bounded_andThen hrest fun as => bounded_quiet (Step.isLocal_pure (a :: as))

theorem firstOfLog_within {ps : List (Watched ε α)} (hps : ∀ p ∈ ps, p.Bounded text) (failed : Bool) (o : Nat)
    (h : Hint) : ∀ e ∈ firstOfLog ps failed o h, e.Within text o := by
  induction ps generalizing failed h with
  | nil => exact fun e he => absurd he List.not_mem_nil
  | cons p ps ih =>
    intro e he
    rcases List.mem_append.1 he with he | he
    · exact (hps p List.mem_cons_self).events o h e he
    · split at he
      next => exact ih (fun q hq => hps q (List.mem_cons_of_mem p hq)) true _ e he
      next =>
        split at he
        · rw [List.mem_singleton.1 he]
          trivial
        · exact absurd he List.not_mem_nil
      next => exact absurd he List.not_mem_nil

theorem bounded_firstOf {ps : List (Watched ε α)} (hps : ∀ p ∈ ps, p.Bounded text) : (firstOf ps).Bounded text := by
  refine ⟨fun o => ?_, firstOfLog_within hps false⟩
  refine Step.firstOf_acts (fun p hmem => ?_) o none (Hint.within_none text o) (.inr (.inr trivial))
  obtain ⟨w, hw, rfl⟩ := List.mem_map.1 hmem
  exact (hps w hw).isLocal

/-- As many rounds as characters are left are enough for a repetition. -/
theorem manyLog_within {p : Watched ε α} (hp : p.Bounded text) (budget o : Nat) (h : Hint)
    (hb : text.size - o ≤ budget) : ∀ e ∈ p.manyLog budget o h, e.Within text o := by
  intro e he
  induction hn : text.size - o using Nat.strongRecOn generalizing budget o h with
  | _ n ih =>
    unfold manyLog at he
    rcases List.mem_append.1 he with he | he
    · exact hp.events o h e he
    · split at he
      next miss _ hrun =>
        rw [List.mem_singleton.1 he]
        exact hp.isLocal.failed_within hrun
      next => exact absurd he List.not_mem_nil
      next a stop h' hrun =>
        have hwithin := hp.isLocal.done_within hrun
        split at he
        next => exact absurd he List.not_mem_nil
        next hmoved =>
          -- A round that moves on leaves fewer characters, so the budget is not spent yet.
          have hfewer : text.size - stop < text.size - o := by
            unfold Within at hwithin
            omega
          cases budget with
          | zero => omega
          | succ budget => exact (ih _ (by omega) budget stop h' (by omega) he rfl).trans hwithin

theorem bounded_many {p : Watched ε α} (hp : p.Bounded text) : (many text p).Bounded text :=
  ⟨fun o => Step.isLocal_manyFrom hp.isLocal _ [] o, fun o h => manyLog_within hp _ o h (Nat.le_refl _)⟩

theorem bounded_optional {p : Watched ε α} (hp : p.Bounded text) (default : α) :
    (optional p default).Bounded text := by
  refine ⟨Step.isLocal_optional hp.isLocal default, fun o h e he => ?_⟩
  rcases List.mem_append.1 he with he | he
  · exact hp.events o h e he
  · split at he
    next miss _ hrun =>
      rw [List.mem_singleton.1 he]
      exact hp.isLocal.failed_within hrun
    next => exact absurd he List.not_mem_nil

end Watched

namespace Parser
variable {ε α : Type}

/-- All that happens in the run of a parser happens within the run. -/
theorem watch_bounded (p : Parser ε α) (text : Array Char) : (p.watch text).Bounded text := by
  induction p with
  | satisfy accepts description => exact Watched.bounded_primitive (Step.isLocal_satisfy accepts description)
  | string s => exact Watched.bounded_primitive (Step.isLocal_string s)
  | eof => exact Watched.bounded_primitive Step.isLocal_eof
  | both p q ihp ihq =>
    apply Watched.bounded_andThen ihp
    intro a
    exact Watched.bounded_andThen ihq fun b => Watched.bounded_quiet (Step.isLocal_pure (a, b))
  | all ps ih =>
    apply Watched.bounded_all
    intro w hmem
    obtain ⟨k, rfl⟩ := List.mem_ofFn.1 hmem
    exact ih k
  | firstOf ps ih =>
    apply Watched.bounded_firstOf
    intro w hmem
    obtain ⟨k, rfl⟩ := List.mem_ofFn.1 hmem
    exact ih k
  | many p ih => exact Watched.bounded_many ih
  | many1 p ih =>
    apply Watched.bounded_andThen ih
    intro a
    exact Watched.bounded_andThen (Watched.bounded_many ih) fun as =>
      Watched.bounded_quiet (Step.isLocal_pure (a :: as))
  | optional p default ih => exact Watched.bounded_optional ih default
  | convert p f ih =>
    apply Watched.bounded_andThen ih
    intro a
    exact Watched.bounded_quiet (Step.isLocal_give (.inr trivial))
  | label p description ih => exact ⟨Step.isLocal_label ih.isLocal description, ih.events⟩
  | hidden p ih => exact ⟨Step.isLocal_hidden ih.isLocal, ih.events⟩

/-- A report is placed in the text. -/
theorem parse_offset_le {p : Parser ε α} {s : String} {f : Failure} (h : p.parse s = .error (.failure f)) :
    0 ≤ f.offset ∧ f.offset ≤ s.length := by
  obtain ⟨r, i, hacts, hr, hi⟩ := p.run_isLocal s.toList.toArray (.inr trivial : p.Total ∨ True) 0
  simp only [Parser.parse, hacts none, Hint.none_add] at h
  cases r with
  | done a stop => cases h
  | fault cause => cases h
  | failed miss =>
    cases h
    have hwithin := hi.add (Hint.within_some hr)
    rw [Hint.add_explain] at hwithin
    have hplace := (hwithin _ rfl).bounds.2.1 (Nat.zero_le _)
    rw [List.size_toArray, String.length_toList] at hplace
    exact ⟨Int.natCast_nonneg _, Int.ofNat_le.2 hplace⟩

/-- **Runs end, and stay within the text.** From each offset, whatever hint is there, a total parser
comes back with a value or a mismatch, and no repetition on the way is broken off. The end, the
mismatch and each mismatch noted on the way are not before the offset, and not behind the end of
the text unless the offset is, in which case they are at the offset. So a round of a repetition
that moves on moves forward, a repetition is a finite chain of rounds, and a report is placed
in the text. -/
theorem run_ends_within (p : Parser ε α) (hp : p.Total) (text : Array Char) (o : Nat) (h : Hint) :
    (∃ r h', p.run text o h = (r, h') ∧ (p.watch text).step o h = (r, h') ∧ (∀ cause, r ≠ .fault cause) ∧
      .spent ∉ (p.watch text).log o h ∧
      (∀ e, (∃ a, r = .done a e) ∨ (∃ m, r = .failed m ∧ m.offset = e) ∨
          (∃ m, .noted m ∈ (p.watch text).log o h ∧ m.offset = e) →
        o ≤ e ∧ (o ≤ text.size → e ≤ text.size) ∧ (text.size < o → e = o)) ∧
      ∀ a stop, r = .done a stop → stop ≠ o → o < stop) ∧
    (∃ as last i, Step.Chain (p.run text) o as last i ∧ p.many.run text o h = (.done as last, h.add i)) ∧
    ∀ s f, p.parse s = .error (.failure f) → 0 ≤ f.offset ∧ f.offset ≤ s.length := by
  have hlocal := p.run_isLocal text (.inl hp : p.Total ∨ False)
  have hevents := (p.watch_bounded text).events o h
  obtain ⟨r, i, hacts, hr, _⟩ := hlocal o
  refine ⟨⟨r, h.add i, hacts h, ?_, ?_, ?_, ?_, ?_⟩, ?_, fun s f hf => parse_offset_le hf⟩
  · rw [p.watch_step]
    exact hacts h
  · intro cause hfault
    rw [hfault] at hr
    exact hr
  · exact fun hspent => hevents .spent hspent
  · intro e he
    apply Within.bounds
    obtain ⟨a, hdone⟩ | ⟨m, hfailed, hm⟩ | ⟨m, hnoted, hm⟩ := he
    · rw [hdone] at hr
      exact hr
    · rw [hfailed] at hr
      rw [← hm]
      exact hr
    · rw [← hm]
      exact hevents _ hnoted
  · intro a stop hdone hmoved
    rw [hdone] at hr
    exact Nat.lt_of_le_of_ne hr.1 (Ne.symm hmoved)
  · obtain ⟨as, last, j, hchain⟩ := hlocal.exists_chain o
    exact ⟨as, last, j, hchain, hchain.many (p.run_stays text) h⟩

/-- A repetition of something that may be empty, which is itself repeated, and a start past the end. -/
theorem run_ends_within_of_nested :
    let p : Parser Empty (List (List Char)) :=
      (((char "a" : Parser Empty Char).many.optional []).many.label "runs").hidden
    p.Total ∧ .spent ∉ (p.watch #['a', 'b']).log 0 none ∧
      (∃ as last i, Step.Chain (p.run #['a', 'b']) 0 as last i ∧
        p.many.run #['a', 'b'] 0 none = (.done as last, i)) ∧
      ∀ m, .noted m ∈ (p.watch #['a', 'b']).log 5 none → m.offset = 5 := by
  intro p
  have htotal : p.Total := trivial
  obtain ⟨⟨_, _, _, _, _, hspent, _, _⟩, hchain, _⟩ := run_ends_within p htotal #['a', 'b'] 0 none
  obtain ⟨⟨_, _, _, _, _, _, hplaces, _⟩, _, _⟩ := run_ends_within p htotal #['a', 'b'] 5 none
  refine ⟨htotal, hspent, hchain, fun m hm => ?_⟩
  exact (hplaces m.offset (.inr (.inr ⟨m, hm, rfl⟩))).2.2 (by decide)

end Parser
end BnfReader
