import BnfReader.Parser.Failure
import BnfReader.Proofs.Annotations
import BnfReader.Proofs.Watching

/-! No mismatch is lost.

A mismatch travels in one of two ways, as the reply of a step or as a hint, and the two are merged
at different moments: where a repetition or an option passes over it, where all branches of a
choice have failed, and in the report. In a parser without annotations the books balance all the
same (`Watched.Accounts`): the hint at the end of a step, with the mismatch of its reply, is the
hint at its start with the furthest of what primitives raised in between. Only a choice that
matches behind a failed branch drops mismatches, so such runs are set apart. -/
namespace BnfReader

/-! ### The furthest of many mismatches -/

/-- All mismatches of a list together. -/
def Hint.sum : List Mismatch → Hint
  | [] => none
  | m :: ms => Hint.add (some m) (Hint.sum ms)

theorem Hint.sum_append (ms ms' : List Mismatch) : Hint.sum (ms ++ ms') = (Hint.sum ms).add (Hint.sum ms') := by
  induction ms with
  | nil => rfl
  | cons m ms ih =>
    show Hint.add (some m) (Hint.sum (ms ++ ms')) = _
    rw [ih, ← Hint.add_assoc]
    rfl

theorem Hint.sum_eq_none {ms : List Mismatch} : Hint.sum ms = none ↔ ms = [] := by
  cases ms with
  | nil => exact iff_of_true rfl rfl
  | cons m ms =>
    have hsome : Hint.sum (m :: ms) ≠ none := by
      show Hint.add (some m) (Hint.sum ms) ≠ none
      cases Hint.sum ms <;> exact Option.some_ne_none _
    exact iff_of_false hsome (List.cons_ne_nil m ms)

/-- Of the mismatches, `offset` is the furthest, and `expected` lists in order and without
repetition what those at `offset` were looking for. -/
structure IsFurthest (ms : List Mismatch) (offset : Nat) (expected : List String) : Prop where
  reached : ∃ m ∈ ms, m.offset = offset
  bound : ∀ m ∈ ms, m.offset ≤ offset
  increasing : expected.Pairwise (· < ·)
  mem_iff : ∀ s, s ∈ expected ↔ ∃ m ∈ ms, m.offset = offset ∧ s ∈ m.expected

theorem isFurthest_singleton (x : Mismatch) : IsFurthest [x] x.offset x.expected.items := by
  refine ⟨⟨x, List.mem_singleton_self x, rfl⟩, fun m hm => ?_, x.expected.increasing, fun s => ?_⟩
  · exact Nat.le_of_eq (congrArg Mismatch.offset (List.mem_singleton.1 hm))
  · simp [Expected.mem_def]

/-- One mismatch more. -/
theorem IsFurthest.cons {ms : List Mismatch} {y : Mismatch} (h : IsFurthest ms y.offset y.expected.items)
    (x : Mismatch) : IsFurthest (x :: ms) (x.merge y).offset (x.merge y).expected.items := by
  obtain ⟨⟨z, hz, hoffset⟩, hbound, -, hmem⟩ := h
  simp only [← Expected.mem_def] at hmem
  refine ⟨?_, fun m hm => ?_, (x.merge y).expected.increasing, fun s => ?_⟩
  · rw [Mismatch.offset_merge]
    by_cases hle : y.offset ≤ x.offset
    · exact ⟨x, List.mem_cons_self, by omega⟩
    · exact ⟨z, List.mem_cons_of_mem x hz, by omega⟩
  · rw [Mismatch.offset_merge]
    rcases List.mem_cons.1 hm with rfl | hm
    · exact Nat.le_max_left ..
    · exact Nat.le_trans (hbound m hm) (Nat.le_max_right ..)
  · rw [← Expected.mem_def]
    rcases Nat.lt_trichotomy x.offset y.offset with hlt | heq | hgt
    · rw [Mismatch.merge_of_lt hlt, hmem]
      grind
    · rw [Mismatch.merge_of_eq heq, Expected.mem_union, hmem]
      grind
    · rw [Mismatch.merge_of_gt hgt]
      grind

theorem isFurthest_of_sum {ms : List Mismatch} {m : Mismatch} (h : Hint.sum ms = some m) :
    IsFurthest ms m.offset m.expected.items := by
  induction ms generalizing m with
  | nil => cases h
  | cons x ms ih =>
    rw [Hint.sum] at h
    cases hrest : Hint.sum ms with
    | none =>
      rw [hrest, Hint.add_none] at h
      cases h
      rw [Hint.sum_eq_none.1 hrest]
      exact isFurthest_singleton _
    | some y =>
      rw [hrest] at h
      cases h
      exact (ih hrest).cons x

/-- The mismatches that primitives raised. -/
def raised (log : List Event) : List Mismatch :=
  log.filterMap fun e => match e with
    | .raised miss => some miss
    | _ => none

theorem raised_append (log log' : List Event) : raised (log ++ log') = raised log ++ raised log' :=
  List.filterMap_append

/-! ### The balance of a step -/

/-- What is known when a step is over: its hint, and its mismatch if it did not match. -/
def Reply.known {ε α : Type} : Reply ε α → Hint → Hint
  | .failed miss, hint => hint.add (some miss)
  | _, hint => hint

namespace Watched
variable {ε α β : Type}

/-- Where no choice was late, what is known at the end is what was known at the start together
with all that was raised. -/
def Accounts (w : Watched ε α) : Prop :=
  ∀ ⦃o h r h'⦄, w.step o h = (r, h') → .late ∉ w.log o h → (∀ cause, r ≠ .fault cause) →
    r.known h' = h.add (Hint.sum (raised (w.log o h)))

theorem Accounts.done {w : Watched ε α} (hw : w.Accounts) {o stop : Nat} {h h' : Hint} {a : α}
    (hrun : w.step o h = (.done a stop, h')) (hlate : .late ∉ w.log o h) :
    h' = h.add (Hint.sum (raised (w.log o h))) :=
  hw hrun hlate (by simp)

theorem Accounts.failed {w : Watched ε α} (hw : w.Accounts) {o : Nat} {h h' : Hint} {miss : Mismatch}
    (hrun : w.step o h = (.failed miss, h')) (hlate : .late ∉ w.log o h) :
    h'.add (some miss) = h.add (Hint.sum (raised (w.log o h))) :=
  hw hrun hlate (by simp)

/-- A mismatch that is passed over is raised before and noted then, and counts once. -/
theorem Accounts.passed {w : Watched ε α} (hw : w.Accounts) {o : Nat} {h h' : Hint} {miss : Mismatch}
    (hrun : w.step o h = (.failed miss, h')) (hlate : .late ∉ w.log o h) :
    h'.note miss = h.add (Hint.sum (raised (w.log o h ++ [.noted miss]))) := by
  rw [Hint.note_eq_add, raised_append, show raised [Event.noted miss] = [] from rfl, List.append_nil]
  exact hw.failed hrun hlate

theorem accounts_pure (a : α) : (quiet (Step.pure a) : Watched ε α).Accounts := by
  intro o h r h' hrun _ _
  cases hrun
  exact (Hint.add_none h).symm

theorem accounts_give (x : Except ε α) : (quiet (Step.give x)).Accounts := by
  intro o h r h' hrun _ _
  cases x with
  | ok a =>
    cases hrun
    exact (Hint.add_none h).symm
  | error e =>
    cases hrun
    exact (Hint.add_none h).symm

/-- A primitive leaves the hint alone and raises what it replies. -/
theorem accounts_primitive {p : Step ε α} (hp : ∀ o h, (p o h).2 = h) : (primitive p).Accounts := by
  intro o h r h' hrun _ _
  have hrun : p o h = (r, h') := hrun
  have hsame : h' = h := by
    rw [← hp o h, hrun]
  subst hsame
  simp only [primitive, hrun]
  cases r with
  | failed miss => rfl
  | done a stop => exact (Hint.add_none h').symm
  | fault cause => exact (Hint.add_none h').symm

theorem accounts_andThen {p : Watched ε α} {next : α → Watched ε β} (hp : p.Accounts)
    (hn : ∀ a, (next a).Accounts) : (p.andThen next).Accounts := by
  intro o h r h' hrun hlate hfault
  cases hfirst : p.step o h with
  | mk r₁ h₁ =>
    simp only [andThen, Step.andThen, hfirst] at hrun hlate ⊢
    have hlate₁ : .late ∉ p.log o h := fun hmem => hlate (List.mem_append_left _ hmem)
    cases r₁ with
    | done a stop =>
      have hknown := hp.done hfirst hlate₁
      have hrest := hn a hrun (fun hmem => hlate (List.mem_append_right _ hmem)) hfault
      rw [hrest, hknown, raised_append, Hint.sum_append, Hint.add_assoc]
    | failed miss =>
      cases hrun
      rw [List.append_nil]
      exact hp.failed hfirst hlate₁
    | fault cause =>
      cases hrun
      exact absurd rfl (hfault cause)

theorem accounts_all {ps : List (Watched ε α)} (hps : ∀ p ∈ ps, p.Accounts) : (all ps).Accounts := by
  induction ps with
  | nil => exact accounts_pure []
  | cons p ps ih =>
    have hrest := ih fun q hq => hps q (List.mem_cons_of_mem p hq)
    apply accounts_andThen (hps p List.mem_cons_self)
    intro a
    exact accounts_andThen hrest fun as => accounts_pure (a :: as)

/-- The mismatches of the branches before are known too. -/
theorem firstOf_accounts {ps : List (Watched ε α)} (hps : ∀ p ∈ ps, p.Accounts) {best h h' : Hint} {o : Nat}
    {r : Reply ε α} (hrun : Step.firstOf (ps.map step) best o h = (r, h'))
    (hlate : .late ∉ firstOfLog ps best.isSome o h) (hfault : ∀ cause, r ≠ .fault cause) :
    r.known h' = (h.add best).add (Hint.sum (raised (firstOfLog ps best.isSome o h))) := by
  induction ps generalizing best h with
  | nil =>
    cases best with
    | none =>
      cases hrun
      exact absurd rfl (hfault .noBranch)
    | some miss =>
      cases hrun
      exact (Hint.add_none _).symm
  | cons p ps ih =>
    have hp := hps p List.mem_cons_self
    cases hfirst : p.step o h with
    | mk r₁ h₁ =>
      simp only [List.map_cons, Step.firstOf, firstOfLog, hfirst] at hrun hlate ⊢
      have hlate₁ : .late ∉ p.log o h := fun hmem => hlate (List.mem_append_left _ hmem)
      cases r₁ with
      | failed miss =>
        have hsome : (best.note miss).isSome = true := by cases best <;> rfl
        have hknown := hp.failed hfirst hlate₁
        have hrest := ih (fun q hq => hps q (List.mem_cons_of_mem p hq)) hrun
          (by rw [hsome]; exact fun hmem => hlate (List.mem_append_right _ hmem))
        rw [hsome] at hrest
        -- The branch's mismatch, which `best` takes along, belongs with the hint that it left.
        calc r.known h' = (h₁.add (best.add (some miss))).add _ := by rw [hrest, Hint.note_eq_add]
          _ = ((h₁.add (some miss)).add best).add _ := by rw [← Hint.add_assoc, Hint.add_right_comm h₁]
          _ = _ := by
            rw [hknown, Hint.add_right_comm h, Hint.add_assoc _ (Hint.sum _), ← Hint.sum_append, ← raised_append]
      | done a stop =>
        cases best with
        | none =>
          cases hrun
          show h' = (h.add none).add (Hint.sum (raised (p.log o h ++ [])))
          rw [Hint.add_none, List.append_nil]
          exact hp.done hfirst hlate₁
        | some b => exact absurd (List.mem_append_right _ (List.mem_singleton_self _)) hlate
      | fault cause =>
        cases hrun
        exact absurd rfl (hfault cause)

theorem accounts_firstOf {ps : List (Watched ε α)} (hps : ∀ p ∈ ps, p.Accounts) : (firstOf ps).Accounts := by
  intro o h r h' hrun hlate hfault
  have hknown : r.known h' = (h.add none).add _ := firstOf_accounts hps hrun hlate hfault
  rwa [Hint.add_none] at hknown

theorem manyFrom_accounts {p : Watched ε α} (hp : p.Accounts) {budget o : Nat} {seen : List α} {h h' : Hint}
    {r : Reply ε (List α)} (hrun : Step.manyFrom p.step budget seen o h = (r, h'))
    (hlate : .late ∉ p.manyLog budget o h) (hfault : ∀ cause, r ≠ .fault cause) :
    r.known h' = h.add (Hint.sum (raised (p.manyLog budget o h))) := by
  induction budget using Nat.strongRecOn generalizing seen o h with
  | _ budget ih =>
    cases hfirst : p.step o h with
    | mk r₁ h₁ =>
      unfold manyLog at hlate ⊢
      unfold Step.manyFrom at hrun
      simp only [hfirst] at hrun hlate ⊢
      have hlate₁ : .late ∉ p.log o h := fun hmem => hlate (List.mem_append_left _ hmem)
      cases r₁ with
      | failed miss =>
        cases hrun
        exact hp.passed hfirst hlate₁
      | fault cause =>
        cases hrun
        exact absurd rfl (hfault cause)
      | done a stop =>
        have hknown := hp.done hfirst hlate₁
        dsimp only at hrun hlate ⊢
        split at hrun
        next hidle =>
          cases hrun
          rw [if_pos hidle, List.append_nil]
          exact hknown
        next hmoved =>
          rw [if_neg hmoved] at hlate ⊢
          cases budget with
          | zero =>
            cases hrun
            rw [raised_append, show raised [Event.spent] = [] from rfl, List.append_nil]
            exact hknown
          | succ budget =>
            have hrest := ih budget (Nat.lt_succ_self _) hrun fun hmem => hlate (List.mem_append_right _ hmem)
            rw [hrest, hknown, raised_append, Hint.sum_append, Hint.add_assoc]

theorem accounts_many {p : Watched ε α} (hp : p.Accounts) (text : Array Char) : (many text p).Accounts :=
  fun _ _ _ _ hrun hlate hfault => manyFrom_accounts hp hrun hlate hfault

theorem accounts_optional {p : Watched ε α} (hp : p.Accounts) (default : α) : (optional p default).Accounts := by
  intro o h r h' hrun hlate hfault
  cases hfirst : p.step o h with
  | mk r₁ h₁ =>
    simp only [optional, Step.optional, hfirst] at hrun hlate ⊢
    have hlate₁ : .late ∉ p.log o h := fun hmem => hlate (List.mem_append_left _ hmem)
    cases r₁ with
    | done a stop =>
      cases hrun
      rw [List.append_nil]
      exact hp.done hfirst hlate₁
    | failed miss =>
      cases hrun
      exact hp.passed hfirst hlate₁
    | fault cause =>
      cases hrun
      exact absurd rfl (hfault cause)

end Watched

namespace Step
variable {ε : Type} (text : Array Char)

/-! ### Primitives leave the hint alone -/

theorem satisfy_hint (accepts : Char → Bool) (description : String) (o : Nat) (h : Hint) :
    (satisfy text accepts description o h : Reply ε Char × Hint).2 = h := by
  unfold satisfy
  split
  · split <;> rfl
  · rfl

theorem string_hint (s : String) (o : Nat) (h : Hint) : (string text s o h : Reply ε String × Hint).2 = h := by
  unfold string
  dsimp only
  split <;> rfl

theorem eof_hint (o : Nat) (h : Hint) : (eof text o h : Reply ε Unit × Hint).2 = h := by
  unfold eof
  split <;> rfl

end Step

namespace Parser
variable {ε α : Type}

theorem watch_accounts {p : Parser ε α} (hp : p.Plain) (text : Array Char) : (p.watch text).Accounts := by
  induction p with
  | satisfy accepts description => exact Watched.accounts_primitive (Step.satisfy_hint text accepts description)
  | string s => exact Watched.accounts_primitive (Step.string_hint text s)
  | eof => exact Watched.accounts_primitive (Step.eof_hint text)
  | both p q ihp ihq =>
    apply Watched.accounts_andThen (ihp hp.1)
    intro a
    exact Watched.accounts_andThen (ihq hp.2) fun b => Watched.accounts_pure (a, b)
  | all ps ih =>
    apply Watched.accounts_all
    intro w hmem
    obtain ⟨k, rfl⟩ := List.mem_ofFn.1 hmem
    exact ih k (hp k)
  | firstOf ps ih =>
    apply Watched.accounts_firstOf
    intro w hmem
    obtain ⟨k, rfl⟩ := List.mem_ofFn.1 hmem
    exact ih k (hp k)
  | many p ih => exact Watched.accounts_many (ih hp) text
  | many1 p ih =>
    apply Watched.accounts_andThen (ih hp)
    intro a
    exact Watched.accounts_andThen (Watched.accounts_many (ih hp) text) fun as => Watched.accounts_pure (a :: as)
  | optional p default ih => exact Watched.accounts_optional (ih hp) default
  | convert p f ih =>
    apply Watched.accounts_andThen (ih hp)
    intro a
    exact Watched.accounts_give (f a)
  | label p description ih => exact absurd hp id
  | hidden p ih => exact absurd hp id

/-- **No mismatch is lost**: take a parser without annotations and a text that it reads with no
choice matching behind a failed branch. A report is at the furthest offset at which a primitive
did not match anywhere in the run, and expects, in order and without repetition, just what the
primitives that did not match there were looking for. A match leaves no hint if all primitives
matched, and otherwise the hint that says the same. -/
theorem parse_furthest (p : Parser ε α) (hp : p.Plain) (s : String) :
    let text := s.toList.toArray
    let log := (p.watch text).log 0 none
    (p.watch text).step = p.run text ∧ (.late ∉ log →
      (∀ f, p.parse s = .error (.failure f) → ∃ o : Nat, f.offset = o ∧ IsFurthest (raised log) o f.expected) ∧
      ∀ a stop hint, p.run text 0 none = (.done a stop, hint) →
        (hint = none ↔ raised log = []) ∧ ∀ m ∈ hint, IsFurthest (raised log) m.offset m.expected.items) := by
  intro text log
  refine ⟨p.watch_step text, fun hlate => ⟨fun f hf => ?_, fun a stop hint hrun => ?_⟩⟩
  · cases hrun : p.run text 0 none with
    | mk r hint =>
      have hstep : (p.watch text).step 0 none = (r, hint) := by
        rw [p.watch_step, hrun]
      simp only [Parser.parse, show p.run s.toList.toArray 0 none = _ from hrun] at hf
      cases r with
      | done a stop => cases hf
      | fault cause => cases hf
      | failed miss =>
        cases hf
        have hknown : hint.add (some miss) = Hint.sum (raised log) := (watch_accounts hp text).failed hstep hlate
        rw [Hint.add_explain] at hknown
        exact ⟨_, rfl, isFurthest_of_sum hknown.symm⟩
  · have hstep : (p.watch text).step 0 none = (.done a stop, hint) := by
      rw [p.watch_step, hrun]
    have hknown : hint = Hint.sum (raised log) := (watch_accounts hp text).done hstep hlate
    rw [hknown]
    exact ⟨Hint.sum_eq_none, fun m hm => isFurthest_of_sum hm⟩

/-- The end of a repetition and two branches of a choice, all at one offset, and a mismatch before. -/
theorem parse_furthest_of_branches :
    let p : Parser Empty (List Char × Char) :=
      ((char "z" : Parser Empty Char).optional 'z' *> (char "a" : Parser Empty Char).many).both
        (char "c" <|> char "b")
    let log := (p.watch #['a', 'x']).log 0 none
    p.Plain ∧ .late ∉ log ∧ raised log =
        [⟨0, .only "'z'"⟩, ⟨1, .only "'a'"⟩, ⟨1, .only "'c'"⟩, ⟨1, .only "'b'"⟩] ∧
      p.parse "ax" = .error (.failure ⟨1, 1, 2, ["'a'", "'b'", "'c'"], some "x"⟩) ∧
      IsFurthest (raised log) 1 ["'a'", "'b'", "'c'"] := by
  intro p log
  have hplain : p.Plain := by
    refine ⟨⟨trivial, trivial⟩, fun k => ?_⟩
    match k with
    | 0 => trivial
    | 1 => trivial
  have hlate : .late ∉ log := by decide +kernel
  have hraised : raised log = [⟨0, .only "'z'"⟩, ⟨1, .only "'a'"⟩, ⟨1, .only "'c'"⟩, ⟨1, .only "'b'"⟩] := by
    decide +kernel
  have hrun : p.run #['a', 'x'] 0 none =
      (.failed ⟨1, .ofList ["'b'", "'c'"]⟩, some ⟨1, .only "'a'"⟩) := by
    decide +kernel
  have hparse : p.parse "ax" = .error (.failure ⟨1, 1, 2, ["'a'", "'b'", "'c'"], some "x"⟩) := by
    simp only [Parser.parse, show "ax".toList.toArray = #['a', 'x'] from rfl, hrun]
    exact congrArg (Except.error ∘ Rejection.failure) (by decide +kernel)
  obtain ⟨o, ho, hfurthest⟩ := ((parse_furthest p hplain "ax").2 hlate).1 _ hparse
  cases ho
  exact ⟨hplain, hlate, hraised, hparse, hfurthest⟩

-- Behind a failed branch a choice that matches drops a mismatch: the `x` at 1 is not reported.
example : ((((char "a" *> char "x" : Parser Empty Char) <|> char "a") *> char "c" : Parser Empty Char).run
    #['a', 'b'] 0 none) = (.failed ⟨1, .only "'c'"⟩, none) := by
  decide +kernel

end Parser
end BnfReader
