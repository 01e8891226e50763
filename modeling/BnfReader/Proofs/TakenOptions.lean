import BnfReader.Command.Arguments
import BnfReader.Proofs.WholeNumbers
import BnfReader.Proofs.WireForm
import Mathlib.Data.List.TakeDrop
import Mathlib.Data.List.TakeWhile

/-! What options come to.

However options are written, a value counts as taken only after it went through the check of the option it
stands behind (`Shape.take_checked`).

Written in full, options are taken one after the other (`Shape.take_written`). An option that has a
value is written in full (`Shape.Written`) if its whole spelling comes first and the value stands behind
an equals sign, or alone if it cannot be an option itself. -/
namespace BnfReader

/-- Each value went through the check of an option it belongs to. -/
def Taken.Checked (shape : Shape) (t : Taken) : Prop :=
  ∀ key v, (key, some v) ∈ t.values →
    ∃ o ∈ shape.options, o.key = key ∧ ∃ problem?, o.kind = .value problem? ∧ problem? v = none

theorem Taken.Checked.of_values {shape : Shape} {t t' : Taken} (ht : t.Checked shape) (h : t'.values = t.values) :
    t'.Checked shape := by
  rwa [Taken.Checked, h]

/-- All options that are seen are of this shape. -/
def Shape.Sorted (shape : Shape) (args : List (String × Sight)) : Prop :=
  ∀ a ∈ args, ∀ o attached, a.2 = .option (some o) attached → o ∈ shape.options

namespace Shape
variable {shape : Shape}

/-! ### Sorting -/

theorem mem_options_of_spelling {spelling : String} {o : CommandOption} (h : (spelling, o) ∈ shape.spellings) :
    o ∈ shape.options := by
  obtain ⟨o', ho', hspelling⟩ := List.mem_flatMap.1 h
  obtain ⟨s, -, hpair⟩ := List.mem_map.1 hspelling
  cases hpair
  exact ho'

theorem mem_spellings_of_lookup {spelling : String} {o : CommandOption}
    (h : shape.spellings.lookup spelling = some o) : (spelling, o) ∈ shape.spellings := by
  obtain ⟨before, after, hsplit, -⟩ := List.lookup_eq_some_iff.1 h
  rw [hsplit]
  exact List.mem_append_right before List.mem_cons_self

theorem mem_options_of_lookup {spelling : String} {o : CommandOption}
    (h : shape.spellings.lookup spelling = some o) : o ∈ shape.options :=
  mem_options_of_spelling (mem_spellings_of_lookup h)

theorem mem_options_of_candidate {cs : List Char} {candidate : CommandOption × String × Attached}
    (h : candidate ∈ shape.candidates cs) : candidate.1 ∈ shape.options := by
  unfold candidates at h
  split at h
  next =>
    obtain ⟨⟨s, o⟩, hmem, hcandidate⟩ := List.mem_filterMap.1 h
    simp only [Option.ite_none_right_eq_some, Option.some.injEq] at hcandidate
    rw [← hcandidate.2]
    exact mem_options_of_spelling hmem
  next =>
    obtain ⟨⟨s, o⟩, hmem, hcandidate⟩ := List.mem_filterMap.1 h
    dsimp only at hcandidate
    split at hcandidate
    next =>
      cases hcandidate
      exact mem_options_of_spelling hmem
    next =>
      simp only [Option.ite_none_right_eq_some, Option.some.injEq] at hcandidate
      rw [← hcandidate.2]
      exact mem_options_of_spelling hmem

/-- An option that is seen is one of the shape. -/
theorem classify_option {arg : String} {o : CommandOption} {attached : Attached}
    (h : shape.classify arg = .ok (.option (some o) attached)) : o ∈ shape.options := by
  unfold classify at h
  extract_lets cs at h
  split at h
  next => cases h
  next =>
    split at h
    next hlookup =>
      cases h
      exact mem_options_of_lookup hlookup
    next =>
      split at h
      next => cases h
      next =>
        dsimp only at h
        split at h
        next hvalue =>
          cases h
          obtain ⟨v, -, hfound⟩ := Option.bind_eq_some_iff.1 hvalue
          obtain ⟨o', hlookup, hpair⟩ := Option.map_eq_some_iff.1 hfound
          cases hpair
          exact mem_options_of_lookup hlookup
        next =>
          split at h
          next hcandidates =>
            cases h
            exact mem_options_of_candidate (hcandidates ▸ List.mem_singleton_self _)
          next =>
            split at h
            next => cases h
            next => cases h
          next => cases h

theorem classifyAll_sorted {args : List String} {sorted : List (String × Sight)}
    (h : shape.classifyAll args = .ok sorted) : shape.Sorted sorted := by
  induction args generalizing sorted with
  | nil =>
    cases h
    exact List.forall_mem_nil _
  | cons arg args ih =>
    rw [classifyAll] at h
    split at h
    next =>
      cases h
      simp [Sorted]
    next =>
      obtain ⟨sight, hsight, h⟩ := bind_ok.1 h
      obtain ⟨rest, hrest, h⟩ := bind_ok.1 h
      cases h
      refine List.forall_mem_cons.2 ⟨fun o attached heq => ?_, ih hrest⟩
      rw [show sight = .option (some o) attached from heq] at hsight
      exact classify_option hsight

/-! ### Taking -/

/-- Options with their values taken one after the other. -/
def takeValues (shape : Shape) (given : List (CommandOption × String)) (t : Taken) : Except Halt Taken :=
  given.foldlM (fun t g => shape.takeValue g.1 g.2 t) t

theorem takeValues_cons (g : CommandOption × String) (given : List (CommandOption × String)) (t : Taken) :
    shape.takeValues (g :: given) t = shape.takeValue g.1 g.2 t >>= shape.takeValues given :=
  List.foldlM_cons

/-- What a value gives: two dashes give nothing. -/
def givenBy (v : String) : Option String := if v = "--" then none else some v

section
variable {o : CommandOption} {v letters : String} {t t' : Taken} {args rest : List (String × Sight)}
  {operand : List String}

theorem takeValue_checked (ho : o ∈ shape.options) (ht : t.Checked shape)
    (h : shape.takeValue o v t = .ok t') : t'.Checked shape := by
  unfold takeValue at h
  split at h
  next problem? hkind =>
    split at h
    next =>
      cases h
      intro key w hw
      obtain heq | hw := List.mem_cons.1 hw
      · cases heq
      · exact ht key w hw
    next =>
      split at h
      next => cases h
      next hproblem =>
        cases h
        intro key w hw
        obtain heq | hw := List.mem_cons.1 hw
        · cases heq
          exact ⟨o, ho, rfl, problem?, hkind, hproblem⟩
        · exact ht key w hw
  next =>
    cases h
    exact ht

theorem takeValue_eq {problem? : String → Option String} (hkind : o.kind = .value problem?) (hv : problem? v = none) :
    shape.takeValue o v t = .ok { t with values := (o.key, givenBy v) :: t.values } := by
  simp only [takeValue, hkind, hv, givenBy]
  split
  next => rfl
  next => rfl

theorem takeValue_of_problem {problem? : String → Option String} {problem : String} (hkind : o.kind = .value problem?)
    (hdashes : v ≠ "--") (hv : problem? v = some problem) :
    shape.takeValue o v t = shape.misuseOf o.title problem := by
  simp only [takeValue, hkind, if_neg hdashes, hv]

/-- Taking a value fails with a misuse only. -/
theorem takeValue_ok_or_misuse (o : CommandOption) (v : String) (t : Taken) :
    (∃ t', shape.takeValue o v t = .ok t') ∨
      ∃ message, shape.takeValue o v t = .error (.misuse shape.program message) := by
  unfold takeValue
  split
  next =>
    split
    next => exact .inl ⟨_, rfl⟩
    next =>
      split
      next => exact .inr ⟨_, rfl⟩
      next => exact .inl ⟨_, rfl⟩
  next => exact .inl ⟨_, rfl⟩

/-- If one of several values is refused, taking all of them fails with a misuse. -/
theorem takeValues_misuse {given : List (CommandOption × String)} {g : CommandOption × String} (hg : g ∈ given)
    (hrefused : ∀ t, ∃ message, shape.takeValue g.1 g.2 t = .error (.misuse shape.program message)) (t : Taken) :
    ∃ message, shape.takeValues given t = .error (.misuse shape.program message) := by
  induction given generalizing t with
  | nil => cases hg
  | cons g' given ih =>
    rw [takeValues_cons]
    obtain ⟨t', hvalue⟩ | ⟨message, hvalue⟩ := shape.takeValue_ok_or_misuse g'.1 g'.2 t
    · obtain rfl | hg := List.mem_cons.1 hg
      · obtain ⟨message, hmisuse⟩ := hrefused t
        cases hmisuse.symm.trans hvalue
      · rw [hvalue]
        exact ih hg t'
    · rw [hvalue]
      exact ⟨message, rfl⟩

theorem takeFlag_values (h : shape.takeFlag o t = .ok t') : t'.values = t.values := by
  unfold takeFlag at h
  split at h
  next => cases h
  next =>
    cases h
    rfl

theorem takeFlags_values (h : shape.takeFlags o letters t = .ok t') : t'.values = t.values := by
  have hfold : ∀ (os : List CommandOption) (t : Taken), os.foldlM (fun t o => shape.takeFlag o t) t = .ok t' →
      t'.values = t.values := by
    intro os
    induction os with
    | nil =>
      intro t h
      cases h
      rfl
    | cons o os ih =>
      intro t h
      obtain ⟨t₁, hflag, h⟩ := bind_ok.1 h
      exact (ih t₁ h).trans (takeFlag_values hflag)
  unfold takeFlags at h
  split at h
  next => cases h
  next =>
    obtain ⟨os, -, h⟩ := bind_ok.1 h
    exact hfold os t h

theorem takeOperand_subset (h : shape.takeOperand args = some (operand, rest)) : rest ⊆ args := by
  unfold takeOperand at h
  extract_lets isDashes at h
  split at h
  next arg behind hfront =>
    have hbehind : behind ⊆ args := fun a ha =>
      List.dropWhile_subset isDashes (hfront ▸ List.mem_cons_of_mem _ ha)
    split at h
    next => cases h
    next =>
      cases h
      exact List.Subset.trans (List.dropWhile_subset isDashes) hbehind
    next =>
      cases h
      exact List.nil_subset args
  next => cases h

/-- A run takes no value without its check, whatever else it takes. -/
theorem takeFrom_checked {fuel : Nat} (hargs : shape.Sorted args) (ht : t.Checked shape)
    (h : shape.takeFrom fuel t args = .ok t') : t'.Checked shape := by
  -- Cases 4 to 6 take a value, 9 and 10 a flag, 11 the operand; the others leave what was taken.
  fun_induction shape.takeFrom fuel t args with
  | case1 | case2 =>
    cases h
    exact ht
  | case3 _ _ _ _ _ ih => exact ih (List.forall_mem_cons.1 hargs).2 ht h
  | case4 _ _ _ o rest _ v _ ih | case5 _ _ _ o rest _ v _ ih =>
    obtain ⟨ho, hrest⟩ := List.forall_mem_cons.1 hargs
    obtain ⟨t₁, hvalue, h⟩ := bind_ok.1 h
    exact ih t₁ hrest (takeValue_checked (ho o _ rfl) ht hvalue) h
  | case6 _ _ _ o _ v rest _ ih =>
    obtain ⟨ho, hrest⟩ := List.forall_mem_cons.1 hargs
    obtain ⟨t₁, hvalue, h⟩ := bind_ok.1 h
    exact ih t₁ (List.forall_mem_cons.1 hrest).2 (takeValue_checked (ho o _ rfl) ht hvalue) h
  | case7 | case8 => cases h
  | case9 _ _ _ o rest v _ ih =>
    obtain ⟨t₁, hflags, h⟩ := bind_ok.1 h
    exact ih t₁ (List.forall_mem_cons.1 hargs).2 (ht.of_values (takeFlags_values hflags)) h
  | case10 _ _ _ o rest _ _ ih =>
    obtain ⟨t₁, hflag, h⟩ := bind_ok.1 h
    exact ih t₁ (List.forall_mem_cons.1 hargs).2 (ht.of_values (takeFlag_values hflag)) h
  | case11 _ t arg sight behind _ _ operand rest hoperand ih =>
    obtain ⟨-, -, h⟩ := bind_ok.1 h
    have hsubset : rest ⊆ (arg, sight) :: behind := by
      split at hoperand
      next => exact takeOperand_subset hoperand
      next => cases hoperand
    exact ih (fun a ha => hargs a (hsubset ha)) ht h
  | case12 _ _ _ _ rest _ _ _ ih => exact ih (List.forall_mem_cons.1 hargs).2 ht h

/-- Every value that is taken has been checked. -/
theorem take_checked {words : List String} (h : shape.take words = .ok t) : t.Checked shape := by
  obtain ⟨sorted, hsorted, h⟩ := bind_ok.1 h
  obtain ⟨t₁, hrun, h⟩ := bind_ok.1 h
  have ht₁ : t₁.Checked shape := takeFrom_checked (classifyAll_sorted hsorted) (by intro _ _ hmem; cases hmem) hrun
  split at h
  next =>
    split at h
    next => cases h
    next =>
      cases h
      exact ht₁
  next =>
    cases h
    exact ht₁

end

/-! ### Options written in full -/

/-- A value that may stand alone: it does not begin with a dash, unless only digits follow. -/
def StandsAlone (v : String) : Prop :=
  v.toList.head? ≠ some '-' ∨ ∃ d ds, v.toList = '-' :: d :: ds ∧ ∀ c ∈ d :: ds, c.isDigit = true

/-- Nothing but an option is spelled like one: no spelling has an equals sign or begins like a
negative number. -/
def Plain (shape : Shape) : Prop :=
  ∀ s ∈ shape.spellings, '=' ∉ s.1.toList ∧ s.1.toList[1]?.any Char.isDigit = false

/-- A spelling of an option with a value, with two dashes in front. -/
structure Spells (shape : Shape) (spelling : String) (o : CommandOption) : Prop where
  lookup : shape.spellings.lookup spelling = some o
  long : ∃ c name, spelling.toList = '-' :: '-' :: c :: name
  value : ∃ problem?, o.kind = .value problem?

/-- Options with their values as they are written in full. -/
inductive Written (shape : Shape) : List (CommandOption × String) → List String → Prop where
  | nil : Written shape [] []
  | joined {spelling v : String} {o : CommandOption} {given : List (CommandOption × String)} {words : List String} :
      shape.Spells spelling o → Written shape given words →
      Written shape ((o, v) :: given) ((spelling ++ "=" ++ v) :: words)
  | apart {spelling v : String} {o : CommandOption} {given : List (CommandOption × String)} {words : List String} :
      shape.Spells spelling o → StandsAlone v → Written shape given words →
      Written shape ((o, v) :: given) (spelling :: v :: words)

section
variable {spelling v : String} {o : CommandOption} {cs : List Char}

/-- A dash and digits are all there is. -/
theorem not_mem_of_isDigit {ds : List Char} (h : ∀ c ∈ ds, c.isDigit = true) {c : Char} (hdash : c ≠ '-')
    (hc : c.isDigit = false) : c ∉ '-' :: ds := by
  intro hmem
  obtain heq | hmem := List.mem_cons.1 hmem
  · exact hdash heq
  · rw [h c hmem] at hc
    cases hc

theorem isNegativeNumber_of_isDigit {d : Char} {ds : List Char} (h : ∀ c ∈ d :: ds, c.isDigit = true) :
    isNegativeNumber ('-' :: d :: ds) = true := by
  have hlast : ('-' :: d :: ds).getLast? ≠ some '\n' := fun hlast =>
    not_mem_of_isDigit h (by decide) (by decide) (List.mem_of_getLast? hlast)
  have hdigits : (d :: ds).dropWhile (fun c => (Text.digit? c).isSome) = [] := by
    rw [List.dropWhile_eq_nil_iff]
    intro c hc
    rw [Text.digit?_of_isDigit (h c hc)]
    rfl
  simp only [isNegativeNumber, if_neg hlast, hdigits]
  rfl

theorem StandsAlone.ne_dashes (h : StandsAlone v) : v ≠ "--" := by
  rintro rfl
  obtain h | ⟨d, ds, hcs, hdigits⟩ := h
  · exact h rfl
  · cases hcs
    exact absurd (hdigits '-' List.mem_cons_self) (by decide)

/-- Whole numbers may stand alone. -/
theorem standsAlone_toString (n : Int) : StandsAlone (toString n) := by
  cases n with
  | ofNat m =>
    obtain ⟨d, ds, hds, hdigits⟩ := Json.exists_digit m
    refine .inl fun hhead => ?_
    rw [Json.toList_toString_ofNat, hds] at hhead
    obtain rfl : d = '-' := Option.some.inj hhead
    exact absurd (hdigits '-' List.mem_cons_self) (by decide)
  | negSucc m =>
    obtain ⟨d, ds, hds, hdigits⟩ := Json.exists_digit (m + 1)
    exact .inr ⟨d, ds, by rw [Json.toList_toString_negSucc, hds], hdigits⟩

theorem splitEquals_of_not_mem (h : '=' ∉ cs) : splitEquals cs = (cs, none) := by
  have hall : ∀ c ∈ cs, (c != '=') = true := fun c hc => bne_iff_ne.2 fun heq => h (heq ▸ hc)
  rw [splitEquals, List.span_eq_takeWhile_dropWhile, List.takeWhile_eq_self_iff.2 hall,
    List.dropWhile_eq_nil_iff.2 hall]

theorem splitEquals_append (h : '=' ∉ cs) (v : List Char) : splitEquals (cs ++ '=' :: v) = (cs, some v) := by
  have hall : ∀ c ∈ cs, (c != '=') = true := fun c hc => bne_iff_ne.2 fun heq => h (heq ▸ hc)
  rw [splitEquals, List.span_eq_takeWhile_dropWhile, List.takeWhile_append_of_pos hall,
    List.dropWhile_append_of_pos hall]
  simp

theorem toList_joined (spelling v : String) :
    (spelling ++ "=" ++ v).toList = spelling.toList ++ '=' :: v.toList := by
  rw [String.toList_append, String.toList_append, List.append_assoc]
  rfl

theorem lookup_eq_none (h : ∀ s ∈ shape.spellings, s.1 ≠ v) : shape.spellings.lookup v = none := by
  rw [List.lookup_eq_none_iff]
  intro s hs
  simpa using (h s hs).symm

/-- What begins like a negative number shortens no spelling. -/
theorem candidates_of_digit {d : Char} {ds : List Char} (hdash : d ≠ '-')
    (h : ∀ s ∈ shape.spellings, s.1.toList[1]? ≠ some d) : shape.candidates ('-' :: d :: ds) = [] := by
  unfold candidates
  split
  next heq => exact absurd (List.cons.inj (List.cons.inj heq).2).1 hdash
  next =>
    rw [List.filterMap_eq_nil_iff]
    intro ⟨s, o⟩ hs
    dsimp only
    rw [if_neg, if_neg]
    · intro hprefix
      obtain ⟨more, hmore⟩ := List.isPrefixOf_iff_prefix.1 hprefix
      exact h _ hs (by rw [← hmore]; rfl)
    · intro heq
      exact h _ hs (by rw [heq]; rfl)

/-- A value that stands alone is not seen as an option. -/
theorem classify_standsAlone (hshape : shape.Plain) (hv : StandsAlone v) : shape.classify v = .ok .other := by
  obtain hhead | ⟨d, ds, hcs, hdigits⟩ := hv
  · simp only [classify, if_pos hhead]
  have hd : d.isDigit = true := hdigits d List.mem_cons_self
  have hdash : d ≠ '-' := by
    rintro rfl
    exact absurd hd (by decide)
  have hsecond : ∀ s ∈ shape.spellings, s.1.toList[1]? ≠ some d := by
    intro s hs heq
    have hnumber := (hshape s hs).2
    rw [heq, Option.any_some, hd] at hnumber
    cases hnumber
  have hlookup : shape.spellings.lookup v = none :=
    lookup_eq_none fun s hs heq => hsecond s hs (by rw [heq, hcs]; rfl)
  have hequals : '=' ∉ '-' :: d :: ds := not_mem_of_isDigit hdigits (by decide) (by decide)
  simp [classify, hcs, hlookup, splitEquals_of_not_mem hequals, candidates_of_digit hdash hsecond,
    isNegativeNumber_of_isDigit hdigits]

theorem Spells.append_ne_dashes (hs : shape.Spells spelling o) (tail : String) : spelling ++ tail ≠ "--" := by
  intro heq
  obtain ⟨c, name, hlong⟩ := hs.long
  have hlist := congrArg String.toList heq
  rw [String.toList_append, hlong] at hlist
  cases hlist

theorem Spells.ne_dashes (hs : shape.Spells spelling o) : spelling ≠ "--" := by
  simpa using hs.append_ne_dashes ""

theorem Spells.joined_ne_dashes (hs : shape.Spells spelling o) (v : String) : spelling ++ "=" ++ v ≠ "--" := by
  rw [String.append_assoc]
  exact hs.append_ne_dashes _

theorem Spells.classify (hs : shape.Spells spelling o) :
    shape.classify spelling = .ok (.option (some o) .nothing) := by
  obtain ⟨c, name, hlong⟩ := hs.long
  simp [Shape.classify, hlong, hs.lookup]

theorem Spells.classify_joined (hshape : shape.Plain) (hs : shape.Spells spelling o) (v : String) :
    shape.classify (spelling ++ "=" ++ v) = .ok (.option (some o) (.value v)) := by
  obtain ⟨c, name, hlong⟩ := hs.long
  have hequals := (hshape _ (mem_spellings_of_lookup hs.lookup)).1
  have hcs := toList_joined spelling v
  have hlookup : shape.spellings.lookup (spelling ++ "=" ++ v) = none := by
    refine lookup_eq_none fun s hmem heq => (hshape s hmem).1 ?_
    rw [heq, hcs]
    exact List.mem_append_right _ List.mem_cons_self
  simp only [Shape.classify, hcs, hlookup, splitEquals_append hequals, Option.bind_some, String.ofList_toList, hs.lookup,
    Option.map_some]
  simp [hlong, Attached.behind]

/-- A word with two dashes that begins no spelling is seen as something. -/
theorem exists_classify {arg : String} {rest : List Char} (hcs : arg.toList = '-' :: '-' :: rest)
    (h : ∀ s ∈ shape.spellings, ¬ (splitEquals arg.toList).1 <+: s.1.toList) :
    ∃ sight, shape.classify arg = .ok sight := by
  have hcandidates : shape.candidates arg.toList = [] := by
    rw [hcs] at h ⊢
    rw [candidates, List.filterMap_eq_nil_iff]
    intro ⟨s, o⟩ hs
    exact if_neg fun hprefix => h _ hs (List.isPrefixOf_iff_prefix.1 hprefix)
  have hhead : ¬ arg.toList.head? ≠ some '-' := by simp [hcs]
  have hlength : arg.toList.length ≠ 1 := by simp [hcs]
  simp only [classify, if_neg hhead, if_neg hlength, hcandidates]
  split
  next => exact ⟨_, rfl⟩
  next =>
    split
    next => exact ⟨_, rfl⟩
    next =>
      split
      next => exact ⟨_, rfl⟩
      next => exact ⟨_, rfl⟩

end

/-! ### Taking options written in full -/

section
variable {given : List (CommandOption × String)} {words : List String}

theorem classifyAll_map_fst {sorted : List (String × Sight)} (h : shape.classifyAll words = .ok sorted) :
    sorted.map Prod.fst = words := by
  induction words generalizing sorted with
  | nil =>
    cases h
    rfl
  | cons word words ih =>
    rw [classifyAll] at h
    split at h
    next =>
      cases h
      simp [Function.comp_def]
    next =>
      obtain ⟨sight, -, h⟩ := bind_ok.1 h
      obtain ⟨rest, hrest, h⟩ := bind_ok.1 h
      cases h
      rw [List.map_cons, ih hrest]

theorem classifyAll_cons {word : String} {sight : Sight} {sorted : List (String × Sight)} (hword : word ≠ "--")
    (hsight : shape.classify word = .ok sight) (h : shape.classifyAll words = .ok sorted) :
    shape.classifyAll (word :: words) = .ok ((word, sight) :: sorted) := by
  rw [classifyAll, if_neg hword, hsight, h]
  rfl

/-- Options written in full are seen as what they are, and taken one after the other. -/
theorem Written.exists_sorted (hshape : shape.Plain) (h : shape.Written given words) :
    ∃ sorted, shape.classifyAll words = .ok sorted ∧ ∀ fuel t, sorted.length ≤ fuel →
      shape.takeFrom fuel t sorted = shape.takeValues given t := by
  induction h with
  | nil =>
    refine ⟨[], rfl, fun fuel t _ => ?_⟩
    cases fuel with
    | zero => rfl
    | succ fuel => rfl
  | @joined spelling v o given words hs _ ih =>
    obtain ⟨sorted, hsorted, hrun⟩ := ih
    refine ⟨_, classifyAll_cons (hs.joined_ne_dashes v) (hs.classify_joined hshape v) hsorted, fun fuel t hfuel => ?_⟩
    obtain ⟨problem?, hkind⟩ := hs.value
    cases fuel with
    | zero => cases hfuel
    | succ fuel =>
      have hrest : ∀ t, shape.takeFrom fuel t sorted = _ := fun t => hrun fuel t (Nat.le_of_succ_le_succ hfuel)
      simp only [takeFrom, hkind, hrest, takeValues_cons]
  | @apart spelling v o given words hs hv _ ih =>
    obtain ⟨sorted, hsorted, hrun⟩ := ih
    refine ⟨_, classifyAll_cons hs.ne_dashes hs.classify
      (classifyAll_cons hv.ne_dashes (classify_standsAlone hshape hv) hsorted), fun fuel t hfuel => ?_⟩
    obtain ⟨problem?, hkind⟩ := hs.value
    cases fuel with
    | zero => cases hfuel
    | succ fuel =>
      have hrest : ∀ t, shape.takeFrom fuel t sorted = _ := fun t =>
        hrun fuel t (Nat.le_of_succ_le (Nat.le_of_succ_le_succ hfuel))
      simp only [takeFrom, hkind, hrest, takeValues_cons]

theorem take_written (hshape : shape.Plain) (hoperand : shape.operand.required? = none)
    (h : shape.Written given words) :
    shape.take words = shape.takeValues given {} := by
  obtain ⟨sorted, hsorted, hrun⟩ := h.exists_sorted hshape
  simp only [take, hsorted, hoperand]
  show shape.takeFrom (sorted.length + 1) {} sorted >>= pure = _
  rw [bind_pure, hrun _ _ (Nat.le_succ _)]

/-- Another shape, of which no spelling is begun, sees something in options written in full. -/
theorem Written.exists_classifyAll {other : Shape} (hshape : shape.Plain) (hother : other.Plain)
    (hbegun : ∀ spelling o, shape.Spells spelling o → ∀ t ∈ other.spellings, ¬ spelling.toList <+: t.1.toList)
    (h : shape.Written given words) : ∃ sorted, other.classifyAll words = .ok sorted := by
  induction h with
  | nil => exact ⟨[], rfl⟩
  | @joined spelling v o given words hs _ ih =>
    obtain ⟨sorted, hsorted⟩ := ih
    obtain ⟨c, name, hlong⟩ := hs.long
    have hmem := mem_spellings_of_lookup hs.lookup
    have hcs := toList_joined spelling v
    obtain ⟨sight, hsight⟩ : ∃ sight, other.classify (spelling ++ "=" ++ v) = .ok sight := by
      refine exists_classify (hcs.trans (by rw [hlong]; rfl)) fun t ht => ?_
      rw [hcs, splitEquals_append (hshape _ hmem).1]
      exact hbegun spelling o hs t ht
    exact ⟨_, classifyAll_cons (hs.joined_ne_dashes v) hsight hsorted⟩
  | @apart spelling v o given words hs hv _ ih =>
    obtain ⟨sorted, hsorted⟩ := ih
    obtain ⟨c, name, hlong⟩ := hs.long
    have hmem := mem_spellings_of_lookup hs.lookup
    obtain ⟨sight, hsight⟩ : ∃ sight, other.classify spelling = .ok sight := by
      refine exists_classify hlong fun t ht => ?_
      rw [splitEquals_of_not_mem (hshape _ hmem).1]
      exact hbegun spelling o hs t ht
    exact ⟨_, classifyAll_cons hs.ne_dashes hsight
      (classifyAll_cons hv.ne_dashes (classify_standsAlone hother hv) hsorted)⟩

end

end Shape
end BnfReader
