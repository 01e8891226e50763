import BnfReader.Command.Invocation
import BnfReader.Proofs.TakenOptions

/-! What the options of `serve` come to.

A line that gives them written in full is read as it stands (`Invocation.ofArguments_line`): the options
in any order and any number of times, the last of a kind being the one that counts. It is a misuse only
if a port has too many digits or a level is none of the choices. Whatever a line looks like, a level
that it gives is one of the choices, or empty (`Invocation.logLevel_of_ofArguments`). -/
namespace BnfReader

/-- An option of `serve` with what it gives. -/
inductive ServeOption where
  | config (path : String)
  | host (address : String)
  | port (n : Int)
  | logLevel (level : String)

namespace ServeOption

def option : ServeOption → CommandOption
  | .config _ => Invocation.anyValue "config"
  | .host _ => Invocation.anyValue "host"
  | .port _ => Invocation.portOption
  | .logLevel _ => Invocation.levelOption

/-- How the option is spelled. -/
def spelling : ServeOption → String
  | .config _ => "--config"
  | .host _ => "--host"
  | .port _ => "--port"
  | .logLevel _ => "--log-level"

/-- The text that stands for what is given. -/
def text : ServeOption → String
  | .config path => path
  | .host address => address
  | .port n => toString n
  | .logLevel level => level

/-- Paths and hosts may be any, ports have not too many digits, and levels are among the choices. -/
def Allowed : ServeOption → Prop
  | .config _ | .host _ => True
  | .port n => Binary64.digitCount n.natAbs ≤ Text.maxDigits
  | .logLevel level => level ∈ Invocation.logLevels

end ServeOption

namespace ServeOptions

/-- The options of a line that gives none. -/
def empty : ServeOptions := ⟨.usual, none, none, none⟩

/-- The options with one more given. -/
def give (options : ServeOptions) : ServeOption → ServeOptions
  | .config path => { options with settings := Invocation.settingsChoice (some (Shape.givenBy path)) }
  | .host address => { options with host := some ((Shape.givenBy address).getD "") }
  | .port n => { options with port := some n }
  | .logLevel level => { options with logLevel := some level }

/-- The options that values come to. -/
def ofValues (values : List (String × Option String)) : ServeOptions where
  settings := Invocation.settingsChoice (values.lookup "config")
  host := (values.lookup "host").map (·.getD "")
  port := (values.lookup "port").map fun v => (v.bind Text.integer?).getD 0
  logLevel := (values.lookup "log-level").map (·.getD "")

end ServeOptions

namespace Invocation
open Shape

/-! ### Taking values -/

section
variable {g : ServeOption} {t : Taken}

/-- What is allowed is taken, and goes before what was taken already. -/
theorem takeValue_of_allowed (hg : g.Allowed) :
    serveShape.takeValue g.option g.text t = .ok { t with values := (g.option.key, givenBy g.text) :: t.values } ∧
      ServeOptions.ofValues ((g.option.key, givenBy g.text) :: t.values) =
        (ServeOptions.ofValues t.values).give g := by
  cases g with
  | config path => exact ⟨takeValue_eq rfl rfl, rfl⟩
  | host address => exact ⟨takeValue_eq rfl rfl, rfl⟩
  | port n =>
    have hread : Text.integer? (toString n) = some n := (Text.integer?_toString n).trans (if_pos hg)
    have hgiven : givenBy (toString n) = some (toString n) := if_neg (standsAlone_toString n).ne_dashes
    refine ⟨takeValue_eq rfl (if_pos ?_), ?_⟩
    · exact Option.isSome_of_eq_some hread
    · show ServeOptions.ofValues (("port", givenBy (toString n)) :: t.values) = _
      rw [hgiven]
      show ServeOptions.mk _ _ (some ((Text.integer? (toString n)).getD 0)) _ = _
      rw [hread]
      rfl
  | logLevel level =>
    have hgiven : givenBy level = some level := by
      refine if_neg fun hdashes => ?_
      have hmem : "--" ∈ logLevels := hdashes ▸ hg
      exact absurd hmem (by decide)
    refine ⟨takeValue_eq rfl (if_pos (List.contains_iff_mem.2 hg)), ?_⟩
    show ServeOptions.ofValues (("log-level", givenBy level) :: t.values) = _
    rw [hgiven]
    rfl

/-- A port of too many digits is refused. -/
theorem takeValue_of_long_port {n : Int} (hn : ¬ Binary64.digitCount n.natAbs ≤ Text.maxDigits) (t : Taken) :
    ∃ message, serveShape.takeValue portOption (toString n) t = .error (.misuse serveShape.program message) := by
  have hread : Text.integer? (toString n) = none := (Text.integer?_toString n).trans (if_neg hn)
  refine ⟨_, takeValue_of_problem rfl (standsAlone_toString n).ne_dashes (if_neg ?_)⟩
  rw [hread]
  exact Bool.false_ne_true

end

/-! ### A line of options -/

/-- Options as they are written in full: what is given stands behind an equals sign, or alone. -/
inductive Written : List ServeOption → List String → Prop where
  | nil : Written [] []
  | joined (g : ServeOption) {given : List ServeOption} {words : List String} :
      Written given words → Written (g :: given) ((g.spelling ++ "=" ++ g.text) :: words)
  | apart (g : ServeOption) {given : List ServeOption} {words : List String} :
      StandsAlone g.text → Written given words → Written (g :: given) (g.spelling :: g.text :: words)

/-- The words of a call. -/
def line (quiet : Bool) (words : List String) : List String :=
  (if quiet then ["--quiet"] else []) ++ "serve" :: words

theorem spells_option (g : ServeOption) : serveShape.Spells g.spelling g.option := by
  cases g with
  | config => exact ⟨rfl, ⟨'c', "onfig".toList, show "--config".toList = _ by decide⟩, _, rfl⟩
  | host => exact ⟨rfl, ⟨'h', "ost".toList, show "--host".toList = _ by decide⟩, _, rfl⟩
  | port => exact ⟨rfl, ⟨'p', "ort".toList, show "--port".toList = _ by decide⟩, _, rfl⟩
  | logLevel => exact ⟨rfl, ⟨'l', "og-level".toList, show "--log-level".toList = _ by decide⟩, _, rfl⟩

theorem Written.of_shape {given : List ServeOption} {words : List String} (h : Written given words) :
    serveShape.Written (given.map fun g => (g.option, g.text)) words := by
  induction h with
  | nil => exact .nil
  | joined g _ ih => exact .joined (spells_option g) ih
  | apart g hg _ ih => exact .apart (spells_option g) hg ih

theorem serveShape_spellings : serveShape.spellings = [("-h", helpOption), ("--help", helpOption),
    ("--config", anyValue "config"), ("--host", anyValue "host"), ("--port", portOption),
    ("--log-level", levelOption)] := rfl

theorem mainShape_spellings : mainShape.spellings =
    [("-h", helpOption), ("--help", helpOption), ("--quiet", ⟨["--quiet"], "quiet", .flag⟩)] := rfl

theorem serveShape_plain : serveShape.Plain := by
  rw [Plain, serveShape_spellings]
  simp only [List.forall_mem_cons]
  exact ⟨by decide, by decide, by decide, by decide, by decide, by decide, List.forall_mem_nil _⟩

theorem mainShape_plain : mainShape.Plain := by
  rw [Plain, mainShape_spellings]
  simp only [List.forall_mem_cons]
  exact ⟨by decide, by decide, by decide, List.forall_mem_nil _⟩

section
variable {given : List ServeOption} {words : List String}

theorem takeValues_of_allowed (h : ∀ g ∈ given, g.Allowed) (t : Taken) : ∃ t',
    serveShape.takeValues (given.map fun g => (g.option, g.text)) t = .ok t' ∧
      t'.leftOver = t.leftOver ∧
      ServeOptions.ofValues t'.values = given.foldl ServeOptions.give (ServeOptions.ofValues t.values) := by
  induction given generalizing t with
  | nil => exact ⟨t, rfl, rfl, rfl⟩
  | cons g given ih =>
    obtain ⟨hg, hgiven⟩ := List.forall_mem_cons.1 h
    obtain ⟨hvalue, hoptions⟩ := takeValue_of_allowed (t := t) hg
    obtain ⟨t', hrun, hleft, hvalues⟩ := ih hgiven { t with values := (g.option.key, givenBy g.text) :: t.values }
    refine ⟨t', ?_, hleft, ?_⟩
    · rw [List.map_cons, takeValues_cons, hvalue]
      exact hrun
    · rw [hvalues, hoptions, List.foldl_cons]

/-- The options of `serve` that have a value cannot be taken for options of the whole. -/
theorem not_prefix_of_spells {spelling : String} {o : CommandOption} (h : serveShape.Spells spelling o) :
    ∀ t ∈ mainShape.spellings, ¬ spelling.toList <+: t.1.toList := by
  have hmem := mem_spellings_of_lookup h.lookup
  obtain ⟨problem?, hkind⟩ := h.value
  rw [serveShape_spellings] at hmem
  rw [mainShape_spellings]
  simp only [List.mem_cons, Prod.mk.injEq, List.not_mem_nil, or_false] at hmem
  obtain ⟨-, rfl⟩ | ⟨-, rfl⟩ | ⟨rfl, -⟩ | ⟨rfl, -⟩ | ⟨rfl, -⟩ | ⟨rfl, -⟩ := hmem
  · cases hkind
  · cases hkind
  all_goals
    simp only [List.forall_mem_cons]
    exact ⟨by decide, by decide, by decide, List.forall_mem_nil _⟩

/-- The words behind `serve` are left to it. -/
theorem mainShape_take {sorted : List (String × Sight)} (h : mainShape.classifyAll words = .ok sorted) (quiet : Bool) :
    mainShape.take (line quiet words) =
      .ok { flags := if quiet then ["quiet"] else [], operand := "serve" :: words } := by
  have hserve : mainShape.classifyAll ("serve" :: words) = .ok (("serve", .other) :: sorted) :=
    classifyAll_cons (by decide) (classify_standsAlone mainShape_plain (.inl (by decide))) h
  have hoperand : ∀ fuel flags, mainShape.takeFrom (fuel + 2) { flags } (("serve", .other) :: sorted) =
      .ok { flags, operand := "serve" :: words } := by
    intro fuel flags
    rw [← classifyAll_map_fst h]
    rfl
  cases quiet with
  | false =>
    show mainShape.take ("serve" :: words) = _
    rw [Shape.take, hserve]
    show mainShape.takeFrom (sorted.length + 2) { flags := [] } (("serve", .other) :: sorted) >>= _ = _
    rw [hoperand]
    rfl
  | true =>
    have hquiet : mainShape.classifyAll ("--quiet" :: "serve" :: words) =
        .ok (("--quiet", .option (some ⟨["--quiet"], "quiet", .flag⟩) .nothing) :: ("serve", .other) :: sorted) :=
      classifyAll_cons (by decide) rfl hserve
    show mainShape.take ("--quiet" :: "serve" :: words) = _
    rw [Shape.take, hquiet]
    show mainShape.takeFrom (sorted.length + 2) { flags := ["quiet"] } (("serve", .other) :: sorted) >>= _ = _
    rw [hoperand]
    rfl

theorem commandOf_serve (words : List String) : commandOf ("serve" :: words) =
    (serveShape.take words).map fun t => (.serve (ServeOptions.ofValues t.values), t.leftOver) := by
  rw [commandOf]
  cases serveShape.take words with
  | error e => rfl
  | ok t => rfl

/-- Options written in full come to what they give, unless a port is too long. -/
theorem ofArguments_line (hwords : Written given words) (quiet : Bool) :
    ((∀ g ∈ given, g.Allowed) →
      ofArguments (line quiet words) = .ok ⟨quiet, .serve (given.foldl ServeOptions.give .empty)⟩) ∧
    ((∃ n, .port n ∈ given ∧ ¬ Binary64.digitCount n.natAbs ≤ Text.maxDigits) →
      ∃ message, ofArguments (line quiet words) = .error (.misuse serveShape.program message)) := by
  obtain ⟨sorted, hsorted⟩ : ∃ sorted, mainShape.classifyAll words = .ok sorted :=
    hwords.of_shape.exists_classifyAll serveShape_plain mainShape_plain fun _ _ => not_prefix_of_spells
  have htaken := take_written serveShape_plain rfl hwords.of_shape
  constructor
  · intro hallowed
    obtain ⟨t, hrun, hleft, hvalues⟩ := takeValues_of_allowed hallowed {}
    simp only [ofArguments, mainShape_take hsorted, commandOf_serve, htaken, hrun, hleft, hvalues, Except.map, bind,
      Except.bind]
    cases quiet with
    | false => rfl
    | true => rfl
  · intro ⟨n, hmem, hn⟩
    have hmem : (portOption, toString n) ∈ given.map fun g => (g.option, g.text) := List.mem_map_of_mem hmem
    obtain ⟨message, hmisuse⟩ := takeValues_misuse hmem (takeValue_of_long_port hn) {}
    simp only [ofArguments, mainShape_take hsorted, commandOf_serve, htaken, hmisuse, Except.map, bind, Except.bind]
    exact ⟨message, rfl⟩

end

/-! ### Any line -/

/-- The options of `serve` come from values that were taken. -/
theorem exists_taken {args : List String} {quiet : Bool} {options : ServeOptions}
    (h : ofArguments args = .ok ⟨quiet, .serve options⟩) :
    ∃ t : Taken, t.Checked serveShape ∧ options = ServeOptions.ofValues t.values := by
  obtain ⟨whole, -, h⟩ := bind_ok.1 h
  obtain ⟨⟨command, more⟩, hcommand, h⟩ := bind_ok.1 h
  dsimp only at h
  obtain rfl : command = .serve options := by
    split at h
    next =>
      cases h
      rfl
    next => cases h
  unfold commandOf at hcommand
  split at hcommand
  next words _ =>
    obtain ⟨t, htake, hoptions⟩ := bind_ok.1 hcommand
    cases hoptions
    exact ⟨t, take_checked htake, rfl⟩
  next =>
    obtain ⟨t, -, hoptions⟩ := bind_ok.1 hcommand
    cases hoptions

/-- A level that is given is one of the choices, or empty. -/
theorem logLevel_of_ofArguments {args : List String} {quiet : Bool} {options : ServeOptions} {level : String}
    (h : ofArguments args = .ok ⟨quiet, .serve options⟩) (hlevel : options.logLevel = some level) :
    level = "" ∨ level ∈ logLevels := by
  obtain ⟨t, hchecked, rfl⟩ := exists_taken h
  obtain ⟨v?, hlookup, rfl⟩ := Option.map_eq_some_iff.1 hlevel
  cases v? with
  | none => exact .inl rfl
  | some level =>
    obtain ⟨before, after, hvalues, -⟩ := List.lookup_eq_some_iff.1 hlookup
    have hmem : ("log-level", some level) ∈ t.values := by
      rw [hvalues]
      exact List.mem_append_right before List.mem_cons_self
    obtain ⟨o, ho, hkey, problem?, hkind, hproblem⟩ := hchecked _ _ hmem
    have ho : o ∈ [helpOption, anyValue "config", anyValue "host", portOption, levelOption] := ho
    obtain rfl : o = levelOption := by
      simp only [List.mem_cons, List.not_mem_nil, or_false] at ho
      obtain rfl | rfl | rfl | rfl | rfl := ho
      · exact absurd hkey (by decide)
      · exact absurd hkey (by decide)
      · exact absurd hkey (by decide)
      · exact absurd hkey (by decide)
      · rfl
    cases hkind
    dsimp only at hproblem
    split at hproblem
    next hmem => exact .inr (List.contains_iff_mem.1 hmem)
    next => cases hproblem

end Invocation
end BnfReader
