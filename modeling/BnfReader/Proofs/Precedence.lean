import BnfReader.Proofs.ServeOptions
import BnfReader.Proofs.SettingsFaults

/-! Options go before settings.

A host, a port or a level that is given takes the place of the one in the settings, unless it is empty or
0 (`Command.override_eq`). The service is started with what comes out: a level that has a name, and a
log that needs no file, are set up without a fault (`Command.start_of_ready`). So what is given counts
for all values but an empty host and a port 0 (`Command.serve_options_prevail`). -/
namespace BnfReader

/-! ### Levels -/

/-- A text in lower case. -/
def lowerCase (s : String) : String := String.ofList (s.toList.map Char.toLower)

/-- The names that settings have for levels. -/
def Level.words : List String := ["DEBUG", "INFO", "WARNING", "ERROR", "CRITICAL"]

/-- A word for a level means the level of that name. -/
theorem Level.meaning?_of_mem_words {word : String} (h : word ∈ Level.words) :
    ∃ level, Log.meaning? word = some (some (.int level)) ∧ Level.name level = word := by
  simp only [words, List.mem_cons, List.not_mem_nil, or_false] at h
  obtain rfl | rfl | rfl | rfl | rfl := h
  · exact ⟨10, rfl, by decide⟩
  · exact ⟨20, rfl, by decide⟩
  · exact ⟨30, rfl, by decide⟩
  · exact ⟨40, rfl, by decide⟩
  · exact ⟨50, rfl, by decide⟩

/-! ### Settings -/

namespace Settings
variable {site : Site} {s : Settings} {disk disk' : Disk} {path? : Option String} {key : String} {v? : Option Json}

/-- The level of the settings has a name, and the log needs no file. -/
structure Ready (s : Settings) (level : String) : Prop where
  named : level ∈ Level.words
  level : s.get? "log_level" = some (.string level)
  toFile : s.get? "log_to_file" = some (.bool false)

/-- Loaded settings have a host, and a whole number for a port. -/
theorem exists_host_port_of_load (h : load site disk path? = (disk', .ok s)) :
    (∃ host, s.get? "host" = some host) ∧ ∃ port, s.get? "port" = some (.int port) := by
  obtain ⟨given, hmake⟩ := exists_make_of_load h
  obtain ⟨hknown, page, description, port, -, -, -, rfl⟩ := exists_values hmake
  refine ⟨?_, port, Fields.get?_insert_self _ _ _⟩
  obtain ⟨host, hhost⟩ : ∃ host, (merged site given).get? "host" = some host := by
    apply Fields.exists_get?
    rw [merged, Fields.keys_insertAll hknown, keys_defaults]
    decide
  refine ⟨host, ?_⟩
  rw [get?, ofValues, Fields.get?_insert_of_ne (by decide), Fields.get?_insert_of_ne (by decide),
    Fields.get?_insert_of_ne (by decide), hhost]

/-- The settings with a value written, if there is one. -/
def setSome (s : Settings) (key : String) (v? : Option Json) : Settings := v?.elim s (s.set key)

/-- A value counts if it is not empty. -/
theorem setSome_filter {α : Type} [DecidableEq α] (s : Settings) (key : String) (v empty : α) (value : α → Json) :
    s.setSome key (((some v).filter (· ≠ empty)).map value) = if v = empty then s else s.set key (value v) := by
  by_cases hv : v = empty
  · simp [hv, setSome, Option.filter]
  · simp [hv, setSome, Option.filter]

theorem get?_setSome_self : (s.setSome key v?).get? key = v?.or (s.get? key) := by
  cases v? with
  | none => rfl
  | some v => exact Fields.get?_insert_self _ _ _

theorem get?_setSome_of_ne {other : String} (h : other ≠ key) : (s.setSome key v?).get? other = s.get? other := by
  cases v? with
  | none => rfl
  | some v => exact Fields.get?_insert_of_ne h

end Settings

/-! ### Options before settings -/

namespace ServeOptions

/-- The host that counts: one that is not empty. -/
def host? (options : ServeOptions) : Option String := options.host.filter (· ≠ "")

/-- The port that counts: one other than 0. -/
def port? (options : ServeOptions) : Option Int := options.port.filter (· ≠ 0)

/-- The level that counts: one that is not empty. -/
def logLevel? (options : ServeOptions) : Option String := options.logLevel.filter (· ≠ "")

end ServeOptions

namespace Command
variable {s : Settings} {options : ServeOptions}

theorem override_eq (s : Settings) (options : ServeOptions) : override s options =
    ((s.setSome "host" (options.host?.map .string)).setSome "port" (options.port?.map .int)).setSome "log_level"
      (options.logLevel?.map .string) := by
  unfold override
  extract_lets hosted ported
  have hhosted : hosted = s.setSome "host" (options.host?.map .string) := by
    rw [ServeOptions.host?]
    unfold hosted
    cases options.host with
    | none => rfl
    | some host => exact (Settings.setSome_filter _ _ _ _ _).symm
  have hported : ported = hosted.setSome "port" (options.port?.map .int) := by
    rw [ServeOptions.port?]
    unfold ported
    cases options.port with
    | none => rfl
    | some port => exact (Settings.setSome_filter _ _ _ _ _).symm
  rw [ServeOptions.logLevel?, ← hhosted, ← hported]
  cases options.logLevel with
  | none => rfl
  | some level => exact (Settings.setSome_filter _ _ _ _ _).symm

theorem override_get?_host : (override s options).get? "host" = (options.host?.map .string).or (s.get? "host") := by
  rw [override_eq, Settings.get?_setSome_of_ne (by decide), Settings.get?_setSome_of_ne (by decide),
    Settings.get?_setSome_self]

theorem override_get?_port : (override s options).get? "port" = (options.port?.map .int).or (s.get? "port") := by
  rw [override_eq, Settings.get?_setSome_of_ne (by decide), Settings.get?_setSome_self,
    Settings.get?_setSome_of_ne (by decide)]

theorem override_get?_logLevel :
    (override s options).get? "log_level" = (options.logLevel?.map .string).or (s.get? "log_level") := by
  rw [override_eq, Settings.get?_setSome_self, Settings.get?_setSome_of_ne (by decide),
    Settings.get?_setSome_of_ne (by decide)]

/-- All other settings stay. -/
theorem override_get?_other {key : String} (hhost : key ≠ "host") (hport : key ≠ "port") (hlevel : key ≠ "log_level") :
    (override s options).get? key = s.get? key := by
  rw [override_eq, Settings.get?_setSome_of_ne hlevel, Settings.get?_setSome_of_ne hport,
    Settings.get?_setSome_of_ne hhost]

/-! ### Starting -/

/-- The console leaves the disk as it is. -/
theorem write_console (level : Level) (shownLevel : Json) (coloured : Bool) (disk : Disk) (time : String)
    (r : Record) : ∃ printed,
    ({ level, shownLevel, sinks := [.console coloured] } : Log).write disk time r = (disk, printed) := by
  unfold Log.write
  split
  next => exact ⟨_, rfl⟩
  next => exact ⟨_, rfl⟩

/-- A level is set up without a file. -/
theorem setUp_console (site : Site) (disk : Disk) (time : String) (n : Level) : ∃ printed,
    Log.initial.setUp site disk time { level := .int n, toFile := .bool false } =
      ⟨disk, { level := n, shownLevel := .int n, sinks := [.console true] }, printed, .ok ()⟩ := by
  obtain ⟨printed, hwrite⟩ := write_console n (.int n) true disk time
    ⟨Log.root, Level.debug, "bnfparse logger configured. color: " ++ (Json.bool true).plain ++ ", log_to_file: " ++
      (Json.bool false).plain⟩
  refine ⟨printed, ?_⟩
  simp only [Log.setUp, Level.ofJson, Json.isYes, if_pos, if_neg Bool.false_ne_true, hwrite]

/-- Ready settings are served as they are. -/
theorem start_of_ready {level : String} (h : s.Ready level) (site : Site) (disk : Disk) (time : String)
    (quiet : Bool) : ∃ printed,
    start site disk time quiet s = {
      ending := .ok 0, printed, disk
      served := some ⟨setting s "host", setting s "port", if quiet then "warning" else lowerCase level, s⟩ } := by
  obtain ⟨n, hmeaning, hname⟩ := Level.meaning?_of_mem_words h.named
  have hlevel : setting s "log_level" = .string level := by rw [setting, h.level, Option.getD_some]
  have htoFile : setting s "log_to_file" = .bool false := by rw [setting, h.toFile, Option.getD_some]
  have hchosen : (if quiet then .ok (.int Level.warning) else settingsLevel (setting s "log_level")) =
      .ok (.int (if quiet then Level.warning else n)) := by
    rw [hlevel, settingsLevel, hmeaning]
    cases quiet with
    | false => rfl
    | true => rfl
  have hword : levelWord (.int (if quiet then Level.warning else n)) =
      if quiet then "warning" else lowerCase level := by
    cases quiet with
    | false => exact congrArg lowerCase hname
    | true =>
      rw [if_pos rfl, if_pos rfl]
      decide +kernel
  generalize (if quiet then Level.warning else n) = shown at hchosen hword
  obtain ⟨printed, hsetUp⟩ := setUp_console site disk time shown
  obtain ⟨line, hline⟩ := write_console shown (.int shown) true disk time
    ⟨"bnfparse.main", Level.info, "Serving on " ++ (setting s "host").plain ++ ":" ++ (setting s "port").plain⟩
  refine ⟨printed ++ line, ?_⟩
  simp only [start, hchosen, htoFile, hsetUp, hline, hword]

/-- Settings that are ready still are with the options of a line in front. -/
theorem ready_override {level : String} (h : s.Ready level)
    (hoptions : ∀ given, options.logLevel = some given → given = "" ∨ given ∈ Invocation.logLevels) :
    (override s options).Ready (options.logLevel?.getD level) := by
  refine ⟨?_, ?_, ?_⟩
  · cases hgiven : options.logLevel? with
    | none => exact h.named
    | some given =>
      obtain ⟨hgiven, hne⟩ := Option.filter_eq_some_iff.1 hgiven
      have hchoice : given ∈ Invocation.logLevels := (hoptions given hgiven).resolve_left (by simpa using hne)
      have hnamed : ∀ given ∈ Invocation.logLevels, given ∈ Level.words := by decide
      exact hnamed given hchoice
  · rw [override_get?_logLevel, h.level, Option.or_some, Option.getD_map]
  · rw [override_get?_other (by decide) (by decide) (by decide), h.toFile]

/-- Leaving out an empty value makes no difference just if it would be taken anyway. -/
theorem getD_filter_iff {α β : Type} [DecidableEq α] (value : α → β) (given? : Option α) (empty : α) (other : β) :
    ((given?.filter (· ≠ empty)).map value).getD other = (given?.map value).getD other ↔
      (given? = some empty → other = value empty) := by
  cases given? with
  | none => exact ⟨nofun, fun _ => rfl⟩
  | some given =>
    by_cases hgiven : given = empty
    · simp [hgiven, Option.filter]
    · simp [hgiven, Option.filter]

/-- What is served comes from the options of a line, and from settings with such a host, port and level
where the options are silent. -/
structure Prefers (served : Served) (quiet : Bool) (options : ServeOptions) (host : Json) (port : Int)
    (level : String) : Prop where
  host_eq : served.host = (options.host?.map Json.string).getD host
  port_eq : served.port = .int (options.port?.getD port)
  logLevel_eq : served.logLevel = if quiet then "warning" else lowerCase (options.logLevel?.getD level)
  /-- The settings that are handed on have the same host. -/
  settings_host : served.settings.get? "host" = some served.host
  /-- They have the same port. -/
  settings_port : served.settings.get? "port" = some served.port
  /-- A host that is given is served, unless it is empty and the settings have another. -/
  host_given_iff : served.host = (options.host.map Json.string).getD host ↔
    (options.host = some "" → host = .string "")
  /-- A port that is given is served, unless it is 0 and the settings have another. -/
  port_given_iff : served.port = .int (options.port.getD port) ↔ (options.port = some 0 → port = 0)
  /-- A level that is given is served, unless it is empty. -/
  logLevel_given : options.logLevel ≠ some "" →
    served.logLevel = if quiet then "warning" else lowerCase (options.logLevel.getD level)

/-- Settings with the options of a line in front are served so. -/
theorem prefers_override {host : Json} {port : Int} (hhost : s.get? "host" = some host)
    (hport : s.get? "port" = some (.int port)) (quiet : Bool) (level : String) :
    Prefers ⟨setting (override s options) "host", setting (override s options) "port",
      if quiet then "warning" else lowerCase (options.logLevel?.getD level), override s options⟩
      quiet options host port level := by
  have hhost' : (override s options).get? "host" = some ((options.host?.map Json.string).getD host) := by
    rw [override_get?_host, hhost, Option.or_some]
  have hport' : (override s options).get? "port" = some (.int (options.port?.getD port)) := by
    rw [override_get?_port, hport, Option.or_some, Option.getD_map]
  rw [setting, hhost', setting, hport', Option.getD_some, Option.getD_some]
  refine ⟨rfl, rfl, rfl, hhost', hport', getD_filter_iff _ _ _ _, ?_, ?_⟩
  · rw [Json.int.injEq, ServeOptions.port?]
    simpa only [Option.map_id, id] using getD_filter_iff id options.port 0 port
  · intro hlevel
    have hgiven : options.logLevel?.getD level = options.logLevel.getD level := by
      rw [ServeOptions.logLevel?]
      simpa only [Option.map_id, id] using
        (getD_filter_iff id options.logLevel "" level).2 fun hempty => absurd hempty hlevel
    rw [hgiven]

/-- **What is given goes before what is set, unless it is empty or 0.** Options written in full, in any
order and any number of times, come to what they give, the last of a kind in front; only a port of too
many digits is refused. Whatever the options of a line and the console, settings that are ready are
served then, with what counts of the options in front of them. -/
theorem serve_options_prevail (site : Site) (disk : Disk) (time : String) (console : Console) :
    (∀ quiet given words, Invocation.Written given words →
      ((∀ g ∈ given, g.Allowed) → Invocation.ofArguments (Invocation.line quiet words) =
        .ok ⟨quiet, .serve (given.foldl ServeOptions.give .empty)⟩) ∧
      ((∃ n, .port n ∈ given ∧ ¬ Binary64.digitCount n.natAbs ≤ Text.maxDigits) → ∃ message,
        Invocation.ofArguments (Invocation.line quiet words) =
          .error (.misuse Invocation.serveShape.program message))) ∧
    ∀ args quiet options path? disk' s level,
      Invocation.ofArguments args = .ok ⟨quiet, .serve options⟩ → options.settings = choice path? →
      Settings.load site disk path? = (disk', .ok s) → s.Ready level →
      ∃ host port printed served, s.get? "host" = some host ∧ s.get? "port" = some (.int port) ∧
        run site disk time args console =
          { ending := .ok 0, printed, disk := disk', served := some served } ∧
        Prefers served quiet options host port level := by
  refine ⟨fun quiet given words hwords => Invocation.ofArguments_line hwords quiet, ?_⟩
  intro args quiet options path? disk' s level hargs hpath hload hready
  obtain ⟨⟨host, hhost⟩, port, hport⟩ := Settings.exists_host_port_of_load hload
  obtain ⟨printed, hstart⟩ := start_of_ready
    (ready_override hready fun given => Invocation.logLevel_of_ofArguments hargs) site disk' time quiet
  have hrun : run site disk time args console = start site disk' time quiet (override s options) := by
    simp only [run, hargs, startFrom, hpath, chosenSettings_choice, hload]
    rfl
  exact ⟨host, port, printed, _, hhost, hport, hrun.trans hstart, prefers_override hhost hport quiet level⟩

/-- A host, and the port 0, in front of a file: the host counts, and the port is that of the file. -/
theorem serve_options_prevail_of_zero_port :
    let site : Site := ⟨"/", "/root", [], none, "/static", .usual⟩
    let given : List ServeOption := [.config "c.json", .port 0, .host "::1"]
    let words := ["--config=c.json", "--port", "0", "--host=::1"]
    let options : ServeOptions := ⟨.file "c.json", some "::1", some 0, none⟩
    let s : Settings := ⟨[("host", .string "0.0.0.0"), ("port", .int 4100), ("log_level", .string "CRITICAL"),
      ("log_to_file", .bool false), ("webpage_path", .string "/static/index.html"),
      ("api_spec_path", .string "/static/api_spec.yaml")]⟩
    let disk := Disk.empty.put ["c.json"] (.file (s.content site))
    Invocation.Written given words ∧ (∀ g ∈ given, g.Allowed) ∧
      Invocation.ofArguments ("serve" :: words) = .ok ⟨false, .serve options⟩ ∧
      options.settings = choice (some "c.json") ∧
      Settings.load site disk (some "c.json") = (disk, .ok s) ∧ s.Ready "CRITICAL" ∧
      ∃ printed served, run site disk "" ("serve" :: words) .usual =
          { ending := .ok 0, printed, disk, served := some served } ∧
        served.host = .string "::1" ∧ served.port = .int 4100 ∧ served.logLevel = "critical" := by
  intro site given words options s disk
  have hwritten : Invocation.Written given words :=
    .joined (.config "c.json") (.apart (.port 0) (Shape.standsAlone_toString 0) (.joined (.host "::1") .nil))
  have hallowed : ∀ g ∈ given, g.Allowed := by
    simp only [given, List.forall_mem_cons]
    exact ⟨trivial, show Binary64.digitCount 0 ≤ _ by decide, trivial, List.forall_mem_nil _⟩
  have hload : Settings.load site disk (some "c.json") = (disk, .ok s) := by
    have hsite : site.HasAbsoluteHomes := ⟨by decide +kernel, List.forall_mem_nil _⟩
    have hmade : Settings.make site [("port", .int 4100), ("log_level", .string "CRITICAL")] = .ok s := by
      subst site s
      with_unfolding_all rfl
    have hs : Settings.Constructed site s := by
      refine .made ?_ hmade
      simp only [List.forall_mem_cons]
      exact ⟨.int _, .string _, List.forall_mem_nil _⟩
    have hwrite : ∀ content,
        Disk.empty.write site "c.json" content = .ok (Disk.empty.put ["c.json"] (.file content)) := by
      intro content
      subst site
      with_unfolding_all rfl
    have hwritten : Settings.writeTo site .empty s "c.json" = (disk, .ok ()) := by
      have hfault : s.toJson.faultAt? site.limits.writing = none := rfl
      simp only [Settings.writeTo, hwrite, hfault]
      rfl
    have hfile : disk.isFile site "c.json" = true := by
      subst site
      with_unfolding_all rfl
    have hread : Settings.readFrom site disk "c.json" = .ok s :=
      Settings.readFrom_of_writeTo hsite hs hwritten (show 1 ≤ site.limits.reading by decide) hfile
    have hpath : Settings.expanded site "c.json" = .ok "c.json" := Settings.expanded_eq_self (by decide)
    exact congrArg (Prod.mk disk) (bind_ok.2 ⟨_, hpath, hread⟩)
  have hready : s.Ready "CRITICAL" := ⟨by decide, rfl, rfl⟩
  obtain ⟨hline, hserve⟩ := serve_options_prevail site disk "" .usual
  have hargs : Invocation.ofArguments ("serve" :: words) = .ok ⟨false, .serve options⟩ :=
    (hline false given words hwritten).1 hallowed
  obtain ⟨host, port, printed, served, hhost, hport, hrun, hserved⟩ := hserve _ _ _ _ _ _ _ hargs rfl hload hready
  cases hport
  exact ⟨hwritten, hallowed, hargs, rfl, hload, hready, printed, served, hrun, hserved.host_eq, hserved.port_eq,
    hserved.logLevel_eq.trans (by decide +kernel)⟩

end Command
end BnfReader
