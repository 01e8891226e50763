import BnfReader.Command.Run
import BnfReader.Proofs.ReadValues
import BnfReader.Proofs.Storage

/-! Settings come back from files.

Reading settings makes them anew from what is in the file. So they come back if their values do
(`Json.Plain`) and if making settings of their own values changes nothing (`Settings.Settled`). Both hold of
settings that were made from plain values, and still do when the host, the port or the level has been
written since (`Settings.Constructed`). The usual file is read the same way, whether it was there
before or has been written with the defaults.

Two things are needed for it: that there is a file to read, and that the settings are no deeper than
what is read (`readFrom_of_writeTo_iff`). For the null device takes what is written to it, and more may
be written than is read; settings that were read are within the bounds of reading
(`readable_of_readFrom`). -/
namespace BnfReader.Settings

/-- Settings made from plain values, and what becomes of them when a host, a port or a level is
written. -/
inductive Constructed (site : Site) : Settings → Prop where
  | made {given : Fields} {s : Settings} : (∀ field ∈ given, field.2.Plain) → make site given = .ok s →
      Constructed site s
  | host {s : Settings} (text : String) : Constructed site s → Constructed site (s.set "host" (.string text))
  | port {s : Settings} (n : Int) : Constructed site s → Constructed site (s.set "port" (.int n))
  | logLevel {s : Settings} (text : String) : Constructed site s →
      Constructed site (s.set "log_level" (.string text))

section
variable {site : Site} {s : Settings} {disk disk' : Disk} {path : String}

theorem Constructed.settled (hsite : site.HasAbsoluteHomes) (h : Constructed site s) : Settled site s := by
  induction h with
  | made _ hmake => exact make_settled hsite hmake
  | host text _ ih => exact ih.set (by simp [keys_defaults]) (by decide) (by decide) (by decide) _
  | port n _ ih => exact ih.setPort n
  | logLevel text _ ih => exact ih.set (by simp [keys_defaults]) (by decide) (by decide) (by decide) _

theorem defaults_plain (site : Site) : ∀ field ∈ defaults site, field.2.Plain := by
  simp only [defaults, List.forall_mem_cons]
  exact ⟨.string _, .int _, .string _, .bool _, .string _, .string _, List.forall_mem_nil _⟩

theorem Constructed.plain (h : Constructed site s) : ∀ field ∈ s.fields, field.2.Plain := by
  induction h with
  | made hgiven hmake =>
    obtain ⟨-, page, description, port, -, -, -, rfl⟩ := exists_values hmake
    have hmerged := Fields.forall_insertAll (defaults_plain site) hgiven
    exact forall_ofValues hmerged (.string page) (.string description) (.int port)
  | host text _ ih => exact Fields.forall_insert ih (.string text)
  | port n _ ih => exact Fields.forall_insert ih (.int n)
  | logLevel text _ ih => exact Fields.forall_insert ih (.string text)

theorem Constructed.toJson_plain (hsite : site.HasAbsoluteHomes) (h : Constructed site s) : s.toJson.Plain :=
  .object (h.settled hsite).nodup_keys h.plain

/-- What the options of a command write is a host, a port or a level. -/
theorem Constructed.override (h : Constructed site s) (options : ServeOptions) :
    Constructed site (Command.override s options) := by
  unfold Command.override
  extract_lets hosted ported
  have hhosted : Constructed site hosted := by
    unfold hosted
    split
    next text _ =>
      split
      next => exact h
      next => exact .host text h
    next => exact h
  have hported : Constructed site ported := by
    unfold ported
    split
    next n _ =>
      split
      next => exact hhosted
      next => exact .port n hhosted
    next => exact hhosted
  split
  next text _ =>
    split
    next => exact hported
    next => exact .logLevel text hported
  next => exact hported

/-! ### Bounds -/

/-- The port that a value within the bounds gives is not too long to be written. -/
theorem digitCount_portNumber {value : Json} {n : Int} {depth : Nat} (hvalue : value.Readable depth)
    (h : portNumber value = .ok n) : Binary64.digitCount n.natAbs ≤ Text.maxDigits := by
  unfold portNumber at h
  split at h
  next =>
    cases h
    cases hvalue with
    | int hn => exact hn
  next b =>
    cases h
    cases b with
    | false => decide
    | true => decide
  next => cases h
  next =>
    cases hvalue with
    | real hx =>
      split at h
      next htruncate =>
        cases h
        exact hx _ htruncate
      next => cases h
  next =>
    split at h
    next hnumeral =>
      cases h
      exact Text.digitCount_integer hnumeral
    next => cases h
  next => cases h

/-- Settings that are made from values within the bounds are within them. -/
theorem readable_of_make {given : Fields} {depth : Nat} (hgiven : ∀ field ∈ given, field.2.Readable depth)
    (h : make site given = .ok s) : s.toJson.Readable (depth + 1) := by
  have hdefaults : ∀ field ∈ defaults site, field.2.Readable depth := by
    simp only [defaults, List.forall_mem_cons]
    exact ⟨.string _, .int (by decide), .string _, .bool _, .string _, .string _, List.forall_mem_nil _⟩
  have hmerged : ∀ field ∈ merged site given, field.2.Readable depth := Fields.forall_insertAll hdefaults hgiven
  obtain ⟨hknown, page, description, port, -, -, hport, rfl⟩ := exists_values h
  have hcount : Binary64.digitCount port.natAbs ≤ Text.maxDigits := by
    cases hvalue : (merged site given).get? "port" with
    | none =>
      rw [hvalue] at hport
      cases hport
    | some value =>
      rw [hvalue] at hport
      exact digitCount_portNumber (Fields.forall_get? hmerged hvalue) hport
  exact .object (forall_ofValues hmerged (.string page) (.string description) (.int hcount))

/-- The defaults are read and written wherever anything is. -/
theorem readable_of_make_nil (h : make site [] = .ok s) {depth : Nat} (hdepth : 0 < depth) :
    s.toJson.Readable depth := by
  obtain ⟨inner, rfl⟩ := Nat.exists_eq_add_one_of_ne_zero (Nat.ne_of_gt hdepth)
  exact readable_of_make (List.forall_mem_nil _) h

/-- Settings in a file were made from values that were read. -/
theorem exists_given_of_readFrom (h : readFrom site disk path = .ok s) : ∃ given depth, make site given = .ok s ∧
    site.limits.reading = depth + 1 ∧ ∀ field ∈ given, field.2.Readable depth := by
  unfold readFrom at h
  split at h
  next => cases h
  next content _ =>
    unfold ofContent at h
    split at h
    next => cases h
    next text _ =>
      split at h
      next => cases h
      next => cases h
      next => cases h
      next => cases h
      next given hread =>
        obtain ⟨inner, hdepth, hgiven⟩ := (Json.readable_of_read hread).fields
        exact ⟨given, inner, h, hdepth, hgiven⟩
      next => cases h

/-- Settings in a file are within the bounds of reading. -/
theorem readable_of_readFrom (h : readFrom site disk path = .ok s) :
    s.toJson.Readable site.limits.reading := by
  obtain ⟨given, depth, hmake, hdepth, hgiven⟩ := exists_given_of_readFrom h
  rw [hdepth]
  exact readable_of_make hgiven hmake

/-! ### Files -/

theorem writeTo_eq_ok (h : writeTo site disk s path = (disk', .ok ())) :
    disk.write site path (s.content site) = .ok disk' ∧ s.toJson.faultAt? site.limits.writing = none := by
  unfold writeTo at h
  split at h
  next => cases h
  next written hwrite =>
    split at h
    next => cases h
    next hfault =>
      cases h
      exact ⟨hwrite, hfault⟩

theorem save_some (h : path ≠ "") : save site disk s (some path) = writeTo site disk s path := by
  unfold save
  split
  next heq => cases heq
  next heq => exact absurd (Option.some.inj heq) h
  next heq =>
    cases heq
    rfl

/-- Settings that were written to a file are read from it where they are not too deep. -/
theorem readFrom_of_writeTo (hsite : site.HasAbsoluteHomes) (hs : Constructed site s)
    (h : writeTo site disk s path = (disk', .ok ())) (hdepth : s.toJson.depth ≤ site.limits.reading)
    (hfile : disk'.isFile site path = true) : readFrom site disk' path = .ok s := by
  obtain ⟨hwrite, hfault⟩ := writeTo_eq_ok h
  have hplain := hs.toJson_plain hsite
  have hread : Json.read s.toJson.pretty site.limits.reading = .ok (.object s.fields) :=
    hplain.read_pretty hdepth hfault
  simp only [readFrom, Disk.read_of_write hwrite hfile, ofContent, content, hplain.fileText_written hfault, hread]
  exact (hs.settled hsite).make

theorem load_some (h : Path.hasImpossibleUser path = false) (disk : Disk) :
    load site disk (some path) = (disk, readFrom site disk (Path.expandHome site path)) := by
  simp only [load, expanded, h, if_neg Bool.false_ne_true, bind, Except.bind]

/-- There are no settings where nothing is read, -/
theorem ofContent_nil (site : Site) (shown : String) : ∃ e, ofContent site shown [] = .error (.malformed shown e) :=
  ⟨_, rfl⟩

/-- and none in what is no text. -/
theorem ofContent_byte (site : Site) (shown : String) : ∃ e, ofContent site shown [0xFF] = .error (.undecodable e) :=
  ⟨_, rfl⟩

/-- Settings that were written to a path are read from it just if there is a file and they are not too
deep. -/
theorem readFrom_of_writeTo_iff (hsite : site.HasAbsoluteHomes) (hs : Constructed site s)
    (h : writeTo site disk s path = (disk', .ok ())) :
    readFrom site disk' path = .ok s ↔
      s.toJson.depth ≤ site.limits.reading ∧ disk'.isFile site path = true := by
  constructor
  · intro hread
    refine ⟨(readable_of_readFrom hread).depth_le, ?_⟩
    by_contra hfile
    obtain ⟨e, he⟩ := ofContent_nil site path
    have hnothing := Disk.read_of_not_isFile (writeTo_eq_ok h).1 (by simpa using hfile)
    simp only [readFrom, hnothing, he] at hread
    cases hread
  · intro ⟨hdepth, hfile⟩
    exact readFrom_of_writeTo hsite hs h hdepth hfile

theorem ensureBaseDir_eq_ok {between : Disk} {dir : String} : ensureBaseDir site disk = (between, .ok dir) ↔
    site.baseDir? = some dir ∧ disk.makeDirs (Path.parts dir) = (between, .ok ()) := by
  unfold ensureBaseDir
  constructor
  · intro h
    split at h
    next => cases h
    next hbase =>
      split at h
      next => cases h
      next hmade =>
        cases h
        exact ⟨hbase, hmade⟩
  · intro ⟨hbase, hmade⟩
    simp only [hbase, hmade]

/-- A base directory that was made is there and needs no making. -/
theorem ensureBaseDir_of_keeps {between : Disk} {dir : String} (h : ensureBaseDir site disk = (between, .ok dir))
    (hkeeps : between.KeepsDirectories disk') : ensureBaseDir site disk' = (disk', .ok dir) := by
  rw [ensureBaseDir_eq_ok] at h ⊢
  obtain ⟨hbase, hmade⟩ := h
  refine ⟨hbase, Disk.makeDirs_of_directories ?_⟩
  intro n hn
  exact hkeeps _ (Disk.makeDirs_ok hmade n hn)

/-- How settings come from the usual file: they are read from it, or are the defaults and written to
it. -/
theorem load_none_cases (h : load site disk none = (disk', .ok s)) :
    ∃ between dir, ensureBaseDir site disk = (between, .ok dir) ∧
      (between.exists? site (Path.join dir fileName) = true ∧ disk' = between ∧
          readFrom site between (Path.join dir fileName) = .ok s ∨
        between.exists? site (Path.join dir fileName) = false ∧ make site [] = .ok s ∧
          writeTo site between s (Path.join dir fileName) = (disk', .ok ())) := by
  simp only [load] at h
  split at h
  next => cases h
  next between dir hbase =>
    refine ⟨between, dir, hbase, ?_⟩
    split at h
    next hexists =>
      obtain ⟨hdisk, hread⟩ := Prod.mk.inj h
      exact .inl ⟨hexists, hdisk.symm, hread⟩
    next habsent =>
      split at h
      next => cases h
      next made hmake =>
        split at h
        next => cases h
        next written hwrite =>
          cases h
          exact .inr ⟨by simpa using habsent, hmake, hwrite⟩

/-- Settings that were loaded come from a file, or are the defaults. -/
theorem load_cases {path? : Option String} (h : load site disk path? = (disk', .ok s)) :
    (∃ between path, readFrom site between path = .ok s) ∨ make site [] = .ok s := by
  cases path? with
  | some path =>
    obtain ⟨-, hread⟩ := Prod.mk.inj h
    cases hpath : expanded site path with
    | error e =>
      rw [hpath] at hread
      cases hread
    | ok path' =>
      rw [hpath] at hread
      exact .inl ⟨_, _, hread⟩
  | none =>
    obtain ⟨between, dir, -, ⟨-, -, hread⟩ | ⟨-, hmake, -⟩⟩ := load_none_cases h
    · exact .inl ⟨_, _, hread⟩
    · exact .inr hmake

/-- They were made from some values, -/
theorem exists_make_of_load {path? : Option String} (h : load site disk path? = (disk', .ok s)) :
    ∃ given, make site given = .ok s := by
  rcases load_cases h with ⟨between, path, hread⟩ | hmake
  · obtain ⟨given, -, hmake, -⟩ := exists_given_of_readFrom hread
    exact ⟨given, hmake⟩
  · exact ⟨[], hmake⟩

/-- The usual file once it has been read or written. -/
theorem load_usual (hsite : site.HasAbsoluteHomes) (h : load site disk none = (disk', .ok s)) :
    load site disk' none = (disk', .ok s) := by
  obtain ⟨between, dir, hbase, ⟨hexists, rfl, hread⟩ | ⟨habsent, hmake, hwrite⟩⟩ := load_none_cases h
  · simp only [load, ensureBaseDir_of_keeps hbase (.refl _), hexists, if_pos, hread]
  · have hfile := (writeTo_eq_ok hwrite).1
    have hread := readFrom_of_writeTo hsite (.made (List.forall_mem_nil _) hmake) hwrite
      (readable_of_make_nil hmake site.limits.reading_pos).depth_le (Disk.isFile_of_write hfile habsent)
    simp only [load, ensureBaseDir_of_keeps hbase (Disk.keepsDirectories_of_write hfile),
      Disk.exists?_of_write hfile, if_pos, hread]

/-- What is saved under a path that needs no expansion is loaded just if there is a file and it is not
too deep. -/
theorem load_of_save_iff (hsite : site.HasAbsoluteHomes) (hs : Constructed site s) (hempty : path ≠ "")
    (htilde : path.toList.head? ≠ some '~') (h : save site disk s (some path) = (disk', .ok ())) :
    load site disk' (some path) = (disk', .ok s) ↔
      s.toJson.depth ≤ site.limits.reading ∧ disk'.isFile site path = true := by
  rw [save_some hempty] at h
  rw [load_some (Path.hasImpossibleUser_eq_false htilde), Path.expandHome_eq_self htilde,
    ← readFrom_of_writeTo_iff hsite hs h, Prod.mk.injEq, and_iff_right rfl]

end

/-- **Saving and loading.** On a site with homes at the root, settings that were made from plain
values, whatever host, port or level was written since, are made of their own values again; what the
options of a command write is among these. From a path they were saved to they are loaded as they are
just if it leads to a file and they are no deeper than what is read. Settings are made of their own
values whatever they were made from, and the usual file, once loaded, is loaded alike and left as it
is. -/
theorem load_save {site : Site} (hsite : site.HasAbsoluteHomes) :
    (∀ s options, Constructed site s → Constructed site (Command.override s options)) ∧
    (∀ s, Constructed site s → make site s.fields = .ok s ∧
      ∀ (disk disk' : Disk) (path : String), path ≠ "" → path.toList.head? ≠ some '~' →
        save site disk s (some path) = (disk', .ok ()) →
        (load site disk' (some path) = (disk', .ok s) ↔
          s.toJson.depth ≤ site.limits.reading ∧ disk'.isFile site path = true)) ∧
    (∀ given s, make site given = .ok s → make site s.fields = .ok s) ∧
    ∀ (disk disk' : Disk) (s : Settings), load site disk none = (disk', .ok s) →
      load site disk' none = (disk', .ok s) := by
  refine ⟨fun s options hs => hs.override options, fun s hs => ⟨(hs.settled hsite).make, ?_⟩,
    fun given s hmake => (make_settled hsite hmake).make, fun disk disk' s => load_usual hsite⟩
  intro disk disk' path hempty htilde hsave
  exact load_of_save_iff hsite hs hempty htilde hsave

/-- A host that is an object, a port in digits and a path from another's home, saved and loaded after
a level was written; and the usual file, loaded twice where there was none. -/
theorem load_save_of_nested :
    let site : Site := ⟨"/", "/home/ann", [("bob", "/home/bob/")], none, "/static", .usual⟩
    let host : Json := .object [("π\r\n", .array [.null, .int (-7)])]
    let made : Settings := ⟨[("host", host), ("port", .int 80), ("log_level", .string "INFO"),
      ("log_to_file", .bool false), ("webpage_path", .string "/home/bob/page"),
      ("api_spec_path", .string "/static/api_spec.yaml")]⟩
    let s := made.set "log_level" (.string "\"é\"")
    let disk := Disk.empty.put ["c.json"] (.file (s.content site))
    make site [("port", .string " 8_0 "), ("webpage_path", .string "~bob/page"), ("host", host)] = .ok made ∧
      save site .empty s (some "c.json") = (disk, .ok ()) ∧ load site disk (some "c.json") = (disk, .ok s) ∧
      ∃ usual disk', load site .empty none = (disk', .ok usual) ∧ load site disk' none = (disk', .ok usual) := by
  intro site host made s disk
  have hsite : site.HasAbsoluteHomes := by
    refine ⟨by decide +kernel, ?_⟩
    simp only [site, List.forall_mem_cons]
    exact ⟨by decide +kernel, List.forall_mem_nil _⟩
  have hmake : make site [("port", .string " 8_0 "), ("webpage_path", .string "~bob/page"), ("host", host)] =
      .ok made := by
    subst site host made
    with_unfolding_all rfl
  have hhost : host.Plain := by
    refine .object (by decide) ?_
    simp only [List.forall_mem_singleton]
    refine .array ?_
    simp only [List.forall_mem_cons]
    exact ⟨.null, .int _, List.forall_mem_nil _⟩
  have hs : Constructed site s := by
    refine .logLevel _ (.made ?_ hmake)
    simp only [List.forall_mem_cons]
    exact ⟨.string _, .string _, hhost, List.forall_mem_nil _⟩
  have hsave : save site .empty s (some "c.json") = (disk, .ok ()) := by
    subst site host made s disk
    with_unfolding_all rfl
  have hdepth : s.toJson.depth ≤ site.limits.reading := by
    subst site host made s
    decide +kernel
  have hfile : disk.isFile site "c.json" = true := by
    subst site
    with_unfolding_all rfl
  have husual : (load site .empty none).2.isOk = true := by decide +kernel
  refine ⟨hmake, hsave,
    (((load_save hsite).2.1 s hs).2 _ _ _ (by decide) (by decide +kernel) hsave).2 ⟨hdepth, hfile⟩, ?_⟩
  generalize hload : load site .empty none = outcome at husual
  obtain ⟨disk', result⟩ := outcome
  cases result with
  | error e => cases husual
  | ok usual => exact ⟨usual, disk', rfl, (load_save hsite).2.2.2 _ _ _ hload⟩

/-- What is saved need not be loaded: the null device takes settings and gives none back, and a host
may be nested deeper than is read. -/
theorem save_without_load :
    let site : Site := ⟨"/", "/root", [], none, "/static", .usual⟩
    let made (host : Json) (port : Int) : Settings := ⟨[("host", host), ("port", .int port),
      ("log_level", .string "INFO"), ("log_to_file", .bool false), ("webpage_path", .string "/static/index.html"),
      ("api_spec_path", .string "/static/api_spec.yaml")]⟩
    let usual := made (.string "0.0.0.0") 5001
    let deep := made (.nested site.limits.reading) 3000
    (Constructed site usual ∧ save site .empty usual (some "/dev/null") = (.empty, .ok ()) ∧
      ∃ cause, load site .empty (some "/dev/null") = (.empty, .error (.malformed "/dev/null" cause))) ∧
    Constructed site deep ∧ ∃ disk, save site .empty deep (some "c.json") = (disk, .ok ()) ∧
      load site disk (some "c.json") ≠ (disk, .ok deep) := by
  intro site made usual deep
  have hsite : site.HasAbsoluteHomes := ⟨by decide +kernel, List.forall_mem_nil _⟩
  have hmade : ∀ host port, make site [("host", host), ("port", .int port)] = .ok (made host port) := by
    intro host port
    subst site made
    with_unfolding_all rfl
  have hconstructed : ∀ host port, host.Plain → Constructed site (made host port) := by
    intro host port hhost
    refine .made ?_ (hmade host port)
    simp only [List.forall_mem_cons]
    exact ⟨hhost, .int port, List.forall_mem_nil _⟩
  refine ⟨⟨hconstructed _ _ (.string _), ?_, ?_⟩, hconstructed _ _ (Json.plain_nested _), ?_⟩
  · subst site made usual
    with_unfolding_all rfl
  · subst site
    exact ⟨_, by with_unfolding_all rfl⟩
  · have hdeep : Constructed site deep := hconstructed _ _ (Json.plain_nested _)
    have hwrite : ∀ content,
        Disk.empty.write site "c.json" content = .ok (Disk.empty.put ["c.json"] (.file content)) := by
      intro content
      subst site
      with_unfolding_all rfl
    have hreadable : deep.toJson.Readable (site.limits.reading + 1) := by
      refine .object ?_
      simp only [deep, made, List.forall_mem_cons]
      exact ⟨Json.readable_nested _, .int (by decide), .string _, .bool _, .string _, .string _,
        List.forall_mem_nil _⟩
    have hfault : deep.toJson.faultAt? site.limits.writing = none :=
      hreadable.faultAt?_eq_none_iff.2 (Nat.le_trans hreadable.depth_le (by decide))
    have hsave : save site .empty deep (some "c.json") =
        (Disk.empty.put ["c.json"] (.file (deep.content site)), .ok ()) := by
      rw [save_some (by decide), writeTo, hwrite]
      simp only [hfault]
    refine ⟨_, hsave, ?_⟩
    rw [ne_eq, load_of_save_iff hsite hdeep (by decide) (by decide +kernel) hsave, not_and]
    intro hdepth
    have hmem : ("host", Json.nested site.limits.reading) ∈ deep.fields := List.mem_cons_self
    have hhost := Json.fieldsDepth_le.1 (Nat.le_refl _) _ hmem
    rw [Json.depth_nested] at hhost
    exact absurd (Nat.lt_of_lt_of_le (Nat.lt_succ_of_le hhost) hdepth) (Nat.lt_irrefl _)

end BnfReader.Settings
