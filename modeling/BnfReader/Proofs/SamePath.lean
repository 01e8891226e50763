import BnfReader.Proofs.Reloading

/-! Whether one path means one file.

The file that a path is saved to is the one that comes to hold whatever is saved, whatever it held
before (`Settings.SavesTo`), and the file that it is loaded from is the one whose content, whatever it
is, decides what is loaded (`Settings.LoadsFrom`). Saving takes a path as it is written, and an empty one
for the usual file. Loading writes out a home directory first, and an empty path leads nowhere. So the
two files are the same exactly if the path is not empty and leads to one place in both forms, as it does
when there is no home to write out; a path from a home, in a working directory that has a directory of
the name `~`, is saved there and not loaded from there.

Both are said of disks that differ at one place (`Disk.AgreesOff`). Where there is no directory at it,
walks go the same way on them, and so does the making of directories elsewhere (`makeDirs_agrees`). -/
namespace BnfReader

namespace Disk
variable {d d' : Disk} {site : Site} {path : String} {place : Place} {content : Text.Bytes}

/-- The path leads to the place. -/
structure Leads (d : Disk) (site : Site) (path : String) (place : Place) : Prop where
  noNull : hasNull path = false
  locate : d.locate site path = .ok place

/-- The disks hold the same everywhere but at a place. -/
def AgreesOff (d d' : Disk) (place : Place) : Prop := ∀ other, other ≠ place → d'.node? other = d.node? other

theorem agreesOff_put (d : Disk) (place : Place) (node : Node) : d.AgreesOff (d.put place node) place := by
  intro other hne
  exact node?_put_of_ne hne

theorem AgreesOff.symm (h : d.AgreesOff d' place) : d'.AgreesOff d place := by
  intro other hne
  exact (h other hne).symm

/-- Where there is no directory on one disk, the other may differ and still has the same directories. -/
theorem AgreesOff.keepsDirectories (h : d.AgreesOff d' place) (hfree : d.node? place ≠ some .directory) :
    d.KeepsDirectories d' := by
  intro other hother
  have hne : other ≠ place := by
    intro heq
    rw [heq] at hother
    exact hfree hother
  rw [h other hne, hother]

theorem Leads.of_keeps (hkeeps : d.KeepsDirectories d') (h : d.Leads site path place) : d'.Leads site path place := by
  obtain ⟨hnull, hlocate⟩ := h
  refine ⟨hnull, ?_⟩
  unfold Disk.locate at hlocate ⊢
  split at hlocate
  next => cases hlocate
  next hempty =>
    split at hlocate
    next => cases hlocate
    next hshort =>
      rw [if_neg hempty, if_neg hshort]
      exact hkeeps.walk hlocate

/-- What is read at a place: the content of a file, and nothing from the null device. -/
def Holds (d : Disk) (place : Place) (content : Text.Bytes) : Prop :=
  d.node? place = some (.file content) ∨ d.node? place = some .device ∧ content = []

/-- What is read is what the place holds that the path leads to. -/
theorem read_eq_ok : d.read site path = .ok content ↔ ∃ place, d.Leads site path place ∧ d.Holds place content := by
  unfold Disk.read
  constructor
  · intro h
    split at h
    next => cases h
    next hnull =>
      rw [orRefuse_eq_ok] at h
      cases hlocate : d.locate site path with
      | error problem => simp [hlocate, bind, Except.bind] at h
      | ok place =>
        have hleads : d.Leads site path place := ⟨by simpa using hnull, hlocate⟩
        simp only [hlocate, bind, Except.bind] at h
        split at h
        next => cases h
        next => cases h
        next there hnode =>
          cases h
          exact ⟨place, hleads, .inl hnode⟩
        next hnode =>
          cases h
          exact ⟨place, hleads, .inr ⟨hnode, rfl⟩⟩
  · intro ⟨place, ⟨hnull, hlocate⟩, hholds⟩
    rw [hnull, if_neg Bool.false_ne_true, orRefuse_eq_ok, hlocate]
    rcases hholds with hnode | ⟨hnode, rfl⟩
    · simp only [bind, Except.bind, hnode]
    · simp only [bind, Except.bind, hnode]

/-! ### Disks that differ at one place -/

/-- The same put elsewhere makes no difference. -/
theorem AgreesOff.put (h : d.AgreesOff d' place) (target : Place) (node : Node) :
    (d.put target node).AgreesOff (d'.put target node) place := by
  intro other hne
  by_cases hroot : other = []
  · simp only [node?, hroot, if_pos]
  by_cases htarget : other = target
  · subst htarget
    rw [node?_put_self hroot, node?_put_self hroot]
  · rw [node?_put_of_ne htarget, node?_put_of_ne htarget, h other hne]

/-- A target is one on both disks. -/
def Target.onOther (t : Target d site path) (h : d.AgreesOff d' place) (hfree : d.node? place ≠ some .directory)
    (hfree' : d'.node? place ≠ some .directory) : Target d' site path where
  dir := t.dir
  name := t.name
  place := t.place
  noNull := t.noNull
  nonempty := t.nonempty
  short := t.short
  pieces := t.pieces
  proper := t.proper
  shortName := t.shortName
  walk := (h.keepsDirectories hfree).walk t.walk
  directory := h.keepsDirectories hfree _ t.directory
  free := by
    by_cases heq : t.place ++ [t.name] = place
    · rwa [heq]
    · rw [h _ heq]
      exact t.free

section
variable {e : Disk} {target other : Place} {r r' : Except FileError Unit} {n : Nat} {ns : List Nat}

/-- A part of the way that is elsewhere is made a directory on both disks alike. -/
theorem makeDir_agrees (hagrees : d.AgreesOff d' other) (hne : target.take n ≠ other)
    (h : makeDir target (d, r) n = (e, r')) :
    ∃ e', makeDir target (d', r) n = (e', r') ∧ e.AgreesOff e' other ∧ e'.node? other = d'.node? other := by
  cases r with
  | error problem =>
    cases h
    exact ⟨d', rfl, hagrees, rfl⟩
  | ok =>
    simp only [makeDir, hagrees _ hne] at h ⊢
    split at h
    next =>
      cases h
      exact ⟨d', rfl, hagrees, rfl⟩
    next =>
      split at h
      next hlast =>
        cases h
        exact ⟨d', if_pos hlast, hagrees, rfl⟩
      next hlast =>
        cases h
        exact ⟨d', if_neg hlast, hagrees, rfl⟩
    next =>
      split at h
      next hlast =>
        cases h
        exact ⟨d', if_pos hlast, hagrees, rfl⟩
      next hlast =>
        cases h
        exact ⟨d', if_neg hlast, hagrees, rfl⟩
    next =>
      split at h
      next hlong =>
        cases h
        exact ⟨d', if_pos hlong, hagrees, rfl⟩
      next hlong =>
        cases h
        exact ⟨_, if_neg hlong, hagrees.put _ _, node?_put_of_ne (Ne.symm hne)⟩

theorem foldl_makeDir_agrees (hagrees : d.AgreesOff d' other) (hns : ∀ n ∈ ns, target.take n ≠ other)
    (h : ns.foldl (makeDir target) (d, r) = (e, r')) :
    ∃ e', ns.foldl (makeDir target) (d', r) = (e', r') ∧ e.AgreesOff e' other ∧
      e'.node? other = d'.node? other := by
  induction ns generalizing d d' r with
  | nil =>
    cases h
    exact ⟨d', rfl, hagrees, rfl⟩
  | cons n ns ih =>
    rw [List.forall_mem_cons] at hns
    obtain ⟨mid, r₁, hstep⟩ : ∃ mid r₁, makeDir target (d, r) n = (mid, r₁) := ⟨_, _, rfl⟩
    obtain ⟨mid', hstep', hmid, hother⟩ := makeDir_agrees hagrees hns.1 hstep
    rw [List.foldl_cons, hstep] at h
    obtain ⟨e', hrest, he, hother'⟩ := ih hmid hns.2 h
    exact ⟨e', by rw [List.foldl_cons, hstep', hrest], he, hother'.trans hother⟩

/-- Directories that were made on one disk are made on the other, if none of them is where they
differ. -/
theorem makeDirs_agrees (hagrees : d.AgreesOff d' other) (hfree : e.node? other ≠ some .directory)
    (h : d.makeDirs target = (e, .ok ())) :
    ∃ e', d'.makeDirs target = (e', .ok ()) ∧ e.AgreesOff e' other ∧ e'.node? other = d'.node? other := by
  refine foldl_makeDir_agrees hagrees ?_ h
  intro n hn heq
  have hdirectory := makeDirs_ok h n (Nat.le_of_lt_succ (List.mem_range.1 hn))
  rw [heq] at hdirectory
  exact hfree hdirectory

end
end Disk

/-- A path without a null character names no impossible user. -/
theorem Path.hasImpossibleUser_of_hasNull {path : String} (h : Disk.hasNull path = false) :
    hasImpossibleUser path = false := by
  have hnull : '\x00' ∉ path.toList := by simpa [Disk.hasNull] using h
  unfold hasImpossibleUser
  split
  next name hfirst =>
    have hname : '\x00' ∉ name := by
      intro hmem
      apply hnull
      apply (List.takeWhile_prefix (· != '/')).subset
      rw [hfirst]
      exact List.mem_cons_of_mem '~' hmem
    simpa using hname
  next => rfl

namespace Settings
variable {site : Site} {disk disk' : Disk} {s : Settings} {path : String} {place : Place}

/-- Through the path settings are saved in the file at the place: whatever it holds while all else on
the disk stays as it is, it comes to hold them, and so it does if there is none yet. Only the null device
may be there and hold nothing. -/
structure SavesTo (site : Site) (disk : Disk) (path? : Option String) (place : Place) : Prop where
  replaces : ∀ (d : Disk) (content : Text.Bytes) (s : Settings), disk.AgreesOff d place →
    d.node? place = some (.file content) → (save site d s path?).1.node? place = some (.file (s.content site))
  holds : disk.node? place ≠ some .device → ∀ s : Settings,
    (save site disk s path?).1.node? place = some (.file (s.content site))

/-- Through the path settings are loaded from the file at the place: whatever it holds while all else on
the disk stays as it is, they are made of that. -/
def LoadsFrom (site : Site) (disk : Disk) (path? : Option String) (place : Place) : Prop :=
  ∃ shown, ∀ (d : Disk) (content : Text.Bytes), disk.AgreesOff d place →
    d.node? place = some (.file content) → load site d path? = (d, ofContent site shown content)

/-! ### Where settings are saved -/

/-- What saving through a path comes to: writing to a target, which is the path itself unless it is
empty, once the base directory is there if it is needed. The same is written to where the disk differs
at one place, if that is none of the directories. -/
structure SavesBy (site : Site) (disk : Disk) (path : String) (between : Disk) (target : String) : Prop where
  own : path ≠ "" → target = path
  save : ∀ s, save site disk s (some path) = writeTo site between s target
  unchanged : ∀ place, between.node? place = disk.node? place ∨
    disk.node? place = none ∧ between.node? place = some .directory
  elsewhere : ∀ d place, disk.AgreesOff d place → between.node? place ≠ some .directory →
    ∃ between', between.AgreesOff between' place ∧ between'.node? place = d.node? place ∧
      ∀ s, Settings.save site d s (some path) = writeTo site between' s target

theorem exists_savesBy (h : save site disk s (some path) = (disk', .ok ())) :
    ∃ between target, SavesBy site disk path between target := by
  by_cases hempty : path = ""
  · subst hempty
    obtain ⟨between, result, hbase⟩ : ∃ between result, ensureBaseDir site disk = (between, result) := ⟨_, _, rfl⟩
    cases result with
    | error e => simp [save, hbase] at h
    | ok dir =>
      obtain ⟨hdir, hmade⟩ := ensureBaseDir_eq_ok.1 hbase
      refine ⟨between, Path.join dir fileName, fun hne => absurd rfl hne, fun s => by simp only [save, hbase],
        Disk.node?_makeDirs hmade, ?_⟩
      intro d place hagrees hfree
      obtain ⟨between', hmade', hagrees', hplace⟩ := Disk.makeDirs_agrees hagrees hfree hmade
      have hbase' := ensureBaseDir_eq_ok.2 ⟨hdir, hmade'⟩
      exact ⟨between', hagrees', hplace, fun s => by simp only [save, hbase']⟩
  · exact ⟨disk, path, fun _ => rfl, fun s => save_some hempty, fun _ => .inl rfl,
      fun d place hagrees _ => ⟨d, hagrees, rfl, fun s => save_some hempty⟩⟩

theorem writeTo_of_target (t : disk.Target site path) (s : Settings) :
    (writeTo site disk s path).1 = disk.store (t.place ++ [t.name]) (s.content site) := by
  rw [writeTo, t.write]
  dsimp only
  split <;> rfl

section
variable {between : Disk} {target : String}

/-- Where the disk differs at one place, what is saved is stored at the same target. -/
theorem SavesBy.store_elsewhere (h : SavesBy site disk path between target) (t : between.Target site target)
    {d : Disk} (hagrees : disk.AgreesOff d place) (hfree : between.node? place ≠ some .directory)
    (hfree' : d.node? place ≠ some .directory) :
    ∃ between' : Disk, between'.node? place = d.node? place ∧ ∀ s, (Settings.save site d s (some path)).1 =
      between'.store (t.place ++ [t.name]) (s.content site) := by
  obtain ⟨between', hagrees', hplace, hsave⟩ := h.elsewhere d place hagrees hfree
  refine ⟨between', hplace, fun s => ?_⟩
  rw [hsave]
  exact writeTo_of_target (t.onOther hagrees' hfree (by rwa [hplace])) s

/-- What is saved comes to stand at the target, -/
theorem SavesBy.savesTo (h : SavesBy site disk path between target) (t : between.Target site target) :
    SavesTo site disk (some path) (t.place ++ [t.name]) := by
  have hplace : t.place ++ [t.name] ≠ [] := by simp
  constructor
  · intro d content s hagrees hfile
    obtain ⟨between', hbetween', hstore⟩ := h.store_elsewhere t hagrees t.free (by simp [hfile])
    rw [hstore, Disk.node?_store_self hplace (by simp [hbetween', hfile])]
  · intro hdevice s
    have hbetween : between.node? (t.place ++ [t.name]) ≠ some .device := by
      rcases h.unchanged (t.place ++ [t.name]) with hnode | ⟨-, hnode⟩
      · rwa [hnode]
      · simp [hnode]
    rw [h.save, writeTo_of_target t, Disk.node?_store_self hplace hbetween]

/-- and in no other place. -/
theorem SavesBy.eq_of_savesTo (h : SavesBy site disk path between target) (t : between.Target site target)
    {other : Place} (hother : SavesTo site disk (some path) other) : other = t.place ++ [t.name] := by
  by_contra hne
  -- Nothing is written there: neither a directory nor what it held before can give way.
  have hfree : between.node? other ≠ some .directory := by
    by_cases hdevice : disk.node? other = some .device
    · rcases h.unchanged other with hnode | ⟨hnone, -⟩
      · simp [hnode, hdevice]
      · cases hdevice.symm.trans hnone
    · have hholds := hother.holds hdevice ⟨[]⟩
      rw [h.save, writeTo_of_target t, Disk.node?_store_of_ne hne] at hholds
      simp [hholds]
  have hbefore : ∀ content, content = (⟨[]⟩ : Settings).content site := by
    intro content
    have hfile : (disk.put other (.file content)).node? other = some (.file content) :=
      Disk.node?_put_self (Disk.ne_nil_of_free hfree)
    have hagrees := disk.agreesOff_put other (.file content)
    obtain ⟨between', hbetween', hstore⟩ := h.store_elsewhere t hagrees hfree (by simp [hfile])
    have hafter := hother.replaces _ content ⟨[]⟩ hagrees hfile
    rw [hstore, Disk.node?_store_of_ne hne, hbetween', hfile] at hafter
    exact Node.file.inj (Option.some.inj hafter)
  cases (hbefore []).trans (hbefore [0]).symm

end

/-! ### Where settings are loaded from -/

theorem load_empty (site : Site) (d : Disk) :
    load site d (some "") = (d, .error (.unreadable "" (.refused .notFound ""))) := rfl

theorem readFrom_of_read {content : Text.Bytes} (h : disk.read site path = .ok content) :
    readFrom site disk path = ofContent site path content := by
  simp only [readFrom, h]

theorem exists_read_of_undecodable {e : Text.DecodeError} (h : readFrom site disk path = .error (.undecodable e)) :
    ∃ content, disk.read site path = .ok content := by
  unfold readFrom at h
  split at h
  next cause hread => cases cause <;> cases h
  next content hread => exact ⟨content, hread⟩

/-- A path that leads to a place once its home is written out is loaded from there. -/
theorem loadsFrom_of_leads (hnull : Disk.hasNull path = false) (hfree : disk.node? place ≠ some .directory)
    (h : disk.Leads site (Path.expandHome site path) place) : LoadsFrom site disk (some path) place := by
  refine ⟨Path.expandHome site path, ?_⟩
  intro d content hagrees hnode
  have hleads := h.of_keeps (hagrees.keepsDirectories hfree)
  rw [load_some (Path.hasImpossibleUser_of_hasNull hnull), readFrom_of_read (Disk.read_eq_ok.2 ⟨place, hleads, .inl hnode⟩)]

/-- And a path that is loaded from a place leads to it. -/
theorem leads_of_loadsFrom (hnull : Disk.hasNull path = false) (hfree : disk.node? place ≠ some .directory)
    (h : LoadsFrom site disk (some path) place) : disk.Leads site (Path.expandHome site path) place := by
  obtain ⟨shown, hloads⟩ := h
  have hput : ∀ content, (disk.put place (.file content)).node? place = some (.file content) :=
    fun content => Disk.node?_put_self (Disk.ne_nil_of_free hfree)
  have hread : ∀ content, readFrom site (disk.put place (.file content)) (Path.expandHome site path) =
      ofContent site shown content := by
    intro content
    have hload := hloads _ content (disk.agreesOff_put place _) (hput content)
    rw [load_some (Path.hasImpossibleUser_of_hasNull hnull)] at hload
    exact (Prod.mk.inj hload).2
  obtain ⟨e, he⟩ := ofContent_byte site shown
  obtain ⟨e', he'⟩ := ofContent_nil site shown
  obtain ⟨found, hfound⟩ := exists_read_of_undecodable ((hread _).trans he)
  obtain ⟨there, hleads, hholds⟩ := Disk.read_eq_ok.1 hfound
  have hback : disk.Leads site (Path.expandHome site path) there := by
    refine hleads.of_keeps ((disk.agreesOff_put place _).symm.keepsDirectories ?_)
    simp [hput]
  by_cases hsame : there = place
  · rwa [hsame] at hback
  -- From another place the same would be loaded whatever is at this one.
  rw [Disk.Holds, Disk.node?_put_of_ne hsame] at hholds
  have hother : ∀ content, readFrom site (disk.put place (.file content)) (Path.expandHome site path) =
      ofContent site (Path.expandHome site path) found := by
    intro content
    apply readFrom_of_read
    refine Disk.read_eq_ok.2 ⟨there, hback.of_keeps ((disk.agreesOff_put place _).keepsDirectories hfree), ?_⟩
    rwa [Disk.Holds, Disk.node?_put_of_ne hsame]
  have hclash : ofContent site shown [0xFF] = ofContent site shown [] := by
    rw [← hread, ← hread, hother, hother]
  rw [he, he'] at hclash
  cases hclash

/-- An empty path is loaded from no file. -/
theorem not_loadsFrom_empty (hplace : place ≠ []) : ¬ LoadsFrom site disk (some "") place := by
  intro ⟨shown, hloads⟩
  have hload := hloads _ [0xFF] (disk.agreesOff_put place _) (Disk.node?_put_self hplace)
  obtain ⟨e, he⟩ := ofContent_byte site shown
  rw [load_empty, he] at hload
  cases hload

/-- **Saving and loading by one path.** Whatever is saved through a path comes to stand in one file, and in
no other. Through the same path settings are then loaded from that file exactly if the path is not
empty and still leads there with its home directory written out. It does so if there is no home to
write out. Through an empty path, which is saved to the usual file, nothing is found. -/
theorem loadsFrom_saved_iff (h : save site disk s (some path) = (disk', .ok ())) :
    ∃ place, SavesTo site disk (some path) place ∧ (∀ other, SavesTo site disk (some path) other → other = place) ∧
      (LoadsFrom site disk' (some path) place ↔ path ≠ "" ∧ disk'.Leads site (Path.expandHome site path) place) ∧
      (path ≠ "" → Path.expandHome site path = path → LoadsFrom site disk' (some path) place) ∧
      (path = "" → load site disk' (some path) = (disk', .error (.unreadable "" (.refused .notFound "")))) := by
  obtain ⟨between, target, hby⟩ := exists_savesBy h
  obtain ⟨t, hstore⟩ : ∃ t : between.Target site target,
      disk' = between.store (t.place ++ [t.name]) (s.content site) := by
    rw [hby.save] at h
    exact Disk.exists_target (writeTo_eq_ok h).1
  have hkeeps : between.KeepsDirectories disk' := by
    rw [hstore]
    exact Disk.keepsDirectories_store t.free _
  have hfree : disk'.node? (t.place ++ [t.name]) ≠ some .directory := by
    rw [hstore]
    exact Disk.node?_store_ne_directory t.free
  have hnull : path ≠ "" → Disk.hasNull path = false := by
    intro hempty
    rw [← hby.own hempty]
    exact t.noNull
  refine ⟨t.place ++ [t.name], hby.savesTo t, fun other => hby.eq_of_savesTo t, ⟨?_, ?_⟩, ?_, ?_⟩
  · intro hloads
    have hempty : path ≠ "" := by
      intro heq
      rw [heq] at hloads
      exact not_loadsFrom_empty (Disk.ne_nil_of_free hfree) hloads
    exact ⟨hempty, leads_of_loadsFrom (hnull hempty) hfree hloads⟩
  · intro ⟨hempty, hleads⟩
    exact loadsFrom_of_leads (hnull hempty) hfree hleads
  · intro hempty hsame
    apply loadsFrom_of_leads (hnull hempty) hfree
    rw [hsame, ← hby.own hempty]
    exact ⟨t.noNull, t.locate hkeeps⟩
  · intro hempty
    rw [hempty, load_empty]

/-- Settings with a port of their own, saved to a file in a directory of the name `~`: through the same path
they are looked for in the home directory, and not found. -/
theorem loadsFrom_saved_iff_of_home :
    let site : Site := ⟨"/", "/home/ann", [], none, "/static", .usual⟩
    let s : Settings := ⟨[("host", .string "0.0.0.0"), ("port", .int 80), ("log_level", .string "INFO"),
      ("log_to_file", .bool false), ("webpage_path", .string "/static/index.html"),
      ("api_spec_path", .string "/static/api_spec.yaml")]⟩
    let disk := Disk.empty.put ["~"] .directory
    let disk' := disk.put ["~", "c.json"] (.file (s.content site))
    make site [("port", .int 80)] = .ok s ∧ save site disk s (some "~/c.json") = (disk', .ok ()) ∧
      (∃ place, SavesTo site disk (some "~/c.json") place ∧ ¬ LoadsFrom site disk' (some "~/c.json") place) ∧
      load site disk' (some "~/c.json") =
        (disk', .error (.unreadable "/home/ann/c.json" (.refused .notFound "/home/ann/c.json"))) := by
  intro site s disk disk'
  have hmake : make site [("port", .int 80)] = .ok s := by
    subst site s
    with_unfolding_all rfl
  have hsave : save site disk s (some "~/c.json") = (disk', .ok ()) := by
    subst site s disk disk'
    with_unfolding_all rfl
  have hhome : Path.expandHome site "~/c.json" = "/home/ann/c.json" := by decide +kernel
  have hread : disk'.read site "/home/ann/c.json" = .error (.refused .notFound "/home/ann/c.json") := by
    decide +kernel
  have hload : load site disk' (some "~/c.json") =
      (disk', .error (.unreadable "/home/ann/c.json" (.refused .notFound "/home/ann/c.json"))) := by
    rw [load_some (by decide +kernel), hhome, readFrom, hread]
    rfl
  obtain ⟨place, hsaves, -, hiff, -⟩ := loadsFrom_saved_iff hsave
  refine ⟨hmake, hsave, ⟨place, hsaves, fun hloads => ?_⟩, hload⟩
  obtain ⟨hnull, hlocate⟩ := (hiff.1 hloads).2
  rw [hhome] at hlocate
  have hnone : disk'.locate site "/home/ann/c.json" = .error .notFound := by decide +kernel
  rw [hnone] at hlocate
  cases hlocate

end Settings
end BnfReader
