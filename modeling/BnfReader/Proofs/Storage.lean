import BnfReader.Files.Disk

/-! What is put on a disk stays there.

A place holds what was put there last (`node?_put_self`), and every other place what it held
before (`node?_put_of_ne`). Writing a file puts it where there is no directory, and making
directories puts one where there is nothing, so neither takes a directory away (`KeepsDirectories`).
Hence a walk that came to its end comes to the same end afterwards: what was written is read back
if there is a file then (`read_of_write`), and not the null device, and directories that were made
are there (`makeDirs_ok`) and need no making again (`makeDirs_of_directories`). -/
namespace BnfReader.Disk
open Text (Bytes)

/-! ### Places -/

theorem lookup_filter_of_ne {place target : Place} (h : place ≠ target) (entries : List (Place × Node)) :
    (entries.filter fun e => e.1 != target).lookup place = entries.lookup place := by
  induction entries with
  | nil => rfl
  | cons entry entries ih =>
    obtain ⟨there, node⟩ := entry
    by_cases hthere : there = target
    · have hplace : (place == there) = false := by simpa [hthere] using h
      rw [List.filter_cons_of_neg (by simpa using hthere), ih, List.lookup_cons, hplace]
    · rw [List.filter_cons_of_pos (by simpa using hthere), List.lookup_cons, List.lookup_cons, ih]

section
variable {d d' : Disk} {place target : Place} {node : Node} {content : Bytes}

theorem node?_put_self (h : place ≠ []) : (d.put place node).node? place = some node := by
  rw [node?, if_neg h, put, List.lookup_cons_self]

theorem node?_put_of_ne (h : place ≠ target) : (d.put target node).node? place = d.node? place := by
  have hne : (place == target) = false := by simpa using h
  rw [node?, node?, put, List.lookup_cons, hne]
  simp only [lookup_filter_of_ne h]

theorem store_eq_put (h : d.node? target ≠ some .device) (content : Bytes) :
    d.store target content = d.put target (.file content) := by
  unfold store
  split
  next hdevice => exact absurd hdevice h
  next => rfl

/-- The null device stays as it is. -/
theorem store_device (h : d.node? target = some .device) (content : Bytes) : d.store target content = d := by
  simp only [store, h]

theorem node?_store_of_ne (h : place ≠ target) : (d.store target content).node? place = d.node? place := by
  by_cases hdevice : d.node? target = some .device
  · rw [store_device hdevice]
  · rw [store_eq_put hdevice, node?_put_of_ne h]

theorem node?_store_self (hplace : place ≠ []) (h : d.node? place ≠ some .device) :
    (d.store place content).node? place = some (.file content) := by
  rw [store_eq_put h, node?_put_self hplace]

/-- The root is a directory. -/
theorem ne_nil_of_free (h : d.node? place ≠ some .directory) : place ≠ [] := by
  intro hroot
  rw [hroot] at h
  exact h rfl

/-- What is stored makes no directory. -/
theorem node?_store_ne_directory (h : d.node? target ≠ some .directory) :
    (d.store target content).node? target ≠ some .directory := by
  by_cases hdevice : d.node? target = some .device
  · rwa [store_device hdevice]
  · rw [node?_store_self (ne_nil_of_free h) hdevice]
    nofun

/-- Every directory of one disk is one of the other. -/
def KeepsDirectories (d d' : Disk) : Prop :=
  ∀ place, d.node? place = some .directory → d'.node? place = some .directory

theorem KeepsDirectories.refl (d : Disk) : d.KeepsDirectories d := fun _ h => h

theorem KeepsDirectories.trans {d'' : Disk} (h : d.KeepsDirectories d') (h' : d'.KeepsDirectories d'') :
    d.KeepsDirectories d'' := fun place hplace => h' place (h place hplace)

theorem keepsDirectories_put (h : d.node? target ≠ some .directory) : d.KeepsDirectories (d.put target node) := by
  intro place hplace
  have hne : place ≠ target := by
    intro heq
    rw [heq] at hplace
    exact h hplace
  rw [node?_put_of_ne hne, hplace]

theorem keepsDirectories_store (h : d.node? target ≠ some .directory) (content : Bytes) :
    d.KeepsDirectories (d.store target content) := by
  by_cases hdevice : d.node? target = some .device
  · rw [store_device hdevice]
    exact .refl d
  · rw [store_eq_put hdevice]
    exact keepsDirectories_put h

end

/-! ### Walks -/

section
variable {d d' : Disk} {way place : Place} {ps : List String}

/-- A walk goes through directories only, so it comes to the same end where they are kept. -/
theorem KeepsDirectories.walk (hkeeps : d.KeepsDirectories d') (h : d.walk way ps = .ok place) :
    d'.walk way ps = .ok place := by
  induction ps generalizing way with
  | nil => exact h
  | cons p ps ih =>
    cases hnode : d.node? way.reverse with
    | none => simp [Disk.walk, hnode] at h
    | some node =>
      cases node with
      | file content => simp [Disk.walk, hnode] at h
      | device => simp [Disk.walk, hnode] at h
      | directory =>
        have hnode' := hkeeps _ hnode
        simp only [Disk.walk, hnode, hnode'] at h ⊢
        by_cases hdot : p = "" ∨ p = "."
        · rw [if_pos hdot] at h ⊢
          exact ih h
        · rw [if_neg hdot] at h ⊢
          split at h
          next => cases h
          next hlong =>
            rw [if_neg hlong]
            exact ih h

/-- A walk to a directory may go on to a name in it. -/
theorem walk_snoc {name : String} (h : d.walk way ps = .ok place) (hnode : d.node? place = some .directory)
    (hname : name ≠ "" ∧ name ≠ "." ∧ name ≠ "..") (hlong : partTooLong name = false) :
    d.walk way (ps ++ [name]) = .ok (place ++ [name]) := by
  induction ps generalizing way with
  | nil =>
    cases h
    simp [Disk.walk, hnode, hname, hlong, Path.enter]
  | cons p ps ih =>
    simp only [List.cons_append, Disk.walk] at h ⊢
    split at h
    next => cases h
    next => cases h
    next => cases h
    next =>
      split at h
      next hdot =>
        rw [if_pos hdot]
        exact ih h
      next hdot =>
        rw [if_neg hdot]
        split at h
        next => cases h
        next hshort =>
          rw [if_neg hshort]
          exact ih h

end

/-! ### Files -/

/-- A path of a file is its directory and a name. -/
theorem pieces_of_fileName? {path name : String} {dir : List String} (h : fileName? path = (dir, some name)) :
    Path.pieces path = dir ++ [name] ∧ name ≠ "" ∧ name ≠ "." ∧ name ≠ ".." := by
  simp only [fileName?] at h
  cases hpieces : (Path.pieces path).reverse with
  | nil => simp [hpieces] at h
  | cons last front =>
    rw [hpieces] at h
    by_cases hlast : last = ""
    · -- The path ends with a slash, so it names no file.
      simp only [List.head?_cons, hlast, bne_self_eq_false, Bool.false_and] at h
      split at h
      next => cases h
      next => cases h
    · rw [List.dropWhile_cons_of_neg (by simpa using hlast)] at h
      simp only [List.head?_cons, Prod.mk.injEq, Option.ite_none_right_eq_some, Option.some.injEq,
        Bool.and_eq_true, bne_iff_ne, ne_eq] at h
      obtain ⟨rfl, ⟨⟨-, hdot⟩, hdots⟩, rfl⟩ := h
      refine ⟨?_, hlast, hdot, hdots⟩
      rw [← List.reverse_cons, ← hpieces, List.reverse_reverse]

/-- Where a file can be written: under a name in a directory that its path leads to, where there
is no directory. -/
structure Target (d : Disk) (site : Site) (path : String) where
  dir : List String
  name : String
  place : Place
  noNull : hasNull path = false
  nonempty : path ≠ ""
  short : pathTooLong path = false
  pieces : Path.pieces path = dir ++ [name]
  proper : name ≠ "" ∧ name ≠ "." ∧ name ≠ ".."
  shortName : partTooLong name = false
  walk : d.walk (startOf site path) dir = .ok place
  directory : d.node? place = some .directory
  free : d.node? (place ++ [name]) ≠ some .directory

section
variable {d d' : Disk} {site : Site} {path : String} {content : Bytes}

theorem orRefuse_eq_ok {α : Type} {r : Except FileProblem α} {a : α} : orRefuse path r = .ok a ↔ r = .ok a := by
  cases r with
  | error problem => exact ⟨nofun, nofun⟩
  | ok b => exact ⟨fun h => by cases h; rfl, fun h => by cases h; rfl⟩

/-- A file is written at its target, or not at all. -/
theorem exists_target (h : d.write site path content = .ok d') :
    ∃ t : Target d site path, d' = d.store (t.place ++ [t.name]) content := by
  rw [write] at h
  split at h
  next => cases h
  next hnull =>
    rw [orRefuse_eq_ok] at h
    split at h
    next => cases h
    next hempty =>
      split at h
      next => cases h
      next hlong =>
        obtain ⟨dir, name?, hname⟩ : ∃ dir name?, fileName? path = (dir, name?) := ⟨_, _, rfl⟩
        rw [hname] at h
        cases hwalk : d.walk (startOf site path) dir with
        | error problem => simp [hwalk, bind, Except.bind] at h
        | ok place =>
          simp only [hwalk, bind, Except.bind] at h
          split at h
          next => cases h
          next => cases h
          next => cases h
          next => cases h
          next name hnode =>
            split at h
            next => cases h
            next hpart =>
              split at h
              next => cases h
              next hfree =>
                cases h
                obtain ⟨hpieces, hproper⟩ := pieces_of_fileName? hname
                exact ⟨⟨dir, name, place, by simpa using hnull, hempty, by simpa using hlong, hpieces, hproper,
                  by simpa using hpart, hwalk, hnode, hfree⟩, rfl⟩

/-- Anything can be written at a target. -/
theorem Target.write (t : Target d site path) (content : Bytes) :
    d.write site path content = .ok (d.store (t.place ++ [t.name]) content) := by
  have hname : fileName? path = (t.dir, some t.name) := by
    have hproper := t.proper
    simp [fileName?, t.pieces, hproper]
  rw [Disk.write, t.noNull, if_neg Bool.false_ne_true, orRefuse_eq_ok, if_neg t.nonempty, t.short,
    if_neg Bool.false_ne_true, hname]
  simp only [t.walk, bind, Except.bind, t.directory, t.shortName, if_neg Bool.false_ne_true]
  split
  next hdirectory => exact absurd hdirectory t.free
  next => rfl

/-- Writing a file takes no directory away. -/
theorem keepsDirectories_of_write (h : d.write site path content = .ok d') : d.KeepsDirectories d' := by
  obtain ⟨t, rfl⟩ := exists_target h
  exact keepsDirectories_store t.free content

/-- Where the directories are kept, the path of a target leads to its place. -/
theorem Target.locate (t : Target d site path) (hkeeps : d.KeepsDirectories d') :
    d'.locate site path = .ok (t.place ++ [t.name]) := by
  rw [Disk.locate, if_neg t.nonempty, t.short, t.pieces]
  exact walk_snoc (hkeeps.walk t.walk) (hkeeps t.place t.directory) t.proper t.shortName

/-- What a path leads to that was written to: the file, or the null device. -/
theorem locate_of_write (h : d.write site path content = .ok d') : ∃ place, d'.locate site path = .ok place ∧
    (d'.node? place = some (.file content) ∨ d.node? place = some .device ∧ d' = d) := by
  obtain ⟨t, rfl⟩ := exists_target h
  refine ⟨t.place ++ [t.name], t.locate (keepsDirectories_store t.free content), ?_⟩
  by_cases hdevice : d.node? (t.place ++ [t.name]) = some .device
  · exact .inr ⟨hdevice, store_device hdevice content⟩
  · exact .inl (node?_store_self (by simp) hdevice)

theorem isFile_of_locate {place : Place} (h : d.locate site path = .ok place) :
    d.isFile site path = true ↔ hasNull path = false ∧ ∃ content, d.node? place = some (.file content) := by
  simp only [isFile, h]
  split
  next content hnode => simp [hnode]
  next hnode => simpa using fun _ => hnode

/-- What was written is read back if there is a file then. -/
theorem read_of_write (h : d.write site path content = .ok d') (hfile : d'.isFile site path = true) :
    d'.read site path = .ok content := by
  obtain ⟨place, hlocate, hnode⟩ := locate_of_write h
  obtain ⟨hnull, there, hthere⟩ := (isFile_of_locate hlocate).1 hfile
  rcases hnode with hnode | ⟨hdevice, rfl⟩
  · rw [Disk.read, hnull, if_neg Bool.false_ne_true, orRefuse_eq_ok, hlocate]
    simp only [bind, Except.bind, hnode]
  · rw [hthere] at hdevice
    cases hdevice

/-- From the null device nothing is read. -/
theorem read_of_not_isFile (h : d.write site path content = .ok d') (hfile : d'.isFile site path = false) :
    d'.read site path = .ok [] := by
  obtain ⟨place, hlocate, hnode⟩ := locate_of_write h
  obtain ⟨t, -⟩ := exists_target h
  have hthere : ∀ content, d'.node? place ≠ some (.file content) := by
    intro content hnode
    rw [(isFile_of_locate hlocate).2 ⟨t.noNull, content, hnode⟩] at hfile
    cases hfile
  rcases hnode with hnode | ⟨hdevice, rfl⟩
  · exact absurd hnode (hthere content)
  · rw [Disk.read, t.noNull, if_neg Bool.false_ne_true, orRefuse_eq_ok, hlocate]
    simp only [bind, Except.bind, hdevice]

/-- A new file is a file. -/
theorem isFile_of_write (h : d.write site path content = .ok d') (hnew : d.exists? site path = false) :
    d'.isFile site path = true := by
  obtain ⟨t, rfl⟩ := exists_target h
  have hnone : d.node? (t.place ++ [t.name]) = none := by
    simpa [exists?, t.locate (.refl d)] using hnew
  have hdevice : d.node? (t.place ++ [t.name]) ≠ some .device := by
    rw [hnone]
    nofun
  rw [isFile_of_locate (t.locate (keepsDirectories_store t.free content))]
  exact ⟨t.noNull, content, node?_store_self (by simp) hdevice⟩

/-- What was written to is there. -/
theorem exists?_of_write (h : d.write site path content = .ok d') : d'.exists? site path = true := by
  obtain ⟨place, hlocate, hnode⟩ := locate_of_write h
  rcases hnode with hnode | ⟨hdevice, rfl⟩
  · simp [exists?, hlocate, hnode]
  · simp [exists?, hlocate, hdevice]

end

/-! ### Directories -/

section
variable {d d' : Disk} {place : Place} {r : Except FileError Unit} {n : Nat} {ns : List Nat}

/-- One part of the way: it is a directory, and no other was taken away for it. -/
theorem makeDir_ok (h : makeDir place (d, r) n = (d', .ok ())) :
    r = .ok () ∧ d.KeepsDirectories d' ∧ d'.node? (place.take n) = some .directory := by
  cases r with
  | error e => simp [makeDir] at h
  | ok =>
    refine ⟨rfl, ?_⟩
    simp only [makeDir] at h
    split at h
    next hnode =>
      cases h
      exact ⟨.refl d, hnode⟩
    next =>
      split at h
      next => cases h
      next => cases h
    next =>
      split at h
      next => cases h
      next => cases h
    next hnode =>
      split at h
      next => cases h
      next =>
        cases h
        refine ⟨keepsDirectories_put (by simp [hnode]), node?_put_self ?_⟩
        intro hroot
        simp [hroot, node?] at hnode

theorem foldl_makeDir_ok (h : ns.foldl (makeDir place) (d, r) = (d', .ok ())) :
    r = .ok () ∧ d.KeepsDirectories d' ∧ ∀ n ∈ ns, d'.node? (place.take n) = some .directory := by
  induction ns generalizing d r with
  | nil =>
    cases h
    exact ⟨rfl, .refl _, nofun⟩
  | cons n ns ih =>
    obtain ⟨between, r', hstep⟩ : ∃ between r', makeDir place (d, r) n = (between, r') := ⟨_, _, rfl⟩
    rw [List.foldl_cons, hstep] at h
    obtain ⟨rfl, hlater, hall⟩ := ih h
    obtain ⟨hr, hnow, hn⟩ := makeDir_ok hstep
    refine ⟨hr, hnow.trans hlater, ?_⟩
    intro m hm
    rcases List.mem_cons.1 hm with rfl | hm
    · exact hlater _ hn
    · exact hall m hm

/-- When directories have been made, each on the way is there. -/
theorem makeDirs_ok (h : d.makeDirs place = (d', .ok ())) :
    ∀ n ≤ place.length, d'.node? (place.take n) = some .directory := by
  intro n hn
  exact (foldl_makeDir_ok h).2.2 n (List.mem_range.2 (Nat.lt_succ_of_le hn))

/-- One part of the way changes nothing but a place where there was nothing. -/
theorem node?_makeDir (h : makeDir place (d, .ok ()) n = (d', .ok ())) (other : Place) :
    d'.node? other = d.node? other ∨ d.node? other = none ∧ d'.node? other = some .directory := by
  obtain ⟨-, -, hdirectory⟩ := makeDir_ok h
  simp only [makeDir] at h
  split at h
  next =>
    cases h
    exact .inl rfl
  next => split at h <;> cases h
  next => split at h <;> cases h
  next hnode =>
    split at h
    next => cases h
    next =>
      cases h
      by_cases heq : other = place.take n
      · subst heq
        exact .inr ⟨hnode, hdirectory⟩
      · exact .inl (node?_put_of_ne heq)

theorem node?_foldl_makeDir (h : ns.foldl (makeDir place) (d, .ok ()) = (d', .ok ())) (other : Place) :
    d'.node? other = d.node? other ∨ d.node? other = none ∧ d'.node? other = some .directory := by
  induction ns generalizing d with
  | nil =>
    cases h
    exact .inl rfl
  | cons n ns ih =>
    obtain ⟨between, r, hstep⟩ : ∃ between r, makeDir place (d, .ok ()) n = (between, r) := ⟨_, _, rfl⟩
    rw [List.foldl_cons, hstep] at h
    obtain ⟨rfl, -, -⟩ := foldl_makeDir_ok h
    rcases ih h with hlater | ⟨hnone, hmade⟩
    · rw [hlater]
      exact node?_makeDir hstep other
    · rcases node?_makeDir hstep other with hnow | ⟨-, hnow⟩
      · exact .inr ⟨hnow.symm.trans hnone, hmade⟩
      · cases hnone.symm.trans hnow

/-- Making directories changes nothing but places where there was nothing. -/
theorem node?_makeDirs (h : d.makeDirs place = (d', .ok ())) (other : Place) :
    d'.node? other = d.node? other ∨ d.node? other = none ∧ d'.node? other = some .directory :=
  node?_foldl_makeDir h other

theorem foldl_makeDir_of_directories (h : ∀ n ∈ ns, d.node? (place.take n) = some .directory) :
    ns.foldl (makeDir place) (d, .ok ()) = (d, .ok ()) := by
  induction ns with
  | nil => rfl
  | cons n ns ih =>
    rw [List.forall_mem_cons] at h
    have hstep : makeDir place (d, .ok ()) n = (d, .ok ()) := by
      simp only [makeDir, h.1]
    rw [List.foldl_cons, hstep]
    exact ih h.2

/-- Directories that are there need no making. -/
theorem makeDirs_of_directories (h : ∀ n ≤ place.length, d.node? (place.take n) = some .directory) :
    d.makeDirs place = (d, .ok ()) := by
  apply foldl_makeDir_of_directories
  intro n hn
  exact h n (Nat.le_of_lt_succ (List.mem_range.1 hn))

end
end BnfReader.Disk
