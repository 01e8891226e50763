import BnfReader.Settings.Basic
import Mathlib.Data.List.DropRight
import Mathlib.Data.List.Nodup

/-! What settings are made of.

Given values take the places of the defaults (`Settings.merged`), so settings have the names of the
defaults in their order. Making them is then a matter of three values, the two paths and the port
(`make_of_known`). Settings whose paths are written out and whose port is a whole number are
`Settled`: made settings are (`make_settled`), and making them once more changes nothing
(`Settled.make`), since a path that was written out stays as it is (`expanded_expanded`). -/
namespace BnfReader

/-! ### Fields -/

namespace Fields
variable {fs gs : Fields} {key : String} {v : Json}

theorem keys_insert (h : key ∈ fs.keys) : (fs.insert key v).keys = fs.keys := by
  induction fs with
  | nil => cases h
  | cons field fs ih =>
    obtain ⟨k, w⟩ := field
    by_cases hk : k = key
    · rw [insert, if_pos hk]
      rfl
    · have hmem : key ∈ Fields.keys fs := by
        simpa [keys, Ne.symm hk] using h
      rw [insert, if_neg hk]
      exact congrArg (k :: ·) (ih hmem)

theorem get?_insert_of_ne {other : String} (h : other ≠ key) : (fs.insert key v).get? other = fs.get? other := by
  induction fs with
  | nil =>
    have hne : (other == key) = false := by simpa using h
    simp [insert, get?, List.lookup_cons, hne]
  | cons field fs ih =>
    obtain ⟨k, w⟩ := field
    by_cases hk : k = key
    · have hne : (other == k) = false := by simpa [hk] using h
      simp only [insert, if_pos hk, get?, List.lookup_cons, hne]
    · simp only [insert, if_neg hk, get?, List.lookup_cons] at ih ⊢
      rw [ih]

theorem exists_get? (h : key ∈ fs.keys) : ∃ v, fs.get? key = some v := by
  induction fs with
  | nil => cases h
  | cons field fs ih =>
    obtain ⟨k, w⟩ := field
    by_cases hk : key = k
    · exact ⟨w, by rw [get?, hk, List.lookup_cons_self]⟩
    · have hne : (key == k) = false := by simpa using hk
      have hmem : key ∈ Fields.keys fs := by simpa [keys, hk] using h
      simpa only [get?, List.lookup_cons, hne] using ih hmem

theorem forall_get? {P : Json → Prop} (h : ∀ field ∈ fs, P field.2) (hv : fs.get? key = some v) : P v := by
  obtain ⟨before, after, rfl, -⟩ := List.lookup_eq_some_iff.1 hv
  exact h (key, v) (List.mem_append_right before List.mem_cons_self)

/-- A value put where it already stands. -/
theorem insert_eq_self (h : fs.get? key = some v) : fs.insert key v = fs := by
  induction fs with
  | nil => cases h
  | cons field fs ih =>
    obtain ⟨k, w⟩ := field
    by_cases hk : k = key
    · simp only [get?, hk, List.lookup_cons_self, Option.some.injEq] at h
      rw [insert, if_pos hk, h]
    · have hne : (key == k) = false := by simpa using Ne.symm hk
      simp only [get?, List.lookup_cons, hne] at h ih
      rw [insert, if_neg hk, ih h]

theorem keys_insertAll (h : ∀ k ∈ gs.keys, k ∈ fs.keys) : (fs.insertAll gs).keys = fs.keys := by
  induction gs generalizing fs with
  | nil => rfl
  | cons field gs ih =>
    obtain ⟨k, w⟩ := field
    simp only [keys, List.map_cons, List.forall_mem_cons] at h
    have hkeys : (fs.insert k w).keys = fs.keys := keys_insert h.1
    refine (ih ?_).trans hkeys
    rw [hkeys]
    exact h.2

/-- Fields behind others take the places of those with the same names in the same order. -/
theorem insertAll_behind {front : Fields} (hkeys : fs.keys = gs.keys) (hnodup : (front ++ gs).keys.Nodup) :
    (front ++ fs).insertAll gs = front ++ gs := by
  induction gs generalizing front fs with
  | nil =>
    have hnil : fs = [] := List.map_eq_nil_iff.1 hkeys
    rw [hnil]
    rfl
  | cons field gs ih =>
    obtain ⟨k, w⟩ := field
    cases fs with
    | nil => cases hkeys
    | cons field' fs =>
      obtain ⟨k', w'⟩ := field'
      obtain ⟨rfl, hrest⟩ := List.cons.inj hkeys
      have hfresh : k' ∉ Fields.keys front := by
        simp only [keys, List.map_append, List.map_cons, List.nodup_append] at hnodup
        exact fun hmem => hnodup.2.2 k' hmem k' List.mem_cons_self rfl
      have hinsert : (front ++ (k', w') :: fs).insert k' w = (front ++ [(k', w)]) ++ fs := by
        clear ih hnodup hkeys
        induction front with
        | nil => simp [insert]
        | cons field front ih =>
          simp only [keys, List.map_cons, List.mem_cons, not_or] at hfresh
          simp only [List.cons_append, insert, if_neg (Ne.symm hfresh.1), ih hfresh.2]
      have hstep : (front ++ (k', w') :: fs).insertAll ((k', w) :: gs) =
          ((front ++ [(k', w)]) ++ fs).insertAll gs := by
        rw [← hinsert]
        rfl
      rw [hstep, ih hrest (by simpa using hnodup), List.append_assoc, List.singleton_append]

/-- Fields with the names that stand there already, in the same order, take their places. -/
theorem insertAll_eq_self (hkeys : fs.keys = gs.keys) (hnodup : gs.keys.Nodup) : fs.insertAll gs = gs := by
  have hnone : ([] ++ gs : Fields).keys.Nodup := by rwa [List.nil_append]
  simpa using insertAll_behind hkeys hnone

theorem forall_insert {P : Json → Prop} (h : ∀ field ∈ fs, P field.2) (hv : P v) :
    ∀ field ∈ fs.insert key v, P field.2 := by
  induction fs with
  | nil => simpa [insert] using hv
  | cons field fs ih =>
    obtain ⟨k, w⟩ := field
    rw [List.forall_mem_cons] at h
    rw [insert]
    split
    next => exact List.forall_mem_cons.2 ⟨hv, h.2⟩
    next => exact List.forall_mem_cons.2 ⟨h.1, ih h.2⟩

theorem forall_insertAll {P : Json → Prop} (h : ∀ field ∈ fs, P field.2) (hgs : ∀ field ∈ gs, P field.2) :
    ∀ field ∈ fs.insertAll gs, P field.2 := by
  induction gs generalizing fs with
  | nil => exact h
  | cons field gs ih =>
    rw [List.forall_mem_cons] at hgs
    exact ih (forall_insert h hgs.1) hgs.2

end Fields

/-! ### Paths -/

/-- All home directories begin at the root. -/
def Site.HasAbsoluteHomes (site : Site) : Prop :=
  Path.isAbsolute site.home = true ∧ ∀ user ∈ site.users, Path.isAbsolute user.2 = true

namespace Path
variable {site : Site} {path : String}

/-- The first piece of a path begins as the path does, unless it is empty. -/
theorem head?_first (h : path.toList.head? ≠ some '~') :
    (String.ofList (path.toList.takeWhile (· != '/'))).toList.head? ≠ some '~' := by
  rw [String.toList_ofList]
  cases hcs : path.toList with
  | nil => exact nofun
  | cons c cs =>
    rw [hcs] at h
    by_cases hc : c = '/'
    · simp [hc]
    · simpa [hc] using h

theorem homeOf?_eq_none {piece : String} (h : piece.toList.head? ≠ some '~') : homeOf? site piece = none := by
  unfold homeOf?
  split
  next name hcs => simp [hcs] at h
  next => rfl

/-- A path that does not begin with `~` is given from no home. -/
theorem expandHome_eq_self (h : path.toList.head? ≠ some '~') : expandHome site path = path := by
  simp only [expandHome, homeOf?_eq_none (head?_first h)]

theorem hasImpossibleUser_eq_false (h : path.toList.head? ≠ some '~') : hasImpossibleUser path = false := by
  have hfirst := head?_first h
  rw [String.toList_ofList] at hfirst
  unfold hasImpossibleUser
  split
  next name hcs => simp [hcs] at hfirst
  next => rfl

theorem head?_of_isAbsolute (h : isAbsolute path = true) : path.toList.head? = some '/' := by
  simpa [isAbsolute] using h

theorem homeOf?_isAbsolute (hsite : site.HasAbsoluteHomes) {piece home : String}
    (h : homeOf? site piece = some home) : isAbsolute home = true := by
  unfold homeOf? at h
  split at h
  next name hcs =>
    split at h
    next =>
      cases h
      exact hsite.1
    next =>
      obtain ⟨before, after, husers, -⟩ := List.lookup_eq_some_iff.1 h
      refine hsite.2 (String.ofList name, home) ?_
      rw [husers]
      exact List.mem_append_right before List.mem_cons_self
  next => cases h

/-- What is left of a path from the root when slashes at its end are dropped. -/
theorem dropTrailingSlashes_cases (h : isAbsolute path = true) :
    (dropTrailingSlashes path).toList = [] ∨ (dropTrailingSlashes path).toList.head? = some '/' := by
  have hprefix : (dropTrailingSlashes path).toList <+: path.toList := by
    rw [dropTrailingSlashes, String.toList_ofList]
    exact List.rdropWhile_prefix _ _
  cases hcs : (dropTrailingSlashes path).toList with
  | nil => exact .inl rfl
  | cons c cs =>
    rw [hcs] at hprefix
    obtain ⟨rest, hrest⟩ := hprefix
    have hhead := head?_of_isAbsolute h
    rw [← hrest] at hhead
    exact .inr hhead

/-- With a home written out, a path begins at the root. -/
theorem isAbsolute_expandHome (hsite : site.HasAbsoluteHomes) {home : String}
    (h : homeOf? site (String.ofList (path.toList.takeWhile (· != '/'))) = some home) :
    isAbsolute (expandHome site path) = true := by
  have hhome := dropTrailingSlashes_cases (homeOf?_isAbsolute hsite h)
  -- Behind the first piece a path ends or goes on with a slash.
  have hrest : path.toList.drop (path.toList.takeWhile (· != '/')).length = path.toList.dropWhile (· != '/') := by
    have hsplit := List.takeWhile_append_dropWhile (p := (· != '/')) (l := path.toList)
    exact (congrArg (List.drop _) hsplit.symm).trans List.drop_left
  have hslash : ∀ c, (path.toList.dropWhile (· != '/')).head? = some c → c = '/' := by
    intro c hc
    have hnot := List.head?_dropWhile_not (· != '/') path.toList
    rw [hc] at hnot
    simpa using hnot
  simp only [expandHome, h, hrest]
  split
  next => decide
  next hne =>
    rw [isAbsolute, String.toList_append, String.toList_ofList, beq_iff_eq]
    rcases hhome with hhome | hhome
    · rw [hhome, List.nil_append]
      cases hcs : path.toList.dropWhile (· != '/') with
      | nil =>
        rw [hcs] at hne
        refine absurd (String.toList_inj.1 ?_) hne
        simp [hhome]
      | cons c cs =>
        rw [hcs] at hslash
        exact congrArg some (hslash c rfl)
    · rw [List.head?_append, hhome]
      rfl

end Path

namespace Settings
variable {site : Site} {path path' : String}

theorem expanded_eq_self (h : path.toList.head? ≠ some '~') : expanded site path = .ok path := by
  rw [expanded, Path.hasImpossibleUser_eq_false h, Path.expandHome_eq_self h]
  rfl

/-- A path that was written out stays as it is. -/
theorem expanded_expanded (hsite : site.HasAbsoluteHomes) (h : expanded site path = .ok path') :
    expanded site path' = .ok path' := by
  rw [expanded] at h
  split at h
  next => cases h
  next hpossible =>
    cases h
    cases hhome : Path.homeOf? site (String.ofList (path.toList.takeWhile (· != '/'))) with
    | none =>
      have hsame : Path.expandHome site path = path := by
        simp only [Path.expandHome, hhome]
      rw [hsame, expanded, if_neg hpossible, hsame]
    | some home =>
      have habsolute := Path.head?_of_isAbsolute (Path.isAbsolute_expandHome hsite hhome)
      exact expanded_eq_self (by simp [habsolute])

/-! ### Making settings -/

/-- The given values in the places of the defaults. -/
def merged (site : Site) (given : Fields) : Fields := (defaults site).insertAll given

/-- Only names that have a default are given. -/
def Known (site : Site) (given : Fields) : Prop := ∀ key ∈ given.keys, key ∈ (defaults site).keys

/-- The path that a value gives. -/
def pathValue (site : Site) (value? : Option Json) : Except SettingsError String :=
  match value? with
  | some (.string path) => expanded site path
  | _ => .error .pathNotText

/-- The settings with two paths and a port in their places. -/
def ofValues (fields : Fields) (page description : String) (port : Int) : Settings :=
  ⟨((fields.insert "webpage_path" (.string page)).insert "api_spec_path" (.string description)).insert
    "port" (.int port)⟩

section
variable {given fields : Fields} {s : Settings}

theorem keys_defaults (site : Site) : (defaults site).keys =
    ["host", "port", "log_level", "log_to_file", "webpage_path", "api_spec_path"] := rfl

theorem known_iff : Known site given ↔ given.keys.filter (fun k => !(defaults site).keys.contains k) = [] := by
  simp [Known, List.filter_eq_nil_iff]

theorem self_not_mem (h : Known site given) : "self" ∉ given.keys := by
  intro hself
  have hdefault := h "self" hself
  rw [keys_defaults] at hdefault
  exact absurd hdefault (by decide)

theorem expandPath_eq (key : String) :
    expandPath site fields key =
      (pathValue site (fields.get? key)).map fun path => fields.insert key (.string path) := by
  unfold expandPath pathValue
  cases fields.get? key with
  | none => rfl
  | some v =>
    cases v with
    | string path =>
      dsimp only
      cases expanded site path with
      | error e => rfl
      | ok path => rfl
    | _ => rfl

theorem make_of_self (h : "self" ∈ given.keys) : make site given = .error .reservedKey := by
  have hself : given.keys.contains "self" = true := by simpa using h
  simp only [make, hself, if_pos, bind, Except.bind]

theorem make_of_unknown (hself : "self" ∉ given.keys) (h : ¬ Known site given) :
    ∃ keys, make site given = .error (.unknownKeys keys) := by
  have hcontains : given.keys.contains "self" = false := by simpa using hself
  rw [known_iff] at h
  refine ⟨(given.keys.filter fun k => !(defaults site).keys.contains k).mergeSort fun a b => decide (a ≤ b), ?_⟩
  simp only [make, hcontains, if_neg Bool.false_ne_true, if_pos h, bind, Except.bind, pure, Except.pure]

/-- With known names, settings are made of two paths and a port. -/
theorem make_of_known (h : Known site given) :
    make site given = do
      let page ← pathValue site ((merged site given).get? "webpage_path")
      let description ← pathValue site ((merged site given).get? "api_spec_path")
      let port ← portNumber (((merged site given).get? "port").getD .null)
      return ofValues (merged site given) page description port := by
  have hself : given.keys.contains "self" = false := by simpa using self_not_mem h
  have hmerged : (defaults site).insertAll given = merged site given := rfl
  rw [known_iff] at h
  simp only [make, hself, h, if_neg Bool.false_ne_true, ne_eq, not_true_eq_false, if_false, expandPath_eq, hmerged,
    pure, Except.pure]
  cases pathValue site ((merged site given).get? "webpage_path") with
  | error e => rfl
  | ok page =>
    simp only [bind, Except.bind, Except.map, Fields.get?_insert_of_ne (show "api_spec_path" ≠ "webpage_path" by decide)]
    cases pathValue site ((merged site given).get? "api_spec_path") with
    | error e => rfl
    | ok description =>
      simp only [Fields.get?_insert_of_ne (show "port" ≠ "api_spec_path" by decide),
        Fields.get?_insert_of_ne (show "port" ≠ "webpage_path" by decide)]
      rfl

theorem forall_ofValues {P : Json → Prop} {page description : String} {port : Int} (h : ∀ field ∈ fields, P field.2)
    (hpage : P (.string page)) (hdescription : P (.string description)) (hport : P (.int port)) :
    ∀ field ∈ (ofValues fields page description port).fields, P field.2 :=
  Fields.forall_insert (Fields.forall_insert (Fields.forall_insert h hpage) hdescription) hport

theorem pathValue_eq_ok {value? : Option Json} (h : pathValue site value? = .ok path') :
    ∃ path, value? = some (.string path) ∧ expanded site path = .ok path' := by
  unfold pathValue at h
  split at h
  next path => exact ⟨path, rfl, h⟩
  next => cases h

/-- What settings were made of. -/
theorem exists_values (h : make site given = .ok s) :
    Known site given ∧ ∃ page description port,
      pathValue site ((merged site given).get? "webpage_path") = .ok page ∧
      pathValue site ((merged site given).get? "api_spec_path") = .ok description ∧
      portNumber (((merged site given).get? "port").getD .null) = .ok port ∧
      s = ofValues (merged site given) page description port := by
  by_cases hself : "self" ∈ given.keys
  · rw [make_of_self hself] at h
    cases h
  by_cases hknown : Known site given
  · refine ⟨hknown, ?_⟩
    rw [make_of_known hknown] at h
    cases hpage : pathValue site ((merged site given).get? "webpage_path") with
    | error e => simp [hpage, bind, Except.bind] at h
    | ok page =>
      cases hdescription : pathValue site ((merged site given).get? "api_spec_path") with
      | error e => simp [hpage, hdescription, bind, Except.bind] at h
      | ok description =>
        cases hport : portNumber (((merged site given).get? "port").getD .null) with
        | error e => simp [hpage, hdescription, hport, bind, Except.bind] at h
        | ok port =>
          simp only [hpage, hdescription, hport, bind, Except.bind, pure, Except.pure, Except.ok.injEq] at h
          exact ⟨page, description, port, rfl, rfl, rfl, h.symm⟩
  · obtain ⟨keys, hkeys⟩ := make_of_unknown hself hknown
    rw [hkeys] at h
    cases h

/-! ### Settled settings -/

/-- The settings have the names of the defaults, paths with nothing to write out, and a whole
number for a port. -/
structure Settled (site : Site) (s : Settings) : Prop where
  keys : s.fields.keys = (defaults site).keys
  page : ∃ path, s.get? "webpage_path" = some (.string path) ∧ expanded site path = .ok path
  description : ∃ path, s.get? "api_spec_path" = some (.string path) ∧ expanded site path = .ok path
  port : ∃ n, s.get? "port" = some (.int n)

theorem keys_insert_default {key : String} {v : Json} (h : fields.keys = (defaults site).keys)
    (hkey : key ∈ (defaults site).keys) : (fields.insert key v).keys = (defaults site).keys := by
  rw [Fields.keys_insert (by rwa [h]), h]

theorem Settled.nodup_keys (h : Settled site s) : s.fields.keys.Nodup := by
  rw [h.keys, keys_defaults]
  decide

/-- A value other than a path or the port may be any. -/
theorem Settled.set (h : Settled site s) {key : String} (hkey : key ∈ (defaults site).keys)
    (hpage : "webpage_path" ≠ key) (hdescription : "api_spec_path" ≠ key) (hport : "port" ≠ key) (v : Json) :
    Settled site (s.set key v) := by
  refine ⟨?_, ?_, ?_, ?_⟩
  · exact keys_insert_default h.keys hkey
  · rw [get?, Settings.set, Fields.get?_insert_of_ne hpage]
    exact h.page
  · rw [get?, Settings.set, Fields.get?_insert_of_ne hdescription]
    exact h.description
  · rw [get?, Settings.set, Fields.get?_insert_of_ne hport]
    exact h.port

theorem Settled.setPort (h : Settled site s) (n : Int) : Settled site (s.set "port" (.int n)) := by
  refine ⟨?_, ?_, ?_, ⟨n, Fields.get?_insert_self _ _ _⟩⟩
  · exact keys_insert_default h.keys (by simp [keys_defaults])
  · rw [get?, Settings.set, Fields.get?_insert_of_ne (by decide)]
    exact h.page
  · rw [get?, Settings.set, Fields.get?_insert_of_ne (by decide)]
    exact h.description

/-- Made settings are settled. -/
theorem make_settled (hsite : site.HasAbsoluteHomes) (h : make site given = .ok s) : Settled site s := by
  obtain ⟨hknown, page, description, port, hpage, hdescription, -, rfl⟩ := exists_values h
  obtain ⟨page', -, hpage⟩ := pathValue_eq_ok hpage
  obtain ⟨description', -, hdescription⟩ := pathValue_eq_ok hdescription
  have hkeys : (merged site given).keys = (defaults site).keys := Fields.keys_insertAll hknown
  refine ⟨?_, ⟨page, ?_, expanded_expanded hsite hpage⟩, ⟨description, ?_, expanded_expanded hsite hdescription⟩,
    ⟨port, Fields.get?_insert_self _ _ _⟩⟩
  · exact keys_insert_default (keys_insert_default (keys_insert_default hkeys (by simp [keys_defaults]))
      (by simp [keys_defaults])) (by simp [keys_defaults])
  · rw [get?, ofValues, Fields.get?_insert_of_ne (by decide), Fields.get?_insert_of_ne (by decide),
      Fields.get?_insert_self]
  · rw [get?, ofValues, Fields.get?_insert_of_ne (by decide), Fields.get?_insert_self]

/-- Settled settings are made of their own values. -/
theorem Settled.make (h : Settled site s) : make site s.fields = .ok s := by
  have hknown : Known site s.fields := by
    intro key hkey
    rwa [← h.keys]
  have hmerged : merged site s.fields = s.fields := Fields.insertAll_eq_self h.keys.symm h.nodup_keys
  obtain ⟨page, hpage, hpage'⟩ := h.page
  obtain ⟨description, hdescription, hdescription'⟩ := h.description
  obtain ⟨port, hport⟩ := h.port
  rw [get?] at hpage hdescription hport
  rw [make_of_known hknown, hmerged, hpage, hdescription, hport]
  simp only [pathValue, hpage', hdescription', portNumber, Option.getD_some, bind, Except.bind, pure, Except.pure,
    ofValues, Fields.insert_eq_self hpage, Fields.insert_eq_self hdescription, Fields.insert_eq_self hport]

end
end Settings
end BnfReader
