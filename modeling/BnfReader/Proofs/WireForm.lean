import BnfReader.Grammar.Wire
import BnfReader.Proofs.Checks
import BnfReader.Proofs.RoundTrip
import Mathlib.Data.List.Forall2

/-! The wire form is exact.

The relations `WrittenAs` say which JSON values write a term, a rule and a document: objects
that have the fields of their kind, and perhaps others. A value is read as a document just if
it writes that document (`Document.ofJson_ok_iff`), so reading back what was written gives the
document again, and what was read is written as it was, without the fields that do not belong.

Lists are arrays. A string or an object can stand in their place, but its items are strings,
which are neither rules nor terms, and without items it makes an empty alternative or a
document without rules. -/
namespace BnfReader

/-! ### Results in order -/

section
variable {α β ε : Type}

theorem bind_ok {x : Except ε α} {f : α → Except ε β} {b : β} :
    (x >>= f) = .ok b ↔ ∃ a, x = .ok a ∧ f a = .ok b := by
  constructor
  · intro h
    cases x with
    | error e => cases h
    | ok a => exact ⟨a, rfl, h⟩
  · rintro ⟨a, rfl, h⟩
    exact h

theorem mapM_ok_iff {f : α → Except ε β} {xs : List α} {ys : List β} :
    xs.mapM f = .ok ys ↔ List.Forall₂ (fun x y => f x = .ok y) xs ys := by
  induction xs generalizing ys with
  | nil =>
    rw [List.forall₂_nil_left_iff]
    exact ⟨fun h => (Except.ok.inj h).symm, fun h => h ▸ rfl⟩
  | cons x xs ih =>
    rw [List.forall₂_cons_left_iff]
    constructor
    · intro h
      obtain ⟨y, rest, hy, hrest, rfl⟩ := mapM_ok_cons h
      exact ⟨y, rest, hy, ih.1 hrest, rfl⟩
    · rintro ⟨y, rest, hy, hrest, rfl⟩
      rw [List.mapM_cons, hy, ih.2 hrest]
      rfl

theorem checked_ok {r : Except Invalid α} {a : α} : checked r = .ok a ↔ r = .ok a := by
  constructor
  · intro h
    cases r with
    | error e => cases h
    | ok b =>
      cases h
      rfl
  · rintro rfl
    rfl

end

theorem Term.refTo_ok_iff {s : String} {t : Term} :
    Term.refTo s = .ok t ↔ ∃ n : Name, n.text = s ∧ t = .ref n := by
  constructor
  · intro h
    obtain ⟨n, hn, rfl⟩ := map_ok h
    refine ⟨n, ?_, rfl⟩
    simp only [Name.ofString] at hn
    split at hn
    · cases hn
      rfl
    · cases hn
  · rintro ⟨n, rfl, rfl⟩
    exact Layers.refTo_text n

theorem Rule.make_ok_iff {s : String} {alternatives : List (List Term)} {r : Rule} :
    Rule.make s alternatives = .ok r ↔ r.name.text = s ∧ r.alternatives = alternatives := by
  constructor
  · intro h
    simp only [Rule.make, Name.ofString] at h
    split at h
    · cases h
    · next n hn =>
      split at hn
      · cases hn
        split at h
        · cases h
          exact ⟨rfl, rfl⟩
        · cases h
      · cases hn
  · rintro ⟨rfl, rfl⟩
    exact Layers.make_eq r

theorem Document.make_ok_iff {rules : List Rule} {d : Document} :
    Document.make rules = .ok d ↔ d.rules = rules := by
  constructor
  · intro h
    simp only [Document.make] at h
    split at h
    · cases h
      rfl
    · cases h
  · rintro rfl
    exact Layers.documentMake_eq d

/-! ### What writes what -/

/-- An object with the type of the term and its text or name. -/
inductive Term.WrittenAs : Term → Json → Prop where
  | literal {fs : Fields} {text : String} : fs.get? "type" = some (.string "literal") →
      fs.get? "text" = some (.string text) → WrittenAs (.literal text) (.object fs)
  | ref {fs : Fields} {name : Name} : fs.get? "type" = some (.string "rule_ref") →
      fs.get? "name" = some (.string name.text) → WrittenAs (.ref name) (.object fs)

/-- An array of what writes the terms. -/
inductive SequenceWrittenAs : List Term → Json → Prop where
  | mk {terms : List Term} {vs : List Json} : List.Forall₂ Term.WrittenAs terms vs →
      SequenceWrittenAs terms (.array vs)

/-- An object with the name of the rule and an array of what writes its alternatives. -/
inductive Rule.WrittenAs (r : Rule) : Json → Prop where
  | mk {fs : Fields} {rows : List Json} : fs.get? "name" = some (.string r.name.text) →
      fs.get? "alternatives" = some (.array rows) →
      List.Forall₂ SequenceWrittenAs r.alternatives rows → WrittenAs r (.object fs)

/-- An object with an array of what writes the rules. -/
inductive Document.WrittenAs (d : Document) : Json → Prop where
  | mk {fs : Fields} {vs : List Json} : fs.get? "rules" = some (.array vs) →
      List.Forall₂ Rule.WrittenAs d.rules vs → WrittenAs d (.object fs)

/-! ### Reading -/

theorem Json.field_ok {fs : Fields} {key : String} {v : Json} :
    Json.field fs key = .ok v ↔ fs.get? key = some v := by
  simp only [Json.field]
  split
  · next w hw => simp [hw]
  · next hw => simp [hw]

theorem Json.fields_ok {v : Json} {fs : Fields} : v.fields = .ok fs ↔ v = .object fs := by
  cases v <;> simp [Json.fields]

theorem Json.text_ok {v : Json} {s : String} : v.text = .ok s ↔ v = .string s := by
  cases v <;> simp [Json.text]

/-- What is read item by item, and never from a string, was an array. -/
theorem Json.array_of_items {α : Type} {f : Json → Except WireError α} {v : Json} {vs : List Json}
    {as : List α} (hv : v.items = .ok vs) (hf : List.Forall₂ (fun x y => f x = .ok y) vs as) (hne : as ≠ [])
    (hstring : ∀ s, ∀ a ∈ as, f (.string s) ≠ .ok a) : v = .array vs := by
  have hstrings : ¬ ∀ w ∈ vs, ∃ s, w = .string s := by
    intro hall
    cases hf with
    | nil => exact hne rfl
    | cons hfirst _ =>
      obtain ⟨s, rfl⟩ := hall _ List.mem_cons_self
      exact hstring s _ List.mem_cons_self hfirst
  cases v with
  | array ws =>
    cases hv
    rfl
  | string s =>
    cases hv
    refine absurd (fun w hw => ?_) hstrings
    obtain ⟨c, -, rfl⟩ := List.mem_map.1 hw
    exact ⟨_, rfl⟩
  | object fs =>
    cases hv
    refine absurd (fun w hw => ?_) hstrings
    obtain ⟨field, -, rfl⟩ := List.mem_map.1 hw
    exact ⟨_, rfl⟩
  | _ => cases hv

theorem Term.ofJson_ok_iff {v : Json} {t : Term} : Term.ofJson v = .ok t ↔ t.WrittenAs v := by
  constructor
  · intro h
    cases v with
    | object fs =>
      simp only [Term.ofJson] at h
      split at h
      · next htype =>
        obtain ⟨w, hw, h⟩ := bind_ok.1 h
        obtain ⟨s, hs, h⟩ := bind_ok.1 h
        cases h
        rw [Json.text_ok.1 hs] at hw
        exact .literal htype (Json.field_ok.1 hw)
      · next htype =>
        obtain ⟨w, hw, h⟩ := bind_ok.1 h
        obtain ⟨s, hs, h⟩ := bind_ok.1 h
        obtain ⟨n, rfl, rfl⟩ := Term.refTo_ok_iff.1 (checked_ok.1 h)
        rw [Json.text_ok.1 hs] at hw
        exact .ref htype (Json.field_ok.1 hw)
      · cases h
      · cases h
    | _ => cases h
  · intro h
    cases h with
    | literal htype htext =>
      simp only [Term.ofJson, htype, Json.field_ok.2 htext]
      rfl
    | ref htype hname =>
      simp only [Term.ofJson, htype, Json.field_ok.2 hname]
      exact checked_ok.2 (Layers.refTo_text _)

/-- The terms of an alternative. -/
theorem terms_ok_iff {row : Json} {terms : List Term} (hne : terms ≠ []) :
    (do (← row.items).mapM Term.ofJson) = .ok terms ↔ SequenceWrittenAs terms row := by
  constructor
  · intro h
    obtain ⟨vs, hvs, h⟩ := bind_ok.1 h
    have hterms := mapM_ok_iff.1 h
    have harray := Json.array_of_items hvs hterms hne fun s t _ ht => nomatch ht
    rw [harray]
    exact .mk (hterms.flip.imp fun t v hv => Term.ofJson_ok_iff.1 hv)
  · rintro ⟨hterms⟩
    refine bind_ok.2 ⟨_, rfl, mapM_ok_iff.2 ?_⟩
    exact (hterms.imp fun t v hv => Term.ofJson_ok_iff.2 hv).flip

theorem Rule.ofJson_ok_iff {v : Json} {r : Rule} : Rule.ofJson v = .ok r ↔ r.WrittenAs v := by
  constructor
  · intro h
    obtain ⟨fs, hfs, h⟩ := bind_ok.1 h
    obtain ⟨listed, hlisted, h⟩ := bind_ok.1 h
    obtain ⟨rows, hrows, h⟩ := bind_ok.1 h
    obtain ⟨alternatives, halternatives, h⟩ := bind_ok.1 h
    obtain ⟨w, hw, h⟩ := bind_ok.1 h
    obtain ⟨s, hs, h⟩ := bind_ok.1 h
    obtain ⟨rfl, rfl⟩ := Rule.make_ok_iff.1 (checked_ok.1 h)
    have hread := mapM_ok_iff.1 halternatives
    have harray := Json.array_of_items hrows hread r.some_alternative fun s terms hterms hrow =>
      nomatch (terms_ok_iff (r.some_term terms hterms)).1 hrow
    rw [Json.fields_ok.1 hfs]
    rw [Json.text_ok.1 hs] at hw
    rw [harray] at hlisted
    refine .mk (Json.field_ok.1 hw) (Json.field_ok.1 hlisted) ?_
    have hrows := (List.forall₂_and_left _ _).2 ⟨r.some_term, hread.flip⟩
    exact hrows.imp fun terms row hrow => (terms_ok_iff hrow.1).1 hrow.2
  · rintro ⟨hname, hlisted, hrows⟩
    refine bind_ok.2 ⟨_, rfl, bind_ok.2 ⟨_, Json.field_ok.2 hlisted, bind_ok.2 ⟨_, rfl, bind_ok.2
      ⟨r.alternatives, mapM_ok_iff.2 ?_, bind_ok.2 ⟨_, Json.field_ok.2 hname, bind_ok.2 ⟨_, rfl, ?_⟩⟩⟩⟩⟩⟩
    · have hread := (List.forall₂_and_left _ _).2 ⟨r.some_term, hrows⟩
      exact (hread.imp fun terms row hrow => (terms_ok_iff hrow.1).2 hrow.2).flip
    · exact checked_ok.2 (Layers.make_eq r)

theorem Document.ofJson_ok_iff {v : Json} {d : Document} : Document.ofJson v = .ok d ↔ d.WrittenAs v := by
  constructor
  · intro h
    obtain ⟨fs, hfs, h⟩ := bind_ok.1 h
    obtain ⟨listed, hlisted, h⟩ := bind_ok.1 h
    obtain ⟨vs, hvs, h⟩ := bind_ok.1 h
    obtain ⟨rules, hrules, h⟩ := bind_ok.1 h
    obtain rfl := Document.make_ok_iff.1 (checked_ok.1 h)
    have hread := mapM_ok_iff.1 hrules
    have harray := Json.array_of_items hvs hread d.some_rule fun s r _ hr =>
      nomatch Rule.ofJson_ok_iff.1 hr
    rw [Json.fields_ok.1 hfs]
    rw [harray] at hlisted
    exact .mk (Json.field_ok.1 hlisted) (hread.flip.imp fun r v hv => Rule.ofJson_ok_iff.1 hv)
  · rintro ⟨hlisted, hrules⟩
    refine bind_ok.2 ⟨_, rfl, bind_ok.2 ⟨_, Json.field_ok.2 hlisted, bind_ok.2 ⟨_, rfl, bind_ok.2
      ⟨d.rules, mapM_ok_iff.2 ?_, checked_ok.2 (Layers.documentMake_eq d)⟩⟩⟩⟩
    exact (hrules.imp fun r v hv => Rule.ofJson_ok_iff.2 hv).flip

/-! ### Writing -/

theorem Term.toJson_writtenAs (t : Term) : t.WrittenAs t.toJson := by
  cases t with
  | literal text => exact .literal rfl rfl
  | ref name => exact .ref rfl rfl

theorem Rule.toJson_writtenAs (r : Rule) : r.WrittenAs r.toJson := by
  refine .mk rfl rfl ?_
  rw [List.forall₂_map_right_iff, List.forall₂_same]
  intro terms _
  refine .mk ?_
  rw [List.forall₂_map_right_iff, List.forall₂_same]
  exact fun t _ => t.toJson_writtenAs

theorem Document.toJson_writtenAs (d : Document) : d.WrittenAs d.toJson := by
  refine .mk rfl ?_
  rw [List.forall₂_map_right_iff, List.forall₂_same]
  exact fun r _ => r.toJson_writtenAs

/-! ### Without other fields -/

/-- The fields under the given names, in the order of the names, each with its value changed. -/
def Fields.pick (declared : List (String × (Json → Json))) (fs : Fields) : Fields :=
  declared.filterMap fun (key, f) => (fs.get? key).map fun v => (key, f v)

/-- A declared field is there just if it was, with its value changed, and no other field is. -/
theorem Fields.get?_pick (declared : List (String × (Json → Json))) (fs : Fields) (key : String) :
    (fs.pick declared).get? key = (declared.lookup key).bind fun f => (fs.get? key).map f := by
  induction declared with
  | nil => rfl
  | cons field declared ih =>
    obtain ⟨k, f⟩ := field
    have hcons : Fields.pick ((k, f) :: declared) fs =
        ((fs.get? k).map fun v => (k, f v)).toList ++ fs.pick declared := by
      cases hk : fs.get? k <;> simp [Fields.pick, hk]
    rw [hcons, List.lookup_cons]
    by_cases heq : key = k
    · subst heq
      cases hk : fs.get? key with
      | none => simp [ih, hk]
      | some v => simp [Fields.get?]
    · have hne : (key == k) = false := by simpa using heq
      cases hk : fs.get? k with
      | none => simp [ih, hne]
      | some v => simpa [Fields.get?, List.lookup_cons, hne] using ih

/-- An array with its items changed. -/
def Json.mapItems (f : Json → Json) : Json → Json
  | .array vs => .array (vs.map f)
  | v => v

/-- What writes a term, without other fields. -/
def Json.bareTerm : Json → Json
  | .object fs =>
    match Fields.get? fs "type" with
    | some (.string "literal") => .object (Fields.pick [("type", id), ("text", id)] fs)
    | _ => .object (Fields.pick [("type", id), ("name", id)] fs)
  | v => v

/-- What writes a rule, without other fields in it and in its terms. -/
def Json.bareRule : Json → Json
  | .object fs => .object (Fields.pick [("name", id), ("alternatives", mapItems (mapItems bareTerm))] fs)
  | v => v

/-- What writes a document, without other fields in it, in its rules and in their terms. -/
def Json.bareDocument : Json → Json
  | .object fs => .object (Fields.pick [("rules", mapItems bareRule)] fs)
  | v => v

theorem map_eq_map_of_forall₂ {α β γ : Type} {R : α → β → Prop} {f : α → γ} {g : β → γ} {xs : List α}
    {ys : List β} (h : List.Forall₂ R xs ys) (hR : ∀ x y, R x y → f x = g y) : xs.map f = ys.map g := by
  induction h with
  | nil => rfl
  | cons hxy _ ih => rw [List.map_cons, List.map_cons, hR _ _ hxy, ih]

theorem Term.WrittenAs.bare {t : Term} {v : Json} (h : t.WrittenAs v) : t.toJson = v.bareTerm := by
  cases h with
  | literal htype htext =>
    simp only [Json.bareTerm, htype]
    simp [Term.toJson, Fields.pick, htype, htext]
  | ref htype hname =>
    simp only [Json.bareTerm, htype]
    simp [Term.toJson, Fields.pick, htype, hname]

theorem SequenceWrittenAs.bare {terms : List Term} {row : Json} (h : SequenceWrittenAs terms row) :
    Json.array (terms.map Term.toJson) = row.mapItems Json.bareTerm := by
  obtain ⟨hterms⟩ := h
  rw [Json.mapItems, map_eq_map_of_forall₂ hterms fun t v hv => hv.bare]

theorem Rule.WrittenAs.bare {r : Rule} {v : Json} (h : r.WrittenAs v) : r.toJson = v.bareRule := by
  obtain ⟨hname, hlisted, hrows⟩ := h
  have halternatives := map_eq_map_of_forall₂ hrows fun terms row hrow => hrow.bare
  simp [Rule.toJson, Json.bareRule, Fields.pick, hname, hlisted, Json.mapItems, halternatives]

theorem Document.WrittenAs.bare {d : Document} {v : Json} (h : d.WrittenAs v) : d.toJson = v.bareDocument := by
  obtain ⟨hlisted, hrules⟩ := h
  have hlist := map_eq_map_of_forall₂ hrules fun r v hv => hv.bare
  simp [Document.toJson, Json.bareDocument, Fields.pick, hlisted, Json.mapItems, hlist]

/-! ### The form of a document -/

namespace Json

/-- An object that is a literal or a reference by its type. -/
inductive IsTerm : Json → Prop where
  | literal {fs : Fields} {text : Json} : fs.get? "type" = some (.string "literal") →
      fs.get? "text" = some text → IsTerm (.object fs)
  | ref {fs : Fields} {name : String} : fs.get? "type" = some (.string "rule_ref") →
      fs.get? "name" = some (.string name) → IsNameText name → IsTerm (.object fs)

/-- A non-empty array of terms. -/
inductive IsSequence : Json → Prop where
  | mk {vs : List Json} : vs ≠ [] → (∀ v ∈ vs, v.IsTerm) → IsSequence (.array vs)

/-- An object with a name and a non-empty array of alternatives. -/
inductive IsRule : Json → Prop where
  | mk {fs : Fields} {name : String} {rows : List Json} : fs.get? "name" = some (.string name) →
      IsNameText name → fs.get? "alternatives" = some (.array rows) → rows ≠ [] →
      (∀ row ∈ rows, row.IsSequence) → IsRule (.object fs)

/-- An object with a non-empty array of rules. -/
inductive IsDocument : Json → Prop where
  | mk {fs : Fields} {vs : List Json} : fs.get? "rules" = some (.array vs) → vs ≠ [] →
      (∀ v ∈ vs, v.IsRule) → IsDocument (.object fs)

/-- The value is the other one or stands in it. -/
inductive Within (v : Json) : Json → Prop where
  | self : Within v v
  | item {w : Json} {vs : List Json} : w ∈ vs → Within v w → Within v (.array vs)
  | field {w : Json} {key : String} {fs : Fields} : (key, w) ∈ fs → Within v w → Within v (.object fs)

/-- The text of every literal in the value is a string. -/
def TextsAreStrings (x : Json) : Prop :=
  ∀ fs : Fields, Within (.object fs) x → fs.get? "type" = some (.string "literal") →
    ∀ v, fs.get? "text" = some v → ∃ s, v = .string s

@[simp] theorem textsAreStrings_array {vs : List Json} :
    (Json.array vs).TextsAreStrings ↔ ∀ v ∈ vs, v.TextsAreStrings := by
  constructor
  · exact fun h v hv fs hw => h fs (.item hv hw)
  · intro h fs hw
    cases hw with
    | item hv hw => exact h _ hv fs hw

@[simp] theorem textsAreStrings_object {fs : Fields} :
    (Json.object fs).TextsAreStrings ↔
      (fs.get? "type" = some (.string "literal") → ∀ v, fs.get? "text" = some v → ∃ s, v = .string s) ∧
        ∀ field ∈ fs, field.2.TextsAreStrings := by
  constructor
  · exact fun h => ⟨h fs .self, fun field hf inner hw => h inner (.field hf hw)⟩
  · rintro ⟨hself, hfields⟩ inner hw
    cases hw with
    | self => exact hself
    | field hf hw => exact hfields _ hf inner hw

@[simp] theorem textsAreStrings_string (s : String) : (Json.string s).TextsAreStrings :=
  fun _ hw => nomatch hw

theorem TextsAreStrings.get? {fs : Fields} {key : String} {v : Json} (h : (Json.object fs).TextsAreStrings)
    (hv : fs.get? key = some v) : v.TextsAreStrings := by
  obtain ⟨before, behind, rfl, -⟩ := List.lookup_eq_some_iff.1 hv
  exact (textsAreStrings_object.1 h).2 (key, v) (List.mem_append_right _ List.mem_cons_self)

end Json

theorem exists_forall₂ {α β : Type} {R : α → β → Prop} {ys : List β} (h : ∀ y ∈ ys, ∃ x, R x y) :
    ∃ xs, List.Forall₂ R xs ys := by
  induction ys with
  | nil => exact ⟨[], .nil⟩
  | cons y ys ih =>
    obtain ⟨x, hx⟩ := h y List.mem_cons_self
    obtain ⟨xs, hxs⟩ := ih fun y' hy' => h y' (List.mem_cons_of_mem y hy')
    exact ⟨x :: xs, .cons hx hxs⟩

theorem forall_of_forall₂ {α β : Type} {R : α → β → Prop} {P : β → Prop} {xs : List α} {ys : List β}
    (h : List.Forall₂ R xs ys) (hR : ∀ x ∈ xs, ∀ y, R x y → P y) : ∀ y ∈ ys, P y := by
  induction h with
  | nil => simp
  | @cons x y xs ys hxy _ ih =>
    rw [List.forall_mem_cons]
    exact ⟨hR x List.mem_cons_self y hxy, ih fun x' hx' => hR x' (List.mem_cons_of_mem x hx')⟩

theorem Json.IsTerm.written {v : Json} (h : v.IsTerm) (hv : v.TextsAreStrings) : ∃ t : Term, t.WrittenAs v := by
  cases h with
  | @literal fs text htype htext =>
    obtain ⟨s, rfl⟩ := hv fs .self htype text htext
    exact ⟨_, .literal htype htext⟩
  | @ref fs name htype hname hvalid =>
    exact ⟨.ref ⟨name, (isName_iff name).2 hvalid⟩, .ref htype hname⟩

theorem Json.IsSequence.written {row : Json} (h : row.IsSequence) (hv : row.TextsAreStrings) :
    ∃ terms, terms ≠ [] ∧ SequenceWrittenAs terms row := by
  obtain ⟨hne, hall⟩ := h
  obtain ⟨terms, hterms⟩ := exists_forall₂ fun v hmem =>
    (hall v hmem).written (Json.textsAreStrings_array.1 hv v hmem)
  refine ⟨terms, ?_, .mk hterms⟩
  rintro rfl
  cases hterms
  exact hne rfl

theorem Json.IsRule.written {v : Json} (h : v.IsRule) (hv : v.TextsAreStrings) : ∃ r : Rule, r.WrittenAs v := by
  obtain ⟨hname, hvalid, hlisted, hne, hall⟩ := h
  have hlist := Json.textsAreStrings_array.1 (hv.get? hlisted)
  obtain ⟨alternatives, hrows⟩ := exists_forall₂ fun row hmem =>
    (hall row hmem).written (hlist _ hmem)
  obtain ⟨hsome, hwritten⟩ := (List.forall₂_and_left _ _).1 hrows
  refine ⟨⟨⟨_, (isName_iff _).2 hvalid⟩, alternatives, ?_, hsome⟩, .mk hname hlisted hwritten⟩
  rintro rfl
  cases hrows
  exact hne rfl

theorem Json.IsDocument.written {v : Json} (h : v.IsDocument) (hv : v.TextsAreStrings) :
    ∃ d : Document, d.WrittenAs v := by
  obtain ⟨hlisted, hne, hall⟩ := h
  have hlist := Json.textsAreStrings_array.1 (hv.get? hlisted)
  obtain ⟨rules, hrules⟩ := exists_forall₂ fun w hmem =>
    (hall w hmem).written (hlist _ hmem)
  refine ⟨⟨rules, ?_⟩, .mk hlisted hrules⟩
  rintro rfl
  cases hrules
  exact hne rfl

/-! What is written has the form. -/

theorem Term.WrittenAs.isTerm {t : Term} {v : Json} (h : t.WrittenAs v) : v.IsTerm := by
  cases h with
  | literal htype htext => exact .literal htype htext
  | @ref fs name htype hname => exact .ref htype hname ((isName_iff _).1 name.valid)

theorem SequenceWrittenAs.isSequence {terms : List Term} {row : Json} (h : SequenceWrittenAs terms row)
    (hne : terms ≠ []) : row.IsSequence := by
  obtain ⟨hterms⟩ := h
  refine .mk ?_ (forall_of_forall₂ hterms fun t _ v hv => hv.isTerm)
  rintro rfl
  cases hterms
  exact hne rfl

theorem Rule.WrittenAs.isRule {r : Rule} {v : Json} (h : r.WrittenAs v) : v.IsRule := by
  obtain ⟨hname, hlisted, hrows⟩ := h
  refine .mk hname ((isName_iff _).1 r.name.valid) hlisted ?_
    (forall_of_forall₂ hrows fun terms hterms row hrow => hrow.isSequence (r.some_term terms hterms))
  rintro rfl
  exact r.some_alternative (List.forall₂_nil_right_iff.1 hrows)

theorem Document.WrittenAs.isDocument {d : Document} {v : Json} (h : d.WrittenAs v) : v.IsDocument := by
  obtain ⟨hlisted, hrules⟩ := h
  refine .mk hlisted ?_ (forall_of_forall₂ hrules fun r _ w hw => hw.isRule)
  rintro rfl
  exact d.some_rule (List.forall₂_nil_right_iff.1 hrules)

theorem Document.ofJson_toJson (d : Document) : Document.ofJson d.toJson = .ok d :=
  Document.ofJson_ok_iff.2 d.toJson_writtenAs

/-- A JSON value whose literals have strings as texts is read just if it has the form. -/
theorem Document.ofJson_ok_iff_isDocument {x : Json} (hx : x.TextsAreStrings) :
    (∃ d, Document.ofJson x = .ok d) ↔ x.IsDocument := by
  constructor
  · rintro ⟨d, hd⟩
    exact (Document.ofJson_ok_iff.1 hd).isDocument
  · intro h
    obtain ⟨d, hd⟩ := h.written hx
    exact ⟨d, Document.ofJson_ok_iff.2 hd⟩

/-- **The wire form is exact.** What a document is written as is read as the document. A JSON
value whose literals have strings as texts is read just if it has the form of a document, and
the document is then written as that value without the fields that do not belong; any other
value is refused. -/
theorem Document.ofJson_exact :
    (∀ d : Document, Document.ofJson d.toJson = .ok d) ∧
      ∀ x : Json, x.TextsAreStrings →
        ((∃ d, Document.ofJson x = .ok d) ↔ x.IsDocument) ∧
        (∀ d, Document.ofJson x = .ok d → d.toJson = x.bareDocument) ∧
        (¬ x.IsDocument → ∃ e, Document.ofJson x = .error e) := by
  refine ⟨Document.ofJson_toJson, fun x hx => ?_⟩
  have hform := Document.ofJson_ok_iff_isDocument hx
  refine ⟨hform, fun d hd => (Document.ofJson_ok_iff.1 hd).bare, fun hno => ?_⟩
  cases hread : Document.ofJson x with
  | ok d => exact absurd (hform.1 ⟨d, hread⟩) hno
  | error e => exact ⟨e, rfl⟩

/-- A version beside the rules, a note in a rule and a note in a term do not belong. -/
theorem Document.ofJson_exact_of_notes :
    let x : Json := .object [("version", .string "2"), ("rules", .array [.object [("note", .string "a list"),
      ("name", .string "list"), ("alternatives", .array [.array [
        .object [("text", .string ","), ("note", .string "comma"), ("type", .string "literal")],
        .object [("type", .string "rule_ref"), ("name", .string "list")]]])]])]
    x.TextsAreStrings ∧ ∃ d, Document.ofJson x = .ok d ∧
      d.toJson = .object [("rules", .array [.object [("name", .string "list"),
        ("alternatives", .array [.array [
          .object [("type", .string "literal"), ("text", .string ",")],
          .object [("type", .string "rule_ref"), ("name", .string "list")]]])]])] := by
  intro x
  have htexts : x.TextsAreStrings := by
    simp [x, Fields.get?, List.lookup_cons]
  have hform : x.IsDocument := by
    have hname : IsNameText "list" := (isName_iff _).1 rfl
    refine .mk rfl (by simp) ?_
    rw [List.forall_mem_singleton]
    refine .mk rfl hname rfl (by simp) ?_
    rw [List.forall_mem_singleton]
    refine .mk (by simp) ?_
    rw [List.forall_mem_cons, List.forall_mem_singleton]
    exact ⟨.literal rfl rfl, .ref rfl rfl hname⟩
  obtain ⟨hread, hbare, -⟩ := Document.ofJson_exact.2 x htexts
  obtain ⟨d, hd⟩ := hread.2 hform
  exact ⟨htexts, d, hd, hbare d hd⟩

end BnfReader
