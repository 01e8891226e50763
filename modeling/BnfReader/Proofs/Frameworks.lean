import BnfReader.Service.Dispatch
import Mathlib.Data.List.Forall2

/-! What is relied on of a framework.

Two things are: that it lets values through that are of their form (`Framework.KeepsForms`), and
that a request which posts to a route is answered with what the handler of the route comes to
(`Framework.Dispatches`). Nothing is said of values that do not fit, of other requests or of the
headers of an answer. The usual framework keeps both. -/
namespace BnfReader

/-- A response with a status and a JSON body; it may have any headers. -/
structure Response.Carries (response : Response) (status : Nat) (value : Json) : Prop where
  status : response.status = status
  contentType : response.contentType = some "application/json"
  body : response.body = .json value

/-- The request posts to the route, which is the first with its path. -/
structure Application.Posts (app : Application) (r : Request) (route : Route) : Prop where
  method : r.method = "POST"
  path : r.path? = some route.path
  first : app.routes.find? (fun e => e.path = route.path) = some route
  accepted : route.method = "POST"

/-- All fields without a default are given. -/
def FormField.AllGiven (declared : List FormField) (given : Fields) : Prop :=
  ∀ field ∈ declared, field.default? = none → (given.get? field.name).isSome = true

namespace Framework

/-- Values of a form are kept: texts and whole numbers, a list if all its items are, and an object
that has just the declared fields if these are. Of two kinds of objects the one counts whose fields
without defaults are all there. -/
structure KeepsForms (f : Framework) : Prop where
  text : ∀ s, f.fit .text (.string s) = some (.string s)
  whole : ∀ n, f.fit .whole (.int n) = some (.int n)
  null : ∀ form, f.fit (.orNull form) .null = some .null
  present : ∀ form v, v ≠ .null → f.fit (.orNull form) v = f.fit form v
  list : ∀ form vs, (∀ v ∈ vs, f.fit form v = some v) → f.fit (.list form) (.array vs) = some (.array vs)
  record : ∀ (declared : List FormField) (given : Fields), given.keys.Nodup →
    List.Forall₂ (fun field entry => entry.1 = field.name ∧ f.fit field.form entry.2 = some entry.2) declared given →
    f.fit (.record declared) (.object given) = some (.object given)
  first : ∀ declared other given, FormField.AllGiven declared given → ¬ FormField.AllGiven other given →
    f.fit (.either (.record declared) (.record other)) (.object given) = f.fit (.record declared) (.object given)
  second : ∀ declared other given, ¬ FormField.AllGiven declared given → FormField.AllGiven other given →
    f.fit (.either (.record declared) (.record other)) (.object given) = f.fit (.record other) (.object given)

/-- What a handler comes to is the answer to a request that posts to its route: a value as the form
of the route lets it through, a JSON response as it is, and a refusal by what is said of it. -/
structure Dispatches (f : Framework) : Prop where
  value : ∀ {app : Application} {r : Request} {route : Route} {v w : Json}, app.Posts r route →
    route.handler r = .value v → f.fitting route.form? v = some w → (f.answer app r).Carries 200 w
  response : ∀ {app : Application} {r : Request} {route : Route} {status : Nat} {v : Json}, app.Posts r route →
    route.handler r = .response (.json status v) → (f.answer app r).Carries status v
  refusal : ∀ {app : Application} {r : Request} {route : Route} {status status' : Nat} {detail v : Json},
    app.Posts r route → route.handler r = .refusal status detail → app.refused status detail = .json status' v →
    (f.answer app r).Carries status' v

end Framework

/-! ### Usual forms -/

namespace Form
variable {declared : List FormField} {given : Fields}

/-- Where a field is missing, the object does not fit. -/
theorem fit_record_of_missing (h : ¬ FormField.AllGiven declared given) :
    fit (.record declared) (.object given) = none := by
  have hfields : fitFields declared given = none := by
    induction declared with
    | nil => exact absurd (by simp [FormField.AllGiven]) h
    | cons field declared ih =>
      rw [fitFields]
      by_cases hfield : field.default? = none → (given.get? field.name).isSome = true
      · have hmissing : ¬ FormField.AllGiven declared given := by
          intro hall
          exact h (List.forall_mem_cons.2 ⟨hfield, hall⟩)
        rw [ih hmissing]
        cases fitField field given with
        | none => rfl
        | some v => rfl
      · obtain ⟨name, form, default?⟩ := field
        simp only [Classical.not_imp, Option.not_isSome_iff_eq_none] at hfield
        obtain ⟨hdefault, hname⟩ := hfield
        rw [fitField, hname, hdefault]
        rfl
  rw [fit, hfields]
  rfl

theorem get?_of_mem (hkeys : given.keys.Nodup) {entry : String × Json} (h : entry ∈ given) :
    given.get? entry.1 = some entry.2 := by
  induction given with
  | nil => cases h
  | cons first given ih =>
    rw [Fields.keys, List.map_cons, List.nodup_cons] at hkeys
    rw [Fields.get?, List.lookup_cons]
    rcases List.mem_cons.1 h with rfl | h
    · rw [beq_self_eq_true]
    · have hne : (entry.1 == first.1) = false := by
        rw [beq_eq_false_iff_ne]
        intro heq
        exact hkeys.1 (heq ▸ List.mem_map_of_mem h)
      rw [hne]
      exact ih hkeys.2 h

/-- Declared fields that are given and kept come out as they are. -/
theorem fitFields_eq_some {all : Fields} (hall : ∀ entry ∈ given, all.get? entry.1 = some entry.2)
    (h : List.Forall₂ (fun field entry => entry.1 = field.name ∧ fit field.form entry.2 = some entry.2) declared given) :
    fitFields declared all = some given := by
  induction h with
  | nil => rfl
  | @cons field entry declared given hfield _ ih =>
    obtain ⟨name, form, default?⟩ := field
    obtain ⟨rfl, hkept⟩ := hfield
    rw [List.forall_mem_cons] at hall
    have hvalue : fitField ⟨entry.1, form, default?⟩ all = some entry.2 := by
      rw [fitField, hall.1]
      exact hkept
    rw [fitFields, hvalue, ih hall.2]
    rfl

theorem mapM_some {α : Type} {f : α → Option α} {xs : List α} (h : ∀ x ∈ xs, f x = some x) :
    xs.mapM f = some xs := by
  induction xs with
  | nil => rfl
  | cons x xs ih =>
    rw [List.forall_mem_cons] at h
    rw [List.mapM_cons, h.1, ih h.2]
    rfl

end Form

namespace Framework

theorem usual_keepsForms : usual.KeepsForms where
  text _ := rfl
  whole _ := rfl
  null _ := rfl
  present form v hv := by
    show Form.fit (.orNull form) v = Form.fit form v
    rw [Form.fit]
    exact hv
  list form vs h := by
    have hitems : (vs.mapM fun v => form.fit v) = some vs := Form.mapM_some h
    show Form.fit (.list form) (.array vs) = _
    rw [Form.fit, hitems]
    rfl
  record declared given hkeys h := by
    show Form.fit (.record declared) (.object given) = _
    rw [Form.fit, Form.fitFields_eq_some (fun entry hentry => Form.get?_of_mem hkeys hentry) h]
    rfl
  first declared other given _ hother := by
    show Form.fit (.either (.record declared) (.record other)) (.object given) = Form.fit (.record declared) _
    rw [Form.fit, Form.fit_record_of_missing hother]
    cases Form.fit (.record declared) (.object given) with
    | none => rfl
    | some v => rfl
  second declared other given hdeclared _ := by
    show Form.fit (.either (.record declared) (.record other)) (.object given) = Form.fit (.record other) _
    rw [Form.fit, Form.fit_record_of_missing hdeclared]
    rfl

/-! ### Usual answers -/

section
variable {app : Application} {r : Request} {route : Route}

/-- A request that posts to a route is answered by its handler; headers may be added. -/
theorem answerShared_of_posts (h : app.Posts r route) :
    ∃ headers, answerShared app r = { respond app route r with headers := headers } := by
  have hanswer : answerAt app r = respond app route r := by
    simp only [answerAt, h.path, h.first, h.method, h.accepted, if_pos]
  have hbody : withoutBody r (answerAt app r) = respond app route r := by
    rw [withoutBody, hanswer, h.method]
    rfl
  cases horigin : r.header? "origin" with
  | none =>
    refine ⟨(respond app route r).headers, ?_⟩
    simp only [answerShared, horigin, hbody]
  | some origin =>
    simp only [answerShared, horigin, h.method, hbody]
    exact ⟨_, rfl⟩

theorem answerShared_carries {status : Nat} {v : Json} (h : app.Posts r route)
    (hrespond : respond app route r = .json status v) : (answerShared app r).Carries status v := by
  obtain ⟨headers, hanswer⟩ := answerShared_of_posts h
  rw [hanswer, hrespond]
  exact ⟨rfl, rfl, rfl⟩

end

theorem usual_dispatches : usual.Dispatches where
  value {app r route v w} h hvalue hfits := by
    have hform : route.form?.elim (some v) (·.fit v) = some w := hfits
    apply answerShared_carries h
    simp only [respond, hvalue, hform]
  response h hresponse := by
    apply answerShared_carries h
    simp only [respond, hresponse]
  refusal h hrefusal hrefused := by
    apply answerShared_carries h
    simp only [respond, hrefusal, hrefused]

end Framework
end BnfReader
