/-! Expectations: what a parser was looking for, as a finite set of descriptions.

The set is kept as its increasing list, so two sets are equal exactly when they have the
same members (`Expected.ext_mem`) and a report can list them without sorting again. The
order is by code point. -/
namespace BnfReader

/-- A finite set of descriptions, in increasing order. -/
structure Expected where
  items : List String
  increasing : items.Pairwise (· < ·)
deriving DecidableEq

namespace Expected

/-- `s` put in its place in an increasing list; a list that has it stays as it is. -/
def place (s : String) : List String → List String
  | [] => [s]
  | x :: xs => if s < x then s :: x :: xs else if s = x then x :: xs else x :: place s xs

theorem mem_place {s t : String} {xs : List String} : t ∈ place s xs ↔ t = s ∨ t ∈ xs := by
  induction xs with
  | nil => simp [place]
  | cons x xs ih => grind [place]

theorem place_increasing {s : String} {xs : List String} (h : xs.Pairwise (· < ·)) :
    (place s xs).Pairwise (· < ·) := by
  induction xs with
  | nil => simp [place]
  | cons x xs ih =>
    obtain ⟨hx, hxs⟩ := List.pairwise_cons.1 h
    rw [place]
    split
    next hs =>
      refine List.pairwise_cons.2 ⟨fun t ht => ?_, h⟩
      rcases List.mem_cons.1 ht with rfl | ht
      · exact hs
      · exact String.lt_trans hs (hx t ht)
    next hs =>
      split
      next => exact h
      next hne =>
        refine List.pairwise_cons.2 ⟨fun t ht => ?_, ih hxs⟩
        rcases mem_place.1 ht with rfl | ht
        · exact Std.lt_of_le_of_ne (String.not_lt.1 hs) (Ne.symm hne)
        · exact hx t ht

/-- Nothing expected. -/
def none : Expected := ⟨[], .nil⟩

/-- The set with `s` added. -/
def insert (s : String) (e : Expected) : Expected := ⟨place s e.items, place_increasing e.increasing⟩

/-- The set of a list's members. -/
def ofList (xs : List String) : Expected := xs.foldr insert none

/-- The one description `s`. -/
def only (s : String) : Expected := ⟨[s], List.pairwise_singleton _ _⟩

/-- All descriptions of either set. -/
def union (a b : Expected) : Expected := a.items.foldr insert b

instance : Membership String Expected := ⟨fun e s => s ∈ e.items⟩

instance (s : String) (e : Expected) : Decidable (s ∈ e) := inferInstanceAs (Decidable (s ∈ e.items))

theorem mem_def {s : String} {e : Expected} : s ∈ e ↔ s ∈ e.items := Iff.rfl

@[simp] theorem not_mem_none {s : String} : ¬ s ∈ none := by simp [mem_def, none]

@[simp] theorem mem_only {s t : String} : t ∈ only s ↔ t = s := by simp [mem_def, only]

@[simp] theorem mem_insert {s t : String} {e : Expected} : t ∈ e.insert s ↔ t = s ∨ t ∈ e :=
  mem_place

theorem mem_foldr_insert {s : String} {xs : List String} {e : Expected} :
    s ∈ xs.foldr insert e ↔ s ∈ xs ∨ s ∈ e := by
  induction xs with
  | nil => simp
  | cons x xs ih => simp [ih, or_assoc]

@[simp] theorem mem_ofList {s : String} {xs : List String} : s ∈ ofList xs ↔ s ∈ xs := by
  simp [ofList, mem_foldr_insert]

@[simp] theorem mem_union {s : String} {a b : Expected} : s ∈ a.union b ↔ s ∈ a ∨ s ∈ b :=
  mem_foldr_insert

/-- Increasing lists with the same members are the same list. -/
theorem increasing_ext {xs ys : List String} (hx : xs.Pairwise (· < ·)) (hy : ys.Pairwise (· < ·))
    (h : ∀ s, s ∈ xs ↔ s ∈ ys) : xs = ys := by
  induction xs generalizing ys with
  | nil => cases ys with
    | nil => rfl
    | cons y ys => exact absurd ((h y).2 (List.mem_cons_self ..)) List.not_mem_nil
  | cons x xs ih => cases ys with
    | nil => exact absurd ((h x).1 (List.mem_cons_self ..)) List.not_mem_nil
    | cons y ys =>
      obtain ⟨hx₁, hx₂⟩ := List.pairwise_cons.1 hx
      obtain ⟨hy₁, hy₂⟩ := List.pairwise_cons.1 hy
      have hxy : x = y := by
        rcases List.mem_cons.1 ((h x).1 (List.mem_cons_self ..)) with e | hin
        · exact e
        rcases List.mem_cons.1 ((h y).2 (List.mem_cons_self ..)) with e | hin'
        · exact e.symm
        exact absurd (hy₁ x hin) (String.lt_asymm (hx₁ y hin'))
      subst hxy
      congr 1
      refine ih hx₂ hy₂ fun s => ⟨fun hs => ?_, fun hs => ?_⟩
      · rcases List.mem_cons.1 ((h s).1 (List.mem_cons_of_mem _ hs)) with rfl | hin
        · exact absurd (hx₁ s hs) (String.lt_irrefl s)
        · exact hin
      · rcases List.mem_cons.1 ((h s).2 (List.mem_cons_of_mem _ hs)) with rfl | hin
        · exact absurd (hy₁ s hs) (String.lt_irrefl s)
        · exact hin

/-- Sets with the same members are equal. -/
theorem ext_mem {a b : Expected} (h : ∀ s, s ∈ a ↔ s ∈ b) : a = b := by
  obtain ⟨xs, hx⟩ := a
  obtain ⟨ys, hy⟩ := b
  have := increasing_ext hx hy h
  subst this
  rfl

end Expected
end BnfReader
