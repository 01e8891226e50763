import BnfReader.Proofs.LineBreaks
import BnfReader.Proofs.Reports

/-! Reports are decided left to right.

The scanner stops at the end of an unfinished document or before a character that leads
nowhere (`Scan.Stops`). The report is a function of the state there, of the text up to the
reported place, and of the one character that stands at it; a marker that has been begun is
between the two (`Document.parse_failure_iff`). What stands behind the character that stopped
the scanner plays no part. -/
namespace BnfReader
open Scan

/-! ### Reports of a place -/

/-- The report of the place behind `before`, where `rest` is left. -/
def Failure.behind (before rest : List Char) (expected : Expected) : Failure :=
  { offset := before.length
    line := lineAfter before
    column := columnAfter before
    expected := expected.items
    found := rest.head?.map String.singleton }

theorem Failure.ofMismatch_behind (before rest : List Char) (expected : Expected) :
    Failure.ofMismatch (before ++ rest).toArray ⟨before.length, expected⟩ = .behind before rest expected := by
  have hbefore : ((before ++ rest).toArray.extract 0 before.length).toList = before := by
    simp
  have hthere : (before ++ rest)[before.length]? = rest.head? := by
    rw [List.getElem?_append_right (Nat.le_refl _), Nat.sub_self, List.head?_eq_getElem?]
  have hcolumn : (before.length : Int) - lineStart before + 1 = columnAfter before := by
    have hle := (List.takeWhile_sublist (l := before.reverse) fun c => c != '\n' && c != '\r').length_le
    rw [List.length_reverse] at hle
    unfold lineStart columnAfter
    omega
  simp only [Failure.ofMismatch, Failure.behind, hbefore, hcolumn, List.getElem?_toArray, hthere]

namespace Scan

/-! ### Where the scanner stops -/

/-- From `s` the characters `u` lead to `t`, and `rest` does not lead on from there. -/
structure Stops (s : State) (u rest : List Char) (t : State) : Prop where
  walk : walk s u = some t
  stuck : ∀ c, rest.head? = some c → t.next c = none
  incomplete : rest = [] → t.document? = none

section
variable {s t : State} {o : Nat} {cs u rest : List Char} {m : Mismatch}

theorem Stops.read (h : Stops s u rest t) : Scan.read s o (u ++ rest) = .error (t.miss (o + u.length)) := by
  rw [read_walk h.walk]
  cases rest with
  | nil => simp only [Scan.read, h.incomplete rfl]
  | cons c rest => exact read_stop (h.stuck c rfl)

theorem stops_of_read (h : Scan.read s o cs = .error m) :
    ∃ u rest t, cs = u ++ rest ∧ Stops s u rest t ∧ m = t.miss (o + u.length) := by
  obtain ⟨u, rest, t, rfl, hwalk, hm, hstuck⟩ := read_error h
  refine ⟨u, rest, t, rfl, ⟨hwalk, hstuck, ?_⟩, hm⟩
  rintro rfl
  cases hd : t.document? with
  | none => rfl
  | some d =>
    rw [List.append_nil, read_ok_iff.2 ⟨t, hwalk, hd⟩] at h
    cases h

/-- The first character of what is left decides. -/
theorem Stops.of_head {c : Char} {tail : List Char} (h : Stops s u (c :: tail) t) (tail' : List Char) :
    Stops s u (c :: tail') t :=
  ⟨h.walk, h.stuck, fun hnil => by cases hnil⟩

/-- The part of a marker that has been read. -/
def State.marker (t : State) : List Char := List.replicate t.marked ':'

theorem State.marked_le (t : State) : t.marked ≤ 2 := by
  cases t <;> simp [State.marked]

theorem State.expected_of_marked (ht : t.marked ≠ 0) : t.expected = .only "'::='" := by
  cases t with
  | colon rules n => rfl
  | colons rules n => rfl
  | _ => exact absurd rfl ht

end
end Scan

/-- A text is rejected where the scanner stops; a part of a marker before that place is
reported with the marker. -/
theorem Document.parse_failure_iff (text : String) (f : Failure) :
    Document.parse text = .error (.failure f) ↔ ∃ v rest t, text.toList = v ++ (t.marker ++ rest) ∧
      Stops .start (v ++ t.marker) rest t ∧ f = .behind v (t.marker ++ rest) t.expected := by
  have hreport : ∀ (v rest : List Char) (t : State), text.toList = v ++ (t.marker ++ rest) →
      Failure.ofMismatch text.toList.toArray (t.miss (0 + (v ++ t.marker).length)) =
        .behind v (t.marker ++ rest) t.expected := by
    intro v rest t htext
    have hoffset : t.miss (0 + (v ++ t.marker).length) = ⟨v.length, t.expected⟩ := by
      simp [State.miss, State.marker]
    rw [hoffset, htext, Failure.ofMismatch_behind]
  rw [Document.parse_eq_read]
  constructor
  · intro h
    split at h
    · cases h
    next m hread =>
      cases h
      obtain ⟨u, rest, t, htext, hstops, rfl⟩ := stops_of_read hread
      obtain ⟨v, s, rfl, -⟩ := walk_before_marker hstops.walk
      rw [List.append_assoc] at htext
      exact ⟨v, rest, t, htext, hstops, hreport v rest t htext⟩
  · rintro ⟨v, rest, t, htext, hstops, rfl⟩
    have hread := hstops.read (o := 0)
    rw [List.append_assoc, ← htext] at hread
    rw [hread]
    exact congrArg (Except.error ∘ Rejection.failure) (hreport v rest t htext)

/-! ### What follows the reported place -/

/-- A text that is cut behind the character that stopped the scanner, and goes on in any way
from there, has the same report. -/
theorem Scan.Stops.parse_take {v tail : List Char} {c : Char} {t : State} {n : Nat}
    (h : Stops .start (v ++ t.marker) (c :: tail) t) (hn : v.length + t.marked < n) (u : String) :
    Document.parse (String.ofList ((v ++ (t.marker ++ c :: tail)).take n) ++ u) =
      .error (.failure (.behind v (t.marker ++ c :: tail) t.expected)) := by
  have hmarker : t.marker.length = t.marked := List.length_replicate
  obtain ⟨k, hk⟩ : ∃ k, n = v.length + (t.marker.length + (k + 1)) :=
    ⟨n - v.length - t.marked - 1, by omega⟩
  refine (Document.parse_failure_iff _ _).2 ⟨v, c :: (tail.take k ++ u.toList), t, ?_, h.of_head _, ?_⟩
  · rw [hk, List.take_length_add_append, List.take_length_add_append, List.take_succ_cons]
    simp
  · unfold Failure.behind
    congr 2
    cases t.marker with
    | nil => rfl
    | cons x marker => rfl

/-- **Reports are decided left to right**: what follows the reported character, or the three
characters that were compared with the marker, has no influence on the report. -/
theorem Document.parse_failure_decided (text : String) (f : Failure) (p : Nat)
    (h : Document.parse text = .error (.failure f)) (hp : f.offset = p) (hfound : f.found ≠ none) :
    (f.expected ≠ ["'::='"] →
      ∀ u, Document.parse (String.ofList (text.toList.take (p + 1)) ++ u) = .error (.failure f)) ∧
    (f.expected = ["'::='"] → p + 3 ≤ text.length →
      ∀ u, Document.parse (String.ofList (text.toList.take (p + 3)) ++ u) = .error (.failure f)) := by
  obtain ⟨v, rest, t, htext, hstops, rfl⟩ := (Document.parse_failure_iff text f).1 h
  obtain rfl : v.length = p := Int.ofNat.inj hp
  have hlength : text.length = v.length + (t.marked + rest.length) := by
    rw [← String.length_toList, htext, List.length_append, List.length_append, State.marker, List.length_replicate]
  rw [htext]
  constructor
  · intro hexpected u
    have hmarked : t.marked = 0 := by
      by_cases hm : t.marked = 0
      · exact hm
      · exact absurd (congrArg Expected.items (State.expected_of_marked hm)) hexpected
    cases rest with
    | nil =>
      refine absurd ?_ hfound
      rw [Failure.behind, State.marker, hmarked]
      rfl
    | cons c tail => exact hstops.parse_take (by omega) u
  · intro _ hlong u
    have hmarked := t.marked_le
    cases rest with
    | nil =>
      rw [List.length_nil] at hlength
      omega
    | cons c tail => exact hstops.parse_take (by omega) u

/-- Whatever follows a broken marker, or a line break where a term is missing. -/
theorem Document.parse_failure_decided_of_breaks :
    (Document.parse "<a> :: x" = .error (.failure ⟨4, 1, 5, ["'::='"], some ":"⟩) ∧
      ∀ u, Document.parse ("<a> :: " ++ u) = .error (.failure ⟨4, 1, 5, ["'::='"], some ":"⟩)) ∧
    (Document.parse "<a> ::=\rx" =
        .error (.failure ⟨7, 1, 8, ["literal", "rule reference"], some "\r"⟩) ∧
      ∀ u, Document.parse ("<a> ::=\r" ++ u) =
        .error (.failure ⟨7, 1, 8, ["literal", "rule reference"], some "\r"⟩)) := by
  have hmarker : Document.parse "<a> :: x" = .error (.failure ⟨4, 1, 5, ["'::='"], some ":"⟩) := by
    rw [Document.parse_eq_read]
    rfl
  have hterm : Document.parse "<a> ::=\rx" =
      .error (.failure ⟨7, 1, 8, ["literal", "rule reference"], some "\r"⟩) := by
    rw [Document.parse_eq_read]
    rfl
  exact ⟨⟨hmarker, (Document.parse_failure_decided _ _ 4 hmarker rfl (by simp)).2 rfl (by decide)⟩,
    ⟨hterm, (Document.parse_failure_decided _ _ 7 hterm rfl (by simp)).1 (by simp)⟩⟩

end BnfReader
