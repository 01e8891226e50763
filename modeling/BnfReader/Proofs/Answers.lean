import BnfReader.Proofs.Checks
import BnfReader.Proofs.Frameworks
import BnfReader.Proofs.JsonText
import BnfReader.Proofs.RoundTrip
import BnfReader.Proofs.Utf8
import BnfReader.Proofs.WireForm
import BnfReader.Service.Routes

/-! What is answered to a posted grammar.

Bytes that are no text, a text that is no grammar and a grammar are all answered for, and
nothing else is: no document and no failure is changed by its form, and reading never fails
otherwise. From the bytes of an answer the document can be made again, so nothing is lost. All this
is so with any framework that keeps forms and dispatches requests. -/
namespace BnfReader

/-! ### Forms -/

namespace Framework.KeepsForms
variable {f : Framework}

/-- A term has the field of its own kind and not that of the other, so it is taken for what it is. -/
theorem term (h : f.KeepsForms) (t : Term) :
    f.fit (.either Form.literalTerm Form.refTerm) t.toJson = some t.toJson := by
  cases t with
  | literal text =>
    refine (h.first _ _ _ ?_ ?_).trans (h.record _ _ (by simp [Fields.keys]) ?_)
    · simp [FormField.AllGiven, FormField.optional, FormField.required, Fields.get?, List.lookup_cons]
    · simp [FormField.AllGiven, FormField.optional, FormField.required, Fields.get?, List.lookup_cons]
    · exact .cons ⟨rfl, h.text _⟩ (.cons ⟨rfl, h.text _⟩ .nil)
  | ref name =>
    refine (h.second _ _ _ ?_ ?_).trans (h.record _ _ (by simp [Fields.keys]) ?_)
    · simp [FormField.AllGiven, FormField.optional, FormField.required, Fields.get?, List.lookup_cons]
    · simp [FormField.AllGiven, FormField.optional, FormField.required, Fields.get?, List.lookup_cons]
    · exact .cons ⟨rfl, h.text _⟩ (.cons ⟨rfl, h.text _⟩ .nil)

theorem rule (h : f.KeepsForms) (r : Rule) : f.fit .rule r.toJson = some r.toJson := by
  have halternatives : f.fit (.list (.list (.either Form.literalTerm Form.refTerm)))
      (.array (r.alternatives.map fun terms => .array (terms.map Term.toJson))) =
      some (.array (r.alternatives.map fun terms => .array (terms.map Term.toJson))) := by
    apply h.list
    rw [List.forall_mem_map]
    intro terms _
    apply h.list
    rw [List.forall_mem_map]
    exact fun t _ => h.term t
  exact h.record _ _ (by simp [Fields.keys]) (.cons ⟨rfl, h.text _⟩ (.cons ⟨rfl, halternatives⟩ .nil))

theorem document (h : f.KeepsForms) (d : Document) : f.fit .grammar d.toJson = some d.toJson := by
  have hrules : f.fit (.list .rule) (.array (d.rules.map Rule.toJson)) = some (.array (d.rules.map Rule.toJson)) := by
    apply h.list
    rw [List.forall_mem_map]
    exact fun r _ => h.rule r
  exact h.record _ _ (by simp [Fields.keys]) (.cons ⟨rfl, hrules⟩ .nil)

theorem failure (h : f.KeepsForms) (report : Failure) : f.fit .failure report.toJson = some report.toJson := by
  have hexpected : f.fit (.list .text) (.array (report.expected.map .string)) =
      some (.array (report.expected.map .string)) := by
    apply h.list
    rw [List.forall_mem_map]
    exact fun s _ => h.text s
  have hfound : ∀ v, v = Json.null ∨ (∃ s, v = .string s) → f.fit (.orNull .text) v = some v := by
    intro v hv
    rcases hv with rfl | ⟨s, rfl⟩
    · exact h.null _
    · rw [h.present .text (.string s) nofun, h.text]
  refine h.record _ _ (by simp [Fields.keys]) (.cons ⟨rfl, h.whole _⟩ (.cons ⟨rfl, h.whole _⟩ (.cons ⟨rfl, h.whole _⟩
    (.cons ⟨rfl, hexpected⟩ (.cons ⟨rfl, hfound _ ?_⟩ (.cons ⟨rfl, h.text _⟩ .nil))))))
  cases report.found with
  | none => exact .inl rfl
  | some c => exact .inr ⟨_, rfl⟩

theorem rejected (h : f.KeepsForms) (report : Failure) :
    f.fit .rejection (Service.rejected report) = some (Service.rejected report) :=
  h.record _ _ (by simp [Fields.keys]) (.cons ⟨rfl, h.text _⟩ (.cons ⟨rfl, h.failure report⟩ .nil))

end Framework.KeepsForms

/-! ### Responses -/

/-- The document that is made from the bytes of a response, read with containers in each other up
to a depth. -/
def Response.document? (response : Response) (depth : Nat) : Option Document := do
  let text ← (Text.decode response.body.bytes).toOption
  let v ← (Json.read text depth).toOption
  (Document.ofJson v).toOption

theorem Response.Carries.document? {response : Response} {status depth : Nat} {d : Document}
    (h : response.Carries status d.toJson) (hdepth : Document.jsonDepth ≤ depth) :
    response.document? depth = some d := by
  have hbytes : response.body.bytes = Text.encode d.toJson.compact := by
    rw [h.body]
    rfl
  simp [Response.document?, hbytes, Text.decode_ok_iff.2 rfl, d.read_compact hdepth, d.ofJson_toJson, Except.toOption]

/-! ### Posted bytes -/

namespace Service

/-- What is said about bytes that are no text. -/
def undecodable : Json :=
  .object [("detail", .string "Request body must be UTF-8 text"), ("error", .bool true)]

section
variable {s : Service} {r : Request} {text : String}

theorem parsed_undecodable (s : Service) (h : ∀ text, Text.encode text ≠ r.body) :
    s.parsed r = .refusal 400 (.string "Request body must be UTF-8 text") := by
  cases hdecode : Text.decode r.body with
  | ok text => exact absurd (Text.decode_ok_iff.1 hdecode) (h text)
  | error e => simp only [parsed, hdecode]

theorem parsed_failure {f : Failure} (hforms : s.framework.KeepsForms) (hreader : s.reader = readDocument)
    (htext : Text.encode text = r.body) (hf : Document.parse text = .error (.failure f)) :
    s.parsed r = .response (.json 400 (rejected f)) := by
  have hread : s.reader text = .error (.failure f) := by
    rw [hreader]
    unfold readDocument
    generalize Document.parse text = result at hf ⊢
    rw [hf]
  simp only [parsed, Text.decode_ok_iff.2 htext, hread, hforms.rejected]

theorem parsed_document {d : Document} (hreader : s.reader = readDocument) (htext : Text.encode text = r.body)
    (hd : Document.parse text = .ok d) : s.parsed r = .value d.toJson := by
  have hread : s.reader text = .ok d := by
    rw [hreader]
    unfold readDocument
    generalize Document.parse text = result at hd ⊢
    rw [hd]
  simp only [parsed, Text.decode_ok_iff.2 htext, hread]

end

/-! ### Requests -/

section
variable {s : Service} {r : Request} (hforms : s.framework.KeepsForms) (hdispatch : s.framework.Dispatches)
  (hreader : s.reader = readDocument) (hmethod : r.method = "POST") (hpath : r.path? = some "/parse")

theorem app_posts (s : Service) (hmethod : r.method = "POST") (hpath : r.path? = some "/parse") :
    s.app.Posts r s.parseRoute :=
  ⟨hmethod, hpath, by simp [app, parseRoute], rfl⟩

include hdispatch hmethod hpath

theorem answer_undecodable (h : ∀ text, Text.encode text ≠ r.body) : (s.answer r).Carries 400 undecodable :=
  hdispatch.refusal (s.app_posts hmethod hpath) (s.parsed_undecodable h) rfl

include hforms hreader

theorem answer_failure {text : String} {f : Failure} (htext : Text.encode text = r.body)
    (hf : Document.parse text = .error (.failure f)) : (s.answer r).Carries 400 (rejected f) :=
  hdispatch.response (s.app_posts hmethod hpath) (parsed_failure hforms hreader htext hf)

theorem answer_document {text : String} {d : Document} (htext : Text.encode text = r.body)
    (hd : Document.parse text = .ok d) : (s.answer r).Carries 200 d.toJson :=
  hdispatch.value (s.app_posts hmethod hpath) (parsed_document hreader htext hd) (hforms.document d)

end

/-- **Posted bytes are answered for, whatever they are.** With a framework that keeps forms and
dispatches requests, bytes that are no text are refused with a detail, a text that is no grammar
with its report, and a grammar is answered with its document, which can be made again from the
bytes of the answer. There is no other status. So what a document is written as, posted, gives the
document back. -/
theorem answer_parse (s : Service) (r : Request) (hforms : s.framework.KeepsForms)
    (hdispatch : s.framework.Dispatches) (hreader : s.reader = readDocument) (hmethod : r.method = "POST")
    (hpath : r.path? = some "/parse") :
    ((∀ text, Text.encode text ≠ r.body) → (s.answer r).Carries 400
      (.object [("detail", .string "Request body must be UTF-8 text"), ("error", .bool true)])) ∧
    (∀ text f, Text.encode text = r.body → Document.parse text = .error (.failure f) →
      (s.answer r).Carries 400 (.object [("error", .string f.message), ("failure", f.toJson)])) ∧
    (∀ text d, Text.encode text = r.body → Document.parse text = .ok d → (s.answer r).Carries 200 d.toJson ∧
      ∀ depth ≥ Document.jsonDepth, (s.answer r).document? depth = some d) ∧
    (s.answer r).status ≠ 500 ∧
    (∀ d text, d.format = .ok text → Text.encode text = r.body → (s.answer r).Carries 200 d.toJson ∧
      ∀ depth ≥ Document.jsonDepth, (s.answer r).document? depth = some d) := by
  have hundecodable := @answer_undecodable s r hdispatch hmethod hpath
  have hfailure := @answer_failure s r hforms hdispatch hreader hmethod hpath
  have hdocument : ∀ text d, Text.encode text = r.body → Document.parse text = .ok d →
      (s.answer r).Carries 200 d.toJson ∧ ∀ depth ≥ Document.jsonDepth, (s.answer r).document? depth = some d := by
    intro text d htext hd
    have hcarries := answer_document hforms hdispatch hreader hmethod hpath htext hd
    exact ⟨hcarries, fun depth hdepth => hcarries.document? hdepth⟩
  refine ⟨hundecodable, fun text f => hfailure, hdocument, ?_,
    fun d text hformat htext => hdocument text d htext (Document.format_ok hformat).parse⟩
  by_cases htext : ∃ text, Text.encode text = r.body
  · obtain ⟨text, htext⟩ := htext
    obtain ⟨d, hd, -⟩ | ⟨f, hf⟩ := Document.parse_ok_or_failure text
    · rw [(hdocument text d htext hd).1.status]
      decide
    · rw [(hfailure htext hf).status]
      decide
  · rw [(hundecodable (not_exists.1 htext)).status]
    decide

/-- The bytes of a written document, posted by a page with a cookie to the usual framework. -/
theorem answer_parse_of_written :
    let d : Document := ⟨[⟨⟨"list", by decide⟩, [[.literal "é"], [.literal ",", .ref ⟨"list", by decide⟩]],
      by simp, by simp⟩], by simp⟩
    let s : Service := ⟨⟨"/", "/root", [], none, "/static", .usual⟩, .empty, ⟨[]⟩, readDocument, "-", .usual⟩
    let r : Request := ⟨"localhost", "POST", "/parse?x=1", [("Origin", "null"), ("Cookie", "a=b")],
      Text.encode "<list> ::= \"é\" | \",\" <list>\n"⟩
    s.framework.KeepsForms ∧ s.framework.Dispatches ∧ (s.answer r).Carries 200 d.toJson ∧
      (s.answer r).document? Document.jsonDepth = some d := by
  intro d s r
  have hpath : r.path? = some "/parse" := by decide +kernel
  have hformat : d.format = .ok "<list> ::= \"é\" | \",\" <list>\n" := by rfl
  have hforms : s.framework.KeepsForms := Framework.usual_keepsForms
  have hdispatch : s.framework.Dispatches := Framework.usual_dispatches
  have hreader : s.reader = readDocument := by simp only [s]
  have hmethod : r.method = "POST" := by simp only [r]
  obtain ⟨hcarries, hdocument⟩ :=
    (answer_parse s r hforms hdispatch hreader hmethod hpath).2.2.2.2 d _ hformat rfl
  exact ⟨hforms, hdispatch, hcarries, hdocument _ (Nat.le_refl _)⟩

end Service
end BnfReader
