import BnfReader.Command.Run
import BnfReader.Proofs.Answers
import BnfReader.Proofs.Canonical
import BnfReader.Proofs.NewlineStyle

/-! The command and the service agree.

Both read the same bytes, the command with its line ends unified and the service as they are.
Since the style of line ends does not matter to the parser, both refuse bytes that are no text,
both reject a text with the same place and the same expectations, and both accept a document,
the same up to the line ends in its literals. Between the parser and the end of a run only the
console can fail: a rule that was read can always be written. The console is any, and so is the
framework of the service, if it keeps forms and dispatches requests. -/
namespace BnfReader
open Scan Text

/-! ### Line ends -/

theorem Document.parse_unix_ok {text : String} {d : Document} (h : Document.parse text = .ok d) :
    Document.parse (withUnixNewlines text) = .ok (d.mapLiterals withUnixNewlines) := by
  obtain ⟨s, hwalk, hd⟩ := (Document.parse_ok_iff_walk text d).1 h
  refine (Document.parse_ok_iff_walk _ _).2 ⟨s.unify, ?_, ?_⟩
  · rw [withUnixNewlines, String.toList_ofList]
    exact walk_unify hwalk (by simp [State.body, SplitsPair])
  · rw [document_unify, hd]
    rfl

theorem Document.parse_unix_failure {text : String} {f : Failure} (h : Document.parse text = .error (.failure f)) :
    ∃ f', Document.parse (withUnixNewlines text) = .error (.failure f') ∧
      f'.line = f.line ∧ f'.column = f.column ∧ f'.expected = f.expected := by
  obtain ⟨v, rest, t, hsplit, hstops, rfl⟩ := (Document.parse_failure_iff text f).1 h
  -- A marker has colons only, so the place before it is never within a pair.
  have hreturn : '\r' ∉ t.marker := by simp [State.marker, List.mem_replicate]
  have hfeed : '\n' ∉ t.marker := by simp [State.marker, List.mem_replicate]
  have hmarker : unifyNewlines (v ++ t.marker) = unifyNewlines v ++ t.unify.marker := by
    rw [unifyNewlines_append fun hs => hfeed (List.mem_of_head? hs.2), unifyNewlines_eq_self hreturn, marker_unify]
  have hunified := hstops.unify
  rw [hmarker] at hunified
  refine ⟨_, (Document.parse_failure_iff _ _).2
    ⟨unifyNewlines v, unifyNewlines rest, t.unify, ?_, hunified, rfl⟩, ?_, ?_, ?_⟩
  · rw [withUnixNewlines, String.toList_ofList, hsplit, ← List.append_assoc,
      unifyNewlines_append hstops.not_splitsPair, hmarker, List.append_assoc]
  · simp only [Failure.behind, lineAfter_unifyNewlines]
  · simp only [Failure.behind, columnAfter_unifyNewlines]
  · simp only [Failure.behind, expected_unify]

/-! ### Checking bytes -/

namespace Command

/-- A part of a run that only a console can break off. -/
def OnlyMarkup {α : Type} (x : Except CommandError α) : Prop :=
  ∀ e, x = .error e → ∃ cause, e = .markup cause

theorem onlyMarkup_ok {α : Type} (a : α) : OnlyMarkup (.ok a) := nofun

theorem OnlyMarkup.bind {α β : Type} {x : Except CommandError α} {f : α → Except CommandError β}
    (hx : OnlyMarkup x) (hf : ∀ a, OnlyMarkup (f a)) : OnlyMarkup (x >>= f) := by
  cases x with
  | error e =>
    intro e' he
    cases he
    exact hx e rfl
  | ok a => exact hf a

theorem onlyMarkup_mapM {α β : Type} {f : α → Except CommandError β} {xs : List α}
    (h : ∀ x ∈ xs, OnlyMarkup (f x)) : OnlyMarkup (xs.mapM f) := by
  intro e he
  obtain ⟨x, hx, hfx⟩ := mapM_error he
  exact h x hx e hfx

theorem onlyMarkup_mapError {α : Type} (x : Except Markup.MarkupError α) : OnlyMarkup (x.mapError .markup) := by
  intro e he
  cases x with
  | error cause =>
    cases he
    exact ⟨cause, rfl⟩
  | ok a => cases he

theorem complaint_onlyMarkup (console : Console) (parts : List String) : OnlyMarkup (complaint console parts) :=
  onlyMarkup_mapError _

theorem documentTable_onlyMarkup {d : Document} (h : ∀ r ∈ d.rules, ∀ e, r.format ≠ .error e) (console : Console)
    (file : String) : OnlyMarkup (documentTable console file d) := by
  refine OnlyMarkup.bind (onlyMarkup_mapM ?_) fun rows => onlyMarkup_ok _
  intro (r, i) hmem
  refine OnlyMarkup.bind ?_ fun definition => onlyMarkup_ok _
  cases hformat : r.format with
  | error e => exact absurd hformat (h r (List.fst_mem_of_mem_zipIdx hmem) e)
  | ok definition => exact onlyMarkup_ok definition

section
variable {console : Console} {options : CheckOptions} {content : Bytes} {text : String}

theorem checkContent_undecodable (console : Console) (options : CheckOptions) (h : ∀ text, encode text ≠ content) :
    ∃ reason, checkContent console options content = do return (2, ← unreadable console options.file reason) := by
  cases hdecode : decode content with
  | ok text => exact absurd (decode_ok_iff.1 hdecode) (h text)
  | error e =>
    refine ⟨e.message, ?_⟩
    rw [checkContent, fileText, hdecode]
    rfl

theorem fileText_encode (h : encode text = content) : fileText content = .ok (withUnixNewlines text) := by
  rw [fileText, decode_ok_iff.2 h]
  rfl

theorem checkContent_failure {f : Failure} (htext : encode text = content)
    (hf : Document.parse (withUnixNewlines text) = .error (.failure f)) :
    checkContent console options content =
      do return (1, ← complaint console [console.escape options.file, ": ", console.escape f.message]) := by
  rw [checkContent, fileText_encode htext]
  dsimp only
  generalize Document.parse (withUnixNewlines text) = result at hf ⊢
  rw [hf]

theorem checkContent_document {d : Document} (htext : encode text = content)
    (hd : Document.parse (withUnixNewlines text) = .ok d) :
    checkContent console options content =
      if options.asJson then .ok (0, d.toJson.pretty ++ "\n")
      else do return (0, ← printTable console (← documentTable console options.file d)) := by
  rw [checkContent, fileText_encode htext]
  dsimp only
  generalize Document.parse (withUnixNewlines text) = result at hd ⊢
  rw [hd]

theorem checkContent_document_ok {d : Document} {code : Nat} {printed : String} (htext : encode text = content)
    (hd : Document.parse (withUnixNewlines text) = .ok d)
    (h : checkContent console options content = .ok (code, printed)) :
    code = 0 ∧ (options.asJson = true → printed = d.toJson.pretty ++ "\n") := by
  rw [checkContent_document htext hd] at h
  split at h
  · cases h
    exact ⟨rfl, fun _ => rfl⟩
  · next hjson =>
    obtain ⟨table, -, hresult⟩ := bind_ok.1 h
    obtain ⟨text, -, hresult⟩ := bind_ok.1 hresult
    cases hresult
    exact ⟨rfl, fun hyes => absurd hyes hjson⟩

theorem checkContent_onlyMarkup (console : Console) (options : CheckOptions) (content : Bytes) :
    OnlyMarkup (checkContent console options content) := by
  by_cases htext : ∃ text, encode text = content
  · obtain ⟨text, htext⟩ := htext
    obtain ⟨d, hd, -⟩ | ⟨f, hf⟩ := Document.parse_ok_or_failure (withUnixNewlines text)
    · rw [checkContent_document htext hd]
      split
      · exact onlyMarkup_ok _
      · exact (documentTable_onlyMarkup (fun r hr => Document.format_rule hd hr) console _).bind fun _ =>
          (onlyMarkup_mapError _).bind fun _ => onlyMarkup_ok _
    · rw [checkContent_failure htext hf]
      exact (complaint_onlyMarkup console _).bind fun _ => onlyMarkup_ok _
  · obtain ⟨reason, hchecked⟩ := checkContent_undecodable console options (not_exists.1 htext)
    rw [hchecked]
    exact (complaint_onlyMarkup console _).bind fun _ => onlyMarkup_ok _

end

/-! ### Runs -/

section
variable {site : Site} {disk : Disk} {time : String} {args : List String} {console : Console} {quiet : Bool}
  {options : CheckOptions} {content : Bytes}

theorem checkFile_of_read (hfile : disk.read site options.file = .ok content) :
    checkFile console site disk options = checkContent console options content := by
  rw [checkFile, hfile]

theorem run_of_ok {code : Nat} {printed : String}
    (hargs : Invocation.ofArguments args = .ok ⟨quiet, .check options⟩)
    (hfile : disk.read site options.file = .ok content)
    (h : checkContent console options content = .ok (code, printed)) :
    run site disk time args console = { ending := .ok code, printed, disk } := by
  rw [run, hargs]
  dsimp only
  rw [checkFile_of_read hfile, h]

theorem run_of_error {e : CommandError} (hargs : Invocation.ofArguments args = .ok ⟨quiet, .check options⟩)
    (hfile : disk.read site options.file = .ok content) (h : checkContent console options content = .error e) :
    run site disk time args console = { ending := .error e, printed := "", disk } := by
  rw [run, hargs]
  dsimp only
  rw [checkFile_of_read hfile, h]

/-- If the console prints what it is given, a run that checks a file ends with a code. -/
theorem run_check (hargs : Invocation.ofArguments args = .ok ⟨quiet, .check options⟩)
    (hfile : disk.read site options.file = .ok content)
    (hprints : ∀ cause, (run site disk time args console).ending ≠ .error (.markup cause)) :
    ∃ code, (run site disk time args console).ending = .ok code ∧
      checkContent console options content = .ok (code, (run site disk time args console).printed) := by
  cases hchecked : checkContent console options content with
  | ok result =>
    rw [run_of_ok hargs hfile hchecked]
    exact ⟨result.1, rfl, rfl⟩
  | error e =>
    obtain ⟨cause, rfl⟩ := checkContent_onlyMarkup console options content e hchecked
    rw [run_of_error hargs hfile hchecked] at hprints
    exact absurd rfl (hprints cause)

end

end Command

/-! ### Agreement -/

theorem Response.Carries.unique {response : Response} {status status' : Nat} {v v' : Json}
    (h : response.Carries status v) (h' : response.Carries status' v') : status = status' ∧ v = v' := by
  refine ⟨h.status.symm.trans h'.status, ?_⟩
  have hbody := h.body.symm.trans h'.body
  cases hbody
  rfl

theorem Service.undecodable_ne_rejected (f : Failure) : Service.undecodable ≠ Service.rejected f := by
  simp [Service.undecodable, Service.rejected]

/-- The report tells on a console of a failure in a file with this content. -/
structure Report.Tells (report : Report) (console : Console) (file : String) (content : Bytes) (f : Failure) :
    Prop where
  found : ∃ text, fileText content = .ok text ∧ Document.parse text = .error (.failure f)
  printed : Command.complaint console [console.escape file, ": ", console.escape f.message] = .ok report.printed

namespace Command

/-- **The command and the service agree on every content of a file.** However a check of the file
is called, if the console prints what it is given then it ends with 2, 1 or 0 just if the service,
posted the content, refuses it as no text, rejects it with a report or accepts it. A rejected file
is told of with the line, the column and the expectations of the service's report, and an accepted
one is printed as the service's document with the line ends in its literals unified. -/
theorem run_check_agrees {site : Site} {disk : Disk} {time : String} {args : List String} {console : Console}
    {quiet asJson : Bool} {file : String} {s : Service} {r : Request}
    (hargs : Invocation.ofArguments args = .ok ⟨quiet, .check ⟨file, asJson⟩⟩)
    (hfile : disk.read site file = .ok r.body)
    (hprints : ∀ cause, (run site disk time args console).ending ≠ .error (.markup cause))
    (hforms : s.framework.KeepsForms) (hdispatch : s.framework.Dispatches)
    (hreader : s.reader = Service.readDocument) (hmethod : r.method = "POST") (hpath : r.path? = some "/parse") :
    let report := run site disk time args console
    let response := s.answer r
    (∃ code, report.ending = .ok code) ∧
    (report.ending = .ok 2 ↔ response.Carries 400 Service.undecodable) ∧
    (report.ending = .ok 1 ↔ ∃ f, response.Carries 400 (Service.rejected f)) ∧
    (report.ending = .ok 0 ↔ response.status = 200) ∧
    (report.ending = .ok 1 → ∃ f f' : Failure, response.Carries 400 (Service.rejected f) ∧
      report.Tells console file r.body f' ∧
      f'.line = f.line ∧ f'.column = f.column ∧ f'.expected = f.expected) ∧
    (report.ending = .ok 0 → asJson = true → ∃ d : Document, response.Carries 200 d.toJson ∧
      ∀ depth ≥ Document.jsonDepth, Json.read report.printed depth = .ok (d.mapLiterals withUnixNewlines).toJson) := by
  intro report response
  obtain ⟨code, hending, hchecked⟩ := run_check hargs hfile hprints
  rw [show report.ending = .ok code from hending]
  by_cases htext : ∃ text, encode text = r.body
  · obtain ⟨text, htext⟩ := htext
    obtain ⟨d, hd, -⟩ | ⟨f, hf⟩ := Document.parse_ok_or_failure text
    · have hcarries : response.Carries 200 d.toJson :=
        Service.answer_document hforms hdispatch hreader hmethod hpath htext hd
      obtain ⟨rfl, hprinted⟩ := checkContent_document_ok htext (Document.parse_unix_ok hd) hchecked
      refine ⟨⟨0, rfl⟩, ⟨nofun, fun h => ?_⟩, ⟨nofun, ?_⟩, ⟨fun _ => hcarries.status, fun _ => rfl⟩, nofun,
        fun _ hjson => ⟨d, hcarries, fun depth hdepth => ?_⟩⟩
      · cases (h.unique hcarries).1
      · intro ⟨f, h⟩
        cases (h.unique hcarries).1
      · rw [show report.printed = _ from hprinted hjson]
        exact Document.read_pretty _ hdepth
    · have hcarries : response.Carries 400 (Service.rejected f) :=
        Service.answer_failure hforms hdispatch hreader hmethod hpath htext hf
      obtain ⟨f', hf', hplace⟩ := Document.parse_unix_failure hf
      rw [checkContent_failure htext hf'] at hchecked
      obtain ⟨printed, hprinted, hresult⟩ := bind_ok.1 hchecked
      obtain ⟨rfl, hprinted'⟩ := Prod.mk.inj (Except.ok.inj hresult)
      refine ⟨⟨1, rfl⟩, ⟨nofun, fun h => ?_⟩, ⟨fun _ => ⟨f, hcarries⟩, fun _ => rfl⟩, ⟨nofun, fun h => ?_⟩,
        fun _ => ⟨f, f', hcarries, ⟨⟨_, fileText_encode htext, hf'⟩, ?_⟩, hplace⟩, nofun⟩
      · exact absurd (h.unique hcarries).2 (Service.undecodable_ne_rejected f)
      · rw [hcarries.status] at h
        cases h
      · exact hprinted.trans (congrArg Except.ok hprinted')
  · have hcarries : response.Carries 400 Service.undecodable :=
      Service.answer_undecodable hdispatch hmethod hpath (not_exists.1 htext)
    obtain ⟨reason, hreason⟩ := checkContent_undecodable console ⟨file, asJson⟩ (not_exists.1 htext)
    rw [hreason] at hchecked
    obtain ⟨printed, -, hresult⟩ := bind_ok.1 hchecked
    obtain ⟨rfl, -⟩ := Prod.mk.inj (Except.ok.inj hresult)
    refine ⟨⟨2, rfl⟩, ⟨fun _ => hcarries, fun _ => rfl⟩, ⟨nofun, ?_⟩, ⟨nofun, fun h => ?_⟩, nofun, nofun⟩
    · intro ⟨f, h⟩
      exact absurd (hcarries.unique h).2 (Service.undecodable_ne_rejected f)
    · rw [hcarries.status] at h
      cases h

/-- A file with pairs at the end of its lines and in a literal, checked on the usual console and
posted to the usual framework. -/
theorem run_check_agrees_of_pairs :
    let content := encode "<a> ::= 'x\r\ny'\r\n"
    let site : Site := ⟨"/", "/root", [], none, "/static", .usual⟩
    let disk : Disk := ⟨[(["g.bnf"], .file content)]⟩
    let report := run site disk "" ["--quiet", "check", "g.bnf", "--json"] .usual
    let s : Service := ⟨site, disk, ⟨[]⟩, Service.readDocument, "-", .usual⟩
    let r : Request := ⟨"localhost", "POST", "/parse", [], content⟩
    report.ending = .ok 0 ∧ s.framework.KeepsForms ∧ s.framework.Dispatches ∧
      ∃ d : Document, (s.answer r).Carries 200 d.toJson ∧
        Json.read report.printed Document.jsonDepth = .ok (d.mapLiterals withUnixNewlines).toJson := by
  intro content site disk report s r
  let d : Document := ⟨[⟨⟨"a", by decide⟩, [[.literal "x\ny"]], by simp, by simp⟩], by simp⟩
  have hparse : Document.parse (withUnixNewlines "<a> ::= 'x\r\ny'\r\n") = .ok d :=
    (Document.parse_ok_iff_walk _ _).2 ⟨.fresh d, rfl, rfl⟩
  have hargs : Invocation.ofArguments ["--quiet", "check", "g.bnf", "--json"] =
      .ok ⟨true, .check ⟨"g.bnf", true⟩⟩ := by
    -- There is no comparing the reasons of a halt, so the case of one is set apart first.
    have htaken : (Invocation.ofArguments ["--quiet", "check", "g.bnf", "--json"]).toOption =
        some ⟨true, .check ⟨"g.bnf", true⟩⟩ := by decide +kernel
    cases h : Invocation.ofArguments ["--quiet", "check", "g.bnf", "--json"] with
    | error e =>
      rw [h] at htaken
      cases htaken
    | ok invocation =>
      rw [h] at htaken
      exact congrArg Except.ok (Option.some.inj htaken)
  have hfile : disk.read site "g.bnf" = .ok content := by decide +kernel
  have hchecked : checkContent .usual ⟨"g.bnf", true⟩ content = .ok (0, d.toJson.pretty ++ "\n") := by
    rw [checkContent_document rfl hparse]
    rfl
  have hending : report.ending = .ok 0 := by
    rw [show report = _ from run_of_ok hargs hfile hchecked]
  have hprints : ∀ cause, report.ending ≠ .error (.markup cause) := by
    rw [hending]
    nofun
  have hpath : r.path? = some "/parse" := by decide +kernel
  have hforms : s.framework.KeepsForms := Framework.usual_keepsForms
  have hdispatch : s.framework.Dispatches := Framework.usual_dispatches
  have hreader : s.reader = Service.readDocument := by simp only [s]
  have hmethod : r.method = "POST" := by simp only [r]
  obtain ⟨d, hcarries, hread⟩ :=
    (run_check_agrees hargs hfile hprints hforms hdispatch hreader hmethod hpath).2.2.2.2.2 hending rfl
  exact ⟨hending, hforms, hdispatch, d, hcarries, hread _ (Nat.le_refl _)⟩

end Command

end BnfReader
