import BnfReader.Grammar.Layers
import BnfReader.Grammar.Wire
import BnfReader.Service.Dispatch
import BnfReader.Service.Span
import BnfReader.Settings.Basic

/-! The service.

It reads the grammars posted to `/parse`, serves a page and its own description, whole or in
parts, and says that it is well. It is an application that is served by a framework, the usual one
unless another is given. The pages about the service that a framework makes up itself
(`/api/docs`, `/api/redoc` and `/api/openapi.json`) are no routes of the application. -/
namespace BnfReader

/-- Why a posted grammar gave no document. -/
inductive ReadTrouble where
  | failure (report : Failure)
  | internal (message : String)

/-- What the service works with. -/
structure Service where
  site : Site
  disk : Disk
  settings : Settings
  /-- How grammars are read. -/
  reader : String → Except ReadTrouble Document
  /-- What divides the parts of a file in an answer; no file has it. -/
  divider : String
  framework : Framework := .usual

namespace Service

/-- Grammars read as they are everywhere. -/
def readDocument (text : String) : Except ReadTrouble Document :=
  match Document.parse text with
  | .ok d => .ok d
  | .error (.failure f) => .error (.failure f)
  | .error (.fault (.refused e)) => .error (.internal e.message)
  | .error (.fault .noBranch) => .error (.internal "")

/-- The version of the service. -/
def version : String := "0.2.0"

/-! ### Handlers -/

/-- What is said about a text that is no grammar. -/
def rejected (f : Failure) : Json := .object [("error", .string f.message), ("failure", f.toJson)]

/-- A posted grammar. -/
def parsed (s : Service) (r : Request) : Outcome :=
  match Text.decode r.body with
  | .error _ => .refusal 400 (.string "Request body must be UTF-8 text")
  | .ok text =>
    match s.reader text with
    | .ok d => .value d.toJson
    | .error (.failure f) =>
      match s.framework.fit .rejection (rejected f) with
      | some v => .response (.json 400 v)
      -- The detail would be the wording of the form, which has none here.
      | none => .refusal 500 (.string "")
    | .error (.internal message) => .refusal 500 (.string message)

/-- A file named by a setting. -/
def file (s : Service) (key contentType : String) (r : Request) : Outcome :=
  match s.settings.get? key with
  | some (.string path) =>
    if s.disk.isFile s.site path then
      match s.disk.read s.site path with
      | .ok content => .response (.file r s.divider contentType content)
      | .error _ => .refusal 404 (.string "Not found")
    else .refusal 404 (.string "Not found")
  | _ => .refusal 404 (.string "Not found")

/-- The service is well. -/
def health : Outcome :=
  .value (.object [("status", .string "ok"), ("service", .string "bnfparse"),
    ("version", .string version)])

/-! ### The application -/

/-- The route of posted grammars. -/
def parseRoute (s : Service) : Route := ⟨"/parse", "POST", some .grammar, s.parsed⟩

/-- The application. -/
def app (s : Service) : Application where
  routes :=
    [s.parseRoute,
     ⟨"/", "GET", none, s.file "webpage_path" "text/html; charset=utf-8"⟩,
     ⟨"/meta-data/api-spec", "GET", none, s.file "api_spec_path" "application/yaml"⟩,
     ⟨"/health", "GET", none, fun _ => health⟩]
  refused := .refusal
  sharedMethods := ["GET", "POST"]

/-- The answer to a request. -/
def answer (s : Service) (r : Request) : Response := s.framework.answer s.app r

end Service
end BnfReader
