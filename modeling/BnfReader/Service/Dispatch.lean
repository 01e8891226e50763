import BnfReader.Files.Path
import BnfReader.Service.Framework

/-! The usual framework.

Of the routes with the path of a request the first counts, and its method has to be that of the
request. A path with slashes at its end is redirected to the one without, if there is one. Pages
from other origins may call an application: a request with an origin is answered for all origins,
and one that asks beforehand is answered without looking at its path. -/
namespace BnfReader.Framework

/-- The answer if a value does not fit the form of its route. -/
def brokenForm : Response :=
  ⟨500, some "text/plain; charset=utf-8", .text "Internal Server Error", []⟩

/-- The response that a handler comes to. -/
def respond (app : Application) (route : Route) (r : Request) : Response :=
  match route.handler r with
  | .value v =>
    match route.form?.elim (some v) (·.fit v) with
    | some w => .json 200 w
    | none => brokenForm
  | .response response => response
  | .refusal status detail => app.refused status detail

/-- A redirection. -/
def redirect (location : String) : Response := ⟨307, none, .empty, [("location", location)]⟩

/-- The answer at the path of a request. -/
def answerAt (app : Application) (r : Request) : Response :=
  let find (path : String) := app.routes.find? fun e => e.path = path
  match r.path? with
  | none => app.refused 404 (.string "Not Found")
  | some path =>
    match find path with
    | some route =>
      if r.method = route.method then respond app route r
      else app.refused 405 (.string "Method Not Allowed")
    | none =>
      let bare := Path.dropTrailingSlashes path
      if bare ≠ path ∧ (find bare).isSome then
        redirect (Request.escape (r.address ++ bare ++ r.queryText))
      else app.refused 404 (.string "Not Found")

/-! ### Other origins -/

/-- What is not allowed of what a page asks for beforehand: a method that is not shared, and
the way into a private network. -/
def disallowed (app : Application) (r : Request) (method : String) : List String :=
  let network? := r.header? "access-control-request-private-network"
  (if app.sharedMethods.contains method then [] else ["method"]) ++
    (if network?.isSome then ["private-network"] else [])

/-- The answer to a page that asks beforehand whether it may call with a method. -/
def preflight (app : Application) (r : Request) (method : String) : Response :=
  let failures := disallowed app r method
  let echoed := match r.header? "access-control-request-headers" with
    | some names => [("access-control-allow-headers", names)]
    | none => []
  { status := if failures.isEmpty then 200 else 400
    contentType := some "text/plain; charset=utf-8"
    body := .text (if failures.isEmpty then "OK"
      else "Disallowed CORS " ++ ", ".intercalate failures)
    headers := [("access-control-allow-origin", "*"),
      ("access-control-allow-methods", ", ".intercalate app.sharedMethods),
      ("access-control-max-age", "600")] ++ echoed }

/-- A response without its body, as a request for the head alone gets it. -/
def withoutBody (r : Request) (response : Response) : Response :=
  if r.method = "HEAD" then { response with body := .empty } else response

/-- The answer to a request. A request with an origin may be called from anywhere; one that
carries a cookie is answered for its origin only. -/
def answerShared (app : Application) (r : Request) : Response :=
  match r.header? "origin" with
  | none => withoutBody r (answerAt app r)
  | some origin =>
    match r.method, r.header? "access-control-request-method" with
    | "OPTIONS", some method => preflight app r method
    | _, _ =>
      let response := withoutBody r (answerAt app r)
      let shared := if (r.header? "cookie").isSome then origin else "*"
      { response with headers := response.headers ++ [("access-control-allow-origin", shared)] }

/-- The usual framework. -/
def usual : Framework := ⟨Form.fit, answerShared⟩

end BnfReader.Framework
