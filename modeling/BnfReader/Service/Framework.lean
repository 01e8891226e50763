import BnfReader.Service.Forms
import BnfReader.Service.Http

/-! What an application is served by.

An application is a list of routes, each with a handler, and what it says of a refusal. A framework
takes it from there: it finds the route of a request, puts what the handler returns into the form
of the route, and may answer requests on its own account. It is a parameter of the service. -/
namespace BnfReader

/-- What a handler comes to. -/
inductive Outcome where
  /-- A value, to be sent in the form of the route. -/
  | value (v : Json)
  /-- A response, to be sent as it is. -/
  | response (r : Response)
  | refusal (status : Nat) (detail : Json)

/-- A route. -/
structure Route where
  path : String
  method : String
  /-- The form of the values that are sent, if there is one declared. -/
  form? : Option Form
  handler : Request → Outcome

/-- An application. -/
structure Application where
  routes : List Route
  /-- What is said of a refusal. -/
  refused : Nat → Json → Response
  /-- The methods that pages from other origins may use. -/
  sharedMethods : List String

/-- A framework. -/
structure Framework where
  /-- A value as a form lets it through, if it fits. -/
  fit : Form → Json → Option Json
  /-- The answer of an application to a request. -/
  answer : Application → Request → Response

namespace Framework

/-- A value as it is sent: in the form that is declared, if there is one. -/
def fitting (f : Framework) (form? : Option Form) (v : Json) : Option Json :=
  form?.elim (some v) (f.fit · v)

end Framework
end BnfReader
