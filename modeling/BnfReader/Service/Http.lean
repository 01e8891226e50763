import BnfReader.Json.Writer
import BnfReader.Text.Utf8

/-! Requests and responses.

A request has a method, a target, headers and a body; names of headers are compared without
regard to case. The path of a target is what stands before a question mark, with its
percent escapes resolved. -/
namespace BnfReader
open Text (Bytes)

/-- A request. -/
structure Request where
  /-- The name of the server that it reached. -/
  server : String
  method : String
  target : String
  headers : List (String × String)
  body : Bytes

/-- The body of a response. -/
inductive Body where
  | empty
  | json (value : Json)
  | text (content : String)
  | raw (content : Bytes)

/-- A response. -/
structure Response where
  status : Nat
  contentType : Option String
  body : Body
  headers : List (String × String) := []

/-- The bytes of a body. -/
def Body.bytes : Body → Bytes
  | .empty => []
  | .json value => Text.encode value.compact
  | .text content => Text.encode content
  | .raw content => content

namespace Request

/-- A text in lower case. -/
def lower (s : String) : String := String.ofList (s.toList.map Char.toLower)

/-- A header by its name in lower case. -/
def header? (r : Request) (name : String) : Option String :=
  (r.headers.find? fun h => lower h.1 = name).map Prod.snd

/-- The byte that three bytes write, if they are a percent escape. -/
def escaped? (p a b : UInt8) : Option UInt8 :=
  if p = 0x25 then
    (Text.Hex.number? [Char.ofNat a.toNat, Char.ofNat b.toNat]).map UInt8.ofNat
  else none

/-- Bytes with their percent escapes resolved; what is no escape stays. -/
def unescape : Bytes → Bytes
  | [] => []
  | p :: a :: b :: rest =>
    match escaped? p a b with
    | some n => n :: unescape rest
    | none => p :: unescape (a :: b :: rest)
  | b :: rest => b :: unescape rest

/-- The target before and behind its first question mark. -/
def splitTarget (r : Request) : List Char × Option (List Char) :=
  match (r.target.toList.takeWhile (· != '#')).span (· != '?') with
  | (path, _ :: query) => (path, some query)
  | (path, []) => (path, none)

/-- The path of a request; `none` if its escapes make no text. -/
def path? (r : Request) : Option String :=
  (Text.decode (unescape (Text.encode (String.ofList r.splitTarget.1)))).toOption

/-- What stands behind the path, with its question mark. -/
def queryText (r : Request) : String :=
  match r.splitTarget.2 with
  | some (c :: cs) => String.ofList ('?' :: c :: cs)
  | _ => ""

/-- Whether a character stands in an address as it is. -/
def inAddress (c : Char) : Bool :=
  c.isAlphanum || "-._~:/%#?=@[]!$&'()*+,;".toList.contains c

/-- An address with all that cannot stand in it as percent escapes. -/
def escape (address : String) : String :=
  String.ofList (address.toList.flatMap fun c =>
    if inAddress c then [c]
    else (Text.encode (String.singleton c)).flatMap fun b =>
      '%' :: (Text.Hex.padded 2 b.toNat).map Char.toUpper)

/-- Whether a text is the name of a host, or an address in brackets, with or without a port. -/
def isHost (s : String) : Bool :=
  let inName (c : Char) : Bool := c.isAlphanum || "-._~%!$&'()*+,;=".toList.contains c
  let inBrackets (c : Char) : Bool := c.isAlphanum || c == ':' || c == '.'
  let isPort : List Char → Bool
    | [] => true
    | ':' :: digits => digits.all Char.isDigit
    | _ => false
  match s.toList with
  | '[' :: rest =>
    let inner := rest.takeWhile inBrackets
    match rest.drop inner.length with
    | ']' :: port => !inner.isEmpty && isPort port
    | _ => false
  | cs =>
    let name := cs.takeWhile inName
    !name.isEmpty && isPort (cs.drop name.length)

/-- The address that a request was sent to: that of the host it names, or of the server if
what it names is no host. -/
def address (r : Request) : String :=
  "http://" ++ ((r.header? "host").filter isHost).getD r.server

end Request

namespace Response

/-- A response with a JSON body. -/
def json (status : Nat) (value : Json) : Response :=
  ⟨status, some "application/json", .json value, []⟩

/-- A refusal: what is wrong, and that something is. -/
def refusal (status : Nat) (detail : Json) : Response :=
  json status (.object [("detail", detail), ("error", .bool true)])

/-- The phrases of the statuses. -/
def phrases : List (Nat × String) :=
  [(100, "Continue"), (101, "Switching Protocols"), (102, "Processing"), (103, "Early Hints"),
   (200, "OK"), (201, "Created"), (202, "Accepted"), (203, "Non-Authoritative Information"),
   (204, "No Content"), (205, "Reset Content"), (206, "Partial Content"), (207, "Multi-Status"),
   (208, "Already Reported"), (226, "IM Used"), (300, "Multiple Choices"),
   (301, "Moved Permanently"), (302, "Found"), (303, "See Other"), (304, "Not Modified"),
   (305, "Use Proxy"), (307, "Temporary Redirect"), (308, "Permanent Redirect"),
   (400, "Bad Request"), (401, "Unauthorized"), (402, "Payment Required"), (403, "Forbidden"),
   (404, "Not Found"), (405, "Method Not Allowed"), (406, "Not Acceptable"),
   (407, "Proxy Authentication Required"), (408, "Request Timeout"), (409, "Conflict"),
   (410, "Gone"), (411, "Length Required"), (412, "Precondition Failed"),
   (413, "Request Entity Too Large"), (414, "Request-URI Too Long"),
   (415, "Unsupported Media Type"), (416, "Requested Range Not Satisfiable"),
   (417, "Expectation Failed"), (418, "I'm a Teapot"), (421, "Misdirected Request"),
   (422, "Unprocessable Entity"), (423, "Locked"), (424, "Failed Dependency"), (425, "Too Early"),
   (426, "Upgrade Required"), (428, "Precondition Required"), (429, "Too Many Requests"),
   (431, "Request Header Fields Too Large"), (451, "Unavailable For Legal Reasons"),
   (500, "Internal Server Error"), (501, "Not Implemented"), (502, "Bad Gateway"),
   (503, "Service Unavailable"), (504, "Gateway Timeout"), (505, "HTTP Version Not Supported"),
   (506, "Variant Also Negotiates"), (507, "Insufficient Storage"), (508, "Loop Detected"),
   (510, "Not Extended"), (511, "Network Authentication Required")]

/-- A refusal whose detail may be left to the status. -/
def problem (status : Nat) (detail : Json) : Response :=
  match detail, phrases.lookup status with
  | .null, some phrase => refusal status (.string phrase)
  | _, _ => refusal status detail

/-- A refusal of ill-formed input, with all that is wrong. -/
def invalidInput (errors : List Json) : Response := refusal 422 (.array errors)

end Response
end BnfReader
