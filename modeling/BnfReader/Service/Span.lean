import BnfReader.Service.Http
import BnfReader.Text.Numeral
import BnfReader.Text.Space

/-! Parts of files.

A request may ask for parts of a file: a unit, an equals sign and the parts, divided by commas.
A part is its first and its last byte with a dash between them; without the last it goes on to
the end of the file, and without the first it is that many bytes at the end, or all if there
are fewer. What is no part is passed over. Parts that overlap or touch are given as one. -/
namespace BnfReader

/-- A part of a file: the place of its first byte, and the place behind its last. -/
structure Span where
  start : Int
  stop : Int
deriving DecidableEq

/-- Why the parts that a request asks for are not given. -/
inductive SpanError where
  /-- There is no unit. -/
  | noUnit
  /-- The unit is not the byte. -/
  | otherUnit
  /-- There is no part. -/
  | noSpan
  /-- A part starts outside of the file. -/
  | outside
  /-- A part ends before it starts. -/
  | reversed
deriving DecidableEq

namespace SpanError

/-- The status that says so. -/
def status : SpanError → Nat
  | .outside => 416
  | _ => 400

/-- The wording of the reason. -/
def message : SpanError → String
  | .noUnit => "Malformed range header."
  | .otherUnit => "Only support bytes range"
  | .noSpan => "Range header: range must be requested"
  | .outside => ""
  | .reversed => "Range header: start must be less than end"

end SpanError

namespace Span

/-! ### Reading -/

/-- The part of a file of `size` bytes that a text names. -/
def ofText? (size : Nat) (cs : List Char) : Option Span :=
  match cs.span (· != '-') with
  | (_, []) => none
  | (front, _ :: back) =>
    let first? := Text.integer? (String.ofList (Text.trimSpace front))
    let last? := Text.integer? (String.ofList (Text.trimSpace back))
    if (Text.trimSpace front).isEmpty then
      last?.map fun (n : Int) => ⟨if n ≤ size then size - n else 0, size⟩
    else if (Text.trimSpace back).isEmpty then first?.map fun first => ⟨first, size⟩
    else do
      let first ← first?
      let last ← last?
      return ⟨first, if last < size then last + 1 else size⟩

/-! ### Joining -/

/-- Whether one part comes before another, the shorter one first of two that start together. -/
def before (a b : Span) : Bool := a.start < b.start || (a.start == b.start && a.stop ≤ b.stop)

/-- A part and those that come behind it, in order, with those that overlap or touch as one. -/
def joinFrom (a : Span) : List Span → List Span
  | [] => [a]
  | b :: rest =>
    if b.start ≤ a.stop then joinFrom ⟨a.start, if a.stop ≤ b.stop then b.stop else a.stop⟩ rest
    else a :: joinFrom b rest

/-- Parts in order, with those that overlap or touch as one. -/
def join (spans : List Span) : List Span :=
  match spans.mergeSort before with
  | [] => []
  | a :: rest => joinFrom a rest

/-- The parts of a file of `size` bytes that a request asks for. -/
def read (size : Nat) (asked : String) : Except SpanError (List Span) :=
  match asked.toList.span (· != '=') with
  | (_, []) => .error .noUnit
  | (unit, _ :: listed) =>
    if Request.lower (String.ofList (Text.trimSpace unit)) ≠ "bytes" then .error .otherUnit
    else
      let spans := (listed.splitOn ',').filterMap (ofText? size)
      if spans.isEmpty then .error .noSpan
      else if spans.any fun s => s.start < 0 || size ≤ s.start then .error .outside
      else if spans.any fun s => s.stop < s.start then .error .reversed
      else .ok (join spans)

/-! ### Answering -/

/-- The bytes of a part. -/
def bytes (s : Span) (content : Text.Bytes) : Text.Bytes :=
  (content.drop s.start.toNat).take (s.stop - s.start).toNat

/-- A part as a response names it. -/
def label (s : Span) (size : Nat) : String :=
  "bytes " ++ toString s.start ++ "-" ++ toString (s.stop - 1) ++ "/" ++ toString size

/-- One of several parts: a line that divides it from the one before, what it is, and its
bytes. -/
def block (divider contentType : String) (content : Text.Bytes) (s : Span) : Text.Bytes :=
  Text.encode ("--" ++ divider ++ "\nContent-Type: " ++ contentType ++ "\nContent-Range: " ++
    s.label content.length ++ "\n\n") ++ s.bytes content ++ Text.encode "\n"

/-- Several parts, one behind the other. -/
def blocks (divider contentType : String) (content : Text.Bytes) (spans : List Span) :
    Text.Bytes :=
  spans.flatMap (block divider contentType content) ++ Text.encode ("\n--" ++ divider ++ "--\n")

end Span

/-- A file, or the parts of it that a request asks for. A request that asks for parts only of
a certain version of the file gets the whole, as versions are not told apart. -/
def Response.file (r : Request) (divider contentType : String) (content : Text.Bytes) : Response :=
  match r.header? "range", r.header? "if-range" with
  | some asked, none =>
    match Span.read content.length asked with
    | .error e =>
      ⟨e.status, some "text/plain; charset=utf-8", .text e.message,
        if e = .outside then [("content-range", "*/" ++ toString content.length)] else []⟩
    | .ok [s] =>
      ⟨206, some contentType, .raw (s.bytes content),
        [("content-range", s.label content.length)]⟩
    | .ok spans =>
      ⟨206, some contentType, .raw (Span.blocks divider contentType content spans),
        [("content-range", "multipart/byteranges; boundary=" ++ divider)]⟩
  | _, _ => ⟨200, some contentType, .raw content, []⟩

end BnfReader
