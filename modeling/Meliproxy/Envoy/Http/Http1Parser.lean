import Meliproxy.Envoy.Http.HeaderMapOps

/-!
# What the HTTP/1 codec relies on in http_parser

`HttpParser` is the parser as the codec sees it: it reads a slice up to its next callback, and
goes on with the rest of the slice when the callback returns. `Follows` says which callbacks it
makes for the responses of a server, however these are cut into slices.
-/

namespace Meliproxy.Envoy.Http.Http1

open Lib

/-- The callbacks that the codec sets for a response. -/
inductive Callback where
  | messageBegin
  | headerField (data : Bytes)
  | headerValue (data : Bytes)
  | headersComplete (statusCode : UInt16)
  | body (data : Bytes)
  | messageComplete

/-- What comes of a part of a slice: it is read to its end, or there is a callback, whose return
value says whether a body is to be skipped. -/
inductive Execution (σ : Type) where
  | readAll (state : σ)
  | callback (call : Callback) (rest : Bytes) (resume : Bool → σ)
  | error

/-- `atEnd` says whether the end of the connection completes a message. -/
structure HttpParser where
  State : Type
  init : State
  execute : State → Bytes → Execution State
  atEnd : State → Bool

/-- How the header block of a response says where its body ends: there is none, it has a length
or chunks, or it goes on until the connection is closed. -/
inductive Framing where
  | empty
  | delimited
  | untilClose
  deriving DecidableEq

def hasNoBody (headRequest : Bool) (status : UInt16) : Bool :=
  headRequest || status = 204 || status = 304

/-- A response as its server sends it. The response to a `HEAD` request, a 204 and a 304 end at
the header block, whatever it says of a body. -/
structure Response where
  headRequest : Bool
  status : UInt16
  fields : List (Bytes × Bytes)
  framing : Framing
  head : Bytes
  raw : Bytes
  body : Bytes
  head_ne : head ≠ []
  noBody : hasNoBody headRequest status = true → raw = [] ∧ body = []
  empty : framing = .empty → raw = [] ∧ body = []

namespace Response

def endsAtHead (r : Response) : Bool := hasNoBody r.headRequest r.status

def closes (r : Response) : Bool := r.framing = .untilClose && !r.endsAtHead

def bytes (r : Response) : Bytes := r.head ++ r.raw

/-- What a server sends. After a response that the end of the connection completes there is no
other. -/
def stream : List Response → Bytes
  | [] => []
  | r :: rs => r.bytes ++ if r.closes then [] else stream rs

end Response

/-- Where the parser is: before the next of some responses, in a header block, with what it has
told of its fields and whether the last of it was a name, or behind it, with what is left of the
body. It is `lost` where it takes the end of the response to be elsewhere. -/
inductive Pos where
  | between (rs : List Response)
  | head (r : Response) (left : Bytes) (told : List (Bytes × Bytes)) (inName : Bool)
      (rs : List Response)
  | body (r : Response) (left data : Bytes) (rs : List Response)
  | lost

namespace Pos

def responses : Pos → List Response
  | between rs => rs
  | head r _ _ _ rs => r :: rs
  | body r _ _ rs => r :: rs
  | lost => []

def bytes : Pos → Bytes
  | between rs => Response.stream rs
  | head r left _ _ rs => left ++ r.raw ++ if r.closes then [] else Response.stream rs
  | body r left _ rs => left ++ if r.closes then [] else Response.stream rs
  | lost => []

/-- The parser follows the return value of the callback for the end of the headers. -/
def afterHead (r : Response) (rs : List Response) (skipBody : Bool) : Pos :=
  if skipBody = r.endsAtHead ∨ r.framing = .empty then .body r r.raw r.body rs else .lost

end Pos

/-- A name and a value come in any number of pieces, a value in one at least. -/
inductive Spells : List (Bytes × Bytes) → Bool → Callback → List (Bytes × Bytes) → Bool → Prop where
  | newName (fields : List (Bytes × Bytes)) (data : Bytes) :
      Spells fields false (.headerField data) (fields ++ [(data, [])]) true
  | name (fields : List (Bytes × Bytes)) (name data : Bytes) :
      Spells (fields ++ [(name, [])]) true (.headerField data) (fields ++ [(name ++ data, [])]) true
  | value (fields : List (Bytes × Bytes)) {name : Bytes} (value : Bytes) (inName : Bool) (data : Bytes)
      (h : name ≠ []) :
      Spells (fields ++ [(name, value)]) inName (.headerValue data)
        (fields ++ [(name, value ++ data)]) false

def Callback.isHeader : Callback → Bool
  | .headerField _ | .headerValue _ => true
  | _ => false

/-- The callbacks of the parser at a position, with the bytes it reads before the callback. Behind
the header block there may be trailers. -/
inductive Makes : Pos → Bytes → Callback → (Bool → Pos) → Prop where
  | messageBegin {r : Response} {used left : Bytes} (rs : List Response) (hused : used ≠ [])
      (hhead : r.head = used ++ left) :
      Makes (.between (r :: rs)) used .messageBegin fun _ => .head r left [] false rs
  | header {r : Response} {told told' : List (Bytes × Bytes)} {inName inName' : Bool}
      {rs : List Response} {c : Callback} (used left : Bytes) (h : Spells told inName c told' inName') :
      Makes (.head r (used ++ left) told inName rs) used c fun _ => .head r left told' inName' rs
  | headersComplete (r : Response) (used : Bytes) (rs : List Response) :
      Makes (.head r used r.fields false rs) used (.headersComplete r.status) (Pos.afterHead r rs)
  | body (r : Response) (used left : Bytes) {data : Bytes} (rest : Bytes) (rs : List Response)
      (h : data ≠ []) :
      Makes (.body r (used ++ left) (data ++ rest) rs) used (.body data) fun _ =>
        .body r left rest rs
  | trailer (r : Response) (used left data : Bytes) (rs : List Response) {c : Callback}
      (h : c.isHeader = true) :
      Makes (.body r (used ++ left) data rs) used c fun _ => .body r left data rs
  | messageComplete {r : Response} (used : Bytes) (rs : List Response) (h : r.closes = false) :
      Makes (.body r used [] rs) used .messageComplete fun _ => .between rs

/-- A slice is read without a callback. None is put off that could be made. -/
inductive Quiet : Pos → Bytes → Pos → Prop where
  | between (rs : List Response) : Quiet (.between rs) [] (.between rs)
  | head {r : Response} {told : List (Bytes × Bytes)} {inName : Bool} {rs : List Response}
      (used : Bytes) {left : Bytes} (h : left ≠ []) :
      Quiet (.head r (used ++ left) told inName rs) used (.head r left told inName rs)
  | body {r : Response} {rs : List Response} (used : Bytes) {left data : Bytes}
      (h : left ≠ [] ∨ (r.closes = true ∧ data = [])) :
      Quiet (.body r (used ++ left) data rs) used (.body r left data rs)

/-- What comes of a slice fits the position, and the position that is reached. -/
def Execution.Fits {σ : Type} (At : σ → Pos → Prop) (pos : Pos) (slice : Bytes) :
    Execution σ → Prop
  | .readAll state => ∃ pos', Quiet pos slice pos' ∧ At state pos'
  | .callback call rest resume => ∃ used next, slice = used ++ rest ∧ Makes pos used call next ∧
      ∀ skipBody, At (resume skipBody) (next skipBody)
  | .error => False

/-- The behaviour of http_parser. `At` relates its states to the positions. -/
structure HttpParser.Follows (p : HttpParser) (At : p.State → Pos → Prop) : Prop where
  execute : ∀ state pos slice, At state pos → pos ≠ .lost → slice <+: pos.bytes →
    (p.execute state slice).Fits At pos slice
  atEnd : ∀ state r rs, At state (.body r [] [] rs) → r.closes = true → p.atEnd state = true
  between : ∀ state rs, At state (.between rs) → p.atEnd state = false

end Meliproxy.Envoy.Http.Http1
