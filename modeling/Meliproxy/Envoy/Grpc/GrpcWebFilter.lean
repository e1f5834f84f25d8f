import Meliproxy.Envoy.Common.Base64
import Meliproxy.Envoy.Http.HeaderMapOps

/-!
# The gRPC-Web filter

The request side of `GrpcWebFilter` in `grpc/grpc_web_filter.cc`. The body of a text request is
base64, and it comes in pieces of any size.
-/

namespace Meliproxy.Envoy.Grpc

open Lib List Http Option Base64

inductive FilterDataStatus where
  | continue
  | stopIterationAndBuffer
  | stopIterationAndWatermark
  | stopIterationNoBuffer
  deriving DecidableEq

structure GrpcWebFilter where
  isTextRequest : Bool
  isTextResponse : Bool
  decodingBuffer : Bytes
  isGrpcWebRequest : Bool

def contentTypeGrpc : Bytes := ascii "application/grpc"

def contentTypeGrpcWeb : Bytes := ascii "application/grpc-web"

def contentTypeGrpcWebProto : Bytes := ascii "application/grpc-web+proto"

def contentTypeGrpcWebText : Bytes := ascii "application/grpc-web-text"

def contentTypeGrpcWebTextProto : Bytes := ascii "application/grpc-web-text+proto"

def gRpcWebContentTypes : List Bytes :=
  [contentTypeGrpcWeb, contentTypeGrpcWebProto, contentTypeGrpcWebText,
    contentTypeGrpcWebTextProto]

def isTextContentType (value : Bytes) : Bool :=
  contentTypeGrpcWebText = value || contentTypeGrpcWebTextProto = value

def isGrpcWebRequest (headers : HeaderMap) : Bool :=
  (headers.value .contentType).any fun value => value.cStr ∈ gRpcWebContentTypes

namespace GrpcWebFilter

def new : GrpcWebFilter := ⟨false, false, [], false⟩

def accept : LowerCaseString := ⟨ascii "accept", by decide +kernel⟩

def decodeHeaders (s : GrpcWebFilter) (headers : HeaderMap) : GrpcWebFilter × HeaderMap :=
  if ¬ Grpc.isGrpcWebRequest headers then (s, headers)
  else
    let s := { s with isGrpcWebRequest := true }
    let s :=
      if (headers.value .contentType).any fun value => isTextContentType value.cStr then
        { s with isTextRequest := true }
      else s
    let headers := headers.insertInline .contentType fun _ => .setReference contentTypeGrpc
    let s :=
      if (headers.get accept).any fun entry => isTextContentType entry.value.cStr then
        { s with isTextResponse := true }
      else s
    let headers := headers.insertInline .te fun _ => .setReference (ascii "trailers")
    (s, headers.insertInline .grpcAcceptEncoding fun _ =>
      .setReference (ascii "identity,deflate,gzip"))

structure LocalReply where
  code : Nat
  body : Bytes

def badRequest : LocalReply := ⟨400, ascii "Bad gRPC-web request, invalid base64 data."⟩

/-- What `decodeData` returns, and what it leaves in the buffer that it was given. -/
structure Decoded where
  filter : GrpcWebFilter
  status : FilterDataStatus
  data : Bytes
  localReply : Option LocalReply

def decodeData (s : GrpcWebFilter) (data : Bytes) : Option Decoded :=
  if ¬ s.isGrpcWebRequest then some ⟨s, .continue, data, none⟩
  else if ¬ s.isTextRequest then some ⟨s, .continue, data, none⟩
  else if data.length + s.decodingBuffer.length < 4 then
    some ⟨{ s with decodingBuffer := s.decodingBuffer ++ data }, .stopIterationNoBuffer, [], none⟩
  else
    let needed := (data.length + s.decodingBuffer.length) / 4 * 4 - s.decodingBuffer.length
    let s := { s with decodingBuffer := s.decodingBuffer ++ data.take needed }
    let data := data.drop needed
    (Base64.decode s.decodingBuffer).map fun decoded =>
      if decoded = [] then ⟨s, .stopIterationNoBuffer, data, some badRequest⟩
      else ⟨{ s with decodingBuffer := data }, .continue, decoded, none⟩

/-- What the next filters get, and the answer of this one, which ends the stream. -/
structure Handed where
  passed : List (Bytes × Bool)
  reply : Option LocalReply

def Handed.pass (piece : Bytes × Bool) (handed : Handed) : Handed :=
  { handed with passed := piece :: handed.passed }

def run (s : GrpcWebFilter) : List (Bytes × Bool) → Option Handed
  | [] => some ⟨[], none⟩
  | (data, endStream) :: calls =>
    (s.decodeData data).bind fun decoded =>
      match decoded.localReply with
      | some reply => some ⟨[], some reply⟩
      | none =>
        (run decoded.filter calls).map fun handed =>
          if decoded.status = .continue then handed.pass (decoded.data, endStream) else handed

/-- The end of the stream comes with the last call. The HTTP/1 codec makes that call without data,
from `onMessageComplete`. -/
def calls (pieces : List Bytes) (last : Bytes) : List (Bytes × Bool) :=
  pieces.map (fun piece => (piece, false)) ++ [(last, true)]

end GrpcWebFilter

/-!
## Text requests in pieces

What a text request comes to, for every way to cut its body. The filter decodes the groups of
four characters that a call completes and keeps the rest for the next one.
-/

/-- A text request whose filter has these characters left. -/
def GrpcWebFilter.IsText (s : GrpcWebFilter) (carry : Bytes) : Prop :=
  s.isGrpcWebRequest = true ∧ s.isTextRequest = true ∧ s.decodingBuffer = carry

def wholeLength (text : Bytes) : Nat := text.length / 4 * 4

def groups (carry : Bytes) : List Bytes → List Bytes
  | [] => []
  | piece :: pieces =>
    if (carry ++ piece).length < 4 then groups (carry ++ piece) pieces
    else
      (carry ++ piece).take (wholeLength (carry ++ piece)) ::
        groups ((carry ++ piece).drop (wholeLength (carry ++ piece))) pieces

/-- A decoder that is given these texts one by one comes to an error. -/
inductive Refused : List Bytes → Prop where
  | here {text : Bytes} {texts : List Bytes} (h : Base64.Rejected text) : Refused (text :: texts)
  | later {message : Bytes} {texts : List Bytes} (h : Refused texts) :
      Refused (Base64.encode message :: texts)

theorem refused_cons {text : Bytes} {texts : List Bytes} : Refused (text :: texts) ↔
      Base64.Rejected text ∨ (∃ message, text = Base64.encode message) ∧ Refused texts := by
  constructor
  · intro h
    cases h with
    | here h => exact .inl h
    | @later message _ h => exact .inr ⟨⟨message, rfl⟩, h⟩
  · rintro (h | ⟨⟨message, rfl⟩, h⟩)
    · exact .here h
    · exact .later h

section Pieces

variable {s : GrpcWebFilter} {carry piece text : Bytes}

theorem four_dvd_take (text : Bytes) : 4 ∣ (text.take (wholeLength text)).length := by
  rw [wholeLength, length_take_of_le (by omega)]
  exact Nat.dvd_mul_left 4 _

theorem length_drop_lt (text : Bytes) : (text.drop (wholeLength text)).length < 4 := by
  rw [length_drop, wholeLength]
  omega

theorem take_ne_nil (h : ¬ text.length < 4) : text.take (wholeLength text) ≠ [] := by
  intro hnil
  have hlength := congrArg List.length hnil
  rw [wholeLength, length_take_of_le (by omega)] at hlength
  change _ = 0 at hlength
  omega

theorem decodeData_short (h : s.IsText carry) (hshort : (carry ++ piece).length < 4) :
    s.decodeData piece =
      some ⟨{ s with decodingBuffer := carry ++ piece }, .stopIterationNoBuffer, [], none⟩ := by
  obtain ⟨hweb, htext, rfl⟩ := h
  rw [length_append, Nat.add_comm] at hshort
  simp [GrpcWebFilter.decodeData, hweb, htext, hshort]

theorem decodeData_whole (h : s.IsText carry) (hcarry : carry.length < 4)
    (heq : text = carry ++ piece) (hwhole : ¬ text.length < 4) :
    s.decodeData piece = (Base64.decode (text.take (wholeLength text))).map fun decoded =>
      if decoded = [] then
        ⟨{ s with decodingBuffer := text.take (wholeLength text) }, .stopIterationNoBuffer,
          text.drop (wholeLength text), some GrpcWebFilter.badRequest⟩
      else
        ⟨{ s with decodingBuffer := text.drop (wholeLength text) }, .continue, decoded, none⟩ := by
  obtain ⟨hweb, htext, rfl⟩ := h
  subst heq
  have hlength : piece.length + s.decodingBuffer.length = (s.decodingBuffer ++ piece).length := by
    rw [length_append, Nat.add_comm]
  have hle : s.decodingBuffer.length ≤ wholeLength (s.decodingBuffer ++ piece) := by
    unfold wholeLength
    omega
  have htake : s.decodingBuffer ++
      piece.take (wholeLength (s.decodingBuffer ++ piece) - s.decodingBuffer.length) =
        (s.decodingBuffer ++ piece).take (wholeLength (s.decodingBuffer ++ piece)) := by
    rw [take_append, take_of_length_le hle]
  have hdrop : piece.drop (wholeLength (s.decodingBuffer ++ piece) - s.decodingBuffer.length) =
      (s.decodingBuffer ++ piece).drop (wholeLength (s.decodingBuffer ++ piece)) := by
    rw [drop_append, drop_of_length_le hle, nil_append]
  rw [GrpcWebFilter.decodeData, if_neg (not_not.mpr hweb), if_neg (not_not.mpr htext), hlength,
    if_neg hwhole]
  change (Base64.decode (_ ++ piece.take (wholeLength _ - _))).map _ = _
  rw [htake]
  congr 1
  funext decoded
  rw [← hdrop, ← htake]
  rfl

end Pieces

namespace GrpcWebFilter

/-- The next filters get the message, and the end of the stream with the last piece of it. -/
def Handed.Passes (handed : Handed) (message : Bytes) : Prop :=
  ∃ pieces last, handed = ⟨calls pieces last, none⟩ ∧ pieces.flatten ++ last = message

section Runs

variable {s : GrpcWebFilter} {carry : Bytes}
variable {piece message : Bytes}

theorem decodeData_encoded (h : s.IsText carry) (hcarry : carry.length < 4) {text rest : Bytes}
    (heq : text = carry ++ piece) (hwhole : ¬ text.length < 4)
    (hmessage : text ++ rest = Base64.encode message) : ∃ front back, message = front ++ back ∧
      text.drop (wholeLength text) ++ rest = Base64.encode back ∧ s.decodeData piece =
        some ⟨{ s with decodingBuffer := text.drop (wholeLength text) }, .continue, front, none⟩ := by
  rw [← take_append_drop (wholeLength text) text, append_assoc, encode_eq]
    at hmessage
  obtain ⟨front, back, rfl, hfront, hback⟩ :=
    base64_split _ _ message hmessage.symm (four_dvd_take text)
  rw [← encode_eq] at hfront hback
  refine ⟨front, back, rfl, hback, ?_⟩
  have hne : front ≠ [] := by
    rintro rfl
    exact take_ne_nil hwhole hfront
  rw [decodeData_whole h hcarry heq hwhole, hfront, decode_encoded, map_some, if_neg hne]

variable {rest : List (Bytes × Bool)} {endStream : Bool} {s' : GrpcWebFilter}

theorem IsText.holds (h : s.IsText carry) (rest : Bytes) :
    IsText { s with decodingBuffer := rest } rest := ⟨h.1, h.2.1, rfl⟩

theorem run_held (h : s.decodeData piece = some ⟨s', .stopIterationNoBuffer, [], none⟩) :
    s.run ((piece, endStream) :: rest) = s'.run rest := by
  rw [run, h, bind_some]
  exact Option.map_id'

theorem run_passed {front : Bytes} (h : s.decodeData piece = some ⟨s', .continue, front, none⟩) :
    s.run ((piece, endStream) :: rest) = (s'.run rest).map (Handed.pass (front, endStream)) := by
  rw [run, h, bind_some]
  rfl

theorem run_encoded (h : s.IsText carry) (hcarry : carry.length < 4) (pieces : List Bytes)
    {last : Bytes} (hlast : last ≠ [])
    (hmessage : carry ++ (pieces.flatten ++ last) = Base64.encode message) :
    ∃ handed, s.run (calls pieces last) = some handed ∧ handed.Passes message := by
  induction pieces generalizing s carry message with
  | nil =>
    have hfour := four_dvd_length_encode message
    have hpos := length_pos_iff.mpr hlast
    rw [← hmessage, flatten_nil, nil_append, length_append] at hfour
    have hwhole : ¬ (carry ++ last).length < 4 := by
      rw [length_append]
      omega
    have hall : (carry ++ last).drop (wholeLength (carry ++ last)) = [] := by
      apply drop_eq_nil_of_le
      rw [wholeLength, length_append]
      omega
    rw [flatten_nil, nil_append, ← append_nil (carry ++ last)] at hmessage
    obtain ⟨front, back, rfl, hback, hdata⟩ := decodeData_encoded h hcarry rfl hwhole hmessage
    have hback : back = [] := by
      rw [hall, encode_eq] at hback
      exact (base64_eq_nil_iff _ _).mp hback.symm
    subst hback
    refine ⟨⟨[(front, true)], none⟩, (run_passed hdata).trans rfl, [], front, rfl, ?_⟩
    rw [append_nil]
    rfl
  | cons piece pieces ih =>
    rw [flatten_cons, append_assoc, ← append_assoc] at hmessage
    by_cases hshort : (carry ++ piece).length < 4
    · have hnext := h.holds (carry ++ piece)
      obtain ⟨handed, hrun, hpasses⟩ := ih hnext hshort hmessage
      exact ⟨handed, (run_held (decodeData_short h hshort)).trans hrun, hpasses⟩
    · obtain ⟨front, back, rfl, hback, hdata⟩ := decodeData_encoded h hcarry rfl hshort hmessage
      have hnext := h.holds ((carry ++ piece).drop (wholeLength (carry ++ piece)))
      obtain ⟨_, hrun, parts, final, rfl, rfl⟩ := ih hnext (length_drop_lt _) hback
      refine ⟨⟨calls (front :: parts) final, none⟩, ?_, front :: parts, final, rfl, ?_⟩
      · exact (run_passed hdata).trans (congrArg (Option.map _) hrun)
      · rw [flatten_cons, append_assoc]

theorem run_encoded_nil (h : s.IsText carry) (hcarry : carry.length < 4) (pieces : List Bytes)
    (hmessage : carry ++ pieces.flatten = Base64.encode message) : ∃ parts : List Bytes,
      s.run (calls pieces []) = some ⟨parts.map (fun piece => (piece, false)), none⟩ := by
  induction pieces generalizing s carry message with
  | nil =>
    have hshort : (carry ++ []).length < 4 := by rwa [append_nil]
    exact ⟨[], (run_held (decodeData_short h hshort)).trans rfl⟩
  | cons piece pieces ih =>
    rw [flatten_cons, ← append_assoc] at hmessage
    by_cases hshort : (carry ++ piece).length < 4
    · have hnext := h.holds (carry ++ piece)
      obtain ⟨parts, hrun⟩ := ih hnext hshort hmessage
      exact ⟨parts, (run_held (decodeData_short h hshort)).trans hrun⟩
    · obtain ⟨front, back, rfl, hback, hdata⟩ := decodeData_encoded h hcarry rfl hshort hmessage
      have hnext := h.holds ((carry ++ piece).drop (wholeLength (carry ++ piece)))
      obtain ⟨parts, hrun⟩ := ih hnext (length_drop_lt _) hback
      exact ⟨front :: parts, (run_passed hdata).trans (congrArg (Option.map _) hrun)⟩

def Handed.Answered (handed : Handed) : Prop := handed.reply = some badRequest

theorem answered_iff_refused (h : s.IsText carry) (hcarry : carry.length < 4)
    (calls : List (Bytes × Bool)) : (∃ handed, s.run calls = some handed ∧ handed.Answered) ↔
      Refused (groups carry (calls.map Prod.fst)) := by
  induction calls generalizing s carry with
  | nil =>
    constructor
    · rintro ⟨handed, hrun, hanswered⟩
      cases hrun
      cases hanswered
    · rintro ⟨⟩
  | cons call calls ih =>
    obtain ⟨piece, endStream⟩ := call
    rw [map_cons, groups]
    by_cases hshort : (carry ++ piece).length < 4
    · have hnext := h.holds (carry ++ piece)
      rw [run_held (decodeData_short h hshort), if_pos hshort]
      exact ih hnext hshort
    · have hdata := decodeData_whole h hcarry rfl hshort
      have hnext := h.holds ((carry ++ piece).drop (wholeLength (carry ++ piece)))
      have hrejected := decode_eq_nil_iff (four_dvd_take (carry ++ piece))
        (take_ne_nil hshort)
      rw [if_neg hshort, refused_cons, ← hrejected]
      cases hdecode : Base64.decode ((carry ++ piece).take (wholeLength (carry ++ piece))) with
      | none =>
        rw [hdecode] at hdata
        have hrun : s.run ((piece, endStream) :: calls) = none := by rw [run, hdata]; rfl
        rw [hrun]
        constructor
        · rintro ⟨handed, hnone, -⟩
          cases hnone
        · rintro (hnil | ⟨⟨message, hmessage⟩, -⟩)
          · cases hnil
          · rw [hmessage, decode_encoded] at hdecode
            cases hdecode
      | some decoded =>
        rw [hdecode] at hdata
        by_cases hnil : decoded = []
        · rw [map_some, if_pos hnil] at hdata
          have hrun : s.run ((piece, endStream) :: calls) = some ⟨[], some badRequest⟩ := by
            rw [run, hdata]
            rfl
          exact ⟨fun _ => .inl (congrArg some hnil), fun _ => ⟨_, hrun, rfl⟩⟩
        · rw [map_some, if_neg hnil] at hdata
          rw [run_passed hdata]
          constructor
          · rintro ⟨handed, hrun, hanswered⟩
            obtain ⟨handed', hrun', rfl⟩ := map_eq_some_iff.mp hrun
            have hrefused := (ih hnext (length_drop_lt _)).mp ⟨handed', hrun', hanswered⟩
            exact .inr ⟨⟨decoded, encode_of_decode hdecode hnil⟩, hrefused⟩
          · rintro (hempty | ⟨-, hrefused⟩)
            · exact absurd (Option.some.inj hempty) hnil
            · obtain ⟨handed', hrun', hanswered⟩ := (ih hnext (length_drop_lt _)).mpr hrefused
              exact ⟨_, map_eq_some_iff.mpr ⟨handed', hrun', rfl⟩, hanswered⟩

end Runs

/-- A byte that is neither a digit of base64 nor the padding at the end of the text. -/
def InvalidCharacter (text : Bytes) : Prop :=
  ∃ before c after, text = before ++ c :: after ∧ c ∉ Base64.charTable ∧
    ¬ (c = 61 ∧ (after = [] ∨ after = [61]))

def Bad (text : Bytes) : Prop := text.length % 4 ≠ 0 ∨ InvalidCharacter text

def textRequest (headers : HeaderMap) : Bool :=
  (headers.value .contentType).any fun value => isTextContentType value.cStr

/-- A message goes through as it was encoded, and a bad text is answered. -/
structure Transcodes (headers : HeaderMap) (pieces : List Bytes) (last : Bytes) : Prop where
  message : ∀ message, pieces.flatten ++ last = Base64.encode message →
    ∃ handed, (new.decodeHeaders headers).1.run (calls pieces last) = some handed ∧
      handed.Passes message
  bad : Bad (pieces.flatten ++ last) →
    ∃ handed, (new.decodeHeaders headers).1.run (calls pieces last) = some handed ∧
      handed.Answered

/-- The body does not end with an empty call, and the decoder gets to see what is wrong. -/
structure Delivered (pieces : List Bytes) (last : Bytes) : Prop where
  message : ∀ message, pieces.flatten ++ last = Base64.encode message → last ≠ []
  bad : Bad (pieces.flatten ++ last) → Refused (groups [] (pieces ++ [last]))

theorem mem_of_isTextContentType {value : Bytes} (h : isTextContentType value = true) :
    value ∈ gRpcWebContentTypes := by
  have heq : contentTypeGrpcWebText = value ∨ contentTypeGrpcWebTextProto = value := by
    simpa [isTextContentType] using h
  obtain rfl | rfl := heq <;> simp [gRpcWebContentTypes]

theorem isText_decodeHeaders {headers : HeaderMap} (h : textRequest headers = true) :
    (new.decodeHeaders headers).1.IsText [] := by
  obtain ⟨value, hvalue, htext⟩ := (Option.any_eq_true _ _).mp h
  have hweb : Grpc.isGrpcWebRequest headers = true :=
    (Option.any_eq_true _ _).mpr ⟨value, hvalue, by simpa using mem_of_isTextContentType htext⟩
  have htext : (headers.value .contentType).any (fun value => isTextContentType value.cStr) := h
  rw [decodeHeaders, if_neg (not_not.mpr hweb), htext]
  refine ⟨?_, ?_, ?_⟩ <;> dsimp only <;> split <;> rfl

variable {headers : HeaderMap} {pieces : List Bytes} {last message : Bytes}

theorem last_ne_nil_of_transcodes (h : textRequest headers = true)
    (hmessage : pieces.flatten ++ last = Base64.encode message)
    (htranscodes : Transcodes headers pieces last) : last ≠ [] := by
  rintro rfl
  obtain ⟨handed, hrun, parts, final, rfl, -⟩ := htranscodes.message message hmessage
  rw [append_nil] at hmessage
  obtain ⟨held, hheld⟩ := run_encoded_nil (isText_decodeHeaders h) (by decide) pieces hmessage
  have heq : calls parts final = held.map fun piece => (piece, false) :=
    congrArg Handed.passed (Option.some.inj (hrun.symm.trans hheld))
  have hend : (final, true) ∈ held.map fun piece => (piece, false) := by
    rw [← heq]
    exact mem_append_right _ mem_cons_self
  obtain ⟨piece, -, hpiece⟩ := List.mem_map.mp hend
  cases hpiece

/-- Over HTTP/1 the next filters never see the end of a text request. -/
theorem http1_not_transcodes (h : textRequest headers = true)
    (hmessage : pieces.flatten = Base64.encode message) : ¬ Transcodes headers pieces [] := by
  intro htranscodes
  rw [← append_nil pieces.flatten] at hmessage
  exact last_ne_nil_of_transcodes h hmessage htranscodes rfl

/-- The filter is right about a text request if and only if the calls are delivered so. -/
theorem transcodes_iff_delivered (headers : HeaderMap) (h : textRequest headers = true)
    (pieces : List Bytes) (last : Bytes) :
    Transcodes headers pieces last ↔ Delivered pieces last := by
  have htext := isText_decodeHeaders h
  have hanswered := answered_iff_refused htext (by decide) (calls pieces last)
  have hpieces : (calls pieces last).map Prod.fst = pieces ++ [last] := by
    simp [calls, Function.comp_def]
  rw [hpieces] at hanswered
  constructor
  · intro htranscodes
    exact ⟨fun message hmessage => last_ne_nil_of_transcodes h hmessage htranscodes,
      fun hbad => hanswered.mp (htranscodes.bad hbad)⟩
  · intro hdelivered
    refine ⟨fun message hmessage => ?_, fun hbad => hanswered.mpr (hdelivered.bad hbad)⟩
    exact run_encoded htext (by decide) pieces (hdelivered.message message hmessage) hmessage

def textHeaders : HeaderMap :=
  .ofHeaders [(.setReference (ascii "content-type"), .setReference contentTypeGrpcWebText)]

theorem textHeaders_transcodes : Transcodes textHeaders [ascii "QU"] (ascii "JD") := by
  refine (transcodes_iff_delivered textHeaders (by decide +kernel) _ _).mpr
    ⟨fun _ _ => by decide +kernel, fun hbad => ?_⟩
  obtain hlength | ⟨before, c, after, htext, hdigit, -⟩ := hbad
  · exact absurd (by decide +kernel) hlength
  · have hall : ∀ c ∈ [ascii "QU"].flatten ++ ascii "JD", c ∈ Base64.charTable := by
      decide +kernel
    exact absurd (hall c (by rw [htext]; simp)) hdigit

/-- A whole message and the empty call with the end of the stream. -/
theorem http1Text_not_transcodes : ¬ Transcodes textHeaders [ascii "QUJD"] [] := by
  have hmessage : [ascii "QUJD"].flatten = Base64.encode (ascii "ABC") := by decide +kernel
  exact http1_not_transcodes (by decide +kernel) hmessage

end GrpcWebFilter

end Meliproxy.Envoy.Grpc
