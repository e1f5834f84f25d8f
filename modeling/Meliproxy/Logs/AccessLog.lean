import Meliproxy.Envoy.Http.AccessLogFormatter
import Meliproxy.Logs.RequestObject

/-!
# The access log, written and read

What the formatter writes with its default format, the object that the log reader makes of
that line, and what it means that the object says what was logged.
-/

namespace Meliproxy.Logs

open Lib Envoy.Http Envoy.Http.AccessLog
open List hiding format

/-- The codecs admit any bytes in the value of a header, but no NUL, LF or CR. -/
structure AdmittedHeaders where
  map : HeaderMap
  admitted : ∀ header ∈ map.headers, ∀ b ∈ header.value.bytes, b ≠ 0 ∧ b ≠ 10 ∧ b ≠ 13

/-- The values of a line. The upstream time is the value of a header that may be absent. -/
structure Logged where
  request : Bytes
  responseCode : UInt32
  responseFlags : Bytes
  bytesReceived : UInt64
  bytesSent : UInt64
  duration : Int
  upstreamTime : Option Bytes
  xForwardedFor : Bytes
  userAgent : Bytes
  requestId : Bytes
  requestAuthority : Bytes
  upstreamHost : Bytes

def logged (request response : AdmittedHeaders) (info : RequestInfo) : Logged where
  request := methodHeader.format request.map ++ 32 :: pathHeader.format request.map ++
    32 :: protocolToString info.protocol
  responseCode := info.responseCode.getD 0
  responseFlags := toShortString info
  bytesReceived := info.bytesReceived
  bytesSent := info.bytesSent
  duration := AccessLog.milliseconds info.duration
  upstreamTime := (upstreamServiceTime.header response.map).map fun header => header.value.cStr
  xForwardedFor := AccessLog.xForwardedFor.format request.map
  userAgent := AccessLog.userAgent.format request.map
  requestId := AccessLog.requestId.format request.map
  requestAuthority := authority.format request.map
  upstreamHost := Field.upstreamHost.extract info

namespace Logged

variable (l : Logged)

def upstreamText : Bytes := l.upstreamTime.getD [45]

def fields : List Bytes :=
  [[], decimal l.responseCode.toNat, l.responseFlags, decimal l.bytesReceived.toNat,
   decimal l.bytesSent.toNat, formatInt l.duration]

def numbers : Bytes := terminated 32 l.fields ++ (l.upstreamText ++ [32])

def quoted : List Bytes :=
  [l.xForwardedFor, [32], l.userAgent, [32], l.requestId, [32], l.requestAuthority, [32],
   l.upstreamHost]

def columns (time : Bytes) : List Bytes :=
  (91 :: time ++ [93, 32]) :: l.request :: l.numbers :: l.quoted

def line (time : Bytes) : Bytes := terminated 34 (l.columns time) ++ [10]

end Logged

/-- The texts of an object are those whose encodings were logged. The upstream time is not a
number exactly when the header is absent or not numeric. -/
structure RequestObject.Reports (r : RequestObject) (l : Logged) : Prop where
  request : r.request.map Utf8.encode = some l.request
  responseCode : r.responseCode = .finite l.responseCode.toNat
  responseFlags : r.responseFlags.map Utf8.encode = some l.responseFlags
  bytesReceived : r.bytesReceived = .finite l.bytesReceived.toNat
  bytesSent : r.bytesSent.map Utf8.encode = some (decimal l.bytesSent.toNat)
  duration : r.duration = .finite l.duration
  upstreamTime : r.upstreamTime = match l.upstreamTime.bind numeric with
    | some n => .finite n
    | none => .nan
  xForwardedFor : r.xForwardedFor.map Utf8.encode = some l.xForwardedFor
  userAgent : r.userAgent.map Utf8.encode = some l.userAgent
  requestId : r.requestId.map Utf8.encode = some l.requestId
  requestAuthority : r.requestAuthority.map Utf8.encode = some l.requestAuthority
  upstreamHost : r.upstreamHost.map Utf8.encode = some l.upstreamHost

/-- The reader makes one object of the line of a request, and it says what was logged. -/
def Understood (errno : Bool) (request response : AdmittedHeaders) (info : RequestInfo) : Prop :=
  ∃ formatters record, parse errno defaultFormat = .ok formatters ∧
    requestObjects (format formatters request.map response.map info) = .ok [record] ∧
    record.Reports (logged request response info)

variable (request response : AdmittedHeaders)

variable (info : RequestInfo)

theorem upstreamText_logged :
    upstreamServiceTime.format response.map = (logged request response info).upstreamText := by
  unfold HeaderFormatter.format Logged.upstreamText logged
  cases upstreamServiceTime.header response.map <;> rfl

theorem responseCode_logged :
    Field.responseCode.extract info = decimal (logged request response info).responseCode.toNat := by
  unfold Field.extract logged
  cases info.responseCode with
  | none => exact (by decide : ascii "0" = decimal 0)
  | some code => rfl

theorem format_default :
    format defaultFormatters request.map response.map info =
      (logged request response info).line (fromTime info.startTime) := by
  have hcode := responseCode_logged request response info
  have hupstream := upstreamText_logged request response info
  simp only [format, defaultFormatters, flatMap_cons, flatMap_nil, Formatter.format,
    hcode, hupstream]
  simp only [Logged.line, Logged.columns, Logged.numbers, Logged.quoted, Logged.fields, terminated,
    flatMap_cons, flatMap_nil]
  have hascii : ascii "[" = [91] ∧ ascii "] \"" = [93, 32, 34] ∧ ascii " " = [32] ∧
      ascii "\" " = [34, 32] ∧ ascii " \"" = [32, 34] ∧ ascii "\" \"" = [34, 32, 34] ∧
      ascii "\"\n" = [34, 10] := by decide
  obtain ⟨h1, h2, h3, h4, h5, h6, h7⟩ := hascii
  rw [h1, h2, h3, h4, h5, h6, h7]
  have hrequest : (logged request response info).request = methodHeader.format request.map ++
      32 :: pathHeader.format request.map ++ 32 :: Field.protocol.extract info := rfl
  rw [hrequest]
  simp only [append_assoc, cons_append, nil_append, append_nil]
  rfl

def Word (v : Bytes) : Prop := ∀ b ∈ v, 34 < b ∧ b < 0x80

theorem word_append {v w : Bytes} (hv : Word v) (hw : Word w) : Word (v ++ w) := by
  intro b hb
  rcases mem_append.mp hb with hb | hb
  · exact hv b hb
  · exact hw b hb

theorem word_of_isDigit {v : Bytes} (h : ∀ b ∈ v, b = 45 ∨ (48 ≤ b.toNat ∧ b.toNat ≤ 57)) :
    Word v := by
  intro b hb
  rcases h b hb with rfl | ⟨hlo, hhi⟩
  · decide
  · exact ⟨UInt8.lt_iff_toNat_lt.mpr (Nat.lt_of_lt_of_le (by decide) hlo),
      UInt8.lt_iff_toNat_lt.mpr (Nat.lt_of_le_of_lt hhi (by decide))⟩

theorem word_decimal (n : Nat) : Word (decimal n) :=
  word_of_isDigit fun _ hb => Or.inr (mem_decimal hb)

theorem word_formatInt (n : Int) : Word (formatInt n) := word_of_isDigit fun _ hb => mem_formatInt hb

theorem word_zeroPadded (width : Nat) (n : Int) : Word (zeroPadded width n) := by
  refine word_append (word_append ?_ ?_) (word_decimal _)
  · split
    · exact (by decide +kernel : ∀ b ∈ ([45] : Bytes), 34 < b ∧ b < 0x80)
    · exact fun b hb => absurd hb not_mem_nil
  · intro b hb
    rw [eq_of_mem_replicate hb]
    decide +kernel

theorem word_fromTime (time : Int) : Word (fromTime time) := by
  have hmarks : Word (ascii "-") ∧ Word (ascii "T") ∧ Word (ascii ":") ∧ Word (ascii ".") ∧
      Word (ascii "Z") := by
    unfold Word
    decide +kernel
  obtain ⟨hdash, hT, hcolon, hdot, hZ⟩ := hmarks
  have hdate : Word (dateFormat (time.tdiv 1000000000)) := by
    have hpad := word_zeroPadded
    unfold dateFormat
    generalize civil _ = date
    obtain ⟨year, month, day⟩ := date
    have hday := word_append (word_append (word_append (word_append (hpad 4 year) hdash)
      (hpad 2 month)) hdash) (hpad 2 day)
    exact word_append (word_append (word_append (word_append (word_append (word_append hday hT)
      (hpad 2 _)) hcolon) (hpad 2 _)) hcolon) (hpad 2 _)
  exact word_append (word_append (word_append hdate hdot) (word_zeroPadded _ _)) hZ

theorem word_toShortString : Word (toShortString info) := by
  have hstrings : ∀ entry ∈ shortStrings, Word entry.2 := by
    unfold Word
    decide +kernel
  have hfold : ∀ (entries : List (ResponseFlag × Bytes)) (result : Bytes),
      (∀ entry ∈ entries, Word entry.2) → Word result →
      Word (entries.foldl (fun result entry =>
        if info.getResponseFlag entry.1 then appendString result entry.2 else result) result) := by
    intro entries
    induction entries with
    | nil => exact fun result _ hresult => hresult
    | cons entry entries ih =>
      intro result hall hresult
      refine ih _ (fun e he => hall e (mem_cons_of_mem entry he)) ?_
      have hentry := hall entry mem_cons_self
      dsimp only
      split
      · unfold appendString
        split
        · exact hentry
        · refine word_append (word_append hresult ?_) hentry
          exact (by decide +kernel : ∀ b ∈ ascii ",", 34 < b ∧ b < 0x80)
      · exact hresult
  unfold toShortString
  dsimp only
  split
  · exact (by decide +kernel : ∀ b ∈ ascii "-", 34 < b ∧ b < 0x80)
  · exact hfold shortStrings [] hstrings fun b hb => absurd hb not_mem_nil

/-- What holds of the values of every request. -/
structure Logged.Written (l : Logged) : Prop where
  responseFlags : Word l.responseFlags
  oneLine : ∀ v ∈ [l.request, l.upstreamText, l.xForwardedFor, l.userAgent, l.requestId,
    l.requestAuthority], (10 : UInt8) ∉ v

theorem AdmittedHeaders.notMem_cStr (headers : AdmittedHeaders) {header : HeaderEntry}
    (h : header ∈ headers.map.headers) : (10 : UInt8) ∉ header.value.cStr := fun hmem =>
  (headers.admitted header h 10 ((List.takeWhile_prefix _).subset hmem)).2.1 rfl

theorem mem_header {f : HeaderFormatter} {headers : HeaderMap} {header : HeaderEntry}
    (h : f.header headers = some header) : header ∈ headers.headers := by
  unfold HeaderFormatter.header at h
  split at h
  · rename_i hget
    exact mem_of_find?_eq_some (hget.trans h)
  · split at h
    · exact mem_of_find?_eq_some h
    · cases h

theorem AdmittedHeaders.notMem_format (headers : AdmittedHeaders) (f : HeaderFormatter) :
    (10 : UInt8) ∉ f.format headers.map := by
  have hcut : ∀ (maxLength : Nat) {value : Bytes}, (10 : UInt8) ∉ value →
      (10 : UInt8) ∉ if maxLength < value.length then value.take maxLength else value := by
    intro maxLength value hvalue
    split
    · exact fun hmem => hvalue (mem_of_mem_take hmem)
    · exact hvalue
  unfold HeaderFormatter.format
  cases hheader : f.header headers.map with
  | none =>
    have hdash : (10 : UInt8) ∉ ascii "-" := by decide
    cases f.maxLength with
    | none => exact hdash
    | some maxLength => exact hcut maxLength hdash
  | some header =>
    have hvalue := headers.notMem_cStr (mem_header hheader)
    cases f.maxLength with
    | none => exact hvalue
    | some maxLength => exact hcut maxLength hvalue

theorem written_logged : (logged request response info).Written := by
  refine ⟨word_toShortString info, ?_⟩
  have hprotocol : (10 : UInt8) ∉ protocolToString info.protocol := by
    cases info.protocol <;> decide
  have hrequest : (10 : UInt8) ∉ (logged request response info).request := by
    simp [logged, request.notMem_format, hprotocol]
  have hupstream : (10 : UInt8) ∉ (logged request response info).upstreamText := by
    rw [← upstreamText_logged]
    exact response.notMem_format _
  intro v hv
  simp only [mem_cons, not_mem_nil, or_false] at hv
  rcases hv with rfl | rfl | rfl | rfl | rfl | rfl
  · exact hrequest
  · exact hupstream
  · exact request.notMem_format AccessLog.xForwardedFor
  · exact request.notMem_format AccessLog.userAgent
  · exact request.notMem_format AccessLog.requestId
  · exact request.notMem_format authority

/-!
## Reading a line of the access log

The decoder keeps the quotes and spaces of the line where they are, so the pieces between the
quotes are the pieces of the decoded columns. Only the address of the upstream host can break
the line in two.
-/

theorem decode_terminated {b : UInt8} (hb : b < 0x80) (names : List Bytes) (rest : Bytes) :
    Utf8.decode (terminated b names ++ rest) =
      terminated (Char.ofNat b.toNat) (names.map Utf8.decode) ++ Utf8.decode rest := by
  induction names with
  | nil => rfl
  | cons name names ih =>
    have htext : terminated b (name :: names) ++ rest = name ++ b :: (terminated b names ++ rest) := by
      simp [terminated]
    rw [htext, Utf8.decode_append_cons name hb, ih]
    simp [terminated]

theorem length_mapM {α β ε : Type} {f : α → Except ε β} {xs : List α} {ys : List β}
    (h : xs.mapM f = .ok ys) : ys.length = xs.length := by
  induction xs generalizing ys with
  | nil =>
    cases h
    rfl
  | cons x xs ih =>
    rw [mapM_cons] at h
    cases hx : f x with
    | error e =>
      rw [hx] at h
      cases h
    | ok y =>
      cases hxs : xs.mapM f with
      | error e =>
        rw [hx, hxs] at h
        cases h
      | ok ys' =>
        rw [hx, hxs] at h
        cases h
        rw [length_cons, length_cons, ih hxs]

theorem mem_terminated {α : Type} {sep x : α} {names : List (List α)}
    (h : x ∈ terminated sep names) : x = sep ∨ ∃ name ∈ names, x ∈ name := by
  obtain ⟨name, hname, hx⟩ := mem_flatMap.mp h
  rcases mem_append.mp hx with hx | hx
  · exact Or.inr ⟨name, hname, hx⟩
  · exact Or.inl (mem_singleton.mp hx)

theorem exists_line {x : Char} {s : JsString} (hx : x ≠ '\n') (h : x ∈ s) :
    1 ≤ ((s.splitOn '\n').filter fun line => 0 < line.length).length := by
  obtain ⟨piece, hp, hmem⟩ := exists_mem_splitOn hx h
  refine length_pos_of_mem (mem_filter.mpr ⟨hp, ?_⟩)
  exact decide_eq_true (length_pos_of_mem hmem)

theorem Word.notMem {v : Bytes} (h : Word v) {b : UInt8} (hb : b ≤ 34) : b ∉ v := fun hmem =>
  absurd (h b hmem).1 (UInt8.not_lt.mpr hb)

def firstWord (s : JsString) : JsString := s.takeWhile fun c => c ≠ '"' ∧ c ≠ ' '

theorem takeWhile_firstWord (s : JsString) :
    ((s ++ [' ']).takeWhile (· ≠ '"')).takeWhile (· ≠ ' ') = firstWord s := by
  rw [takeWhile_takeWhile, firstWord]
  induction s with
  | nil => rfl
  | cons c s ih =>
    rw [cons_append, takeWhile_cons, takeWhile_cons]
    by_cases hquote : c = '"'
    · simp [hquote]
    by_cases hspace : c = ' '
    · simp [hspace]
    · simpa [hquote, hspace] using ih

theorem quote_notMem_decode {v : Bytes} (h : (34 : UInt8) ∉ v) : '"' ∉ Utf8.decode v := fun hmem =>
  h ((@Utf8.mem_decode_iff 34 v (by decide) (by decide)).mp hmem)

namespace Logged

variable {l : Logged} {time : Bytes}

def text (l : Logged) (time : Bytes) : JsString :=
  terminated '"' ((l.columns time).map Utf8.decode)

theorem decode_line (l : Logged) (time : Bytes) :
    Utf8.decode (l.line time) = l.text time ++ ['\n'] := by
  rw [line, decode_terminated (by decide)]
  rfl

theorem word_fields (hw : l.Written) : ∀ v ∈ l.fields, Word v := by
  intro v hv
  simp only [fields, mem_cons, not_mem_nil, or_false] at hv
  rcases hv with rfl | rfl | rfl | rfl | rfl | rfl
  · exact fun b hb => absurd hb not_mem_nil
  · exact word_decimal _
  · exact hw.responseFlags
  · exact word_decimal _
  · exact word_decimal _
  · exact word_formatInt _

theorem columns_oneLine (hw : l.Written) (ht : Word time) (hhost : (10 : UInt8) ∉ l.upstreamHost) :
    ∀ v ∈ l.columns time, (10 : UInt8) ∉ v := by
  have hone := hw.oneLine
  simp only [forall_mem_cons] at hone
  obtain ⟨hrequest, hupstream, hforwarded, hagent, hid, hauthority, -⟩ := hone
  have hnumbers : (10 : UInt8) ∉ l.numbers := by
    intro hmem
    rcases mem_append.mp hmem with hmem | hmem
    · rcases mem_terminated hmem with hmem | ⟨v, hv, hmem⟩
      · cases hmem
      · exact Word.notMem (word_fields hw v hv) (by decide) hmem
    · simp [hupstream] at hmem
  have htime : (10 : UInt8) ∉ time := Word.notMem ht (by decide)
  intro v hv
  simp only [columns, quoted, mem_cons, not_mem_nil, or_false] at hv
  rcases hv with rfl | rfl | rfl | rfl | rfl | rfl | rfl | rfl | rfl | rfl | rfl | rfl
  · simp [htime]
  · exact hrequest
  · exact hnumbers
  · exact hforwarded
  · decide
  · exact hagent
  · decide
  · exact hid
  · decide
  · exact hauthority
  · decide
  · exact hhost

theorem text_ne_nil (l : Logged) (time : Bytes) : l.text time ≠ [] := by
  simp [text, columns, terminated]

theorem requestObjects_line (hw : l.Written) (ht : Word time)
    (hhost : (10 : UInt8) ∉ l.upstreamHost) :
    requestObjects (l.line time) = (requestObject (l.text time)).map fun record => [record] := by
  have hnone : '\n' ∉ l.text time := by
    intro hmem
    rcases mem_terminated hmem with hmem | ⟨v, hv, hmem⟩
    · cases hmem
    · obtain ⟨column, hcolumn, rfl⟩ := mem_map.mp hv
      exact columns_oneLine hw ht hhost column hcolumn
        ((@Utf8.mem_decode_iff 10 column (by decide) (by decide)).mp hmem)
  have hlines : (l.text time ++ ['\n']).splitOn '\n' = [l.text time, []] := by
    rw [splitOn_append_cons_self, splitOn_eq_singleton hnone]
    rfl
  have hpos : 0 < (l.text time).length := length_pos_iff.mpr (text_ne_nil l time)
  rw [requestObjects, decode_line, hlines]
  simp only [filter_cons, hpos, decide_true, if_true, length_nil, Nat.lt_irrefl,
    decide_false, Bool.false_eq_true, if_false, filter_nil, mapM_cons, mapM_nil]
  cases requestObject (l.text time) <;> rfl

theorem text_eq (l : Logged) (time : Bytes) :
    ∃ start, l.text time = '[' :: start ++ (Utf8.decode l.upstreamHost ++ ['"']) := by
  refine ⟨Utf8.decode (time ++ [93, 32]) ++ '"' :: terminated '"' ([l.request, l.numbers,
    l.xForwardedFor, [32], l.userAgent, [32], l.requestId, [32], l.requestAuthority,
    [32]].map Utf8.decode), ?_⟩
  have hopening : Utf8.decode (91 :: (time ++ [93, 32])) = '[' :: Utf8.decode (time ++ [93, 32]) :=
    Utf8.decode_cons (by decide) _
  simp only [text, columns, quoted, terminated, map_cons, map_nil, flatMap_cons,
    flatMap_nil, append_assoc, cons_append, nil_append, append_nil]
  rw [hopening]
  rfl

theorem upstreamHost_oneLine {record : RequestObject}
    (h : requestObjects (l.line time) = .ok [record]) : (10 : UInt8) ∉ l.upstreamHost := by
  intro hmem
  have hmem : '\n' ∈ Utf8.decode l.upstreamHost :=
    (@Utf8.mem_decode_iff 10 l.upstreamHost (by decide) (by decide)).mpr hmem
  obtain ⟨before, after, hsplit⟩ := append_of_mem hmem
  obtain ⟨start, hstart⟩ := text_eq l time
  have htext : l.text time ++ ['\n'] =
      '[' :: (start ++ before) ++ '\n' :: (after ++ ['"'] ++ '\n' :: []) := by
    rw [hstart, hsplit]
    simp
  rw [requestObjects, decode_line, htext, splitOn_append_cons_self,
    splitOn_append_cons_self, filter_append, filter_append] at h
  have hlength := length_mapM h
  rw [length_append, length_append] at hlength
  have hfirst := exists_line (s := '[' :: (start ++ before)) (by decide) mem_cons_self
  have hsecond := exists_line (s := after ++ ['"']) (x := '"') (by decide) (by simp)
  simp only [length_singleton] at hlength
  omega

theorem decode_numbers (l : Logged) :
    Utf8.decode l.numbers = terminated ' ' (l.fields.map Utf8.decode) ++
      (Utf8.decode l.upstreamText ++ [' ']) := by
  have hspace : Utf8.decode (l.upstreamText ++ [32]) = Utf8.decode l.upstreamText ++ [' '] :=
    Utf8.decode_append_cons _ (by decide) []
  rw [numbers, decode_terminated (by decide), hspace]
  rfl

def upstreamPieces (l : Logged) : List JsString :=
  (Utf8.decode l.upstreamText ++ [' ']).splitOn '"'

def afterNumbers (l : Logged) : List JsString :=
  l.upstreamPieces.tail ++ pieces '"' (l.quoted.map Utf8.decode) ++ [[]]

theorem splitOn_text (hw : l.Written) (ht : Word time) :
    (l.text time).splitOn '"' = Utf8.decode (91 :: time ++ [93, 32]) ::
      ((Utf8.decode l.request).splitOn '"' ++
        (terminated ' ' (l.fields.map Utf8.decode) ++ l.upstreamPieces.headD []) ::
          l.afterNumbers) := by
  have hopening : (34 : UInt8) ∉ 91 :: time ++ [93, 32] := by
    simp [Word.notMem ht (b := 34) (by decide)]
  have hfields : '"' ∉ terminated ' ' (l.fields.map Utf8.decode) := by
    intro hmem
    rcases mem_terminated hmem with hmem | ⟨v, hv, hmem⟩
    · cases hmem
    · obtain ⟨field, hfield, rfl⟩ := mem_map.mp hv
      exact quote_notMem_decode (Word.notMem (word_fields hw field hfield) (by decide)) hmem
  obtain ⟨tail, hpieces, -⟩ := splitOn_eq_cons '"' (Utf8.decode l.upstreamText ++ [' '])
  have hsplit := splitOn_terminated '"' ((l.columns time).map Utf8.decode) []
  rw [append_nil] at hsplit
  rw [text, hsplit, columns, map_cons, map_cons, map_cons]
  simp only [pieces, flatMap_cons]
  rw [splitOn_eq_singleton (quote_notMem_decode hopening), decode_numbers,
    splitOn_append_of_notMem hfields, afterNumbers, upstreamPieces, hpieces]
  simp [pieces]

end Logged

end Meliproxy.Logs
