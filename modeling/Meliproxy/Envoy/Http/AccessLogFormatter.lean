import Meliproxy.Envoy.Http.ConnManager
import Meliproxy.Envoy.Http.HeaderMapOps

/-!
# The access log formatter

`FormatterImpl` reads a format once and writes a line for each request: plain text, headers
of the request or the response, and fields of the request info. Nothing is escaped.
-/

namespace Meliproxy.Envoy.Http.AccessLog

open Lib

inductive ResponseFlag where
  | failedLocalHealthCheck
  | noHealthyUpstream
  | upstreamRequestTimeout
  | localReset
  | upstreamRemoteReset
  | upstreamConnectionFailure
  | upstreamConnectionTermination
  | upstreamOverflow
  | noRouteFound
  | delayInjected
  | faultInjected
  | rateLimited
  deriving DecidableEq

/-- The text of the address, and the name of the cluster. -/
structure HostDescription where
  address : Bytes
  cluster : Bytes

/-- What the formatter reads of it. The start is in nanoseconds since the epoch, durations are
in microseconds. -/
structure RequestInfo where
  startTime : Int
  requestReceivedDuration : Int
  responseReceivedDuration : Int
  bytesReceived : UInt64
  protocol : Protocol
  responseCode : Option UInt32
  bytesSent : UInt64
  duration : Int
  getResponseFlag : ResponseFlag → Bool
  upstreamHost : Option HostDescription

def shortStrings : List (ResponseFlag × Bytes) :=
  [(.failedLocalHealthCheck, ascii "LH"), (.noHealthyUpstream, ascii "UH"),
   (.upstreamRequestTimeout, ascii "UT"), (.localReset, ascii "LR"),
   (.upstreamRemoteReset, ascii "UR"), (.upstreamConnectionFailure, ascii "UF"),
   (.upstreamConnectionTermination, ascii "UC"), (.upstreamOverflow, ascii "UO"),
   (.noRouteFound, ascii "NR"), (.delayInjected, ascii "DI"), (.faultInjected, ascii "FI"),
   (.rateLimited, ascii "RL")]

def appendString (result append : Bytes) : Bytes :=
  if result = [] then append else result ++ ascii "," ++ append

def toShortString (info : RequestInfo) : Bytes :=
  let result := shortStrings.foldl (fun result entry =>
    if info.getResponseFlag entry.1 then appendString result entry.2 else result) []
  if result = [] then ascii "-" else result

/-- `{:0wd}`. -/
def zeroPadded (width : Nat) (n : Int) : Bytes :=
  let sign : Bytes := if n < 0 then [45] else []
  let digits := decimal n.natAbs
  sign ++ List.replicate (width - sign.length - digits.length) 48 ++ digits

/-- `gmtime`: year, month and day of a number of days since the epoch. Years begin in March. -/
def civil (days : Int) : Int × Int × Int :=
  let days := days + 719468
  let era := days / 146097
  let dayOfEra := days % 146097
  let yearOfEra := (dayOfEra - dayOfEra / 1460 + dayOfEra / 36524 - dayOfEra / 146096) / 365
  let dayOfYear := dayOfEra - (365 * yearOfEra + yearOfEra / 4 - yearOfEra / 100)
  let month := (5 * dayOfYear + 2) / 153
  let day := dayOfYear - (153 * month + 2) / 5 + 1
  let january := if month < 10 then month + 3 else month - 9
  (yearOfEra + era * 400 + if january ≤ 2 then 1 else 0, january, day)

def dateFormat (time : Int) : Bytes :=
  let (year, month, day) := civil (time / 86400)
  zeroPadded 4 year ++ ascii "-" ++ zeroPadded 2 month ++ ascii "-" ++ zeroPadded 2 day ++
    ascii "T" ++ zeroPadded 2 (time % 86400 / 3600) ++ ascii ":" ++
    zeroPadded 2 (time % 3600 / 60) ++ ascii ":" ++ zeroPadded 2 (time % 60)

def fromTime (time : Int) : Bytes :=
  dateFormat (time.tdiv 1000000000) ++ ascii "." ++
    zeroPadded 3 ((time.tdiv 1000000).tmod 1000) ++ ascii "Z"

theorem toLower_toLower (c : UInt8) :
    StringUtil.toLower (StringUtil.toLower c) = StringUtil.toLower c := by
  unfold StringUtil.toLower
  split
  · rename_i h
    have hadd : (c + 32).toNat = c.toNat + 32 := by
      have : c.toNat ≤ 90 := h.2
      rw [UInt8.toNat_add]
      exact Nat.mod_eq_of_lt (by simp only [UInt8.reduceToNat]; omega)
    rw [if_neg]
    rintro ⟨-, hle⟩
    have hle : (c + 32).toNat ≤ 90 := hle
    have hge : 65 ≤ c.toNat := h.1
    omega
  · rfl

def lowerCase (newString : Bytes) : LowerCaseString where
  get := newString.map StringUtil.toLower
  lower := by
    rw [List.map_map]
    exact List.map_congr_left fun c _ => toLower_toLower c

/-- Under the constructor, `main_header` and `alternative_header` are lowered. -/
structure HeaderFormatter where
  mainHeader : LowerCaseString
  alternativeHeader : LowerCaseString
  maxLength : Option Nat
  deriving DecidableEq

def HeaderFormatter.new (mainHeader alternativeHeader : Bytes) (maxLength : Option Nat) :
    HeaderFormatter := ⟨lowerCase mainHeader, lowerCase alternativeHeader, maxLength⟩

def HeaderFormatter.header (f : HeaderFormatter) (headers : HeaderMap) : Option HeaderEntry :=
  match headers.get f.mainHeader with
  | some header => some header
  | none => if f.alternativeHeader.get ≠ [] then headers.get f.alternativeHeader else none

def HeaderFormatter.format (f : HeaderFormatter) (headers : HeaderMap) : Bytes :=
  let headerValueString := match f.header headers with
    | none => ascii "-"
    | some header => header.value.cStr
  match f.maxLength with
  | some maxLength =>
    if maxLength < headerValueString.length then headerValueString.take maxLength
    else headerValueString
  | none => headerValueString

inductive Field where
  | startTime
  | requestDuration
  | responseDuration
  | bytesReceived
  | protocol
  | responseCode
  | bytesSent
  | duration
  | responseFlags
  | upstreamHost
  | upstreamCluster
  deriving DecidableEq

def protocolToString : Protocol → Bytes
  | .http10 => ascii "HTTP/1.0"
  | .http11 => ascii "HTTP/1.1"
  | .http2 => ascii "HTTP/2"

def milliseconds (duration : Int) : Int := duration.tdiv 1000

def Field.extract (field : Field) (info : RequestInfo) : Bytes :=
  match field with
  | .startTime => fromTime info.startTime
  | .requestDuration => formatInt (milliseconds info.requestReceivedDuration)
  | .responseDuration => formatInt (milliseconds info.responseReceivedDuration)
  | .bytesReceived => decimal info.bytesReceived.toNat
  | .protocol => protocolToString info.protocol
  | .responseCode =>
    match info.responseCode with
    | some code => decimal code.toNat
    | none => ascii "0"
  | .bytesSent => decimal info.bytesSent.toNat
  | .duration => formatInt (milliseconds info.duration)
  | .responseFlags => toShortString info
  | .upstreamHost =>
    match info.upstreamHost with
    | some host => host.address
    | none => ascii "-"
  | .upstreamCluster =>
    let upstreamClusterName := match info.upstreamHost with
      | some host => host.cluster
      | none => []
    if upstreamClusterName = [] then ascii "-" else upstreamClusterName

def Field.parse (fieldName : Bytes) : Except Bytes Field :=
  if fieldName = ascii "START_TIME" then .ok .startTime
  else if fieldName = ascii "REQUEST_DURATION" then .ok .requestDuration
  else if fieldName = ascii "RESPONSE_DURATION" then .ok .responseDuration
  else if fieldName = ascii "BYTES_RECEIVED" then .ok .bytesReceived
  else if fieldName = ascii "PROTOCOL" then .ok .protocol
  else if fieldName = ascii "RESPONSE_CODE" then .ok .responseCode
  else if fieldName = ascii "BYTES_SENT" then .ok .bytesSent
  else if fieldName = ascii "DURATION" then .ok .duration
  else if fieldName = ascii "RESPONSE_FLAGS" then .ok .responseFlags
  else if fieldName = ascii "UPSTREAM_HOST" then .ok .upstreamHost
  else if fieldName = ascii "UPSTREAM_CLUSTER" then .ok .upstreamCluster
  else .error (ascii "Not supported field in RequestInfo: " ++ fieldName)

inductive Formatter where
  | plainString (str : Bytes)
  | requestHeader (header : HeaderFormatter)
  | responseHeader (header : HeaderFormatter)
  | requestInfo (field : Field)
  deriving DecidableEq

def Formatter.format (f : Formatter) (requestHeaders responseHeaders : HeaderMap)
    (info : RequestInfo) : Bytes :=
  match f with
  | .plainString str => str
  | .requestHeader header => header.format requestHeaders
  | .responseHeader header => header.format responseHeaders
  | .requestInfo field => field.extract info

def format (formatters : List Formatter) (requestHeaders responseHeaders : HeaderMap)
    (info : RequestInfo) : Bytes :=
  formatters.flatMap fun f => f.format requestHeaders responseHeaders info

def find (c : UInt8) (s : Bytes) (start : Nat) : Option Nat :=
  ((s.drop start).findIdx? fun b => b = c).map (start + ·)

def substr (s : Bytes) (start length : Nat) : Bytes := (s.drop start).take length

/-- `errno` is what earlier calls of `atoul` left. -/
def parseCommand (errno : Bool) (token : Bytes) (start : Nat) : Except Bytes HeaderFormatter :=
  match find 41 token start with
  | none => .error (ascii "Closing bracket is missing in token: " ++ token)
  | some endRequest => do
    let maxLength : Option Nat ←
      if endRequest = token.length - 1 then .ok none
      else if token[endRequest + 1]? ≠ some 58 then
        .error (ascii "Incorrect position of ')' in token: " ++ token)
      else
        let lengthStr := token.drop (endRequest + 2)
        match StringUtil.atoul errno lengthStr 10 with
        | some lengthValue => .ok (some lengthValue)
        | none => .error (ascii "Length must be an integer, given: " ++ lengthStr)
    let headerName := substr token start (endRequest - start)
    match find 63 headerName 0 with
    | none => .ok (.new headerName [] maxLength)
    | some separator =>
      .ok (.new (headerName.take separator)
        (substr headerName (separator + 1) (endRequest - separator - 1)) maxLength)

def parseToken (errno : Bool) (token : Bytes) : Except Bytes Formatter :=
  if (ascii "REQ(").isPrefixOf token then (parseCommand errno token 4).map .requestHeader
  else if (ascii "RESP(").isPrefixOf token then (parseCommand errno token 5).map .responseHeader
  else (Field.parse token).map .requestInfo

def plain (currentToken : Bytes) : List Formatter :=
  if currentToken = [] then [] else [.plainString currentToken]

/-- The loop of `parse`, which makes one step for each byte of the format at most. -/
def parseFrom (errno : Bool) (format : Bytes) :
    Nat → Nat → Bytes → Except Bytes (List Formatter)
  | 0, _, currentToken => .ok (plain currentToken)
  | steps + 1, pos, currentToken =>
    match format[pos]? with
    | none => .ok (plain currentToken)
    | some 37 =>
      match find 37 format (pos + 1) with
      | none => .error (ascii "Incorrect configuration: " ++ format ++
          ascii ". Expected end of operation '%', around position " ++ decimal pos)
      | some commandEndPosition => do
        let token := substr format (pos + 1) (commandEndPosition - (pos + 1))
        let formatter ← parseToken errno token
        let formatters ← parseFrom errno format steps (commandEndPosition + 1) []
        .ok (plain currentToken ++ formatter :: formatters)
    | some c => parseFrom errno format steps (pos + 1) (currentToken ++ [c])

def parse (errno : Bool) (format : Bytes) : Except Bytes (List Formatter) :=
  parseFrom errno format format.length 0 []

def defaultFormat : Bytes :=
  ascii "[%START_TIME%] \"%REQ(:METHOD)% %REQ(X-ENVOY-ORIGINAL-PATH?:PATH)% %PROTOCOL%\" " ++
  ascii "%RESPONSE_CODE% %RESPONSE_FLAGS% %BYTES_RECEIVED% %BYTES_SENT% %DURATION% " ++
  ascii "%RESP(X-ENVOY-UPSTREAM-SERVICE-TIME)% " ++
  ascii "\"%REQ(X-FORWARDED-FOR)%\" \"%REQ(USER-AGENT)%\" \"%REQ(X-REQUEST-ID)%\" " ++
  ascii "\"%REQ(:AUTHORITY)%\" \"%UPSTREAM_HOST%\"\n"

def methodHeader : HeaderFormatter := .new (ascii ":METHOD") [] none

def pathHeader : HeaderFormatter := .new (ascii "X-ENVOY-ORIGINAL-PATH") (ascii ":PATH") none

def upstreamServiceTime : HeaderFormatter := .new (ascii "X-ENVOY-UPSTREAM-SERVICE-TIME") [] none

def xForwardedFor : HeaderFormatter := .new (ascii "X-FORWARDED-FOR") [] none

def userAgent : HeaderFormatter := .new (ascii "USER-AGENT") [] none

def requestId : HeaderFormatter := .new (ascii "X-REQUEST-ID") [] none

def authority : HeaderFormatter := .new (ascii ":AUTHORITY") [] none

def defaultFormatters : List Formatter :=
  [.plainString (ascii "["), .requestInfo .startTime, .plainString (ascii "] \""),
   .requestHeader methodHeader, .plainString (ascii " "),
   .requestHeader pathHeader, .plainString (ascii " "),
   .requestInfo .protocol, .plainString (ascii "\" "),
   .requestInfo .responseCode, .plainString (ascii " "),
   .requestInfo .responseFlags, .plainString (ascii " "),
   .requestInfo .bytesReceived, .plainString (ascii " "),
   .requestInfo .bytesSent, .plainString (ascii " "),
   .requestInfo .duration, .plainString (ascii " "),
   .responseHeader upstreamServiceTime, .plainString (ascii " \""),
   .requestHeader xForwardedFor, .plainString (ascii "\" \""),
   .requestHeader userAgent, .plainString (ascii "\" \""),
   .requestHeader requestId, .plainString (ascii "\" \""),
   .requestHeader authority, .plainString (ascii "\" \""),
   .requestInfo .upstreamHost, .plainString (ascii "\"\n")]

theorem parse_defaultFormat (errno : Bool) : parse errno defaultFormat = .ok defaultFormatters := by
  cases errno <;> decide +kernel

end Meliproxy.Envoy.Http.AccessLog
