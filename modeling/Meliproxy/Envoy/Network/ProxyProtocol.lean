import Meliproxy.Envoy.Common.StringUtil
import Meliproxy.Envoy.Network.CidrRange

/-!
# The PROXY protocol

`network/proxy_protocol.cc` reads the first line of a connection and leaves the rest to the
connection itself. It peeks at what has arrived, looks for the end of the line, and then takes
what it has looked at. The socket is the bytes that are still to come and how many of them each
peek gives.
-/

namespace Meliproxy.Envoy.Network

open Lib List

namespace Utility

def rfind (needle : Bytes) : Bytes → Option (Bytes × Bytes)
  | [] => none
  | c :: s =>
    match rfind needle s with
    | some (before, after) => some (c :: before, after)
    | none =>
      if needle.isPrefixOf (c :: s) then some ([], (c :: s).drop needle.length) else none

/-- `errno` only matters to `atoul` at `ULONG_MAX`, which is not a port. -/
def parsePort (portStr : Bytes) : Option Nat :=
  if portStr = [] then none
  else (StringUtil.atoul false portStr 10).filter (· ≤ 65535)

def ipv4OfOctets : List Nat → Option Ip
  | [a, b, c, d] => some (.v4 ⟨a.toUInt8, b.toUInt8, c.toUInt8, d.toUInt8⟩)
  | _ => none

def ipv6OfBytes (bytes : List Nat) : Option Ip :=
  if h : (bytes.map Nat.toUInt8).length = 16 then some (.v6 ⟨bytes.map Nat.toUInt8, h⟩) else none

def parseInternetAddressAndPort (ipAddress : Bytes) : Except Bytes (Ip × Nat) :=
  let parsed : Option (Ip × Nat) :=
    if ipAddress.head? = some 91 then do
      let (before, portStr) ← rfind [93, 58] ipAddress
      let port ← parsePort portStr
      let ip ← inetPton6 (cStr (before.drop 1)) >>= ipv6OfBytes
      return (ip, port)
    else do
      let (ipStr, portStr) ← rfind [58] ipAddress
      let port ← parsePort portStr
      let ip ← inetPton4 (cStr ipStr) >>= ipv4OfOctets
      return (ip, port)
  match parsed with
  | some address => .ok address
  | none => .error (ascii "malformed IP address: " ++ ipAddress)

end Utility

def Ip.isAnyAddress : Ip → Bool
  | .v4 address => address = ⟨0, 0, 0, 0⟩
  | .v6 address => address = anyV6

def Ip.isUnicastAddress : Ip → Bool
  | .v4 address =>
    !(Ip.v4 address).isAnyAddress && address ≠ ⟨255, 255, 255, 255⟩ && address.a &&& 0xf0 ≠ 0xe0
  | .v6 address => !(Ip.v6 address).isAnyAddress && address.bytes.head? ≠ some 0xff

namespace ProxyProtocol

def MAX_PROXY_PROTO_LEN : Nat := 108

/-- `buf` is the part of `buf_` that has been read, as far as `buf_off_`. -/
structure ActiveConnection where
  buf : Bytes
  searchIndex : Nat

def ActiveConnection.new : ActiveConnection := ⟨[], 1⟩

/-- The search for the end of the line in `buf_`, from `searchIndex` on. -/
def searchLine (buf : Bytes) : Nat → Nat → Nat × Bool
  | 0, searchIndex => (searchIndex, false)
  | fuel + 1, searchIndex =>
    if searchIndex < buf.length then
      if buf[searchIndex]? = some 10 ∧ buf[searchIndex - 1]? = some 13 then (searchIndex + 1, true)
      else searchLine buf fuel (searchIndex + 1)
    else (searchIndex, false)

inductive ReadLine where
  | again
  | line (s : Bytes)
  | failed

/-- A peek gives up to so many bytes and one more, and nothing at the end of the stream. When there
are no more peeks the next one is `EAGAIN`. -/
def readLine (this : ActiveConnection) (stream : Bytes) :
    List Nat → ReadLine × ActiveConnection × Bytes
  | [] => (if this.buf.length < MAX_PROXY_PROTO_LEN then .again else .failed, this, stream)
  | n :: peeks =>
    if this.buf.length < MAX_PROXY_PROTO_LEN then
      let peeked := stream.take (min (n + 1) (MAX_PROXY_PROTO_LEN - this.buf.length))
      if peeked = [] then (.failed, this, stream)
      else
        let (searchIndex, found) :=
          searchLine (this.buf ++ peeked) MAX_PROXY_PROTO_LEN this.searchIndex
        let nread := searchIndex - this.buf.length
        let this : ActiveConnection := ⟨this.buf ++ stream.take nread, searchIndex⟩
        if found then (.line this.buf, this, stream.drop nread)
        else readLine this (stream.drop nread) peeks
    else (.failed, this, stream)

def failedToRead : Bytes := ascii "failed to read proxy protocol"

def parseAddresses (protocolVersion : IpVersion) (remote local' : Bytes) :
    Except Bytes ((Ip × Nat) × Ip × Nat) := do
  let remoteAddress ← Utility.parseInternetAddressAndPort remote
  let localAddress ← Utility.parseInternetAddressAndPort local'
  if remoteAddress.1.version ≠ protocolVersion ∨ localAddress.1.version ≠ protocolVersion then
    throw failedToRead
  if !remoteAddress.1.isUnicastAddress || !localAddress.1.isUnicastAddress then
    throw failedToRead
  return (remoteAddress, localAddress)

/-- What `onReadWorker` does with a line. The pieces keep the empty ones. -/
def parseLine (proxyLine : Bytes) : Except Bytes ((Ip × Nat) × Ip × Nat) :=
  match StringUtil.splitLoop [32] 0 [] (StringUtil.rtrim proxyLine) with
  | [proxy, protocol, source, destination, sourcePort, destinationPort] =>
    if proxy ≠ ascii "PROXY" then throw failedToRead
    else if protocol = ascii "TCP4" then
      parseAddresses .v4 (source ++ ascii ":" ++ sourcePort)
        (destination ++ ascii ":" ++ destinationPort)
    else if protocol = ascii "TCP6" then
      parseAddresses .v6 (ascii "[" ++ source ++ ascii "]:" ++ sourcePort)
        (ascii "[" ++ destination ++ ascii "]:" ++ destinationPort)
    else throw failedToRead
  | _ => throw failedToRead

/-- `closed` keeps what the exception said that `onRead` caught. -/
inductive Outcome where
  | pending
  | newConnection (remoteAddress localAddress : Ip × Nat)
  | closed (what : Bytes)

def outcomeOf : ReadLine → Outcome
  | .again => .pending
  | .line proxyLine =>
    match parseLine proxyLine with
    | .ok (remoteAddress, localAddress) => .newConnection remoteAddress localAddress
    | .error what => .closed what
  | .failed => .closed failedToRead

def onRead (this : ActiveConnection) (stream : Bytes) (peeks : List Nat) :
    Outcome × ActiveConnection × Bytes :=
  let (read, this, stream) := readLine this stream peeks
  (outcomeOf read, this, stream)

/-- The events of a connection, each with its peeks. After an outcome there are no more. -/
def onReads (this : ActiveConnection) (stream : Bytes) : List (List Nat) → Outcome × Bytes
  | [] => (.pending, stream)
  | peeks :: events =>
    match onRead this stream peeks with
    | (.pending, this, stream) => onReads this stream events
    | (outcome, _, stream) => (outcome, stream)

variable (stream : Bytes)

/-- The stream has a CR LF in front of its byte number `k`. -/
def IsLineEnd (k : Nat) : Prop :=
  2 ≤ k ∧ stream[k - 2]? = some 13 ∧ stream[k - 1]? = some 10

instance (k : Nat) : Decidable (IsLineEnd stream k) :=
  inferInstanceAs (Decidable (_ ∧ _))

def lineLength : Option Nat :=
  (List.range (MAX_PROXY_PROTO_LEN + 1)).find? fun k => IsLineEnd stream k

def offered (peeks : List Nat) : Nat := (peeks.map (· + 1)).sum

def arrived (peeks : List Nat) : Nat := min (offered peeks) stream.length

def peeksPastEnd : Nat → List Nat → Bool
  | _, [] => false
  | left, n :: peeks => left = 0 || peeksPastEnd (left - (n + 1)) peeks

/-- The outcome and the rest of the stream, as the first line alone decides them. -/
def lineOutcome (peeks : List Nat) : Outcome × Bytes :=
  match lineLength stream with
  | some k =>
    if arrived stream peeks < k then (.pending, stream.drop (arrived stream peeks))
    else (outcomeOf (.line (stream.take k)), stream.drop k)
  | none =>
    if arrived stream peeks < MAX_PROXY_PROTO_LEN ∧ peeksPastEnd stream.length peeks = false then
      (.pending, stream.drop (arrived stream peeks))
    else (.closed failedToRead, stream.drop MAX_PROXY_PROTO_LEN)

variable {buf : Bytes} {fuel searchIndex k : Nat}

theorem searchLine_found (hpos : 1 ≤ searchIndex) (hk : IsLineEnd buf k) (hlt : searchIndex < k)
    (hfuel : k ≤ searchIndex + fuel) (hfirst : ∀ j < k, ¬ IsLineEnd buf j) :
    searchLine buf fuel searchIndex = (k, true) := by
  induction fuel generalizing searchIndex with
  | zero => omega
  | succ fuel ih =>
    have hlength : k - 1 < buf.length := (List.getElem?_eq_some_iff.mp hk.2.2).1
    rw [searchLine, if_pos (by omega)]
    by_cases hnext : k = searchIndex + 1
    · subst hnext
      rw [if_pos ⟨hk.2.2, hk.2.1⟩]
    · have hnot := hfirst (searchIndex + 1) (by omega)
      rw [if_neg fun h => hnot ⟨by omega, h.2, h.1⟩]
      apply ih <;> omega

theorem searchLine_notFound (hpos : 1 ≤ searchIndex) (hle : searchIndex ≤ buf.length)
    (hfuel : buf.length ≤ searchIndex + fuel) (hnone : ∀ j, ¬ IsLineEnd buf j) :
    searchLine buf fuel searchIndex = (buf.length, false) := by
  induction fuel generalizing searchIndex with
  | zero =>
    obtain rfl : searchIndex = buf.length := by omega
    rfl
  | succ fuel ih =>
    rw [searchLine]
    split
    · rw [if_neg fun h => hnone (searchIndex + 1) ⟨by omega, h.2, h.1⟩]
      apply ih <;> omega
    · obtain rfl : searchIndex = buf.length := by omega
      rfl

variable {stream : Bytes}

theorem isLineEnd_take {m : Nat} : IsLineEnd (stream.take m) k ↔ IsLineEnd stream k ∧ k ≤ m := by
  unfold IsLineEnd
  constructor
  · rintro ⟨h2, hcr, hlf⟩
    have hm : k - 1 < m := by
      have := (List.getElem?_eq_some_iff.mp hlf).1
      rw [length_take] at this
      omega
    rw [getElem?_take_of_lt (by omega)] at hcr hlf
    exact ⟨⟨h2, hcr, hlf⟩, by omega⟩
  · rintro ⟨⟨h2, hcr, hlf⟩, hle⟩
    refine ⟨h2, ?_, ?_⟩
    · rwa [getElem?_take_of_lt (by omega)]
    · rwa [getElem?_take_of_lt (by omega)]

theorem IsLineEnd.le_length (h : IsLineEnd stream k) : k ≤ stream.length := by
  have := (List.getElem?_eq_some_iff.mp h.2.2).1
  omega

theorem lineLength_eq_some : lineLength stream = some k ↔
      IsLineEnd stream k ∧ k ≤ MAX_PROXY_PROTO_LEN ∧ ∀ j < k, ¬ IsLineEnd stream j := by
  simp only [lineLength, find?_range_eq_some, mem_range, Nat.lt_succ_iff,
    decide_eq_true_eq, Bool.not_eq_true', decide_eq_false_iff_not]

theorem lineLength_eq_none :
    lineLength stream = none ↔ ∀ k ≤ MAX_PROXY_PROTO_LEN, ¬ IsLineEnd stream k := by
  simp only [lineLength, find?_range_eq_none, Nat.lt_succ_iff, Bool.not_eq_true',
    decide_eq_false_iff_not]

def ActiveConnection.readTo (stream : Bytes) (off : Nat) : ActiveConnection :=
  ⟨stream.take off, max 1 off⟩

def peekTo (stream : Bytes) (off n : Nat) : Nat :=
  min (off + min (n + 1) (MAX_PROXY_PROTO_LEN - off)) stream.length

theorem readTo_buf_length {off : Nat} (hlen : off ≤ stream.length) :
    (ActiveConnection.readTo stream off).buf.length = off := by
  simp [ActiveConnection.readTo, hlen]

theorem readTo_append_peek (stream : Bytes) (off n : Nat) :
    (ActiveConnection.readTo stream off).buf ++
      (stream.drop off).take (min (n + 1) (MAX_PROXY_PROTO_LEN - off)) =
      stream.take (peekTo stream off n) := by
  rw [peekTo, ← take_eq_take_min, take_add]
  rfl

section Turn

variable {stream : Bytes} {off : Nat} (hoff : off < MAX_PROXY_PROTO_LEN)
  (hlen : off < stream.length) (n : Nat) (peeks : List Nat)
include hoff hlen

theorem lt_peekTo : off < peekTo stream off n := by
  simp only [peekTo]
  omega

theorem readLine_turn {searchIndex : Nat} {found : Bool}
    (hsearch : searchLine (stream.take (peekTo stream off n)) MAX_PROXY_PROTO_LEN (max 1 off) =
      (searchIndex, found)) (hle : off ≤ searchIndex) (hpos : 1 ≤ searchIndex) :
    readLine (.readTo stream off) (stream.drop off) (n :: peeks) = if found then
        (.line (stream.take searchIndex), .readTo stream searchIndex, stream.drop searchIndex)
      else readLine (.readTo stream searchIndex) (stream.drop searchIndex) peeks := by
  have hbuf := readTo_buf_length hlen.le
  have hpeek : (stream.drop off).take (min (n + 1) (MAX_PROXY_PROTO_LEN - off)) ≠ [] := by
    intro h
    have := congrArg List.length h
    rw [length_take, length_drop, length_nil] at this
    omega
  have hread : (⟨stream.take searchIndex, searchIndex⟩ : ActiveConnection) =
      .readTo stream searchIndex := by
    rw [ActiveConnection.readTo, Nat.max_eq_right hpos]
  have htake : (ActiveConnection.readTo stream off).buf ++
      (stream.drop off).take (searchIndex - off) = stream.take searchIndex := by
    have := take_add (l := stream) (i := off) (j := searchIndex - off)
    rw [Nat.add_sub_cancel' hle] at this
    exact this.symm
  have hdrop : (stream.drop off).drop (searchIndex - off) = stream.drop searchIndex := by
    rw [drop_drop, Nat.add_sub_cancel' hle]
  rw [readLine, hbuf, if_pos hoff]
  simp only [if_neg hpeek, readTo_append_peek]
  rw [show (ActiveConnection.readTo stream off).searchIndex = max 1 off from rfl, hsearch]
  simp only [htake, hdrop, hread]

theorem readLine_found {k : Nat} (hk : lineLength stream = some k) (hlt : off < k)
    (hle : k ≤ peekTo stream off n) : readLine (.readTo stream off) (stream.drop off) (n :: peeks) =
      (.line (stream.take k), .readTo stream k, stream.drop k) := by
  obtain ⟨hend, hmax, hfirst⟩ := lineLength_eq_some.mp hk
  have h2 : 2 ≤ k := hend.1
  have hsearch : searchLine (stream.take (peekTo stream off n)) MAX_PROXY_PROTO_LEN (max 1 off) =
      (k, true) := by
    apply searchLine_found
    · omega
    · exact isLineEnd_take.mpr ⟨hend, hle⟩
    · omega
    · omega
    · intro j hj hj'
      exact hfirst j hj (isLineEnd_take.mp hj').1
  exact readLine_turn hoff hlen n peeks hsearch hlt.le (by omega)

theorem readLine_notFound (hnone : ∀ k ≤ peekTo stream off n, ¬ IsLineEnd stream k) :
    readLine (.readTo stream off) (stream.drop off) (n :: peeks) =
      readLine (.readTo stream (peekTo stream off n)) (stream.drop (peekTo stream off n))
        peeks := by
  have hlt := lt_peekTo hoff hlen n
  have hlength : (stream.take (peekTo stream off n)).length = peekTo stream off n := by
    rw [length_take, peekTo]
    omega
  have hmax : peekTo stream off n ≤ MAX_PROXY_PROTO_LEN := by
    simp only [peekTo]
    omega
  have hsearch : searchLine (stream.take (peekTo stream off n)) MAX_PROXY_PROTO_LEN (max 1 off) =
      (peekTo stream off n, false) := by
    rw [searchLine_notFound, hlength]
    · omega
    · omega
    · omega
    · intro j hj
      obtain ⟨hj, hle⟩ := isLineEnd_take.mp hj
      exact hnone j hle hj
  exact readLine_turn hoff hlen n peeks hsearch hlt.le (by omega)

end Turn

def arrivedFrom (stream : Bytes) (off : Nat) (peeks : List Nat) : Nat :=
  min (off + offered peeks) stream.length

@[simp] theorem offered_cons (n : Nat) (peeks : List Nat) :
    offered (n :: peeks) = n + 1 + offered peeks := by
  simp [offered]

variable {off : Nat}

variable {stream : Bytes}

theorem arrivedFrom_nil (hlen : off ≤ stream.length) :
    arrivedFrom stream off [] = off := by
  simp [arrivedFrom, offered, hlen]

theorem readLine_line {k : Nat} (hk : lineLength stream = some k)
    (peeks : List Nat) (hoff : off < k) : readLine (.readTo stream off) (stream.drop off) peeks =
      if arrivedFrom stream off peeks < k then
        (.again, .readTo stream (arrivedFrom stream off peeks),
          stream.drop (arrivedFrom stream off peeks))
      else (.line (stream.take k), .readTo stream k, stream.drop k) := by
  obtain ⟨hend, hmax, hfirst⟩ := lineLength_eq_some.mp hk
  have hlength : k ≤ stream.length := hend.le_length
  induction peeks generalizing off with
  | nil =>
    rw [readLine, readTo_buf_length (by omega), if_pos (by omega), arrivedFrom_nil (by omega),
      if_pos hoff]
  | cons n peeks ih =>
    by_cases hle : k ≤ peekTo stream off n
    · have hfrom : ¬ arrivedFrom stream off (n :: peeks) < k := by
        simp only [arrivedFrom, peekTo, offered_cons] at hle ⊢
        omega
      rw [readLine_found (by omega) (by omega) n peeks hk hoff hle, if_neg hfrom]
    · have hfrom : arrivedFrom stream off (n :: peeks) =
          arrivedFrom stream (peekTo stream off n) peeks := by
        simp only [arrivedFrom, peekTo, offered_cons] at hle ⊢
        omega
      have hnone : ∀ j ≤ peekTo stream off n, ¬ IsLineEnd stream j := by
        intro j hj
        apply hfirst
        omega
      rw [readLine_notFound (by omega) (by omega) n peeks hnone, hfrom]
      apply ih
      omega

theorem readLine_noLine (hnone : lineLength stream = none) (peeks : List Nat)
    (hoff : off ≤ MAX_PROXY_PROTO_LEN) (hlen : off ≤ stream.length) :
    (fun read => (read.1, read.2.2)) (readLine (.readTo stream off) (stream.drop off) peeks) =
      if arrivedFrom stream off peeks < MAX_PROXY_PROTO_LEN ∧
          peeksPastEnd (stream.length - off) peeks = false then
        (.again, stream.drop (arrivedFrom stream off peeks))
      else (.failed, stream.drop MAX_PROXY_PROTO_LEN) := by
  induction peeks generalizing off with
  | nil =>
    simp only [readLine, readTo_buf_length hlen, arrivedFrom_nil hlen, peeksPastEnd, and_true]
    split
    · rfl
    · rw [Nat.le_antisymm hoff (by omega)]
  | cons n peeks ih =>
    by_cases hfull : off = MAX_PROXY_PROTO_LEN
    · have hfrom : ¬ arrivedFrom stream off (n :: peeks) < MAX_PROXY_PROTO_LEN := by
        simp only [arrivedFrom]
        omega
      rw [readLine, readTo_buf_length hlen, if_neg (by omega), if_neg fun h => hfrom h.1, hfull]
    by_cases hend : off = stream.length
    · have hrest : ∀ m, stream.length ≤ m → stream.drop m = [] := fun m => drop_of_length_le
      rw [readLine, readTo_buf_length hlen, if_pos (by omega), hrest off (by omega),
        hrest MAX_PROXY_PROTO_LEN (by omega)]
      simp [peeksPastEnd, hend]
    have hpast : peeksPastEnd (stream.length - off) (n :: peeks) =
        peeksPastEnd (stream.length - off - (n + 1)) peeks := by
      rw [peeksPastEnd, decide_eq_false (by omega), Bool.false_or]
    have hmax : peekTo stream off n ≤ MAX_PROXY_PROTO_LEN := by
      simp only [peekTo]
      omega
    have hlast : peekTo stream off n ≤ stream.length := Nat.min_le_right _ _
    have hbefore : ∀ k ≤ peekTo stream off n, ¬ IsLineEnd stream k := by
      intro k hk
      exact lineLength_eq_none.mp hnone k (hk.trans hmax)
    rw [readLine_notFound (by omega) (by omega) n peeks hbefore, ih hmax hlast, hpast]
    by_cases hstop : peekTo stream off n = MAX_PROXY_PROTO_LEN
    · -- The buffer is full, whatever else comes.
      have hfrom : ¬ arrivedFrom stream off (n :: peeks) < MAX_PROXY_PROTO_LEN := by
        simp only [arrivedFrom, peekTo, offered_cons] at hstop ⊢
        omega
      have hnext : ¬ arrivedFrom stream (peekTo stream off n) peeks < MAX_PROXY_PROTO_LEN := by
        rw [arrivedFrom, hstop]
        omega
      rw [if_neg fun h => hnext h.1, if_neg fun h => hfrom h.1]
    · have hfrom : arrivedFrom stream off (n :: peeks) =
          arrivedFrom stream (peekTo stream off n) peeks := by
        simp only [arrivedFrom, peekTo, offered_cons] at hstop ⊢
        omega
      have hleft : stream.length - off - (n + 1) = stream.length - peekTo stream off n := by
        simp only [peekTo] at hstop ⊢
        omega
      rw [hfrom, hleft]

variable {this : ActiveConnection}

theorem readLine_again {this' : ActiveConnection} {stream stream' : Bytes} {peeks : List Nat}
    (h : readLine this stream peeks = (.again, this', stream')) :
    this'.buf.length < MAX_PROXY_PROTO_LEN := by
  induction peeks generalizing this stream with
  | nil =>
    rw [readLine] at h
    split at h
    · cases h
      assumption
    · cases h
  | cons n peeks ih =>
    rw [readLine] at h
    split at h
    · simp only at h
      split at h
      · cases h
      · split at h
        · cases h
        · exact ih h
    · cases h

theorem readLine_append (this : ActiveConnection) (stream : Bytes) (peeks more : List Nat) :
    readLine this stream (peeks ++ more) =
      match readLine this stream peeks with
      | (.again, this, stream) => readLine this stream more | read => read := by
  induction peeks generalizing this stream with
  | nil =>
    rw [nil_append, readLine]
    by_cases hfull : this.buf.length < MAX_PROXY_PROTO_LEN
    · rw [if_pos hfull]
    · rw [if_neg hfull]
      cases more with
      | nil | cons => rw [readLine, if_neg hfull]
  | cons n peeks ih =>
    rw [cons_append, readLine, readLine]
    split
    · simp only
      split
      · rfl
      · split
        · rfl
        · exact ih _ _
    · rfl

theorem outcomeOf_eq_pending {read : ReadLine} (h : outcomeOf read = .pending) : read = .again := by
  cases read with
  | again => rfl
  | failed => cases h
  | line s =>
    simp only [outcomeOf] at h
    split at h <;> cases h

theorem onReads_flatten (stream : Bytes) (events : List (List Nat))
    (h : this.buf.length < MAX_PROXY_PROTO_LEN) : onReads this stream events =
      (fun read => (outcomeOf read.1, read.2.2)) (readLine this stream events.flatten) := by
  induction events generalizing this stream with
  | nil => simp [onReads, readLine, h, outcomeOf]
  | cons peeks events ih =>
    rw [flatten_cons, readLine_append, onReads, onRead]
    rcases hread : readLine this stream peeks with ⟨read, this', stream'⟩
    cases read with
    | again => exact ih stream' (readLine_again hread)
    | failed => rfl
    | line s =>
      simp only
      cases houtcome : outcomeOf (.line s) with
      | pending => cases outcomeOf_eq_pending houtcome
      | newConnection | closed => rfl

/-- However the stream is cut into events and peeks, its first line alone decides. -/
theorem onReads_segmentation (stream : Bytes) (events : List (List Nat)) :
    onReads .new stream events = lineOutcome stream events.flatten := by
  have hnew : ActiveConnection.new = .readTo stream 0 := rfl
  have hfrom : arrivedFrom stream 0 events.flatten = arrived stream events.flatten := by
    rw [arrivedFrom, Nat.zero_add, arrived]
  rw [onReads_flatten stream events (by decide), lineOutcome]
  cases hline : lineLength stream with
  | some k =>
    have h2 : 0 < k := Nat.zero_lt_of_lt (lineLength_eq_some.mp hline).1.1
    have hread := readLine_line hline events.flatten h2
    rw [hfrom, drop_zero, ← hnew] at hread
    rw [hread]
    dsimp only
    split <;> rfl
  | none =>
    have hread := readLine_noLine hline events.flatten (Nat.zero_le _) (Nat.zero_le _)
    rw [hfrom, drop_zero, ← hnew, Nat.sub_zero] at hread
    have hmap := congrArg (fun read => (outcomeOf read.1, read.2)) hread
    dsimp only at hmap ⊢
    rw [hmap]
    split <;> rfl

end ProxyProtocol

end Meliproxy.Envoy.Network
