import Meliproxy.Envoy.Common.StringUtil
import Meliproxy.Envoy.Redis.Codec

/-!
# The command splitter

A command is sent to one server as it is, or it is cut into fragments, one for each key,
whose responses are combined. Every fragment is an index into the list of pool handles of
its request, and a request for a single server has the index zero.

The connection pool is a parameter: `available i` says whether it finds a host for the
fragment `i` of the command. It never calls back from inside `makeRequest`.
-/

namespace Meliproxy.Envoy.Redis

open Lib List Option

namespace CommandSplitter

def makeError (error : Bytes) : RespValue := .error error

/-- What the connection pool is asked for: the key that picks the host, and the request. -/
structure Fragment where
  hashKey : Bytes
  request : RespValue

/-- The three kinds of `FragmentedRequest`, with what each has combined so far. -/
inductive Combined where
  | mget (responses : List RespValue)
  | mset
  | splitKeysSumResult (total : Int64)

/-- The `switch` of `MGETRequest::onChildResponse`: the element of the array, and whether
it counts as an error. -/
def mgetChild : RespValue → RespValue × Bool
  | .error s => (.error s, true)
  | .bulkString s => (.bulkString s, false)
  | .null => (.null, false)
  | _ => (.error (ascii "upstream protocol error"), true)

def Combined.add (c : Combined) (value : RespValue) (index : Nat) : Combined × Bool :=
  match c with
  | .mget responses => (.mget (responses.set index (mgetChild value).1), (mgetChild value).2)
  | .mset =>
    match value with
    | .simpleString s => (.mset, s ≠ ascii "OK")
    | _ => (.mset, true)
  | .splitKeysSumResult total =>
    match value with
    | .integer i => (.splitKeysSumResult (total + i), false)
    | _ => (.splitKeysSumResult total, true)

def finishedWithErrors (errorCount : Nat) : RespValue :=
  makeError (ascii "finished with " ++ decimal errorCount ++ ascii " error(s)")

def Combined.response (c : Combined) (errorCount : Nat) : RespValue :=
  match c with
  | .mget responses => .array responses
  | .mset => if errorCount = 0 then .simpleString (ascii "OK") else finishedWithErrors errorCount
  | .splitKeysSumResult total =>
    if errorCount = 0 then .integer total else finishedWithErrors errorCount

/-- `handles` says which of the pending requests still have a pool handle. -/
structure FragmentedRequest where
  combined : Combined
  handles : List Bool
  numPendingResponses : Nat
  errorCount : Nat

def openHandles (handles : List Bool) : List Nat :=
  (List.range handles.length).filter fun i => handles[i]? = some true

namespace FragmentedRequest

/-- `onChildResponse`: the request afterwards, and the value that goes to the callbacks with
the last response. It asserts that a response is pending. -/
def onChildResponse (r : FragmentedRequest) (value : RespValue) (index : Nat) :
    Option (FragmentedRequest × Option RespValue) :=
  if r.numPendingResponses = 0 then none
  else
    let combined := (r.combined.add value index).1
    let errorCount := if (r.combined.add value index).2 then r.errorCount + 1 else r.errorCount
    let numPendingResponses := r.numPendingResponses - 1
    some (⟨combined, r.handles.set index false, numPendingResponses, errorCount⟩,
      if numPendingResponses = 0 then some (combined.response errorCount) else none)

end FragmentedRequest

/-- The object behind a `SplitRequestPtr`. -/
inductive SplitRequest where
  | singleServer (handle : Bool)
  | fragmented (request : FragmentedRequest)

namespace SplitRequest

def openHandles : SplitRequest → List Nat
  | .singleServer handle => if handle then [0] else []
  | .fragmented r => CommandSplitter.openHandles r.handles

/-- The response of the pool to a fragment: the request afterwards, and the value that goes
to the callbacks. -/
def onResponse (r : SplitRequest) (value : RespValue) (index : Nat) :
    Option (SplitRequest × Option RespValue) :=
  match r with
  | .singleServer _ => some (.singleServer false, some value)
  | .fragmented r => (r.onChildResponse value index).map fun (r, answer) => (.fragmented r, answer)

def onFailure (r : SplitRequest) (index : Nat) : Option (SplitRequest × Option RespValue) :=
  r.onResponse (makeError (ascii "upstream failure")) index

/-- The fragments whose handles `cancel` cancels. A request for a single server does not
look whether it has a handle. -/
def cancel : SplitRequest → Option (List Nat)
  | .singleServer handle => if handle then some [0] else none
  | .fragmented r => some (CommandSplitter.openHandles r.handles)

end SplitRequest

/-- What a call of `makeRequest` does: the values it hands to the callbacks before it returns,
the request it returns, and the fragments for which the pool has given a handle. -/
structure Made where
  responses : List RespValue
  request : Option SplitRequest
  sent : List (Nat × Fragment)

def Made.immediate (value : RespValue) : Made := ⟨[value], none, []⟩

def noUpstreamHost : RespValue := makeError (ascii "no upstream host")

def wrongNumberOfArguments (command : Bytes) : RespValue :=
  makeError (ascii "wrong number of arguments for '" ++ command ++ ascii "' command")

variable (available : Nat → Bool)

def createSingle (fragment : Fragment) : Made :=
  if available 0 then ⟨[], some (.singleServer true), [(0, fragment)]⟩
  else .immediate noUpstreamHost

/-- A fragmented request inside `create`. -/
structure Creating where
  request : FragmentedRequest
  responses : List RespValue
  sent : List (Nat × Fragment)

def createChild (c : Creating) (index : Nat) (fragment : Fragment) : Option Creating :=
  let request := { c.request with handles := c.request.handles ++ [available index] }
  if available index then
    some ⟨request, c.responses, c.sent ++ [(index, fragment)]⟩
  else
    (request.onChildResponse noUpstreamHost index).map fun (request, answer) =>
      ⟨request, c.responses ++ answer.toList, c.sent⟩

def createLoop (available : Nat → Bool) : Creating → Nat → List Fragment → Option Creating
  | c, _, [] => some c
  | c, index, fragment :: fragments =>
    (createChild available c index fragment).bind fun c =>
      createLoop available c (index + 1) fragments

def createFragmented (combined : Combined) (numPendingResponses : Nat)
    (fragments : List Fragment) : Option Made :=
  (createLoop available ⟨⟨combined, [], numPendingResponses, 0⟩, [], []⟩ 0 fragments).map fun c =>
    ⟨c.responses, if 0 < c.request.numPendingResponses then some (.fragmented c.request) else none,
      c.sent⟩

def commandOf (words : List Bytes) : RespValue := .array (words.map .bulkString)

/-- A fragment for each key, as `MGETRequest` and `SplitKeysSumResultRequest` make it. -/
def keyFragments (command : Bytes) (keys : List Bytes) : List Fragment :=
  keys.map fun key => ⟨key, commandOf [command, key]⟩

def pairFragments : List Bytes → List Fragment
  | key :: value :: rest => ⟨key, commandOf [ascii "set", key, value]⟩ :: pairFragments rest
  | _ => []

namespace SimpleRequest

def create (available : Nat → Bool) (words : List Bytes) : Option Made :=
  words[1]?.map fun key => createSingle available ⟨key, commandOf words⟩

end SimpleRequest

namespace EvalRequest

def create (available : Nat → Bool) (words : List Bytes) : Option Made :=
  if words.length < 4 then some (.immediate (wrongNumberOfArguments (words.headD [])))
  else words[3]?.map fun key => createSingle available ⟨key, commandOf words⟩

end EvalRequest

namespace MGETRequest

def create (available : Nat → Bool) (words : List Bytes) : Option Made :=
  createFragmented available (.mget (List.replicate (words.length - 1) .null)) (words.length - 1)
    (keyFragments (ascii "get") words.tail)

end MGETRequest

namespace MSETRequest

def create (available : Nat → Bool) (words : List Bytes) : Option Made :=
  if (words.length - 1) % 2 ≠ 0 then some (.immediate (wrongNumberOfArguments (words.headD [])))
  else createFragmented available .mset ((words.length - 1) / 2) (pairFragments words.tail)

end MSETRequest

namespace SplitKeysSumResultRequest

def create (available : Nat → Bool) (words : List Bytes) : Option Made :=
  createFragmented available (.splitKeysSumResult 0) (words.length - 1)
    (keyFragments (words.headD []) words.tail)

end SplitKeysSumResultRequest

namespace SupportedCommands

def simpleCommands : List String :=
  ["append", "bitcount", "bitfield", "bitpos", "decr", "decrby",
   "dump", "expire", "expireat", "geoadd", "geodist", "geohash", "geopos", "get", "getbit",
   "getrange", "getset", "hdel", "hexists", "hget", "hgetall", "hincrby", "hincrbyfloat",
   "hkeys", "hlen", "hmget", "hmset", "hscan", "hset", "hsetnx", "hstrlen", "hvals", "incr",
   "incrby", "incrbyfloat", "lindex", "linsert", "llen", "lpop", "lpush", "lpushx", "lrange",
   "lrem", "lset", "ltrim", "persist", "pexpire", "pexpireat", "psetex", "pttl", "restore",
   "rpop", "rpush", "rpushx", "sadd", "scard", "set", "setbit", "setex", "setnx", "setrange",
   "sismember", "smembers", "spop", "srandmember", "srem", "sscan", "strlen", "ttl", "type",
   "zadd", "zcard", "zcount", "zincrby", "zlexcount", "zrange", "zrangebylex", "zrangebyscore",
   "zrank", "zrem", "zremrangebylex", "zremrangebyrank", "zremrangebyscore", "zrevrange",
   "zrevrangebylex", "zrevrangebyscore", "zrevrank", "zscan", "zscore"]

def evalCommands : List String := ["eval", "evalsha"]

def hashMultipleSumResultCommands : List String := ["del", "exists", "touch", "unlink"]

end SupportedCommands

def toLowerCase (s : Bytes) : Bytes := s.map StringUtil.toLower

def handler (name : Bytes) : Option ((Nat → Bool) → List Bytes → Option Made) :=
  if name ∈ SupportedCommands.simpleCommands.map ascii then some SimpleRequest.create
  else if name ∈ SupportedCommands.evalCommands.map ascii then some EvalRequest.create
  else if name ∈ SupportedCommands.hashMultipleSumResultCommands.map ascii then
    some SplitKeysSumResultRequest.create
  else if name = ascii "mget" then some MGETRequest.create
  else if name = ascii "mset" then some MSETRequest.create
  else none

def bulkStrings : List RespValue → Option (List Bytes)
  | [] => some []
  | .bulkString s :: values => (bulkStrings values).map (s :: ·)
  | _ => none

def invalidRequest : RespValue := makeError (ascii "invalid request")

def unsupportedCommand (command : Bytes) : RespValue :=
  makeError (ascii "unsupported command '" ++ command ++ ascii "'")

def startRequest (words : List Bytes) : Option Made :=
  match handler (toLowerCase (words.headD [])) with
  | none => some (.immediate (unsupportedCommand (words.headD [])))
  | some create => create available words

def makeRequest : RespValue → Option Made
  | .array values =>
    if values.length < 2 then some (.immediate invalidRequest)
    else
      match bulkStrings values with
      | none => some (.immediate invalidRequest)
      | some words => startRequest available words
  | _ => some (.immediate invalidRequest)

section Handles

variable {handles : List Bool} {i : Nat}

theorem mem_openHandles : i ∈ openHandles handles ↔ handles[i]? = some true := by
  simp only [openHandles, mem_filter, mem_range, decide_eq_true_eq]
  constructor
  · intro h
    exact h.2
  · intro h
    obtain ⟨hi, -⟩ := List.getElem?_eq_some_iff.mp h
    exact ⟨hi, h⟩

theorem nodup_openHandles (handles : List Bool) : (openHandles handles).Nodup :=
  nodup_range.filter _

theorem openHandles_concat (handles : List Bool) (b : Bool) :
    openHandles (handles ++ [b]) = openHandles handles ++ if b then [handles.length] else [] := by
  have hold : ∀ j ∈ List.range handles.length,
      decide ((handles ++ [b])[j]? = some true) = decide (handles[j]? = some true) := by
    intro j hj
    rw [getElem?_append_left (mem_range.mp hj)]
  unfold openHandles
  rw [length_append, length_singleton, range_succ, filter_append, filter_congr hold]
  cases b <;> simp

theorem openHandles_set (handles : List Bool) (i : Nat) :
    openHandles (handles.set i false) = (openHandles handles).erase i := by
  rw [(nodup_openHandles handles).erase_eq_filter, openHandles, openHandles, length_set,
    List.filter_filter]
  apply filter_congr
  intro j hj
  rw [getElem?_set]
  by_cases hij : i = j
  · subst hij
    rw [mem_range] at hj
    simp [hj]
  · have hji : j ≠ i := fun h => hij h.symm
    simp [hij, hji]

end Handles

def SplitRequest.Waits : SplitRequest → Prop
  | .singleServer handle => handle = true
  | .fragmented r =>
    r.numPendingResponses = (CommandSplitter.openHandles r.handles).length ∧
      0 < r.numPendingResponses

theorem SplitRequest.nodup_openHandles (r : SplitRequest) : r.openHandles.Nodup := by
  cases r with
  | singleServer handle => cases handle <;> simp [SplitRequest.openHandles]
  | fragmented r => exact CommandSplitter.nodup_openHandles r.handles

variable {r : SplitRequest}

theorem SplitRequest.openHandles_ne_nil (h : r.Waits) : r.openHandles ≠ [] := by
  cases r with
  | singleServer handle =>
    change handle = true at h
    simp [SplitRequest.openHandles, h]
  | fragmented r =>
    intro hnil
    change CommandSplitter.openHandles r.handles = [] at hnil
    obtain ⟨hcount, hpos⟩ := h
    rw [hnil, length_nil] at hcount
    omega

theorem SplitRequest.cancel_eq (h : r.Waits) : r.cancel = some r.openHandles := by
  cases r with
  | singleServer handle =>
    change handle = true at h
    simp [SplitRequest.cancel, SplitRequest.openHandles, h]
  | fragmented r => rfl

theorem SplitRequest.onResponse_spec (h : r.Waits) {i : Nat} (hi : i ∈ r.openHandles)
    (value : RespValue) : ∃ r' answer, r.onResponse value i = some (r', answer) ∧
      r'.openHandles = r.openHandles.erase i ∧
      ((answer = none ∧ r'.Waits) ∨ ((∃ v, answer = some v) ∧ r'.openHandles = [])) := by
  cases r with
  | singleServer handle =>
    change handle = true at h
    subst h
    obtain rfl : i = 0 := by simpa [SplitRequest.openHandles] using hi
    exact ⟨_, _, rfl, rfl, .inr ⟨⟨value, rfl⟩, rfl⟩⟩
  | fragmented r =>
    obtain ⟨hcount, hpos⟩ := h
    change i ∈ CommandSplitter.openHandles r.handles at hi
    have hlength : (CommandSplitter.openHandles (r.handles.set i false)).length =
        r.numPendingResponses - 1 := by
      rw [openHandles_set, length_erase_of_mem hi, hcount]
    have hne : r.numPendingResponses ≠ 0 := by omega
    simp only [SplitRequest.onResponse, FragmentedRequest.onChildResponse, if_neg hne, map_some]
    refine ⟨_, _, rfl, openHandles_set r.handles i, ?_⟩
    by_cases hlast : r.numPendingResponses - 1 = 0
    · rw [if_pos hlast]
      rw [hlast] at hlength
      exact .inr ⟨⟨_, rfl⟩, eq_nil_of_length_eq_zero hlength⟩
    · rw [if_neg hlast]
      refine .inl ⟨rfl, hlength.symm, ?_⟩
      change 0 < r.numPendingResponses - 1
      omega

/-- The outcome of `makeRequest`: the command is answered at once and nothing was sent, or a
request waits for the fragments that were. -/
inductive Made.Proper (m : Made) : Prop
  | answered (value : RespValue) (hresponses : m.responses = [value]) (hrequest : m.request = none)
      (hsent : m.sent = [])
  | waits (r : SplitRequest) (hresponses : m.responses = []) (hrequest : m.request = some r)
      (hwaits : r.Waits) (hsent : m.sent.map Prod.fst = r.openHandles)

/-- What holds of a request inside `create`, with `left` fragments to come. -/
structure Creating.Proper (c : Creating) (index left : Nat) : Prop where
  handles : c.request.handles.length = index
  pending : c.request.numPendingResponses = left + (openHandles c.request.handles).length
  sent : c.sent.map Prod.fst = openHandles c.request.handles
  answered : c.request.numPendingResponses = 0 → ∃ value, c.responses = [value]
  silent : 0 < c.request.numPendingResponses → c.responses = []

variable {available : Nat → Bool} {c : Creating} {index : Nat}

theorem createChild_proper {left : Nat} (h : c.Proper index (left + 1)) (fragment : Fragment) :
    ∃ c', createChild available c index fragment = some c' ∧ c'.Proper (index + 1) left := by
  have hpending := h.pending
  have hconcat := openHandles_concat c.request.handles (available index)
  have hlength : (c.request.handles ++ [available index]).length = index + 1 := by
    rw [length_append, h.handles, length_singleton]
  rw [h.handles] at hconcat
  unfold createChild
  by_cases hav : available index = true
  · rw [if_pos hav] at hconcat
    refine ⟨_, if_pos hav, hlength, ?_, ?_, ?_, ?_⟩
    · change c.request.numPendingResponses = _
      rw [hconcat, length_append, length_singleton]
      omega
    · change (c.sent ++ [(index, fragment)]).map Prod.fst = _
      rw [hconcat, map_append, h.sent]
      rfl
    · intro hzero
      change c.request.numPendingResponses = 0 at hzero
      omega
    · exact h.silent
  · rw [if_neg hav, append_nil] at hconcat
    have hindex : index ∉ openHandles (c.request.handles ++ [available index]) := by
      rw [hconcat, mem_openHandles, getElem?_eq_none h.handles.le]
      exact fun hsome => by cases hsome
    have hopen : openHandles ((c.request.handles ++ [available index]).set index false) =
        openHandles c.request.handles := by
      rw [openHandles_set, erase_of_not_mem hindex, hconcat]
    have hne : c.request.numPendingResponses ≠ 0 := by omega
    simp only [if_neg hav, FragmentedRequest.onChildResponse, if_neg hne, map_some]
    refine ⟨_, rfl, ?_, ?_, ?_, ?_, ?_⟩
    · change ((c.request.handles ++ [available index]).set index false).length = _
      rw [length_set]
      exact hlength
    · change c.request.numPendingResponses - 1 = _
      rw [hopen]
      omega
    · change c.sent.map Prod.fst = _
      rw [hopen]
      exact h.sent
    · intro hzero
      change c.request.numPendingResponses - 1 = 0 at hzero
      rw [if_pos hzero, h.silent (by omega)]
      exact ⟨_, rfl⟩
    · intro hpos
      change 0 < c.request.numPendingResponses - 1 at hpos
      have hleft : c.request.numPendingResponses - 1 ≠ 0 := by omega
      rw [if_neg hleft, h.silent (by omega)]
      rfl

theorem createLoop_proper (available : Nat → Bool) (fragments : List Fragment)
    (h : c.Proper index fragments.length) : ∃ c', createLoop available c index fragments = some c' ∧
      c'.Proper (index + fragments.length) 0 := by
  induction fragments generalizing c index with
  | nil => exact ⟨c, rfl, h⟩
  | cons fragment fragments ih =>
    obtain ⟨c₁, hc₁, h₁⟩ := createChild_proper h fragment
    obtain ⟨c₂, hc₂, h₂⟩ := ih h₁
    refine ⟨c₂, ?_, ?_⟩
    · rw [createLoop, hc₁]
      exact hc₂
    · rw [length_cons, Nat.add_comm fragments.length, ← Nat.add_assoc]
      exact h₂

theorem createFragmented_proper {combined : Combined} {n : Nat} {fragments : List Fragment}
    (hn : fragments.length = n) (hpos : 0 < n) :
    ∃ m, createFragmented available combined n fragments = some m ∧ m.Proper := by
  subst hn
  have hstart : Creating.Proper ⟨⟨combined, [], fragments.length, 0⟩, [], []⟩ 0 fragments.length := by
    refine ⟨rfl, rfl, rfl, ?_, ?_⟩
    · intro hzero
      change fragments.length = 0 at hzero
      omega
    · exact fun _ => rfl
  obtain ⟨c, hc, hproper⟩ := createLoop_proper available fragments hstart
  have hcount := hproper.pending
  rw [Nat.zero_add] at hcount
  rw [createFragmented, hc, map_some]
  refine ⟨_, rfl, ?_⟩
  by_cases hleft : 0 < c.request.numPendingResponses
  · rw [if_pos hleft]
    exact .waits (.fragmented c.request) (hproper.silent hleft) rfl ⟨hcount, hleft⟩ hproper.sent
  · have hzero : c.request.numPendingResponses = 0 := by omega
    rw [if_neg hleft]
    obtain ⟨value, hvalue⟩ := hproper.answered hzero
    refine .answered value hvalue rfl ?_
    have hnil : openHandles c.request.handles = [] := by
      apply eq_nil_of_length_eq_zero
      omega
    have hsent := hproper.sent
    rw [hnil] at hsent
    exact map_eq_nil_iff.mp hsent

theorem Made.proper_immediate (value : RespValue) : (Made.immediate value).Proper :=
  .answered value rfl rfl rfl

theorem createSingle_proper (available : Nat → Bool) (fragment : Fragment) :
    (createSingle available fragment).Proper := by
  unfold createSingle
  by_cases h : available 0 = true
  · rw [if_pos h]
    exact .waits (.singleServer true) rfl rfl rfl rfl
  · rw [if_neg h]
    exact Made.proper_immediate _

theorem length_keyFragments (command : Bytes) (words : List Bytes) :
    (keyFragments command words.tail).length = words.length - 1 := by
  simp [keyFragments]

theorem length_pairFragments (words : List Bytes) :
    (pairFragments words).length = words.length / 2 := by
  induction words using pairFragments.induct with
  | case1 key value rest ih =>
    rw [pairFragments, length_cons, ih, length_cons, length_cons]
    omega
  | case2 words hshort =>
    match words, hshort with
    | [], _ => rfl
    | [_], _ => simp [pairFragments]
    | key :: value :: rest, hshort => exact absurd rfl (hshort key value rest)

variable {words : List Bytes}

/-- Every handler of the command map answers or waits. -/
theorem handler_proper {name : Bytes} {create : (Nat → Bool) → List Bytes → Option Made}
    (h : handler name = some create) (hwords : 2 ≤ words.length) :
    ∃ m, create available words = some m ∧ m.Proper := by
  have hone : 1 < words.length := by omega
  have hpos : 0 < words.length - 1 := by omega
  unfold handler at h
  split at h
  · cases h
    rw [SimpleRequest.create, getElem?_eq_getElem hone, map_some]
    exact ⟨_, rfl, createSingle_proper _ _⟩
  split at h
  · cases h
    unfold EvalRequest.create
    by_cases hfew : words.length < 4
    · rw [if_pos hfew]
      exact ⟨_, rfl, Made.proper_immediate _⟩
    · have hthree : 3 < words.length := by omega
      rw [if_neg hfew, getElem?_eq_getElem hthree, map_some]
      exact ⟨_, rfl, createSingle_proper _ _⟩
  split at h
  · cases h
    exact createFragmented_proper (length_keyFragments _ words) hpos
  split at h
  · cases h
    exact createFragmented_proper (length_keyFragments _ words) hpos
  split at h
  · cases h
    unfold MSETRequest.create
    by_cases hodd : (words.length - 1) % 2 ≠ 0
    · rw [if_pos hodd]
      exact ⟨_, rfl, Made.proper_immediate _⟩
    · rw [if_neg hodd]
      apply createFragmented_proper
      · rw [length_pairFragments, length_tail]
      · omega
  · cases h

theorem length_bulkStrings {values : List RespValue} (h : bulkStrings values = some words) :
    words.length = values.length := by
  induction values using bulkStrings.induct generalizing words with
  | case1 =>
    cases h
    rfl
  | case2 s values ih =>
    obtain ⟨rest, hrest, rfl⟩ := map_eq_some_iff.mp h
    rw [length_cons, length_cons, ih hrest]
  | case3 values hnil hother =>
    rw [bulkStrings.eq_3 values hnil hother] at h
    cases h

theorem makeRequest_proper (available : Nat → Bool) (value : RespValue) :
    ∃ m, makeRequest available value = some m ∧ m.Proper := by
  cases value with
  | array values =>
    rw [makeRequest]
    by_cases hfew : values.length < 2
    · rw [if_pos hfew]
      exact ⟨_, rfl, Made.proper_immediate _⟩
    · rw [if_neg hfew]
      cases hwords : bulkStrings values with
      | none => exact ⟨_, rfl, Made.proper_immediate _⟩
      | some words =>
        have hlength := length_bulkStrings hwords
        change ∃ m, startRequest available words = some m ∧ m.Proper
        unfold startRequest
        cases hhandler : handler (toLowerCase (words.headD [])) with
        | none => exact ⟨_, rfl, Made.proper_immediate _⟩
        | some create => exact handler_proper hhandler (by omega)
  | null | simpleString | bulkString | integer | error => exact ⟨_, rfl, Made.proper_immediate _⟩

end CommandSplitter

end Meliproxy.Envoy.Redis
