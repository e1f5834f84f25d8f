import Meliproxy.Ratelimit.CacheKey

/-!
# The Redis connection and its pipeline

`connectionImpl` wraps a client that queues commands and, on the first request for a
response, sends the whole queue and reads one reply per command. The server on the
other side is a parameter: any state with any way of answering a list of commands,
as long as every command gets one reply. A panic keeps the state it was raised in,
since the deferred `Put` still sees it.
-/

namespace Meliproxy.Ratelimit

open Lib

inductive Cmd where
  | incrBy (key : Bytes) (amount : UInt32)
  | expire (key : Bytes) (seconds : Int)

inductive Resp where
  | int (value : Int)
  | other (text : Bytes)
  | err (text : Bytes)

def Resp.isInt : Resp → Bool
  | .int _ => true
  | _ => false

/-- A server that answers a pipeline atomically, one reply for each command. -/
structure Server (σ : Type) where
  exec : σ → List Cmd → σ × List Resp
  length_exec : ∀ s cmds, (exec s cmds).2.length = cmds.length

variable {σ : Type}

def execAll (step : σ → Cmd → σ × Resp) : σ → List Cmd → σ × List Resp
  | s, [] => (s, [])
  | s, cmd :: cmds =>
    let next := step s cmd
    let rest := execAll step next.1 cmds
    (rest.1, next.2 :: rest.2)

variable (step : σ → Cmd → σ × Resp)

theorem length_execAll (s : σ) (cmds : List Cmd) :
    (execAll step s cmds).2.length = cmds.length := by
  induction cmds generalizing s with
  | nil => rfl
  | cons cmd cmds ih => simp [execAll, ih]

/-- A server that runs the commands of a pipeline one after the other. -/
def Server.ofStep : Server σ := ⟨execAll step, length_execAll step⟩

/-- The connection together with its client. `appended` and `replies` are the history
of the calls: every command given to `PipeAppend`, every reply taken by
`PipeResponse`. -/
structure Connection where
  queued : List Cmd
  completed : List Resp
  pending : Nat
  appended : List Cmd
  replies : List Resp

def Connection.new : Connection := ⟨[], [], 0, [], []⟩

structure World (σ : Type) where
  server : σ
  conn : Connection
  stats : Bytes → UInt64

abbrev Go (σ : Type) := EStateM Panic (World σ)

def Go.ofExcept {α : Type} : Except Panic α → Go σ α
  | .ok a => pure a
  | .error e => throw e

def Go.deref {α : Type} : Option α → Go σ α
  | some a => pure a
  | none => throw (.runtime (ascii "invalid memory address or nil pointer dereference"))

/-- `Counter.Add`. -/
def World.addStat (w : World σ) (name : Bytes) (amount : UInt64) : World σ :=
  { w with
    stats := fun counter => if counter = name then w.stats counter + amount else w.stats counter }

def addStat (name : Bytes) (amount : UInt64) : Go σ Unit :=
  modify fun w => w.addStat name amount

def pipeAppend (cmd : Cmd) : Go σ Unit :=
  modify fun w => { w with
    conn := { w.conn with
      queued := w.conn.queued ++ [cmd]
      pending := w.conn.pending + 1
      appended := w.conn.appended ++ [cmd] } }

variable (server : Server σ)

def World.flush (w : World σ) : World σ :=
  if w.conn.queued = [] then w
  else { w with
    server := (server.exec w.server w.conn.queued).1
    conn := { w.conn with
      queued := []
      completed := w.conn.completed ++ (server.exec w.server w.conn.queued).2 } }

/-- The next completed reply of the client; an empty pipeline answers with an error. -/
def World.popReply (w : World σ) : Resp × World σ :=
  match w.conn.completed with
  | [] => (.err (ascii "pipeline queue empty"), w)
  | r :: rest =>
    (r, { w with conn := { w.conn with completed := rest, replies := w.conn.replies ++ [r] } })

def World.pipeResp (w : World σ) : Resp × World σ :=
  if w.conn.completed = [] then (w.flush server).popReply else w.popReply

def pipeResponse : Go σ Resp := fun w =>
  if w.conn.pending = 0 then .error (.runtime (ascii "assertion failed")) w
  else
    let w := { w with conn := { w.conn with pending := w.conn.pending - 1 } }
    match w.pipeResp server with
    | (.err text, w) => .error (.redisError text) w
    | (resp, w) => .ok resp w

def Resp.toInt (resp : Resp) : Go σ Int :=
  match resp with
  | .int value => pure value
  | .other _ => throw (.redisError (ascii "not convertible to int"))
  | .err text => throw (.redisError text)

inductive Disposal where
  | put | close
  deriving DecidableEq

/-- `poolImpl.Put`: a connection with responses that were not read is not put back. -/
def poolPut (conn : Connection) : Disposal :=
  if conn.pending = 0 then .put else .close

/-!
## `DoLimit`

One call counts its hits in Redis with a single pipeline and decides each descriptor
from the counter it got back. The counters are 64-bit in Redis and are cut to 32 bits
before they are compared with the limit.
-/

structure RateLimitCacheImpl where
  expirationJitterMaxSeconds : Int

/-- Rounding of a positive integer to the 24 significant bits of a `float32`, ties to
even. -/
def roundFloat32 (n : Nat) : Nat :=
  if n < 2 ^ 24 then n
  else
    let unit := 2 ^ (Nat.log2 n - 23)
    let q := n / unit
    let r := n % unit
    if 2 * r < unit ∨ (2 * r = unit ∧ q % 2 = 0) then q * unit else (q + 1) * unit

/-- `uint32(math.Floor(float64(float32(threshold) * 0.8)))`; the `float32` nearest to
0.8 is 13421773 / 2^24. -/
def nearLimitThreshold (threshold : UInt32) : UInt32 :=
  (roundFloat32 (roundFloat32 threshold.toNat * 13421773) / 2 ^ 24).toUInt32

/-- The decision for one descriptor from the counter after the increment, and the
counters of the limit that grow with it. -/
def checkLimit (limit : Config.RateLimit) (hitsAddend limitAfterIncrease : UInt32) :
    Pb.DescriptorStatus × List (Bytes × UInt64) :=
  let limitBeforeIncrease := limitAfterIncrease - hitsAddend
  let overLimitThreshold := limit.limit.requestsPerUnit
  let nearLimitThreshold := nearLimitThreshold overLimitThreshold
  if limitAfterIncrease > overLimitThreshold then
    (⟨.overLimit, some limit.limit, 0⟩,
      if limitBeforeIncrease ≥ overLimitThreshold then
        [(limit.stats.overLimit, hitsAddend.toUInt64)]
      else
        [(limit.stats.overLimit, (limitAfterIncrease - overLimitThreshold).toUInt64),
          (limit.stats.nearLimit,
            (overLimitThreshold - max nearLimitThreshold limitBeforeIncrease).toUInt64)])
  else
    (⟨.ok, some limit.limit, overLimitThreshold - limitAfterIncrease⟩,
      if limitAfterIncrease > nearLimitThreshold then
        if limitBeforeIncrease ≥ nearLimitThreshold then
          [(limit.stats.nearLimit, hitsAddend.toUInt64)]
        else
          [(limit.stats.nearLimit, (limitAfterIncrease - nearLimitThreshold).toUInt64)]
      else [])

variable {σ : Type}

def addStats : List (Bytes × UInt64) → Go σ Unit
  | [] => pure ()
  | (name, amount) :: rest => do
    addStat name amount
    addStats rest

/-- The first loop: all cache keys, with the total hits of the limits that exist. -/
def buildCacheKeys (domain : Bytes) (hitsAddend : UInt32) (now : Int) :
    List (Pb.RateLimitDescriptor × Option Config.RateLimit) → Go σ (List Bytes)
  | [] => pure []
  | (descriptor, limit) :: rest => do
    let key ← Go.ofExcept (generateCacheKey domain descriptor limit now)
    match limit with
      | some limit => addStat limit.stats.totalHits hitsAddend.toUInt64
      | none => pure ()
    let keys ← buildCacheKeys domain hitsAddend now rest
    pure (key :: keys)

/-- The second loop: two commands for each key that is not empty. `jitter i` is the
value of `jitterRand.Int63n` for the `i`-th descriptor. -/
def setupPipeline (this : RateLimitCacheImpl) (hitsAddend : UInt32) (jitter : Nat → Int) :
    Nat → List (Bytes × Option Config.RateLimit) → Go σ Unit
  | _, [] => pure ()
  | i, (cacheKey, limit) :: rest =>
    if cacheKey = [] then setupPipeline this hitsAddend jitter (i + 1) rest
    else do
      let limit ← Go.deref limit
      let expirationSeconds ← Go.ofExcept (unitToDivider limit.limit.unit)
      let expirationSeconds :=
        if this.expirationJitterMaxSeconds > 0 then expirationSeconds + jitter i
        else expirationSeconds
      pipeAppend (.incrBy cacheKey hitsAddend)
      pipeAppend (.expire cacheKey expirationSeconds)
      setupPipeline this hitsAddend jitter (i + 1) rest

/-- The third loop: the status of every descriptor from the replies. -/
def fetchPipeline (server : Server σ) (hitsAddend : UInt32) :
    List (Bytes × Option Config.RateLimit) → Go σ (List Pb.DescriptorStatus)
  | [] => pure []
  | (cacheKey, limit) :: rest =>
    if cacheKey = [] then do
      let statuses ← fetchPipeline server hitsAddend rest
      pure (⟨.ok, none, 0⟩ :: statuses)
    else do
      let value ← (← pipeResponse server).toInt
      let limitAfterIncrease := UInt32.ofInt value
      let _ ← pipeResponse server
      let limit ← Go.deref limit
      let (status, hits) := checkLimit limit hitsAddend limitAfterIncrease
      addStats hits
      let statuses ← fetchPipeline server hitsAddend rest
      pure (status :: statuses)

def doLimitBody (server : Server σ) (this : RateLimitCacheImpl) (request : Pb.RateLimitRequest)
    (limits : List (Option Config.RateLimit)) (now : Int) (jitter : Nat → Int) :
    Go σ (List Pb.DescriptorStatus) := do
  let hitsAddend := max 1 request.hitsAddend
  if request.descriptors.length ≠ limits.length then
    throw (.runtime (ascii "assertion failed"))
  let cacheKeys ← buildCacheKeys request.domain hitsAddend now (request.descriptors.zip limits)
  setupPipeline this hitsAddend jitter 0 (cacheKeys.zip limits)
  fetchPipeline server hitsAddend (cacheKeys.zip limits)

/-- How a call ended: its statuses or its panic, the state it left, and what the
deferred `Put` did with the connection, if there was one. -/
structure Ended (σ : Type) where
  result : Except Panic (List Pb.DescriptorStatus)
  world : World σ
  disposal : Option Disposal

/-- `DoLimit` with the deferred `Put`. `connect` is the outcome of `pool.Get`. -/
def doLimit (server : Server σ) (this : RateLimitCacheImpl) (connect : Except Bytes Unit)
    (request : Pb.RateLimitRequest) (limits : List (Option Config.RateLimit)) (now : Int)
    (jitter : Nat → Int) (w : World σ) : Ended σ :=
  match connect with
  | .error text => ⟨.error (.redisError text), w, none⟩
  | .ok _ =>
    match doLimitBody server this request limits now jitter { w with conn := .new } with
    | .ok statuses w => ⟨.ok statuses, w, some (poolPut w.conn)⟩
    | .error e w => ⟨.error e, w, some (poolPut w.conn)⟩

end Meliproxy.Ratelimit
