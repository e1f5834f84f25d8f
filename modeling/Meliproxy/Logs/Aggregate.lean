import Meliproxy.Logs.RequestObject

/-!
# The records of the log aggregation

`aggregateLogs` reads the access log files and counts their lines by hour. Times are
milliseconds since the first filled day, 2017-11-01, in UTC; `moment` is the date parser
of that library and answers `none` for an invalid date. Totals and averages are doubles.
-/

namespace Meliproxy.Logs

open Lib

def hourMs : Int := 3600000

def dayMs : Int := 86400000

/-- A key of `byHour` with a key of the hash under it. -/
structure Slot where
  day : Int
  hour : Int
  deriving DecidableEq

def slotOf (m : Int) : Slot := ⟨m / dayMs, m % dayMs / hourMs⟩

structure Record where
  datetime : Int
  date : Int
  hour : Int
  totalQty : Nat
  okQty : Nat
  ratelimitQty : Nat
  notfoundQty : Nat
  errorQty : Nat
  durationTotal : Float
  durationAvg : Option Float
  latencyTotal : Float
  latencyAvg : Option Float

/-- The minutes and the seconds are set to zero, the milliseconds are kept. -/
def getEmptyRecord (m : Int) : Record where
  datetime := m / hourMs * hourMs + m % 1000
  date := (slotOf m).day
  hour := (slotOf m).hour
  totalQty := 0
  okQty := 0
  ratelimitQty := 0
  notfoundQty := 0
  errorQty := 0
  durationTotal := 0
  durationAvg := none
  latencyTotal := 0
  latencyAvg := none

/-- What the handler uses of the object of a request. -/
structure Line where
  datetimeMoment : Option Int
  responseCode : Number
  duration : Number
  upstreamTime : Number
  deriving DecidableEq

variable (moment : JsString → Option Int)

def parseLine (line : JsString) : Except Failure Line :=
  (requestObject line).map fun object => {
    datetimeMoment := moment object.datetime
    responseCode := object.responseCode
    duration := object.duration
    upstreamTime := object.upstreamTime }

/-- The four counters of the response codes. -/
inductive Outcome where
  | ok | ratelimit | notfound | error
  deriving DecidableEq

def outcome (line : Line) : Outcome :=
  match line.responseCode with
  | .finite code =>
    if 200 ≤ code ∧ code ≤ 299 then .ok
    else if 400 ≤ code ∧ code ≤ 499 then
      if code = 429 then .ratelimit else .notfound
    else .error
  | _ => .error

def Record.countOutcome (r : Record) : Outcome → Record
  | .ok => { r with okQty := r.okQty + 1 }
  | .ratelimit => { r with ratelimitQty := r.ratelimitQty + 1 }
  | .notfound => { r with notfoundQty := r.notfoundQty + 1 }
  | .error => { r with errorQty := r.errorQty + 1 }

def toFloat : Number → Float
  | .nan => 0 / 0
  | .infinite negative => if negative then -1 / 0 else 1 / 0
  | .finite value => .ofInt value

def Record.addTimes (r : Record) (line : Line) : Record :=
  if line.duration = .nan then r
  else
    let r := { r with durationTotal := r.durationTotal + toFloat line.duration }
    let r := { r with durationAvg := some (r.durationTotal / .ofNat r.totalQty) }
    if line.upstreamTime = .nan then r
    else
      let latency := toFloat line.duration - toFloat line.upstreamTime
      let r := { r with latencyTotal := r.latencyTotal + latency }
      { r with latencyAvg := some (r.latencyTotal / .ofNat r.totalQty) }

def Record.add (r : Record) (line : Line) : Record :=
  (({ r with totalQty := r.totalQty + 1 } : Record).countOutcome (outcome line)).addTimes line

end Meliproxy.Logs
