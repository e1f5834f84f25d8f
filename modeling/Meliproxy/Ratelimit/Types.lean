import Meliproxy.Lib.Text

/-!
# Messages and values of the rate limit service

The protobuf messages under `Pb`, the loaded limits of the `config` package under
`Config`, and the values the service panics with. Strings are byte strings.
-/

namespace Meliproxy.Ratelimit

open Lib

namespace Pb

inductive RateLimitUnit where
  | unknown | second | minute | hour | day
  deriving DecidableEq, Repr

structure RateLimit where
  requestsPerUnit : UInt32
  unit : RateLimitUnit
  deriving DecidableEq, Repr

structure Entry where
  key : Bytes
  value : Bytes
  deriving DecidableEq, Repr

structure RateLimitDescriptor where
  entries : List Entry
  deriving DecidableEq, Repr

structure RateLimitRequest where
  domain : Bytes
  descriptors : List RateLimitDescriptor
  hitsAddend : UInt32
  deriving DecidableEq, Repr

inductive Code where
  | unknown | ok | overLimit
  deriving DecidableEq, Repr

structure DescriptorStatus where
  code : Code
  currentLimit : Option RateLimit
  limitRemaining : UInt32
  deriving DecidableEq, Repr

structure RateLimitResponse where
  overallCode : Code
  statuses : List DescriptorStatus
  deriving DecidableEq, Repr

end Pb

/-- The dynamic types of the values passed to `panic`. Failed assertions and plain
string panics are `runtime`. -/
inductive Panic where
  | redisError (text : Bytes)
  | serviceError (text : Bytes)
  | rateLimitConfigError (text : Bytes)
  | runtime (text : Bytes)
  deriving DecidableEq, Repr

namespace Config

/-- The three counters of a limit, each known by its name in the stats store. -/
structure RateLimitStats where
  totalHits : Bytes
  overLimit : Bytes
  nearLimit : Bytes
  deriving DecidableEq, Repr

/-- A loaded limit. The loader only builds one after it has checked the unit, so
the unit is never `unknown`. -/
structure RateLimit where
  fullKey : Bytes
  stats : RateLimitStats
  limit : Pb.RateLimit
  unit_known : limit.unit ≠ .unknown
  deriving DecidableEq

def newRateLimitStats (key : Bytes) : RateLimitStats where
  totalHits := key ++ ascii ".total_hits"
  overLimit := key ++ ascii ".over_limit"
  nearLimit := key ++ ascii ".near_limit"

def newRateLimit (requestsPerUnit : UInt32) (unit : Pb.RateLimitUnit) (h : unit ≠ .unknown)
    (key : Bytes) : RateLimit := ⟨key, newRateLimitStats key, ⟨requestsPerUnit, unit⟩, h⟩

end Config

end Meliproxy.Ratelimit
