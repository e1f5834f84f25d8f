import Mathlib.Data.List.Basic
import Mathlib.Tactic.Ring

/-!
# Events of a connection and of a stream

What the network layer tells the owner of a connection, and why a stream was reset.
-/

namespace Meliproxy.Envoy

/-- `Network::ConnectionEvent`. -/
inductive ConnectionEvent where
  | remoteClose
  | localClose
  | connected
  deriving DecidableEq

/-- `Http::StreamResetReason`. -/
inductive StreamResetReason where
  | localReset
  | localRefusedStreamReset
  | remoteReset
  | remoteRefusedStreamReset
  | connectionFailure
  | connectionTermination
  | overflow
  deriving DecidableEq

def StreamResetReason.disconnect : StreamResetReason → Bool
  | .connectionFailure => true
  | .connectionTermination => true
  | _ => false

end Meliproxy.Envoy
