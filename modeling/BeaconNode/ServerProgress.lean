import BeaconNode.ControlServer

namespace BeaconNode.ServerProgress

open Words TextStream Records Registry LineProtocol ProtobufControl Framing ControlSession ControlServer Runs

variable {platform : Platform} {codec : Option ControlCodec} {protocol : ControlProtocol} {s : ServerState}

/-- How many moves the thread makes at most before it accepts again. -/
def turns (s : ServerState) : Nat :=
  match s.worker with
  | .peeking => 4
  | .reading _ => 3
  | .writing rest => if rest ≠ [] ∧ s.current.room ≠ 0 then 2 else 1
  | .accepting | .ended => 0

end BeaconNode.ServerProgress
