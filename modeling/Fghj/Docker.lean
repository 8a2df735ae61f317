import Fghj.State

/-!
# Docker readings

One container as Docker reports it, and what a stop writes down from it.
-/

namespace Fghj

/-- One container as Docker reports it. -/
structure ContainerStatus where
  status : String
  exitCode : Option Int := none
  /-- The host port bound to each published port, keyed `port/protocol`. -/
  hostPorts : OrderedMap String UInt16 := ∅
  deriving DecidableEq

namespace ContainerStatus

/-- The host port Docker bound to a container port; a bare number means tcp. -/
def hostPort (status : ContainerStatus) (containerPort : String) : Option UInt16 :=
  if containerPort.toList.contains '/' then status.hostPorts[containerPort]?
  else status.hostPorts[containerPort ++ "/tcp"]?

end ContainerStatus

/-- The answer to one inspect: an error, no such container, or its status. -/
abbrev DockerReading := Except String (Option ContainerStatus)

namespace Orchestrator

/-- The status word a stop writes down. -/
def stoppedStatus : DockerReading → String
  | .ok (some inspected) => inspected.status
  | _ => "exited"

/-- A container's record after it was stopped. -/
def stopContainer (container : ContainerInfo) (inspected : DockerReading) : ContainerInfo :=
  { container with
    desired := { container.desired with running := false }
    observed := { container.observed with status := stoppedStatus inspected }
    pendingAction := none }

end Orchestrator
end Fghj
