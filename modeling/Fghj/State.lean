import Fghj.Library.OrderedMap

/-!
# Workspace state

The records a workspace actor owns: what fghj wants of each container, what Docker last reported of
it, the action in flight on it, and the environment that collects them. Docker's status words stay
strings, as Docker sends them.
-/

namespace Fghj

open Std

/-- A domain a container answers to and the host port behind it. -/
structure PortRoute where
  domain : String
  hostPort : UInt16
  /-- The domain is a suffix: it matches itself and its subdomains. -/
  wildcard : Bool
  containerPort : String
  https : Bool
  deriving DecidableEq

/-- The start, restart, stop or delete in flight on a container. -/
inductive PendingAction where
  | starting
  | restarting
  | stopping
  | removing
  deriving DecidableEq

/-- The checkout a container was built from, taken when it was started. -/
structure ContainerSource where
  branch : Option String
  head : Option String
  dirty : Bool
  deriving DecidableEq

/-- Whether a container still matches what its configuration would produce now. -/
inductive SyncStatus where
  | unknown
  | synced
  | drifted
  | orphaned
  deriving DecidableEq

/-- What fghj wants of a container. -/
structure ContainerDesired where
  running : Bool := false
  containerName : String := ""
  domain : String := ""
  rawDomain : String := ""
  routes : List PortRoute := []
  additionalHosts : List String := []
  statusPort : Option String := none
  configHash : String := ""
  source : Option ContainerSource := none
  /-- A task: having exited with code zero is its goal. -/
  terminating : Bool := false
  debugWait : Bool := false
  deriving DecidableEq

/-- What Docker last reported of a container. -/
structure ContainerObserved where
  status : String := ""
  publishedPort : Option UInt16 := none
  ports : OrderedMap String (Option UInt16) := ∅
  sync : SyncStatus := .unknown
  exitCode : Option Int := none
  interrupted : Bool := false
  unseen : Bool := false
  seeded : Option Bool := none
  deriving DecidableEq

namespace ContainerObserved

/-- Docker's own words for a container that serves or tries to. -/
def isUp (observed : ContainerObserved) : Bool :=
  observed.status == "running" || observed.status == "restarting" || observed.status == "paused"

/-- Two readings say the same, apart from what the drift check writes. -/
def sameReading (observed other : ContainerObserved) : Bool :=
  observed.status == other.status && observed.publishedPort == other.publishedPort &&
    observed.ports == other.ports && observed.exitCode == other.exitCode &&
    observed.interrupted == other.interrupted && observed.unseen == other.unseen

/-- After a fresh reading: down when nobody could see it go down is an interruption. -/
def settleInterruption (observed : ContainerObserved) (wentUnwatched : Bool) : ContainerObserved :=
  if observed.isUp then { observed with interrupted := false }
  else if wentUnwatched then { observed with interrupted := true }
  else observed

/-- Only the interruption is settled. -/
theorem settleInterruption_eq (observed : ContainerObserved) (wentUnwatched : Bool) :
    observed.settleInterruption wentUnwatched =
      { observed with
        interrupted := !observed.isUp && (wentUnwatched || observed.interrupted) } := by
  rw [settleInterruption]
  split
  · rename_i up
    simp [up]
  · rename_i down
    split
    · rename_i unwatched
      simp [down, unwatched]
    · rename_i watched
      simp [down, watched]

end ContainerObserved

/-- One container of the environment. -/
structure ContainerInfo where
  nodeId : String
  desired : ContainerDesired := {}
  observed : ContainerObserved := {}
  pendingAction : Option PendingAction := none
  deriving DecidableEq

/-- What a container's wish and reading mean together, in one word. -/
inductive NodeCondition where
  | running
  | stopped
  | crashed
  | interrupted
  | unknown
  | restarting
  | paused
  | completed
  | failed
  | finishing
  | missing
  deriving DecidableEq

/-- The condition of a container, whatever action is in flight on it. -/
def ContainerInfo.condition (container : ContainerInfo) : NodeCondition :=
  if container.observed.unseen then .unknown
  else if container.observed.status = "removed" then .missing
  else if container.desired.terminating then
    if container.observed.status = "running" then .running
    else
      match container.observed.exitCode with
      | some code => if code = 0 then .completed else .failed
      | none => .finishing
  else if container.observed.status = "running" then .running
  else if container.observed.status = "restarting" then .restarting
  else if container.observed.status = "paused" then .paused
  else if container.desired.running && container.observed.interrupted then .interrupted
  else if container.desired.running then .crashed
  else .stopped

/-- A container that is not wanted up is neither crashed nor interrupted. -/
theorem ContainerInfo.condition_of_not_running {container : ContainerInfo}
    (unwanted : container.desired.running = false) :
    container.condition ≠ .crashed ∧ container.condition ≠ .interrupted := by
  have crashed : container.condition ≠ .crashed := by grind [ContainerInfo.condition]
  have interrupted : container.condition ≠ .interrupted := by grind [ContainerInfo.condition]
  exact ⟨crashed, interrupted⟩

/-- What a create was asked to bring up. -/
inductive EnvSpec where
  /-- Start the flow's nodes and stop everything outside it. -/
  | flow (name : String)
  /-- Start one node and its requirements. -/
  | node (nodeId : String)
  deriving DecidableEq

/-- What fghj wants of a volume. -/
structure VolumeDesired where
  name : String
  deriving DecidableEq

/-- What Docker last reported of a volume; false covers both never checked and gone. -/
structure VolumeObserved where
  «exists» : Bool := false
  deriving DecidableEq

/-- One Docker volume of the environment. -/
structure VolumeInfo where
  desired : VolumeDesired
  observed : VolumeObserved := {}
  deriving DecidableEq

/-- Every container and volume fghj knows about in one workspace. -/
structure EnvState where
  network : String := ""
  containers : OrderedMap String ContainerInfo := ∅
  volumes : OrderedMap String VolumeInfo := ∅
  sidecarContainerName : String := ""
  sidecarIp : Option String := none
  /-- The create in flight. -/
  pendingCreate : Option EnvSpec := none
  deriving DecidableEq

/-- Why a create failed, and what came up anyway. -/
structure EnvCreateError where
  message : String
  partialState : Option EnvState := none
  deriving DecidableEq

/-- The account a workspace belongs to. -/
structure WorkspaceOwner where
  uid : UInt32
  gid : UInt32
  home : String
  sshAuthSock : Option String
  deriving DecidableEq

/-- The single source of truth of a workspace, changed only by the reducer. -/
structure WorkspaceState where
  owner : Option WorkspaceOwner := none
  env : Option EnvState := none
  deriving DecidableEq

namespace WorkspaceState

/-- The record of a node, if the workspace has an environment that holds one. -/
def container? (state : WorkspaceState) (nodeId : String) : Option ContainerInfo :=
  state.env.bind fun run => run.containers[nodeId]?

/-- The action in flight on a node. -/
def pendingAction? (state : WorkspaceState) (nodeId : String) : Option PendingAction :=
  (state.container? nodeId).bind ContainerInfo.pendingAction

/-- The create in flight. -/
def pendingCreate? (state : WorkspaceState) : Option EnvSpec :=
  state.env.bind EnvState.pendingCreate

end WorkspaceState
end Fghj
