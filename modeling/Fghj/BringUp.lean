import Fghj.Converge
import Fghj.Naming
import Fghj.Order
import Fghj.StartNode

/-!
# Bringing nodes up

The one start path behind creates and restarts: pick the targets, stop what a flow leaves out, and
work through the targets in start order. Docker, the files and the seed records are a `World` that
answers each question about a node once. What the loop does with one node is a verdict and its
effect, so that everything about a run follows from what one verdict says.
-/

namespace Fghj

open Std

namespace Orchestrator

/-- What the outside answers during a run, by node. -/
structure World where
  ensureNetwork : Except String Unit := .ok ()
  /-- The sidecar's address. -/
  ensureSidecar : Except String String
  /-- The spec a node's files resolve to. -/
  resolveNodeSpec : String → Except String NodeSpec
  specHash : Node → NodeSpec → String
  /-- The container before the run works on it. -/
  inspectStatus : String → DockerReading
  alreadySeeded : String → Bool := fun _ => false
  recordSeeded : String → Bool := fun _ => false
  start : String → StartAnswers
  /-- The container after it was stopped. -/
  stopped : String → DockerReading := fun _ => .ok none

/-- Docker says the container is running. -/
def World.alive (world : World) (id : String) : Bool :=
  match world.inspectStatus id with
  | .ok (some status) => status.status == "running"
  | _ => false

/-- A run on its way. -/
structure BroughtUp where
  state : EnvState
  outcomes : StartOutcomes
  /-- The stores and services the run started. -/
  recreated : List String := []
  /-- Recreated, or restarted because a requirement was. -/
  bounced : List String := []
  started : List String := []
  reports : List RunProgress := []

/-! ## Verdicts -/

/-- Only `run: once` skips, and only on a clean exit. -/
def taskAlreadyDone (node : Node) (prior : Option ContainerInfo) : Bool :=
  node.kind == .task && node.runPolicy == some "once" &&
    prior.any fun container => container.observed.exitCode == some 0

/-- A top-up leaves a node alone that is alive, recorded and not known to have drifted. -/
def topUpMaySkip (alive : Bool) (existing : Option ContainerInfo) (freshHash : Option String) :
    Bool :=
  alive && existing.any fun container =>
    freshHash.all fun hash => hash == container.desired.configHash

/-- The first requirement the run took down and brought back. -/
def bouncedRequirement (graph : Graph) (node : Node) (bounced : List String) : Option String :=
  (requirements graph.edges node.id).find? (· ∈ bounced)

section Run

variable (graph : Graph) (world : World) (restart : Option String)

/-- The store a task migrates was recreated in this run. -/
def storeRecreated (up : BroughtUp) (node : Node) : Bool := node.migrates.any (· ∈ up.recreated)

/-- Another action is under way on a node that a restart only passes through. -/
def leftToAnother (up : BroughtUp) (node : Node) : Bool :=
  restart.isSome && (up.state.containers[node.id]?).any fun container =>
    container.pendingAction.isSome

/-- The node is a task that is done. -/
def doneTask (up : BroughtUp) (node : Node) : Bool :=
  let existing := up.state.containers[node.id]?
  if restart.isSome then
    existing.any fun container =>
      node.kind == .task && container.observed.exitCode == some 0 && !storeRecreated up node
  else taskAlreadyDone node existing

/-- The node is a seed whose stores still hold its data. -/
def doneSeed (node : Node) : Bool := !node.seeds.isEmpty && world.alreadySeeded node.id

/-- The hash of the node's configuration now, when it could tell whether to skip it. -/
def freshHash (up : BroughtUp) (node : Node) : Option String :=
  if world.alive node.id && (up.state.containers[node.id]?).isSome && restart.isNone then
    match world.resolveNodeSpec node.id with
    | .ok spec => some (world.specHash node spec)
    | .error _ => none
  else none

/-- What a run does with one node. -/
inductive Verdict where
  | leave
  | block (cause : String)
  | restart (existing : ContainerInfo)
  | start

/-- What to do with a node, given what the run did before. -/
def verdict (up : BroughtUp) (node : Node) : Verdict :=
  let existing := up.state.containers[node.id]?
  let forced := restart == some node.id
  let alive := world.alive node.id
  if !forced && (leftToAnother restart up node || doneTask restart up node ||
      doneSeed world node) then .leave
  else
    let restartFor := bouncedRequirement graph node up.bounced
    if !forced && restartFor.isNone &&
        topUpMaySkip alive existing (freshHash world restart up node) then .leave
    else
      match up.outcomes.blockedBy node.id with
      | some cause =>
          -- An alive container is left as it is.
          if alive then .leave else .block cause
      | none =>
          -- A requirement went down and came back: new connections, not a new container.
          match existing with
          | some container =>
              if alive && !forced && restartFor.isSome then .restart container else .start
          | none => .start

/-! ## Effects -/

def working (up : BroughtUp) (id : String) (action : Option PendingAction) : BroughtUp :=
  { up with reports := up.reports ++ [.working id action] }

/-- Report a node done and record it. -/
def reportDone (up : BroughtUp) (key : String) (info : ContainerInfo) : BroughtUp :=
  { up with
    reports := up.reports ++ [.done
      { network := up.state.network
        sidecarContainerName := up.state.sidecarContainerName
        sidecarIp := up.state.sidecarIp
        info }]
    state := { up.state with containers := up.state.containers.insert key info } }

/-- Give up on a node. -/
def giveUp (up : BroughtUp) (id error : String) : BroughtUp :=
  let up := working up id none
  { up with outcomes := up.outcomes.fail id error }

/-- Restart a node whose requirement came back. -/
def restartNodeInPlace (up : BroughtUp) (node : Node) (existing : ContainerInfo) : BroughtUp :=
  let up := working up node.id (some .restarting)
  match restartInPlace (world.start node.id) existing with
  | .ok info =>
      let up := { up with bounced := node.id :: up.bounced }
      let up := reportDone up info.nodeId info
      { up with started := up.started ++ [node.id] }
  | .error message => giveUp up node.id message

/-- Start, or recreate, a node. -/
def startNodeOfRun (up : BroughtUp) (node : Node) : BroughtUp :=
  -- Kept across a recreate, so that a debug switch is not dropped.
  let debugWait := (up.state.containers[node.id]?).any fun container => container.desired.debugWait
  let up := working up node.id (some .starting)
  match startNode world.specHash (world.resolveNodeSpec node.id) (world.start node.id) node
      debugWait with
  | .error message => giveUp up node.id message
  | .ok info =>
      let up :=
        if node.kind = .task then up
        else { up with recreated := node.id :: up.recreated, bounced := node.id :: up.bounced }
      let info :=
        if node.seeds.isEmpty then info
        else
          { info with
            observed := { info.observed with seeded := some (world.recordSeeded node.id) } }
      let up := reportDone up info.nodeId info
      { up with started := up.started ++ [node.id] }

/-- One node of the run. -/
def bringUpNode (up : BroughtUp) (id : String) : BroughtUp :=
  match graph.node? id with
  -- The source indexes its node map here; every target of a resolved graph is in it.
  | none => up
  | some node =>
      match verdict graph world restart up node with
      | .leave => up
      | .block cause => { up with outcomes := up.outcomes.block node.id cause }
      | .restart existing => restartNodeInPlace world up node existing
      | .start => startNodeOfRun world up node

/-! ## Runs -/

/-- What a start of a node brings up: its requirements, itself, and the running services that depend
on it. -/
def restartTargets (id : String) (prior : EnvState) : List String :=
  requirementsOf id graph.edges ++ [id] ++
    (dependentsOf id graph.edges).filter fun dependent =>
      (prior.containers[dependent]?).any fun container =>
        container.pendingAction.isNone && !container.desired.terminating &&
          container.observed.status == "running"

/-- The nodes a run is about. -/
def targetIds (spec : EnvSpec) (prior : Option EnvState) : Except String (List String) :=
  match spec with
  | .flow flow => graph.startIds flow
  | .node id =>
      if graph.nodes.any fun node => node.id == id then
        .ok (graph.withMigrations
          (match restart, prior with
          | some _, some prior => restartTargets graph id prior
          | _, _ => requirementsOf id graph.edges ++ [id]))
      else .error ("no such node: " ++ id)

/-- The running containers outside the ones to keep, dependents first. -/
def stopOrder (keep : List String) (state : EnvState) : List String :=
  let outside := (OrderedMap.listed state.containers).filter fun container =>
    container.observed.status == "running" && container.nodeId ∉ keep
  (topologicalStartOrder (outside.map ContainerInfo.nodeId) graph.edges).reverse

/-- Stop one container outside the flow. -/
def stopNode (up : BroughtUp) (id : String) : BroughtUp :=
  match up.state.containers[id]? with
  | none => up
  | some container =>
      reportDone (working up id (some .stopping)) id (stopContainer container (world.stopped id))

/-- What a switch to a flow stops; a run for one node stops nothing. -/
def outsideOf (spec : EnvSpec) (targets : List String) (state : EnvState) : List String :=
  match spec with
  | .flow _ => stopOrder graph targets state
  | .node _ => []

/-- The environment a run works on: the one it copied, with the network and sidecar it brought
up. -/
def runState (prior : Option EnvState) (sidecarIp : String) : EnvState :=
  { prior.getD {} with
    network := networkName graph.workspaceName
    sidecarContainerName := sidecarName graph.workspaceName
    sidecarIp := some sidecarIp }

/-- A run that has told its plan. -/
def planned (spec : EnvSpec) (prior : Option EnvState) (targets : List String)
    (sidecarIp : String) : BroughtUp where
  state := runState graph prior sidecarIp
  outcomes := .new targets graph.edges
  reports := [.planned (topologicalStartOrder targets graph.edges)
    (outsideOf graph spec targets (runState graph prior sidecarIp))]

/-- The run before its first node: what a flow leaves out is stopped. -/
def prepared (spec : EnvSpec) (prior : Option EnvState) (targets : List String)
    (sidecarIp : String) : BroughtUp :=
  Execution.run (stopNode world) (planned graph spec prior targets sidecarIp)
    (outsideOf graph spec targets (runState graph prior sidecarIp))

/-- Bring up what a spec asks for. -/
def bringUp (spec : EnvSpec) (prior : Option EnvState) : Except EnvCreateError BroughtUp :=
  match targetIds graph restart spec prior with
  | .error message => .error { message }
  | .ok targets =>
      match world.ensureNetwork with
      | .error message => .error { message }
      | .ok () =>
          match world.ensureSidecar with
          | .error message => .error { message }
          | .ok sidecarIp =>
              .ok (Execution.run (bringUpNode graph world restart)
                (prepared graph world spec prior targets sidecarIp)
                (topologicalStartOrder targets graph.edges))

end Run

/-- Bring the environment up to date for a spec without restarting what is alive and current. -/
def ensureRunning (graph : Graph) (world : World) (spec : EnvSpec) (prior : Option EnvState) :
    Except EnvCreateError EnvState :=
  match bringUp graph world none spec prior with
  | .error failure => .error failure
  | .ok up =>
      match up.outcomes.error with
      | none => .ok up.state
      | some message => .error { message, partialState := some up.state }

/-- What a start of one node brought about. -/
structure Restarted where
  node : Except String ContainerInfo
  others : List ContainerInfo

/-- Start a node within the environment: recreate it, start what it needs if that is down, and
restart its running dependents. -/
def restartNode (graph : Graph) (world : World) (id : String) (prior : EnvState) :
    Except String Restarted :=
  match bringUp graph world (some id) (.node id) (some prior) with
  | .error failure => .error failure.message
  | .ok up =>
      let others := (up.started.filter (· != id)).filterMap fun other => up.state.containers[other]?
      let failure := .error (up.outcomes.error.getD (id ++ " was not started"))
      let node := if id ∈ up.started then (up.state.containers[id]?).elim failure .ok else failure
      .ok { node, others }

end Orchestrator
end Fghj
