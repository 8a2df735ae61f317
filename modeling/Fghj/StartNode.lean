import Fghj.Docker
import Fghj.Graph

/-!
# Starting one node

What a start and a restart in place write down of a container, from what Docker answers on the way.
Waiting for a healthcheck changes nothing that is written down; waiting for a task to exit decides
whether it started.
-/

namespace Fghj

open Std

namespace Dns

/-- A name fghj answers for itself. -/
def inZone (name : String) : Bool := name == "fghj.internal" || name.endsWith ".fghj.internal"

/-- A name under a reserved top-level domain. -/
def isReservedAlias (host : String) : Bool :=
  ["local", "test", "internal", "localhost"].any fun tld =>
    host == tld || host.endsWith ("." ++ tld)

/-- Whether a name may be given a certificate. -/
def certEligible (name : String) (routed : Bool) : Bool :=
  inZone name || (isReservedAlias name && routed)

end Dns

/-- What a node's files resolve to. -/
structure NodeSpec where
  containerName : String
  domain : String
  rawDomain : String
  /-- Every port to publish, with the host port asked for. -/
  portList : List (String × Option UInt16)
  deriving DecidableEq

/-- How waiting for a task ended. -/
inductive TaskOutcome where
  | completed
  /-- Exited non-zero, or vanished before reporting a code. -/
  | failed (exitCode : Option Int)
  | timedOut
  deriving DecidableEq

/-- What the outside answers while one node is started or restarted. -/
structure StartAnswers where
  /-- Building the image and making the volumes the spec names. -/
  prepare : Except String Unit := .ok ()
  /-- Pulling the image, and creating and starting the container. -/
  run : Except String Unit := .ok ()
  /-- `docker restart` of the container. -/
  restart : Except String Unit := .ok ()
  /-- The container once it was started or restarted. -/
  inspected : DockerReading
  /-- The seconds the run still allows a task; none when its budget is spent. -/
  taskAllowance : Nat := 120
  /-- The readings of a waited-on task until the allowance runs out. -/
  polls : List DockerReading := []

namespace Orchestrator

/-- Wait until a reading says the task is neither running nor about to. -/
def waitForExit : List DockerReading → TaskOutcome
  | [] => .timedOut
  | reading :: readings =>
      match reading with
      | .ok none => .failed none
      | .ok (some status) =>
          if status.status ≠ "running" ∧ status.status ≠ "created" then
            if status.exitCode = some 0 then .completed else .failed status.exitCode
          else waitForExit readings
      | .error _ => waitForExit readings

/-- Why a task counts as not started, if it does. -/
def taskFailure (allowance : Nat) (outcome : TaskOutcome) : Option String :=
  match outcome with
  | .completed => none
  | .failed (some code) => some ("task exited with code " ++ toString code)
  | .failed none => some "task container disappeared before it reported an exit code"
  | .timedOut =>
      if allowance = 0 then
        some "the run's task budget is spent; this task was never waited on"
      else
        some ("task was still running after " ++ toString allowance ++
          "s; a task is expected to exit")

/-- The port the status shows: the primary one, else the first. -/
def statusPort (node : Node) : Option String :=
  ((node.ports.toList.find? fun entry => entry.2.primary).map Prod.fst).or
    (node.ports.toList.head?.map Prod.fst)

/-- The routes of one declared port to the host port Docker bound to it. -/
def portRoutes (domain : String) (hostPorts : OrderedMap String (Option UInt16))
    (port : String) (config : PortConfig) : List PortRoute :=
  match (hostPorts[port]?).join with
  | none => []
  | some hostPort =>
      let route (domain : String) : PortRoute :=
        { domain, hostPort, wildcard := config.wildcard, containerPort := port
          https := Dns.certEligible domain true }
      (if config.primary then [route domain] else []) ++
        match config.name with
        | some name => [route (name ++ "." ++ domain)]
        | none => []

/-- The routes of the additional hosts, which share the primary domain's. -/
def hostRoutes (node : Node) (primary : PortRoute) : List PortRoute :=
  let route (wildcard : Bool) (domain : String) : PortRoute :=
    { primary with domain, wildcard, https := Dns.certEligible domain true }
  node.additionalHosts.map (route false) ++ node.wildcardHosts.map (route true)

/-- The routes of a started node, and the additional hosts that got one. -/
def nodeRoutes (node : Node) (domain : String) (hostPorts : OrderedMap String (Option UInt16)) :
    List PortRoute × List String :=
  let routes := node.ports.toList.flatMap fun entry =>
    portRoutes domain hostPorts entry.1 entry.2
  match routes.find? fun route => route.domain == domain with
  | none => (routes, [])
  | some primary => (routes ++ hostRoutes node primary, node.additionalHosts)

/-- The record of a node that started. -/
def startedInfo (node : Node) (spec : NodeSpec) (configHash : String) (debugWait : Bool)
    (inspected : Option ContainerStatus) : ContainerInfo :=
  let hostPort (port : String) := inspected.bind fun status => status.hostPort port
  let ports : OrderedMap String (Option UInt16) :=
    spec.portList.foldl (fun ports entry => ports.insert entry.1 (hostPort entry.1)) ∅
  let routes := nodeRoutes node spec.domain ports
  let task := node.kind == .task
  { nodeId := node.id
    desired :=
      { running := !task
        containerName := spec.containerName
        domain := spec.domain
        rawDomain := spec.rawDomain
        routes := routes.1
        additionalHosts := routes.2
        statusPort := statusPort node
        configHash
        source := node.buildCheckout
        terminating := task
        debugWait }
    observed :=
      -- a task that got here has exited cleanly
      { status := if task then "exited" else (inspected.map (·.status)).getD "unknown"
        publishedPort := (statusPort node).bind hostPort
        ports
        sync := .synced
        exitCode := if task then some 0 else none } }

/-- Start a node's container; a task is started once it exited cleanly. -/
def startNode (specHash : Node → NodeSpec → String) (resolved : Except String NodeSpec)
    (answers : StartAnswers) (node : Node) (debugWait : Bool) : Except String ContainerInfo :=
  match answers.prepare, resolved with
  | .error message, _ => .error message
  | .ok (), .error message => .error message
  | .ok (), .ok spec =>
      match answers.run with
      | .error message => .error message
      | .ok () =>
          match answers.inspected with
          | .error message => .error message
          | .ok inspected =>
              let info := startedInfo node spec (specHash node spec) debugWait inspected
              if node.kind = .task then
                let outcome :=
                  if answers.taskAllowance = 0 then .timedOut else waitForExit answers.polls
                match taskFailure answers.taskAllowance outcome with
                | some failure => .error ("task " ++ node.id ++ " failed: " ++ failure)
                | none => .ok info
              else .ok info

/-- The record of a container that was restarted in place. -/
def restartedInfo (existing : ContainerInfo) (inspected : Option ContainerStatus) : ContainerInfo :=
  match inspected with
  | none => { existing with pendingAction := none }
  | some status =>
      { existing with
        pendingAction := none
        desired :=
          { existing.desired with
            routes := existing.desired.routes.map fun route =>
              { route with
                hostPort := (status.hostPort route.containerPort).getD route.hostPort } }
        observed :=
          { existing.observed with
            ports := existing.observed.ports.map fun port _ => status.hostPort port
            publishedPort :=
              match existing.desired.statusPort with
              | some port => status.hostPort port
              | none => existing.observed.publishedPort
            status := status.status } }

/-- `docker restart` of a running container, which keeps its image and configuration. -/
def restartInPlace (answers : StartAnswers) (existing : ContainerInfo) :
    Except String ContainerInfo :=
  match answers.restart with
  | .error message => .error message
  | .ok () =>
      match answers.inspected with
      | .error message => .error message
      | .ok inspected => .ok (restartedInfo existing inspected)

/-- What a successful start writes down. -/
theorem startNode_ok {specHash : Node → NodeSpec → String} {resolved : Except String NodeSpec}
    {answers : StartAnswers} {node : Node} {debugWait : Bool} {info : ContainerInfo}
    (started : startNode specHash resolved answers node debugWait = .ok info) :
    ∃ spec inspected, resolved = .ok spec ∧ answers.inspected = .ok inspected ∧
      info = startedInfo node spec (specHash node spec) debugWait inspected ∧
      (node.kind = .task → waitForExit answers.polls = .completed) := by
  unfold startNode at started
  split at started
  · cases started
  · cases started
  · rename_i spec prepared
    cases ran : answers.run with
    | error message => simp [ran] at started
    | ok launched =>
        cases looked : answers.inspected with
        | error message => simp [ran, looked] at started
        | ok inspected =>
          simp only [ran, looked] at started
          refine ⟨spec, inspected, rfl, rfl, ?_⟩
          split at started
          · rename_i task
            split at started
            · cases started
            · rename_i clean
              cases started
              refine ⟨rfl, fun _ => ?_⟩
              split at clean
              · rename_i spent
                simp [taskFailure, spent] at clean
              · cases waited : waitForExit answers.polls with
                | completed => rfl
                | failed code => cases code <;> simp [waited, taskFailure] at clean
                | timedOut =>
                    rename_i left
                    simp [waited, taskFailure, left] at clean
          · rename_i notTask
            cases started
            exact ⟨rfl, fun task => (notTask task).elim⟩

theorem restartInPlace_ok {answers : StartAnswers} {existing info : ContainerInfo}
    (restarted : restartInPlace answers existing = .ok info) :
    ∃ inspected, answers.inspected = .ok inspected ∧ info = restartedInfo existing inspected := by
  unfold restartInPlace at restarted
  cases ran : answers.restart with
  | error message => simp [ran] at restarted
  | ok launched =>
      cases looked : answers.inspected with
      | error message => simp [ran, looked] at restarted
      | ok inspected =>
          simp only [ran, looked, Except.ok.injEq] at restarted
          exact ⟨inspected, rfl, restarted.symm⟩

/-- A restart in place keeps the id, the configuration hash and the exit code of the record. -/
theorem restartedInfo_keeps (existing : ContainerInfo) (inspected : Option ContainerStatus) :
    (restartedInfo existing inspected).nodeId = existing.nodeId ∧
      (restartedInfo existing inspected).desired.configHash = existing.desired.configHash ∧
      (restartedInfo existing inspected).observed.exitCode = existing.observed.exitCode := by
  cases inspected <;> exact ⟨rfl, rfl, rfl⟩

end Orchestrator
end Fghj
