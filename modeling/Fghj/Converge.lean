import Fghj.Docker
import Fghj.Library.Execution
import Fghj.Reducer

/-!
# The converge effect

The actor reduces one action at a time. `run_effect` reads its latest state at arbitrary moments
and, when the extracted snapshot differs from the last one, converges: it spawns a task for every
new mark and calls off starts that are no longer wanted. A task reports progress through a channel
that a drain forwards, and settles through a guard that also fires when the task is dropped.
-/

namespace Fghj

open Std

/-- One mark as the effect sees it. -/
structure PendingEntry where
  nodeId : String
  action : PendingAction
  deriving DecidableEq

/-- What the effect extracts from a workspace. -/
structure ConvergeSnapshot where
  pending : List PendingEntry
  create : Option EnvSpec
  deriving DecidableEq

/-- What came up, with the network and sidecar it came up in. -/
structure NodeDone where
  network : String
  sidecarContainerName : String
  sidecarIp : Option String
  info : ContainerInfo
  deriving DecidableEq

/-- One report of a run. -/
inductive RunProgress where
  | planned (start stop : List String)
  | working (nodeId : String) (action : Option PendingAction)
  | done (done : NodeDone)
  deriving DecidableEq

namespace Converge

open Reducer Orchestrator

/-! ## Snapshots and plans -/

/-- The marks that are jobs; during a create they are the create's progress. -/
def extractPending (state : WorkspaceState) : List PendingEntry :=
  match state.env with
  | none => []
  | some run =>
      if run.pendingCreate.isSome then []
      else
        (OrderedMap.listed run.containers).filterMap fun container =>
          container.pendingAction.map fun action => { nodeId := container.nodeId, action }

/-- The snapshot of a workspace. -/
def extract (state : WorkspaceState) : ConvergeSnapshot where
  pending := extractPending state
  create := state.pendingCreate?

/-- Entries to spawn, and nodes whose task is no longer wanted. -/
structure Plan where
  spawn : List PendingEntry := []
  abort : List String := []
  deriving DecidableEq

/-- One entry: new, already under way, or taking over from another action. -/
def planEntry (inFlight : OrderedMap String PendingAction) (plan : Plan) (entry : PendingEntry) :
    Plan :=
  match inFlight[entry.nodeId]? with
  | some action =>
      if action = entry.action then plan
      else { spawn := plan.spawn ++ [entry], abort := plan.abort ++ [entry.nodeId] }
  | none => { plan with spawn := plan.spawn ++ [entry] }

/-- What to spawn and what to call off for a snapshot. -/
def plan (inFlight : OrderedMap String PendingAction) (snapshot : List PendingEntry) : Plan :=
  let planned := snapshot.foldl (planEntry inFlight) {}
  -- gone without settling: a start with no container yet, called off
  let gone := inFlight.toList.filter fun flight =>
    flight.2 == .starting && !snapshot.any fun entry => entry.nodeId == flight.1
  { planned with abort := planned.abort ++ gone.map Prod.fst }

/-- The marks without the start marks a running action set on the nodes it drives. -/
def withoutProgress (pending : List PendingEntry) (driven : OrderedMap String Nat)
    (inFlight : OrderedMap String PendingAction) : List PendingEntry :=
  pending.filter fun entry =>
    !((entry.action == .starting || entry.action == .restarting) &&
      driven.contains entry.nodeId && !inFlight.contains entry.nodeId)

/-- At most one create at a time: what to spawn, and whether one is in flight. -/
def planCreate (inFlight : Bool) (snapshot : Option EnvSpec) : Option EnvSpec × Bool :=
  match snapshot with
  | some plan => if inFlight then (none, true) else (some plan, true)
  | none => (none, false)

/-! ## Tasks -/

/-- What a task was spawned for. -/
inductive Job where
  | action (entry : PendingEntry)
  | create (plan : EnvSpec)
  deriving DecidableEq

namespace Job

/-- The node whose progress the drain skips: its own settle reports it. -/
def own : Job → Option String
  | .action entry => some entry.nodeId
  | .create _ => none

/-- A start and a create run `bring_up`, which reports progress. -/
def reports : Job → Bool
  | .action entry => entry.action == .starting
  | .create _ => true

/-- What the guard dispatches when the task ends without settling. -/
def abandoned : Job → Action
  | .action entry =>
      .containerActionSettled entry.nodeId (some entry.action)
        (.error
          "action task ended without reporting a result (likely a panic or cancellation)")
  | .create _ =>
      .envCreateSettled (.error
        { message := "environment creation task ended without reporting a result " ++
            "(likely a panic or cancellation)" })

end Job

/-- How the work of a task ended. -/
inductive RunOutcome where
  | action (result : Except String (Option ContainerInfo)) (cascaded : List ContainerInfo)
  | create (result : Except EnvCreateError EnvState)

/-- Every record is kept under the id it carries. -/
def keyed (run : EnvState) : Bool :=
  run.containers.toList.all fun entry => entry.2.nodeId == entry.1

/-- A record some stop of the container could have written. -/
def stops (container info : ContainerInfo) : Bool :=
  info == stopContainer container (.ok (some { status := info.observed.status }))

/-- What `perform` can answer for an entry, given the environment it copied. -/
def performs (entry : PendingEntry) (run : EnvState)
    (result : Except String (Option ContainerInfo)) (cascaded : List ContainerInfo) : Bool :=
  match entry.action with
  | .starting =>
      -- `restart_node`: any node of the run may come up or fail
      cascaded.all (fun info => info.nodeId != entry.nodeId) &&
        match result with
        | .ok (some info) => info.nodeId == entry.nodeId
        | .ok none => false
        | .error _ => true
  | .stopping =>
      match run.containers[entry.nodeId]?, result with
      | none, .error message => message == "no such node: " ++ entry.nodeId && cascaded.isEmpty
      | some container, .ok (some info) =>
          stops container info &&
            cascaded.all fun dependent =>
              (OrderedMap.listed run.containers).any fun container =>
                container.nodeId != entry.nodeId && container.pendingAction.isNone &&
                  container.observed.status == "running" && stops container dependent
      | _, _ => false
  | .removing =>
      match run.containers[entry.nodeId]?, result with
      | none, .error message => message == "no such node: " ++ entry.nodeId && cascaded.isEmpty
      | some _, .ok none => cascaded.isEmpty
      | _, _ => false
  | .restarting =>
      match result with
      | .error message =>
          message == "a restart is part of a run, never asked for on its own" && cascaded.isEmpty
      | .ok _ => false

/-- The settle of a job and the nodes it touched on the way, if the job can end like that. -/
def Job.settle (job : Job) (copy : Option EnvState) (outcome : RunOutcome) :
    Option (Action × List ContainerInfo) :=
  match job, outcome with
  | .action entry, .action result cascaded =>
      let possible :=
        match copy, result with
        | some run, _ => performs entry run result cascaded
        | none, .error message => message == "no environment yet" && cascaded.isEmpty
        | none, .ok _ => false
      if possible then
        some (.containerActionSettled entry.nodeId (some entry.action) result, cascaded)
      else none
  | .create _, .create result =>
      if (carried result).all keyed then some (.envCreateSettled result, []) else none
  | _, _ => none

/-- How far a task is. -/
inductive Phase where
  /-- The work is under way and the progress channel open. -/
  | running
  /-- The channel is closed; the drain, then the cascaded settles, then the guard come next. -/
  | closing (settle : Action) (cascaded : List ContainerInfo)
  /-- The guard's settle is on its way to the actor. -/
  | settling (settle : Action)
  | settled

/-- The work is still under way. -/
def Phase.isRunning : Phase → Bool
  | .running => true
  | _ => false

/-- The task is over; at most its settle is in flight. -/
def Phase.ended : Phase → Bool
  | .settling _ | .settled => true
  | _ => false

/-- The settle has been reduced. -/
def Phase.isSettled : Phase → Bool
  | .settled => true
  | _ => false

/-- A task and the drain of its progress channel. -/
structure Task where
  job : Job
  /-- The environment as the actor had it when the task was spawned. -/
  copy : Option EnvState
  phase : Phase := .running
  /-- Aborted by the effect; it ends at its next await. -/
  calledOff : Bool := false
  /-- The node the run works on now. -/
  working : Option String := none
  /-- Reports sent and not yet forwarded. -/
  queue : List RunProgress := []
  /-- The nodes the drain claimed. -/
  mine : List String := []
  /-- The drain is over and its claims are lifted. -/
  lifted : Bool := false

/-- A run works on one node at a time: it announces it, then reports it done or given up. -/
def follow : Option String → RunProgress → Option (Option String)
  | working, .planned _ _ => some working
  | none, .working nodeId (some _) => some (some nodeId)
  | some current, .working nodeId none => if current = nodeId then some none else none
  | some current, .done done => if current = done.info.nodeId then some none else none
  | _, _ => none

/-- What a task and its drain can do next. -/
inductive TaskEvent where
  | report (progress : RunProgress)
  | claim
  | send
  | lift
  | finish (outcome : RunOutcome)
  | cascade
  | settle
  | drop
  | deliver

namespace Task

/-- The node the drain claims before it forwards the next report. -/
def claims (task : Task) : Option String :=
  match task.queue with
  | .working nodeId (some _) :: _ =>
      if task.job.own = some nodeId ∨ nodeId ∈ task.mine then none else some nodeId
  | _ => none

/-- The action the drain forwards a report as; the node the job is for is skipped. -/
def forward (task : Task) : RunProgress → Option Action
  | .planned _ _ => none
  | .working nodeId action =>
      if task.job.own = some nodeId then none else some (.envCreateWorking nodeId action)
  | .done done =>
      if task.job.own = some done.info.nodeId then none
      else
        some (.envCreateProgress done.network done.sidecarContainerName done.sidecarIp done.info)

/-- Abort the task; one that has ended is left alone. -/
def callOff (task : Task) : Task :=
  if task.phase.ended then task else { task with calledOff := true }

/-- One move of a task or its drain, and the action it gets reduced; `none` if it cannot be made. -/
def step (task : Task) : TaskEvent → Option (Task × Option Action)
  | .report progress =>
      if task.phase.isRunning ∧ task.job.reports then
        (follow task.working progress).map fun working =>
          ({ task with working, queue := task.queue ++ [progress] }, none)
      else none
  | .claim =>
      task.claims.map fun nodeId => ({ task with mine := task.mine ++ [nodeId] }, none)
  | .send =>
      match task.queue with
      | [] => none
      | progress :: queue =>
          if task.claims = none then some ({ task with queue }, task.forward progress) else none
  | .lift =>
      if task.phase.isRunning = false ∧ task.queue = [] ∧ task.lifted = false then
        some ({ task with lifted := true }, none)
      else none
  | .finish outcome =>
      if task.phase.isRunning ∧ task.working = none then
        (task.job.settle task.copy outcome).map fun settled =>
          ({ task with phase := .closing settled.1 settled.2 }, none)
      else none
  | .cascade =>
      match task.phase, task.lifted with
      | .closing settle (info :: cascaded), true =>
          some ({ task with phase := .closing settle cascaded },
            some (.containerActionSettled info.nodeId none (.ok (some info))))
      | _, _ => none
  | .settle =>
      match task.phase, task.lifted with
      | .closing settle [], true => some ({ task with phase := .settling settle }, none)
      | _, _ => none
  | .drop =>
      if task.phase.ended then none
      else some ({ task with phase := .settling task.job.abandoned }, none)
  | .deliver =>
      match task.phase with
      | .settling settle => some ({ task with phase := .settled }, some settle)
      | _ => none

end Task

/-! ## The runtime -/

/-- The actor's state, the effect's books and the tasks it spawned. -/
structure Runtime where
  state : WorkspaceState := {}
  /-- The snapshot converged last. -/
  last : Option ConvergeSnapshot := none
  /-- A snapshot read and not yet converged. -/
  seen : Option ConvergeSnapshot := none
  inFlight : OrderedMap String (PendingAction × Nat) := ∅
  createInFlight : Bool := false
  /-- How many running actions drive each node. -/
  driven : OrderedMap String Nat := ∅
  tasks : List Task := []

namespace Runtime

/-- Call off the task of a node. -/
def abortStart (runtime : Runtime) (nodeId : String) : Runtime :=
  match runtime.inFlight[nodeId]? with
  | none => runtime
  | some (_, id) =>
      { runtime with
        inFlight := runtime.inFlight.erase nodeId
        tasks := runtime.tasks.modify id Task.callOff }

/-- Spawn the task of an entry. -/
def spawnAction (runtime : Runtime) (entry : PendingEntry) : Runtime :=
  { runtime with
    inFlight := runtime.inFlight.insert entry.nodeId (entry.action, runtime.tasks.length)
    tasks := runtime.tasks ++ [{ job := .action entry, copy := runtime.state.env }] }

/-- Spawn the task of a create. -/
def spawnCreate (runtime : Runtime) (plan : EnvSpec) : Runtime :=
  { runtime with
    tasks := runtime.tasks ++ [{ job := .create plan, copy := runtime.state.env }] }

/-- The action in flight on each node. -/
def actions (runtime : Runtime) : OrderedMap String PendingAction :=
  runtime.inFlight.map fun _ flight => flight.1

/-- The marks of a snapshot that are jobs of their own. -/
def pending (runtime : Runtime) (snapshot : ConvergeSnapshot) : List PendingEntry :=
  withoutProgress snapshot.pending runtime.driven runtime.actions

/-- What converging a snapshot spawns and calls off. -/
def planned (runtime : Runtime) (snapshot : ConvergeSnapshot) : Plan :=
  plan runtime.actions (runtime.pending snapshot)

/-- Keep the entries whose node still has a mark. -/
def retain (runtime : Runtime) (pending : List PendingEntry) : Runtime :=
  { runtime with
    inFlight := runtime.inFlight.filter fun nodeId _ =>
      pending.any fun entry => entry.nodeId == nodeId }

/-- Spawn a create if one is wanted and none is in flight. -/
def convergeCreate (runtime : Runtime) (create : Option EnvSpec) : Runtime :=
  let (toCreate, stillCreating) := planCreate runtime.createInFlight create
  let runtime := { runtime with createInFlight := stillCreating }
  match toCreate with
  | some plan => runtime.spawnCreate plan
  | none => runtime

/-- Act on a snapshot. -/
def converge (runtime : Runtime) (snapshot : ConvergeSnapshot) : Runtime :=
  let pending := runtime.pending snapshot
  let planned := runtime.planned snapshot
  let calledOff := planned.abort.foldl abortStart runtime
  let retained := calledOff.retain pending
  let spawned := planned.spawn.foldl spawnAction retained
  spawned.convergeCreate snapshot.create

/-- One more action drives a node. -/
def claim (driven : OrderedMap String Nat) (nodeId : String) : OrderedMap String Nat :=
  driven.insert nodeId (driven[nodeId]?.getD 0 + 1)

/-- One action fewer drives a node. -/
def unclaim (driven : OrderedMap String Nat) (nodeId : String) : OrderedMap String Nat :=
  match driven[nodeId]? with
  | none => driven
  | some count => if count - 1 = 0 then driven.erase nodeId else driven.insert nodeId (count - 1)

/-- What a move of a task does to the claims all tasks share. -/
def drive (driven : OrderedMap String Nat) (task : Task) : TaskEvent → OrderedMap String Nat
  | .claim => task.claims.elim driven (claim driven)
  | .lift => task.mine.foldl unclaim driven
  | _ => driven

end Runtime

/-- One thing that happens in a workspace. -/
inductive Event where
  /-- A request, or an observation, reaches the actor. -/
  | dispatch (action : Action)
  /-- `run_effect` reads the latest state. -/
  | borrow
  /-- `run_effect` converges the snapshot it read. -/
  | converge
  /-- The task with this id, or its drain, makes a move. -/
  | task (id : Nat) (event : TaskEvent)

/-- The actions that come from outside the tasks. -/
def external : Action → Bool
  | .containerActionSettled .. => false
  | .envCreateSettled _ => false
  | .envCreateProgress .. => false
  | .envCreateWorking .. => false
  | _ => true

/-- What an event does; `none` if it cannot happen. -/
def Runtime.act (runtime : Runtime) : Event → Option Runtime
  | .dispatch action =>
      if external action then
        some { runtime with state := Reducer.dispatch runtime.state action }
      else none
  | .borrow =>
      let snapshot := extract runtime.state
      if runtime.seen = none ∧ runtime.last ≠ some snapshot then
        some { runtime with seen := some snapshot }
      else none
  | .converge =>
      runtime.seen.map fun snapshot =>
        { runtime.converge snapshot with last := some snapshot, seen := none }
  | .task id event => do
      let task ← runtime.tasks[id]?
      let (next, action) ← task.step event
      return { runtime with
        state := action.elim runtime.state (Reducer.dispatch runtime.state)
        driven := Runtime.drive runtime.driven task event
        tasks := runtime.tasks.set id next }

/-- One event; one that cannot happen changes nothing. -/
def step (runtime : Runtime) (event : Event) : Runtime := (runtime.act event).getD runtime

/-- A workspace before its effects run: records under their ids and no marks. -/
def Idle (state : WorkspaceState) : Prop :=
  state.pendingCreate? = none ∧ (∀ nodeId, state.pendingAction? nodeId = none) ∧
    ∀ run, state.env = some run → keyed run

end Converge
end Fghj
