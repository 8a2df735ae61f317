import Fghj.State

/-!
# The reducer

Every way a workspace's state can change. Requests may be rejected; reports never are. A report is
a function of the environment alone: without an environment it changes nothing.
-/

namespace Fghj

open Std

/-- One change to a workspace. -/
inductive Action where
  | envPlanned (plan : EnvSpec)
  | nodeStartRequested (nodeId : String)
  | nodeStopRequested (nodeId : String)
  | nodeDebugWaitRequested (nodeId : String) (wait : Bool)
  | nodeDeleteRequested (nodeId : String)
  /-- A Docker reading, and the reading it was taken against. -/
  | containerObserved (nodeId : String) (status : String) (publishedPort : Option UInt16)
      (ports : OrderedMap String (Option UInt16)) (exitCode : Option Int) (unseen : Bool)
      (basedOn : ContainerObserved)
  /-- The outcome of the action `of`; without one, of a node another action touched on the way. -/
  | containerActionSettled (nodeId : String) (of : Option PendingAction)
      (result : Except String (Option ContainerInfo))
  | envCreateSettled (result : Except EnvCreateError EnvState)
  /-- One node up during a run. -/
  | envCreateProgress (network sidecarContainerName : String) (sidecarIp : Option String)
      (info : ContainerInfo)
  | sidecarRestored (sidecarIp : String)
  /-- A run is about to work on a node, or gave up on it. -/
  | envCreateWorking (nodeId : String) (action : Option PendingAction)
  | volumeObserved (volumeName : String) («exists» : Bool)
  | configDriftObserved (nodeId : String) (drift : SyncStatus) (seeded : Option Bool)
  | ownerSet (owner : WorkspaceOwner)

/-- Why the reducer refused a request. -/
inductive ActionRejected where
  | alreadyInFlight
  | noEnvironment
  | nodeNotFound
  deriving DecidableEq

namespace Reducer

/-! ## Requests -/

/-- The record a start leaves while its node has no container. -/
def startingPlaceholder (nodeId : String) : ContainerInfo where
  nodeId := nodeId
  desired := { running := true }
  pendingAction := some .starting

/-- Look up a node to act on; a create owns every container until it settles. -/
def lookupMut (state : WorkspaceState) (nodeId : String) :
    Except ActionRejected (EnvState × ContainerInfo) :=
  match state.env with
  | none => .error .noEnvironment
  | some run =>
      if run.pendingCreate.isSome then .error .alreadyInFlight
      else
        match run.containers[nodeId]? with
        | none => .error .nodeNotFound
        | some container => .ok (run, container)

/-- Replace the record of one node. -/
def putContainer (state : WorkspaceState) (run : EnvState) (nodeId : String)
    (container : ContainerInfo) : WorkspaceState :=
  { state with env := some { run with containers := run.containers.insert nodeId container } }

/-- Flip the debug switch of an existing container and queue the start that applies it. -/
def setDebugWait (state : WorkspaceState) (nodeId : String) (wait : Bool) :
    Except ActionRejected WorkspaceState :=
  match state.env with
  | none => .error .noEnvironment
  | some run =>
      match run.containers[nodeId]? with
      | none => .error .nodeNotFound
      | some container =>
          if container.pendingAction.isSome then .error .alreadyInFlight
          else
            .ok <| putContainer state run nodeId
              { container with
                desired := { container.desired with debugWait := wait, running := true }
                pendingAction := some .starting }

/-- Start a node; without an environment this is a create scoped to the node. -/
def startNode (state : WorkspaceState) (nodeId : String) : Except ActionRejected WorkspaceState :=
  match state.env with
  | none => .ok { state with env := some { pendingCreate := some (.node nodeId) } }
  | some run =>
      if run.pendingCreate.isSome then .error .alreadyInFlight
      else
        match run.containers[nodeId]? with
        | none => .ok (putContainer state run nodeId (startingPlaceholder nodeId))
        | some container =>
            if container.pendingAction.isSome then .error .alreadyInFlight
            else
              .ok <| putContainer state run nodeId
                { container with
                  desired := { container.desired with running := true }
                  pendingAction := some .starting }

/-- Mark a node for a stop or a delete, either of which may take over from a start. -/
def setPending (state : WorkspaceState) (nodeId : String) (pending : PendingAction)
    (desiredRunning : Bool) : Except ActionRejected WorkspaceState :=
  match lookupMut state nodeId with
  | .error rejected => .error rejected
  | .ok (run, container) =>
      let marked := putContainer state run nodeId
        { container with
          desired := { container.desired with running := desiredRunning }
          pendingAction := some pending }
      match container.pendingAction with
      | none => .ok marked
      | some .starting =>
          -- A start without a container leaves nothing behind to stop or delete.
          if container.desired.containerName = "" then
            .ok { state with env := some { run with containers := run.containers.erase nodeId } }
          else .ok marked
      | some _ => .error .alreadyInFlight

/-- Record the intent of a create, keeping the containers there are. -/
def planEnv (state : WorkspaceState) (plan : EnvSpec) : Except ActionRejected WorkspaceState :=
  let run := state.env.getD {}
  if run.pendingCreate.isSome then .error .alreadyInFlight
  else .ok { state with env := some { run with pendingCreate := some plan } }

/-! ## Reports -/

/-- A record that never got a container. -/
def isPlaceholder (container : ContainerInfo) : Bool := container.desired.containerName == ""

/-- Clear the marks of a finished create and drop the placeholders it left. -/
def clearCreateMarks (run : EnvState) : EnvState :=
  { run with
    pendingCreate := none
    containers := (run.containers.filter fun _ container => !isPlaceholder container).map
      fun _ container => { container with pendingAction := none } }

/-- A reading written over a container, unless it is older than what is recorded. -/
def observeContainer (container : ContainerInfo) (status : String)
    (publishedPort : Option UInt16) (ports : OrderedMap String (Option UInt16))
    (exitCode : Option Int) (unseen : Bool) (basedOn : ContainerObserved) : ContainerInfo :=
  if container.pendingAction.isSome || !container.observed.sameReading basedOn then container
  else if unseen then { container with observed := { container.observed with unseen := true } }
  else
    { container with
      observed :=
        { container.observed with
          unseen := false
          status := status
          publishedPort := publishedPort
          ports := ports
          exitCode := exitCode }.settleInterruption container.observed.unseen }

/-- Record the outcome of an action, unless the node has moved on to another one. -/
def settleContainerAction (run : EnvState) (nodeId : String) (of : Option PendingAction)
    (result : Except String (Option ContainerInfo)) : EnvState :=
  if of.isSome && of != (run.containers[nodeId]?).bind ContainerInfo.pendingAction then run
  else
    match result with
    | .ok (some info) =>
        { run with
          containers := run.containers.insert nodeId { info with pendingAction := none } }
    | .ok none => { run with containers := run.containers.erase nodeId }
    | .error _ =>
        { run with
          containers := run.containers.modify nodeId fun container =>
            { container with pendingAction := none } }

/-- Adopt what a create brought up, or clear its marks if it brought up nothing. -/
def settleEnvCreate (run : EnvState) : Except EnvCreateError EnvState → EnvState
  | .ok created => clearCreateMarks created
  | .error { partialState := some created, .. } => clearCreateMarks created
  | .error { partialState := none, .. } => clearCreateMarks run

/-- Mark the node a run works on, or take its mark off again. -/
def workOnContainer (run : EnvState) (nodeId : String) (action : Option PendingAction) : EnvState :=
  match action, run.containers[nodeId]? with
  | some action, some container =>
      { run with
        containers := run.containers.insert nodeId
          { container with pendingAction := some action } }
  | some _, none =>
      { run with containers := run.containers.insert nodeId (startingPlaceholder nodeId) }
  | none, some container =>
      if isPlaceholder container then
        { run with containers := run.containers.erase nodeId }
      else
        { run with
          containers := run.containers.insert nodeId { container with pendingAction := none } }
  | none, none => run

/-- Record a node that came up during a run. -/
def recordProgress (run : EnvState) (network sidecarContainerName : String)
    (sidecarIp : Option String) (info : ContainerInfo) : EnvState :=
  { run with
    network := network
    sidecarContainerName := sidecarContainerName
    sidecarIp := sidecarIp
    containers := run.containers.insert info.nodeId { info with pendingAction := none } }

/-- Record whether a volume exists, adding it when it was unknown. -/
def observeVolume (run : EnvState) (volumeName : String) («exists» : Bool) : EnvState :=
  let volume := run.volumes[volumeName]?.getD { desired := { name := volumeName } }
  { run with
    volumes := run.volumes.insert volumeName { volume with observed := { «exists» } } }

/-- Record the drift check's verdict on a container. -/
def observeConfigDrift (run : EnvState) (nodeId : String) (drift : SyncStatus)
    (seeded : Option Bool) : EnvState :=
  { run with
    containers := run.containers.modify nodeId fun container =>
      { container with observed := { container.observed with sync := drift, seeded := seeded } } }

/-- The effect of a report on the environment; requests have none. -/
def report (action : Action) (run : EnvState) : EnvState :=
  match action with
  | .containerObserved nodeId status publishedPort ports exitCode unseen basedOn =>
      { run with
        containers := run.containers.modify nodeId fun container =>
          observeContainer container status publishedPort ports exitCode unseen basedOn }
  | .containerActionSettled nodeId of result => settleContainerAction run nodeId of result
  | .envCreateSettled result => settleEnvCreate run result
  | .envCreateProgress network sidecarContainerName sidecarIp info =>
      recordProgress run network sidecarContainerName sidecarIp info
  | .sidecarRestored sidecarIp => { run with sidecarIp := some sidecarIp }
  | .envCreateWorking nodeId action => workOnContainer run nodeId action
  | .volumeObserved volumeName «exists» => observeVolume run volumeName «exists»
  | .configDriftObserved nodeId drift seeded => observeConfigDrift run nodeId drift seeded
  | _ => run

/-- Turn an action into a new state, or refuse it. -/
def reduce (state : WorkspaceState) (action : Action) : Except ActionRejected WorkspaceState :=
  match action with
  | .envPlanned plan => planEnv state plan
  | .nodeStartRequested nodeId => startNode state nodeId
  | .nodeDebugWaitRequested nodeId wait => setDebugWait state nodeId wait
  | .nodeStopRequested nodeId => setPending state nodeId .stopping false
  | .nodeDeleteRequested nodeId =>
      let desiredRunning := (state.container? nodeId).any fun container =>
        container.desired.running
      setPending state nodeId .removing desiredRunning
  | .ownerSet owner => .ok { state with owner := some owner }
  | action => .ok { state with env := state.env.map (report action) }

/-- One action as the workspace actor applies it: a refused one leaves the state as it was. -/
def dispatch (state : WorkspaceState) (action : Action) : WorkspaceState :=
  match reduce state action with
  | .ok next => next
  | .error _ => state

/-! ## What an action can change -/

variable {state next : WorkspaceState} {action : Action}

theorem dispatch_of_ok (accepted : reduce state action = .ok next) :
    dispatch state action = next := by
  simp [dispatch, accepted]

theorem dispatch_of_error {state : WorkspaceState} {rejected : ActionRejected}
    (refused : reduce state action = .error rejected) : dispatch state action = state := by
  simp [dispatch, refused]

/-- The environment a create's end carries, if any. -/
def carried : Except EnvCreateError EnvState → Option EnvState
  | .ok created => some created
  | .error failure => failure.partialState

/-- Whatever a create ends with, its marks are cleared, in the environment it carries or in
place. -/
theorem settleEnvCreate_eq (run : EnvState) (result : Except EnvCreateError EnvState) :
    ∃ created, created = (carried result).getD run ∧
      settleEnvCreate run result = clearCreateMarks created := by
  rcases result with ⟨message, partialState⟩ | created
  · cases partialState with
    | none => exact ⟨run, rfl, rfl⟩
    | some created => exact ⟨created, rfl, rfl⟩
  · exact ⟨created, rfl, rfl⟩

/-- A report clears the create in flight if it settles it, and otherwise leaves it alone. -/
theorem report_pendingCreate (action : Action) (run : EnvState) :
    (report action run).pendingCreate =
      match action with
      | .envCreateSettled _ => none
      | _ => run.pendingCreate := by
  cases action with
  | containerActionSettled nodeId of result =>
      simp only [report, settleContainerAction]
      split
      · rfl
      · split <;> rfl
  | envCreateSettled result =>
      obtain ⟨created, -, settles⟩ := settleEnvCreate_eq run result
      simp only [report, settles]
      rfl
  | envCreateWorking nodeId action =>
      simp only [report, workOnContainer]
      split
      · rfl
      · rfl
      · split <;> rfl
      · rfl
  | _ => rfl

/-- The node a request names and the mark it asks for. -/
def requested : Action → Option (String × PendingAction)
  | .nodeStartRequested nodeId => some (nodeId, .starting)
  | .nodeDebugWaitRequested nodeId _ => some (nodeId, .starting)
  | .nodeStopRequested nodeId => some (nodeId, .stopping)
  | .nodeDeleteRequested nodeId => some (nodeId, .removing)
  | _ => none

/-- What an accepted request does to the environment it finds. -/
inductive Marks (run : EnvState) (nodeId : String) (pending : PendingAction) : EnvState → Prop where
  /-- A start of a node without a record leaves a placeholder. -/
  | place (absent : run.containers[nodeId]? = none) (start : pending = .starting) :
      Marks run nodeId pending
        { run with containers := run.containers.insert nodeId (startingPlaceholder nodeId) }
  /-- A node that is idle, or being started, takes the new mark. -/
  | mark (container : ContainerInfo) (desired : ContainerDesired)
      (found : run.containers[nodeId]? = some container)
      (free : container.pendingAction = none ∨
        container.pendingAction = some .starting ∧ pending ≠ .starting)
      (named : desired.containerName = container.desired.containerName) :
      Marks run nodeId pending
        { run with
          containers := run.containers.insert nodeId
            { container with desired := desired, pendingAction := some pending } }
  /-- A start without a container is called off by dropping its placeholder. -/
  | callOff (container : ContainerInfo) (found : run.containers[nodeId]? = some container)
      (started : container.pendingAction = some .starting)
      (unnamed : container.desired.containerName = "") (taken : pending ≠ .starting) :
      Marks run nodeId pending { run with containers := run.containers.erase nodeId }

variable {nodeId : String} {pending : PendingAction}

theorem Marks.pendingCreate_eq {run next : EnvState} (marks : Marks run nodeId pending next) :
    next.pendingCreate = run.pendingCreate := by
  cases marks <;> rfl

theorem setDebugWait_ok {wait : Bool} (accepted : setDebugWait state nodeId wait = .ok next) :
    ∃ run marked, state.env = some run ∧ Marks run nodeId .starting marked ∧
      next = { state with env := some marked } := by
  unfold setDebugWait at accepted
  split at accepted
  · cases accepted
  · rename_i run env_eq
    split at accepted
    · cases accepted
    · rename_i container found
      split at accepted
      · cases accepted
      · rename_i idle
        cases accepted
        have free : container.pendingAction = none := by simpa using idle
        refine ⟨run, _, env_eq, ?_, rfl⟩
        exact Marks.mark container
          { container.desired with debugWait := wait, running := true } found (.inl free) rfl

theorem startNode_ok (accepted : startNode state nodeId = .ok next) :
    state.env = none ∧ next = { state with env := some { pendingCreate := some (.node nodeId) } } ∨
      ∃ run marked, state.env = some run ∧ run.pendingCreate = none ∧
        Marks run nodeId .starting marked ∧ next = { state with env := some marked } := by
  unfold startNode at accepted
  split at accepted
  · rename_i env_eq
    cases accepted
    exact .inl ⟨env_eq, rfl⟩
  · rename_i run env_eq
    right
    split at accepted
    · cases accepted
    · rename_i settled
      have unplanned : run.pendingCreate = none := by simpa using settled
      split at accepted
      · rename_i absent
        cases accepted
        exact ⟨run, _, env_eq, unplanned, Marks.place absent rfl, rfl⟩
      · rename_i container found
        split at accepted
        · cases accepted
        · rename_i idle
          cases accepted
          have free : container.pendingAction = none := by simpa using idle
          refine ⟨run, _, env_eq, unplanned, ?_, rfl⟩
          exact Marks.mark container { container.desired with running := true } found
            (.inl free) rfl

theorem lookupMut_ok {state : WorkspaceState} {run : EnvState} {container : ContainerInfo}
    (found : lookupMut state nodeId = .ok (run, container)) :
    state.env = some run ∧ run.pendingCreate = none ∧
      run.containers[nodeId]? = some container := by
  unfold lookupMut at found
  split at found
  · cases found
  · rename_i held env_eq
    split at found
    · cases found
    · rename_i settled
      split at found
      · cases found
      · rename_i lookup
        cases found
        exact ⟨env_eq, by simpa using settled, lookup⟩

theorem setPending_ok {desiredRunning : Bool} (taken : pending ≠ .starting)
    (accepted : setPending state nodeId pending desiredRunning = .ok next) :
    ∃ run marked, state.env = some run ∧ run.pendingCreate = none ∧
      Marks run nodeId pending marked ∧ next = { state with env := some marked } := by
  unfold setPending at accepted
  split at accepted
  · cases accepted
  · rename_i run container lookup
    obtain ⟨env_eq, unplanned, found⟩ := lookupMut_ok lookup
    have marked (free : container.pendingAction = none ∨
        container.pendingAction = some .starting ∧ pending ≠ .starting) :=
      Marks.mark container { container.desired with running := desiredRunning } found free rfl
    simp only at accepted
    split at accepted
    · rename_i idle
      cases accepted
      exact ⟨run, _, env_eq, unplanned, marked (.inl idle), rfl⟩
    · rename_i started
      split at accepted
      · rename_i unnamed
        cases accepted
        exact ⟨run, _, env_eq, unplanned, .callOff container found started unnamed taken, rfl⟩
      · cases accepted
        exact ⟨run, _, env_eq, unplanned, marked (.inr ⟨started, taken⟩), rfl⟩
    · cases accepted

/-- An accepted node request is a first start, or marks the environment there is; all but the debug
switch wait for the create in flight. -/
theorem request_ok (request : requested action = some (nodeId, pending))
    (accepted : reduce state action = .ok next) :
    (state.env = none ∧ action = .nodeStartRequested nodeId ∧
        next = { state with env := some { pendingCreate := some (.node nodeId) } }) ∨
      ∃ run marked, state.env = some run ∧
        (run.pendingCreate = none ∨ ∃ wait, action = .nodeDebugWaitRequested nodeId wait) ∧
        Marks run nodeId pending marked ∧ next = { state with env := some marked } := by
  cases action with
  | nodeStartRequested named =>
      cases request
      rcases startNode_ok accepted with ⟨env_eq, rfl⟩ | ⟨run, marked, env_eq, idle, marks, rfl⟩
      · exact .inl ⟨env_eq, rfl, rfl⟩
      · exact .inr ⟨run, marked, env_eq, .inl idle, marks, rfl⟩
  | nodeDebugWaitRequested named wait =>
      cases request
      obtain ⟨run, marked, env_eq, marks, rfl⟩ := setDebugWait_ok accepted
      exact .inr ⟨run, marked, env_eq, .inr ⟨wait, rfl⟩, marks, rfl⟩
  | nodeStopRequested named =>
      cases request
      obtain ⟨run, marked, env_eq, idle, marks, rfl⟩ := setPending_ok (by decide) accepted
      exact .inr ⟨run, marked, env_eq, .inl idle, marks, rfl⟩
  | nodeDeleteRequested named =>
      cases request
      obtain ⟨run, marked, env_eq, idle, marks, rfl⟩ := setPending_ok (by decide) accepted
      exact .inr ⟨run, marked, env_eq, .inl idle, marks, rfl⟩
  | _ => cases request

theorem planEnv_ok {plan : EnvSpec} (accepted : planEnv state plan = .ok next) :
    state.pendingCreate? = none ∧
      next = { state with env := some { state.env.getD {} with pendingCreate := some plan } } := by
  unfold planEnv at accepted
  simp only at accepted
  split at accepted
  · cases accepted
  · rename_i idle
    cases accepted
    refine ⟨?_, rfl⟩
    cases env_eq : state.env with
    | none => simp [WorkspaceState.pendingCreate?, env_eq]
    | some run => simpa [WorkspaceState.pendingCreate?, env_eq] using idle

/-- The actions that report what happened; they are never refused. -/
def isReport : Action → Bool
  | .containerObserved .. => true
  | .containerActionSettled .. => true
  | .envCreateSettled _ => true
  | .envCreateProgress .. => true
  | .sidecarRestored _ => true
  | .envCreateWorking .. => true
  | .volumeObserved .. => true
  | .configDriftObserved .. => true
  | _ => false

theorem requested_of_report (reports : isReport action) : requested action = none := by
  cases action <;> first | rfl | cases reports

theorem dispatch_report (reports : isReport action) (state : WorkspaceState) :
    dispatch state action = { state with env := state.env.map (report action) } := by
  cases action <;> first | rfl | cases reports

/-- Everything one action can do to a workspace, with the guard it passed. -/
theorem dispatch_cases (state : WorkspaceState) (action : Action) :
    ((∃ rejected, reduce state action = .error rejected) ∧ dispatch state action = state) ∨
    (∃ plan, action = .envPlanned plan ∧ state.pendingCreate? = none ∧
      dispatch state action =
        { state with env := some { state.env.getD {} with pendingCreate := some plan } }) ∨
    (∃ nodeId, action = .nodeStartRequested nodeId ∧ state.env = none ∧
      dispatch state action = { state with env := some { pendingCreate := some (.node nodeId) } }) ∨
    (∃ nodeId pending run marked, requested action = some (nodeId, pending) ∧
      state.env = some run ∧
      (run.pendingCreate = none ∨ ∃ wait, action = .nodeDebugWaitRequested nodeId wait) ∧
      Marks run nodeId pending marked ∧
      dispatch state action = { state with env := some marked }) ∨
    (∃ owner, action = .ownerSet owner ∧
      dispatch state action = { state with owner := some owner }) ∨
    (isReport action ∧
      dispatch state action = { state with env := state.env.map (report action) }) := by
  by_cases reports : isReport action
  · exact .inr (.inr (.inr (.inr (.inr ⟨reports, dispatch_report reports state⟩))))
  cases outcome : reduce state action with
  | error rejected => exact .inl ⟨⟨rejected, rfl⟩, dispatch_of_error outcome⟩
  | ok next =>
      right
      rw [dispatch_of_ok outcome]
      cases request : requested action with
      | some asked =>
          obtain ⟨nodeId, pending⟩ := asked
          rcases request_ok request outcome with ⟨absent, rfl, next_eq⟩ |
            ⟨run, marked, env_eq, free, marks, next_eq⟩
          · exact .inr (.inl ⟨nodeId, rfl, absent, next_eq⟩)
          · exact .inr (.inr (.inl ⟨nodeId, pending, run, marked, rfl, env_eq, free, marks,
              next_eq⟩))
      | none =>
          cases action with
          | envPlanned plan =>
              obtain ⟨idle, next_eq⟩ := planEnv_ok outcome
              exact .inl ⟨plan, rfl, idle, next_eq⟩
          | ownerSet owner =>
              cases outcome
              exact .inr (.inr (.inr (.inl ⟨owner, rfl, rfl⟩)))
          | nodeStartRequested nodeId => cases request
          | nodeStopRequested nodeId => cases request
          | nodeDebugWaitRequested nodeId wait => cases request
          | nodeDeleteRequested nodeId => cases request
          | _ => exact (reports rfl).elim

/-! ## What an action leaves alone -/

/-- The node whose record an action is about. -/
def namedNode : Action → Option String
  | .nodeStartRequested nodeId => some nodeId
  | .nodeStopRequested nodeId => some nodeId
  | .nodeDebugWaitRequested nodeId _ => some nodeId
  | .nodeDeleteRequested nodeId => some nodeId
  | .containerObserved nodeId .. => some nodeId
  | .containerActionSettled nodeId .. => some nodeId
  | .envCreateProgress _ _ _ info => some info.nodeId
  | .envCreateWorking nodeId _ => some nodeId
  | .configDriftObserved nodeId .. => some nodeId
  | _ => none

/-- The action settles a create, and with it the whole environment. -/
def settlesCreate : Action → Bool
  | .envCreateSettled _ => true
  | _ => false

/-- The action may change the volumes. -/
def touchesVolumes : Action → Bool
  | .envCreateSettled _ => true
  | .volumeObserved .. => true
  | _ => false

theorem namedNode_of_requested (request : requested action = some (nodeId, pending)) :
    namedNode action = some nodeId := by
  cases action <;> cases request <;> rfl

theorem Marks.get_of_ne {run next : EnvState} {nodeId other : String}
    (marks : Marks run nodeId pending next) (different : nodeId ≠ other) :
    next.containers[other]? = run.containers[other]? := by
  cases marks <;> simp [different]

theorem Marks.volumes_eq {run next : EnvState} (marks : Marks run nodeId pending next) :
    next.volumes = run.volumes := by
  cases marks <;> rfl

/-- A report other than the end of a create changes at most the record it names. -/
theorem report_get_of_ne {other : String} (ongoing : settlesCreate action = false)
    (different : namedNode action ≠ some other) (run : EnvState) :
    (report action run).containers[other]? = run.containers[other]? := by
  cases action with
  | containerObserved nodeId =>
      have : nodeId ≠ other := by simpa [namedNode] using different
      simp [report, this]
  | containerActionSettled nodeId of result =>
      have : nodeId ≠ other := by simpa [namedNode] using different
      simp only [report, settleContainerAction]
      split
      · rfl
      · split <;> simp [this]
  | envCreateSettled result => cases ongoing
  | envCreateProgress network sidecarContainerName sidecarIp info =>
      have : info.nodeId ≠ other := by simpa [namedNode] using different
      simp [report, recordProgress, this]
  | envCreateWorking nodeId action =>
      have : nodeId ≠ other := by simpa [namedNode] using different
      simp only [report, workOnContainer]
      split
      · simp [this]
      · simp [this]
      · split <;> simp [this]
      · rfl
  | configDriftObserved nodeId =>
      have : nodeId ≠ other := by simpa [namedNode] using different
      simp [report, observeConfigDrift, this]
  | _ => rfl

theorem report_volumes_eq (kept : touchesVolumes action = false) (run : EnvState) :
    (report action run).volumes = run.volumes := by
  cases action with
  | containerActionSettled nodeId of result =>
      simp only [report, settleContainerAction]
      split
      · rfl
      · split <;> rfl
  | envCreateSettled result => cases kept
  | envCreateWorking nodeId action =>
      simp only [report, workOnContainer]
      split
      · rfl
      · rfl
      · split <;> rfl
      · rfl
  | volumeObserved => cases kept
  | _ => rfl

/-- An environment stays, and an action other than the end of a create changes at most the record it
names and, if it observes one, a volume. -/
theorem dispatch_frame {state : WorkspaceState} {run : EnvState} (env_eq : state.env = some run)
    (action : Action) :
    ∃ next, (dispatch state action).env = some next ∧
      (settlesCreate action = false → ∀ other, namedNode action ≠ some other →
        next.containers[other]? = run.containers[other]?) ∧
      (touchesVolumes action = false → next.volumes = run.volumes) := by
  rcases dispatch_cases state action with
    ⟨-, unchanged⟩ | ⟨plan, rfl, -, next⟩ | ⟨first, rfl, absent, -⟩ |
    ⟨named, pending, held, after, request, held_eq, -, marks, next⟩ | ⟨owner, rfl, next⟩ |
    ⟨reports, next⟩
  · rw [unchanged]
    exact ⟨run, env_eq, fun _ _ _ => rfl, fun _ => rfl⟩
  · rw [next]
    exact ⟨_, rfl, fun _ _ _ => by simp [env_eq], fun _ => by simp [env_eq]⟩
  · rw [env_eq] at absent
    cases absent
  · rw [next]
    rw [env_eq] at held_eq
    cases held_eq
    refine ⟨after, rfl, fun _ other different => ?_, fun _ => marks.volumes_eq⟩
    apply marks.get_of_ne
    simpa [namedNode_of_requested request] using different
  · rw [next]
    exact ⟨run, env_eq, fun _ _ _ => rfl, fun _ => rfl⟩
  · rw [next, env_eq]
    exact ⟨report action run, rfl,
      fun ongoing other different => report_get_of_ne ongoing different run,
      fun kept => report_volumes_eq kept run⟩

/-! ## Marks -/

section Marks

variable {state : WorkspaceState} {action : Action}

theorem pendingAction?_eq_some :
    state.pendingAction? nodeId = some pending ↔
      ∃ run container, state.env = some run ∧ run.containers[nodeId]? = some container ∧
        container.pendingAction = some pending := by
  simp only [WorkspaceState.pendingAction?, WorkspaceState.container?, Option.bind_eq_some_iff]
  constructor
  · rintro ⟨container, ⟨run, env_eq, found⟩, marked⟩
    exact ⟨run, container, env_eq, found, marked⟩
  · rintro ⟨run, container, env_eq, found, marked⟩
    exact ⟨container, ⟨run, env_eq, found⟩, marked⟩

/-- The mark a report leaves is that of the record it leaves. -/
theorem pendingAction?_of_report (reports : isReport action) (nodeId : String) :
    (dispatch state action).pendingAction? nodeId =
      state.env.bind fun run =>
        ((report action run).containers[nodeId]?).bind ContainerInfo.pendingAction := by
  rw [dispatch_report reports]
  cases env_eq : state.env with
  | none => simp [WorkspaceState.pendingAction?, WorkspaceState.container?]
  | some run => simp [WorkspaceState.pendingAction?, WorkspaceState.container?]

theorem pendingAction?_of_report_ne (reports : isReport action)
    (ongoing : settlesCreate action = false) (different : namedNode action ≠ some nodeId) :
    (dispatch state action).pendingAction? nodeId = state.pendingAction? nodeId := by
  rw [pendingAction?_of_report reports]
  cases env_eq : state.env with
  | none => simp [WorkspaceState.pendingAction?, WorkspaceState.container?, env_eq]
  | some run =>
      simp only [WorkspaceState.pendingAction?, WorkspaceState.container?, env_eq,
        Option.bind_some, report_get_of_ne ongoing different]

/-- The end of a create leaves no mark. -/
theorem pendingAction?_of_create_settled (result : Except EnvCreateError EnvState)
    (nodeId : String) :
    (dispatch state (.envCreateSettled result)).pendingAction? nodeId = none := by
  rw [pendingAction?_of_report rfl]
  cases env_eq : state.env with
  | none => rfl
  | some run =>
      obtain ⟨created, -, settles⟩ := settleEnvCreate_eq run result
      simp only [Option.bind_some, report, settles, clearCreateMarks, ExtTreeMap.getElem?_map]
      cases (created.containers.filter fun _ container => !isPlaceholder container)[nodeId]? <;>
        rfl

/-- The outcome of an action clears the mark, unless the node has moved on to another one. -/
theorem pendingAction?_of_settled (nodeId : String) (of : Option PendingAction)
    (result : Except String (Option ContainerInfo)) :
    (dispatch state (.containerActionSettled nodeId of result)).pendingAction? nodeId =
      if of.isSome ∧ of ≠ state.pendingAction? nodeId then state.pendingAction? nodeId
      else none := by
  rw [pendingAction?_of_report rfl]
  cases env_eq : state.env with
  | none => simp [WorkspaceState.pendingAction?, WorkspaceState.container?, env_eq]
  | some run =>
      simp only [WorkspaceState.pendingAction?, WorkspaceState.container?, env_eq,
        Option.bind_some, report, settleContainerAction, Bool.and_eq_true, bne_iff_ne]
      split
      · rfl
      · rcases result with message | record
        · cases found : run.containers[nodeId]? <;> simp [found]
        · cases record <;> simp

theorem observeContainer_pendingAction (container : ContainerInfo) (status : String)
    (publishedPort : Option UInt16) (ports : OrderedMap String (Option UInt16))
    (exitCode : Option Int) (unseen : Bool) (basedOn : ContainerObserved) :
    (observeContainer container status publishedPort ports exitCode unseen basedOn).pendingAction =
      container.pendingAction := by
  unfold observeContainer
  split
  · rfl
  · split <;> rfl

/-- The reports that come from looking, not from working. -/
def observes : Action → Bool
  | .containerObserved .. => true
  | .sidecarRestored _ => true
  | .volumeObserved .. => true
  | .configDriftObserved .. => true
  | _ => false

/-- An observation leaves every mark alone. -/
theorem pendingAction?_of_observation (looks : observes action) (nodeId : String) :
    (dispatch state action).pendingAction? nodeId = state.pendingAction? nodeId := by
  have reports : isReport action := by
    cases action <;> first | rfl | cases looks
  rw [pendingAction?_of_report reports]
  cases env_eq : state.env with
  | none => simp [WorkspaceState.pendingAction?, WorkspaceState.container?, env_eq]
  | some run =>
      simp only [WorkspaceState.pendingAction?, WorkspaceState.container?, env_eq,
        Option.bind_some]
      cases action with
      | containerObserved named status publishedPort ports exitCode unseen basedOn =>
          simp only [report, OrderedMap.get_modify]
          split
          · cases run.containers[nodeId]? with
            | none => rfl
            | some container => exact observeContainer_pendingAction ..
          · rfl
      | configDriftObserved named drift seeded =>
          simp only [report, observeConfigDrift, OrderedMap.get_modify]
          split
          · cases run.containers[nodeId]? <;> rfl
          · rfl
      | volumeObserved => rfl
      | sidecarRestored => rfl
      | _ => cases looks

end Marks

end Reducer
end Fghj
