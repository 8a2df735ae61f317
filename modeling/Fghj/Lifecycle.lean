import Fghj.ConvergeSpec
import Fghj.Order

/-!
# Stops and deletes

A stop and a delete of one node, from the request to the settle. Docker may fail every single call,
and none of the three ways a call can fail is an error of the action: a stop that Docker refuses is
inspected all the same, an inspect that fails is written down as an exit, and a removal that fails
settles like one that worked. This file says on which answers of Docker the settle is true.
-/

namespace Fghj
namespace Lifecycle

open Std Reducer

/-! ## Docker -/

/-- The containers Docker has, by name. -/
abbrev Containers := OrderedMap String ContainerStatus

/-- How a call to Docker ends; one that fails may have taken effect all the same. -/
inductive Call where
  | done
  | failed (message : String) (effective : Bool)

/-- Docker did what it was told. -/
def Call.takesEffect : Call → Bool
  | .done => true
  | .failed _ effective => effective

/-- How Docker takes the calls about the container of one node. -/
structure Calls where
  stop : Call := .done
  remove : Call := .done
  inspect : Except String Unit := .ok ()
  /-- What the container exits with when it is stopped. -/
  exitCode : Int := 0

namespace Calls

/-- A container after a stop; one that is not up stays as it is. -/
def stopped (calls : Calls) (found : ContainerStatus) : ContainerStatus :=
  if found.status = "running" ∨ found.status = "restarting" ∨ found.status = "paused" then
    { status := "exited", exitCode := some calls.exitCode }
  else found

/-- `docker::stop_container`: the answer is dropped. -/
def stopContainer (calls : Calls) (name : String) (containers : Containers) : Containers :=
  if calls.stop.takesEffect then containers.modify name calls.stopped else containers

/-- `docker::stop_and_remove`: both answers are dropped. -/
def stopAndRemove (calls : Calls) (name : String) (containers : Containers) : Containers :=
  let containers := calls.stopContainer name containers
  if calls.remove.takesEffect then containers.erase name else containers

/-- `docker::inspect_status`. -/
def inspectStatus (calls : Calls) (name : String) (containers : Containers) : DockerReading :=
  calls.inspect.map fun _ => containers[name]?

@[simp]
theorem stopContainer_get (calls : Calls) (name : String) (containers : Containers) :
    (calls.stopContainer name containers)[name]? =
      if calls.stop.takesEffect then containers[name]?.map calls.stopped
      else containers[name]? := by
  rw [stopContainer]
  split
  · simp
  · rfl

/-- Only a removal that takes effect makes a container go away. -/
theorem stopAndRemove_get_eq_none (calls : Calls) (name : String) (containers : Containers) :
    (calls.stopAndRemove name containers)[name]? = none ↔
      calls.remove.takesEffect ∨ containers[name]? = none := by
  rw [stopAndRemove]
  by_cases removed : calls.remove.takesEffect
  · simp [removed]
  · simp only [removed]
    by_cases halted : calls.stop.takesEffect
    · simp [halted]
    · simp [halted]

theorem stopped_not_running (calls : Calls) (found : ContainerStatus) :
    (calls.stopped found).status ≠ "running" := by
  rw [stopped]
  split
  · simp
  · rename_i down
    exact fun up => down (.inl up)

end Calls

/-! ## The orchestrator -/

/-- One container stopped: what Docker answered the inspect that followed, the record made of it,
and the containers Docker has then. -/
structure Stopped where
  reading : DockerReading
  info : ContainerInfo
  containers : Containers

/-- `stop_container`; it has no path that returns an error. -/
def stopContainer (calls : Calls) (container : ContainerInfo) (containers : Containers) : Stopped :=
  let name := container.desired.containerName
  let containers := calls.stopContainer name containers
  let reading := calls.inspectStatus name containers
  { reading, info := Orchestrator.stopContainer container reading, containers }

/-- `remove_container`; it has no path that returns an error. -/
def removeContainer (calls : Calls) (container : ContainerInfo) (containers : Containers) :
    Containers :=
  calls.stopAndRemove container.desired.containerName containers

/-- A node to stop and its record. -/
structure Target where
  nodeId : String
  container : ContainerInfo

/-- What is around one action: how Docker takes its calls, the edges of the graph if it resolves,
and whether the task ends before it can report. -/
structure Setting where
  calls : String → Calls := fun _ => {}
  edges : Option (List Edge) := none
  lost : Bool := false

/-- Docker after one more container was stopped. -/
def stopOne (setting : Setting) (containers : Containers) (target : Target) : Containers :=
  (stopContainer (setting.calls target.nodeId) target.container containers).containers

/-- Containers stopped one after the other. -/
def stopAll (setting : Setting) : Containers → List Target → List Stopped
  | _, [] => []
  | containers, target :: targets =>
      stopContainer (setting.calls target.nodeId) target.container containers ::
        stopAll setting (stopOne setting containers target) targets

/-- The dependents that are up and idle, the last to start first; without a graph there are none. -/
def dependentsFirst (setting : Setting) (run : EnvState) (nodeId : String) : List Target :=
  let dependents :=
    match setting.edges with
    | some edges => Orchestrator.dependentsOf nodeId edges
    | none => []
  dependents.reverse.filterMap fun dependent =>
    match run.containers[dependent]? with
    | none => none
    | some container =>
        if container.pendingAction.isSome || container.observed.status != "running" then none
        else some { nodeId := dependent, container }

/-! ## The action -/

/-- What the user asks for. -/
inductive Request where
  | stop
  | delete
  deriving DecidableEq

namespace Request

def action (nodeId : String) : Request → Action
  | .stop => .nodeStopRequested nodeId
  | .delete => .nodeDeleteRequested nodeId

def mark : Request → PendingAction
  | .stop => .stopping
  | .delete => .removing

end Request

/-- What an action did. -/
structure Performed where
  result : Except String (Option Stopped)
  cascaded : List Stopped
  containers : Containers

/-- The two branches of `perform` that take a container down. -/
def perform (setting : Setting) (asked : Request) (nodeId : String) (run : EnvState)
    (containers : Containers) : Performed :=
  match run.containers[nodeId]? with
  | none => { result := .error ("no such node: " ++ nodeId), cascaded := [], containers }
  | some container =>
      match asked with
      | .stop =>
          let dependents := dependentsFirst setting run nodeId
          let own := stopContainer (setting.calls nodeId) container
            (Execution.run (stopOne setting) containers dependents)
          { result := .ok (some own)
            cascaded := stopAll setting containers dependents
            containers := own.containers }
      | .delete =>
          { result := .ok none
            cascaded := []
            containers := removeContainer (setting.calls nodeId) container containers }

/-- The task around it; one that is lost has only the settle of its guard to report. -/
def attempt (setting : Setting) (asked : Request) (nodeId : String) (run : EnvState)
    (containers : Containers) : Performed :=
  let performed := perform setting asked nodeId run containers
  if setting.lost then
    { performed with
      result := .error
        "action task ended without reporting a result (likely a panic or cancellation)"
      cascaded := [] }
  else performed

/-- The settles of an action, those of the dependents first. -/
def Performed.settles (performed : Performed) (asked : Request) (nodeId : String) : List Action :=
  (performed.cascaded.map fun stopped =>
    .containerActionSettled stopped.info.nodeId none (.ok (some stopped.info))) ++
  [.containerActionSettled nodeId (some asked.mark)
    (performed.result.map (Option.map Stopped.info))]

/-- The environment an accepted request leaves, if it marks the node: an effect acts on the mark. -/
def taken (asked : Request) (nodeId : String) (state : WorkspaceState) : Option EnvState :=
  match reduce state (asked.action nodeId) with
  | .error _ => none
  | .ok next =>
      if next.pendingAction? nodeId = some asked.mark then next.env else none

/-- The workspace once everything is settled. -/
def settled (state : WorkspaceState) (run : EnvState) (asked : Request) (nodeId : String)
    (performed : Performed) : WorkspaceState :=
  Execution.run dispatch { state with env := some run } (performed.settles asked nodeId)

/-! ## What a settle says -/

/-- The record says what Docker reported after the stop, and that is not that it runs. -/
def Stopped.Truthful (stopped : Stopped) : Prop :=
  ∃ found, stopped.reading = .ok (some found) ∧
    stopped.info.observed.status = found.status ∧ found.status ≠ "running"

/-- The record is there as it was, apart from the mark and the wish to run. -/
structure Unmarked (before after : ContainerInfo) : Prop where
  mark : after.pendingAction = none
  observed : after.observed = before.observed
  desired : ∃ running, after.desired = { before.desired with running }

/-- The settle of an action on a node tells what happened. -/
inductive Reports (asked : Request) (nodeId : String) (before : ContainerInfo)
    (after : WorkspaceState) (performed : Performed) : Prop where
  /-- The entry left the state, and Docker no longer has the container. -/
  | deleted (delete : asked = .delete) (result : performed.result = .ok none)
      (left : after.container? nodeId = none)
      (gone : performed.containers[before.desired.containerName]? = none)
  | stopped (stop : asked = .stop) (own : Stopped) (result : performed.result = .ok (some own))
      (truthful : own.Truthful)
  | failed (message : String) (kept : ContainerInfo) (result : performed.result = .error message)
      (there : after.container? nodeId = some kept) (unmarked : Unmarked before kept)

/-- An action tells what happened to its node and to every dependent it stopped. -/
def Honest (setting : Setting) (asked : Request) (nodeId : String) (state : WorkspaceState)
    (containers : Containers) : Prop :=
  ∀ run before, taken asked nodeId state = some run → state.container? nodeId = some before →
    let performed := attempt setting asked nodeId run containers
    Reports asked nodeId before (settled state run asked nodeId performed) performed ∧
      ∀ stopped ∈ performed.cascaded, stopped.Truthful

/-- Docker answers the inspect of the target, has its container, and either stops it or does not
have it running. -/
def Answered (setting : Setting) (containers : Containers) (target : Target) : Prop :=
  (setting.calls target.nodeId).inspect = .ok () ∧
    ∃ found, containers[target.container.desired.containerName]? = some found ∧
      ((setting.calls target.nodeId).stop.takesEffect ∨ found.status ≠ "running")

/-- What Docker has to answer: for a delete, that the container is gone or was never there; for a
stop, what became of each container in its turn. -/
def Heard (setting : Setting) (asked : Request) (nodeId : String) (run : EnvState)
    (before : ContainerInfo) (containers : Containers) : Prop :=
  match asked with
  | .delete =>
      (setting.calls nodeId).remove.takesEffect ∨
        containers[before.desired.containerName]? = none
  | .stop =>
      Execution.Along (stopOne setting) (Answered setting) containers
        (dependentsFirst setting run nodeId ++ [{ nodeId, container := before }])

section Settles

variable {setting : Setting} {asked : Request} {nodeId : String} {state : WorkspaceState}
  {run : EnvState} {before : ContainerInfo}

/-- One stop is truthful exactly if Docker answered. -/
theorem truthful_iff (containers : Containers) (target : Target) :
    (stopContainer (setting.calls target.nodeId) target.container containers).Truthful ↔
      Answered setting containers target := by
  simp only [Stopped.Truthful, stopContainer, Answered, Calls.inspectStatus,
    Orchestrator.stopContainer, Calls.stopContainer_get]
  cases inspected : (setting.calls target.nodeId).inspect with
  | error message => simp [Except.map]
  | ok =>
      cases found : containers[target.container.desired.containerName]? with
      | none => simp [Except.map]
      | some found =>
          by_cases halted : (setting.calls target.nodeId).stop.takesEffect
          · simp [Except.map, halted, Orchestrator.stoppedStatus, Calls.stopped_not_running]
          · simp [Except.map, halted, Orchestrator.stoppedStatus]

/-- Containers stopped one after the other are all reported truthfully exactly if Docker answered
for each in its turn. -/
theorem stopAll_truthful_iff (containers : Containers) (targets : List Target) :
    (∀ stopped ∈ stopAll setting containers targets, stopped.Truthful) ↔
      Execution.Along (stopOne setting) (Answered setting) containers targets := by
  induction targets generalizing containers with
  | nil => simp [stopAll]
  | cons target targets ih =>
      rw [stopAll, List.forall_mem_cons, truthful_iff, ih, Execution.along_cons]

/-- A stop or delete that leaves its mark leaves the record otherwise as it was, but for the wish to
run; a start it calls off leaves no record to mark. -/
theorem setPending_marked {next : WorkspaceState} {pending : PendingAction} {running : Bool}
    (accepted : setPending state nodeId pending running = .ok next)
    (marked : next.pendingAction? nodeId = some pending)
    (found : state.container? nodeId = some before) :
    ∃ run, next = { state with env := some run } ∧ run.containers[nodeId]? = some
      { before with
        desired := { before.desired with running }
        pendingAction := some pending } := by
  unfold setPending at accepted
  split at accepted
  · cases accepted
  rename_i held container lookup
  obtain ⟨env_eq, -, there⟩ := lookupMut_ok lookup
  obtain rfl : container = before := by
    simpa [WorkspaceState.container?, env_eq, there] using found
  simp only at accepted
  split at accepted
  · cases accepted
    exact ⟨_, rfl, by simp⟩
  · split at accepted
    · cases accepted
      simp [WorkspaceState.pendingAction?, WorkspaceState.container?] at marked
    · cases accepted
      exact ⟨_, rfl, by simp⟩
  · cases accepted

/-- A request that is taken marks the record there is. -/
theorem taken_eq_some (marked : taken asked nodeId state = some run)
    (found : state.container? nodeId = some before) :
    ∃ running, run.containers[nodeId]? = some
      { before with
        desired := { before.desired with running }
        pendingAction := some asked.mark } := by
  have request : ∃ running, reduce state (asked.action nodeId) =
      setPending state nodeId asked.mark running := by
    cases asked with
    | stop => exact ⟨_, rfl⟩
    | delete => exact ⟨_, rfl⟩
  obtain ⟨running, request⟩ := request
  unfold taken at marked
  split at marked
  · cases marked
  · rename_i next accepted
    rw [request] at accepted
    split at marked
    · rename_i mark
      obtain ⟨left, rfl, there⟩ := setPending_marked accepted mark found
      cases marked
      exact ⟨running, there⟩
    · cases marked

/-- A lost action has nothing to report but its failure, which leaves the entry as it was. -/
theorem unmarked_of_failed (state : WorkspaceState) {running : Bool} (message : String)
    (there : run.containers[nodeId]? = some
      { before with
        desired := { before.desired with running }
        pendingAction := some asked.mark }) :
    ∃ kept,
      (dispatch { state with env := some run }
        (.containerActionSettled nodeId (some asked.mark) (.error message))).container? nodeId =
          some kept ∧ Unmarked before kept := by
  refine ⟨{ before with
    desired := { before.desired with running }
    pendingAction := none }, ?_, ⟨rfl, rfl, running, rfl⟩⟩
  rw [dispatch_report rfl]
  simp [WorkspaceState.container?, report, settleContainerAction, there]

/-- A delete that settles without a record takes the entry out of the state. -/
theorem container?_of_deleted (state : WorkspaceState) {record : ContainerInfo}
    {pending : PendingAction} (there : run.containers[nodeId]? = some record)
    (mark : record.pendingAction = some pending) :
    (dispatch { state with env := some run }
      (.containerActionSettled nodeId (some pending) (.ok none))).container? nodeId = none := by
  rw [dispatch_report rfl]
  simp [WorkspaceState.container?, report, settleContainerAction, there, mark]

/-- An action tells what happened exactly if its task was lost or Docker answered. -/
theorem honest_iff (containers : Containers) :
    Honest setting asked nodeId state containers ↔
      ∀ run before, taken asked nodeId state = some run → state.container? nodeId = some before →
        setting.lost ∨ Heard setting asked nodeId run before containers := by
  refine forall_congr' fun run => forall_congr' fun before => forall_congr' fun marked =>
    forall_congr' fun found => ?_
  obtain ⟨running, there⟩ := taken_eq_some marked found
  cases lost : setting.lost with
  | true =>
      refine iff_of_true ?_ (.inl rfl)
      obtain ⟨kept, after, unmarked⟩ := unmarked_of_failed state
        "action task ended without reporting a result (likely a panic or cancellation)" there
      simp only [attempt, lost, if_true]
      exact ⟨.failed _ kept rfl after unmarked, List.forall_mem_nil _⟩
  | false =>
      simp only [attempt, lost, perform, there, Bool.false_eq_true, if_false, false_or]
      cases asked with
      | stop =>
          rw [Heard, Execution.along_append, Execution.along_cons, ← stopAll_truthful_iff,
            and_iff_left (Execution.along_nil ..), ← truthful_iff]
          constructor
          · rintro ⟨own, cascaded⟩
            cases own with
            | deleted delete => cases delete
            | stopped stop own result truthful =>
                cases result
                exact ⟨cascaded, truthful⟩
            | failed message kept result => cases result
          · rintro ⟨cascaded, truthful⟩
            exact ⟨.stopped rfl _ rfl truthful, cascaded⟩
      | delete =>
          rw [Heard, ← Calls.stopAndRemove_get_eq_none]
          constructor
          · rintro ⟨own, -⟩
            cases own with
            | deleted delete result left gone => exact gone
            | stopped stop => cases stop
            | failed message kept result => cases result
          · intro gone
            have left := container?_of_deleted state there rfl
            exact ⟨.deleted rfl rfl left gone, List.forall_mem_nil _⟩

/-! ## The task -/

/-- What is written down of a stop is what some stop of the container could have written. -/
theorem stops_stopContainer (calls : Calls) (container : ContainerInfo) (containers : Containers) :
    Converge.stops container (stopContainer calls container containers).info := by
  simp [Converge.stops, stopContainer, Orchestrator.stopContainer, Orchestrator.stoppedStatus]

/-- Every container stopped on the way was stopped for one of the targets. -/
theorem mem_stopAll {stopped : Stopped} (targets : List Target) (containers : Containers)
    (member : stopped ∈ stopAll setting containers targets) :
    ∃ target ∈ targets, ∃ containers, stopped =
      stopContainer (setting.calls target.nodeId) target.container containers := by
  induction targets generalizing containers with
  | nil => cases member
  | cons target targets ih =>
      rw [stopAll, List.mem_cons] at member
      rcases member with here | later
      · exact ⟨target, List.mem_cons_self, containers, here⟩
      · obtain ⟨other, listed, found⟩ := ih _ later
        exact ⟨other, List.mem_cons_of_mem _ listed, found⟩

/-- The containers that stop first are records of other nodes, up and idle. -/
theorem mem_dependentsFirst {target : Target}
    (member : target ∈ dependentsFirst setting run nodeId) :
    target.nodeId ≠ nodeId ∧ run.containers[target.nodeId]? = some target.container ∧
      target.container.pendingAction = none ∧ target.container.observed.status = "running" := by
  obtain ⟨dependent, listed, chosen⟩ := List.mem_filterMap.mp member
  have other : dependent ≠ nodeId := by
    rw [List.mem_reverse] at listed
    split at listed
    · rename_i edges resolved
      exact ((Orchestrator.dependentsOf_spec nodeId edges).2 dependent listed).1
    · cases listed
  split at chosen
  · cases chosen
  · rename_i container found
    split at chosen
    · cases chosen
    · rename_i free
      cases chosen
      simp only [Bool.or_eq_true, bne_iff_ne, not_or, Option.isSome_iff_ne_none, not_not] at free
      exact ⟨other, found, free⟩

/-- A task that runs to its end settles its job with what was done, the dependents first. -/
theorem settle_perform (ids : Converge.keyed run) (containers : Containers) :
    let performed := perform setting asked nodeId run containers
    (Converge.Job.action { nodeId, action := asked.mark }).settle (some run)
        (.action (performed.result.map (Option.map Stopped.info))
          (performed.cascaded.map Stopped.info)) =
      some (.containerActionSettled nodeId (some asked.mark)
          (performed.result.map (Option.map Stopped.info)),
        performed.cascaded.map Stopped.info) := by
  intro performed
  have possible : Converge.performs { nodeId, action := asked.mark } run
      (performed.result.map (Option.map Stopped.info))
      (performed.cascaded.map Stopped.info) := by
    cases found : run.containers[nodeId]? with
    | none =>
        cases asked with
        | stop => simp [performed, perform, Converge.performs, Request.mark, found, Except.map]
        | delete => simp [performed, perform, Converge.performs, Request.mark, found, Except.map]
    | some container =>
        cases asked with
        | delete => simp [performed, perform, Converge.performs, Request.mark, found, Except.map]
        | stop =>
            simp only [performed, perform, Converge.performs, Request.mark, found, Except.map,
              Option.map_some, stops_stopContainer, Bool.true_and, List.all_map, List.all_eq_true]
            intro stopped member
            obtain ⟨target, listed, before, rfl⟩ := mem_stopAll _ _ member
            obtain ⟨other, there, idle, up⟩ := mem_dependentsFirst listed
            have recorded := (OrderedMap.mem_listed ..).mpr ⟨_, there⟩
            refine List.any_eq_true.mpr ⟨target.container, recorded, ?_⟩
            have own := (Converge.keyed_iff run).mp ids _ _ there
            simp [own, other, idle, up, stops_stopContainer]
  simp [Converge.Job.settle, possible]

end Settles

/-! ## A removal that fails -/

/-- One container, up, in the records and in Docker. -/
def web : ContainerInfo where
  nodeId := "web"
  desired := { running := true, containerName := "web-1" }
  observed := { status := "running" }

/-- Docker refuses to remove the container, and the delete settles as if it were gone. -/
theorem refused_removal :
    ¬∀ setting asked nodeId state containers, Honest setting asked nodeId state containers := by
  intro honest
  have refused := honest
    { calls := fun _ => { remove := .failed "container is in use" false } } .delete "web"
    { env := some { containers := (∅ : OrderedMap String ContainerInfo).insert "web" web } }
    ((∅ : Containers).insert "web-1" { status := "running" })
  obtain ⟨own, -⟩ := refused _ web rfl rfl
  cases own with
  | deleted delete result left gone => exact absurd gone (by decide)
  | stopped stop => cases stop
  | failed message kept result => cases result

end Lifecycle
end Fghj
