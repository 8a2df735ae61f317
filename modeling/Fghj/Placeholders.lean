import Fghj.Healer
import Fghj.Readings

/-!
# Placeholders

A start of a node without a container, and a run that gets to one, leave a record without a
container name. It is to go when the start ends, however it does, and not to outlive the daemon.
-/

namespace Fghj
namespace Placeholders

open Std Reducer

/-- A workspace's state and its store. -/
structure World where
  state : WorkspaceState := {}
  store : Persistence.Store := {}

inductive Event where
  | acted (action : Action)
  /-- The environment is written to the store. -/
  | persisted
  /-- The daemon stops and starts again, and Docker answers for each container. -/
  | rebooted (answers : String → DockerAnswer)

def step (world : World) : Event → World
  | .acted action => { world with state := dispatch world.state action }
  | .persisted => { world with store := world.store.converge world.state.env }
  | .rebooted answers =>
      { state := { env := world.store.env.map fun saved => Persistence.rehydrate saved answers }
        store := { world.store with written := false } }

def after (events : List Event) : World := Execution.run step {} events

/-- What a record is shown as: the action in flight reads over the condition. -/
def shown (container : ContainerInfo) : PendingAction ⊕ NodeCondition :=
  match container.pendingAction with
  | some pending => .inl pending
  | none => .inr container.condition

/-- A record without a container is being started, so it is never shown as crashed, picked by the
healer, or stopped or deleted in Docker. -/
structure Settled (state : WorkspaceState) : Prop where
  starting : ∀ (nodeId : String) (container : ContainerInfo),
    state.container? nodeId = some container → isPlaceholder container →
      container.pendingAction = some .starting
  shown : ∀ (nodeId : String) (container : ContainerInfo),
    state.container? nodeId = some container → isPlaceholder container →
      shown container = .inl .starting
  picked : ∀ (env : EnvState) (healer next : Healer) (workspace nodeId : String) (now attempt : Nat)
    (condition : NodeCondition), state.env = some env →
      healer.pick workspace env now = (some (.restart nodeId condition attempt), next) →
        ∀ (key : String) (container : ContainerInfo), env.containers[key]? = some container →
          isPlaceholder container = false
  untouched : ∀ (nodeId : String) (container : ContainerInfo) (pending : PendingAction),
    state.container? nodeId = some container → container.pendingAction = some pending →
      pending = .stopping ∨ pending = .removing → isPlaceholder container = false

/-- The settle is of the action in flight, or of none. -/
def applies (state : WorkspaceState) (nodeId : String) (of : Option PendingAction) : Bool :=
  of.isNone || of == state.pendingAction? nodeId

/-- No failed start leaves its record behind, no run takes on a record that is being started to do
something else with it, what is reported has a container, and so has what is read back. -/
def Keeps (world : World) : Event → Prop
  | .acted (.containerActionSettled nodeId of (.ok (some info))) =>
      world.state.env.isSome → applies world.state nodeId of → isPlaceholder info = false
  | .acted (.containerActionSettled nodeId of (.error _)) =>
      applies world.state nodeId of →
        ∀ container ∈ world.state.container? nodeId, isPlaceholder container = false
  | .acted (.envCreateProgress _ _ _ info) => world.state.env.isSome → isPlaceholder info = false
  | .acted (.envCreateWorking nodeId (some pending)) =>
      pending ≠ .starting →
        ∀ container ∈ world.state.container? nodeId, isPlaceholder container = false
  | .rebooted _ =>
      ∀ saved ∈ world.store.env,
        ∀ container ∈ OrderedMap.listed (Persistence.loadEnv saved).containers,
          isPlaceholder container = false
  | _ => True

/-- A record has a container, or is being started. -/
def held (container : ContainerInfo) : Bool :=
  !isPlaceholder container || container.pendingAction == some .starting

/-- Every record has a container, or is being started. -/
def Placed (run : EnvState) : Prop :=
  ∀ (nodeId : String) (container : ContainerInfo),
    run.containers[nodeId]? = some container → held container

theorem settled_iff {state : WorkspaceState} :
    Settled state ↔ ∀ run, state.env = some run → Placed run := by
  have lookup {run : EnvState} (env_eq : state.env = some run) (nodeId : String) :
      state.container? nodeId = run.containers[nodeId]? := by
    rw [WorkspaceState.container?, env_eq, Option.bind_some]
  constructor
  · intro settled run env_eq nodeId container found
    by_cases placeholder : isPlaceholder container
    · have starting := settled.starting nodeId container ((lookup env_eq nodeId).trans found)
        placeholder
      simp [held, starting]
    · simp [held, placeholder]
  · intro placed
    have starting : ∀ (nodeId : String) (container : ContainerInfo),
        state.container? nodeId = some container → isPlaceholder container →
          container.pendingAction = some .starting := by
      intro nodeId container found placeholder
      obtain ⟨run, env_eq, found⟩ := Option.bind_eq_some_iff.mp found
      simpa [held, placeholder] using placed run env_eq nodeId container found
    refine ⟨starting, ?_, ?_, ?_⟩
    · intro nodeId container found placeholder
      rw [Placeholders.shown, starting nodeId container found placeholder]
    · intro env healer next workspace nodeId now attempt condition env_eq picked key container found
      by_contra placeholder
      have pending := starting key container ((lookup env_eq key).trans found)
        (by simpa using placeholder)
      obtain ⟨-, idle, -⟩ := Healer.of_pick picked
      rw [idle key container found] at pending
      cases pending
    · intro nodeId container pending found marked down
      by_contra placeholder
      rw [starting nodeId container found (by simpa using placeholder)] at marked
      cases marked
      rcases down with same | same <;> cases same

section Steps

variable {run : EnvState} {nodeId : String} {info container : ContainerInfo}

theorem placed_insert (placed : Placed run) :
    Placed { run with containers := run.containers.insert nodeId info } ↔ held info := by
  constructor
  · intro every
    exact every nodeId info (by simp)
  · intro here key container found
    simp only [ExtTreeMap.getElem?_insert] at found
    split at found
    · cases found
      exact here
    · exact placed key container found

theorem placed_erase (placed : Placed run) (nodeId : String) :
    Placed { run with containers := run.containers.erase nodeId } := by
  intro key container found
  simp only [ExtTreeMap.getElem?_erase] at found
  split at found
  · cases found
  · exact placed key container found

/-- One record is changed. -/
theorem placed_modify (placed : Placed run) (nodeId : String)
    (update : ContainerInfo → ContainerInfo) :
    Placed { run with containers := run.containers.modify nodeId update } ↔
      ∀ container ∈ run.containers[nodeId]?, held (update container) := by
  constructor
  · intro every container found
    refine every nodeId _ ?_
    simp only [OrderedMap.get_modify, if_true]
    exact Option.map_eq_some_iff.mpr ⟨container, found, rfl⟩
  · intro here key container found
    simp only [OrderedMap.get_modify] at found
    split at found
    · rename_i same
      subst same
      obtain ⟨old, old_eq, rfl⟩ := Option.map_eq_some_iff.mp found
      exact here old old_eq
    · exact placed key container found

theorem held_idle : held { info with pendingAction := none } ↔ isPlaceholder info = false := by
  simp [held, isPlaceholder]

theorem placed_clearCreateMarks (run : EnvState) : Placed (clearCreateMarks run) := by
  intro key container found
  simp only [clearCreateMarks, ExtTreeMap.getElem?_map, Option.map_eq_some_iff,
    ExtTreeMap.getElem?_filter', Option.filter_eq_some_iff] at found
  obtain ⟨before, ⟨-, named⟩, rfl⟩ := found
  exact held_idle.mpr (by simpa using named)

theorem placed_workOnContainer (placed : Placed run) (action : Option PendingAction) :
    Placed (workOnContainer run nodeId action) ↔
      ∀ pending ∈ action, pending ≠ .starting →
        ∀ container ∈ run.containers[nodeId]?, isPlaceholder container = false := by
  unfold workOnContainer
  split
  · rename_i pending container found
    rw [placed_insert placed, found]
    simp [held, isPlaceholder, or_comm, or_iff_not_imp_left]
  · rename_i pending absent
    rw [placed_insert placed, absent]
    simp [held, startingPlaceholder]
  · rename_i container found
    split
    · simp [placed_erase placed nodeId]
    · rename_i named
      rw [placed_insert placed, held_idle]
      simpa using named
  · simp [placed]

/-- A report keeps what it is to keep exactly when it leaves no record without a container
behind. -/
theorem placed_report (placed : Placed run) {state : WorkspaceState} (env_eq : state.env = some run)
    {store : Persistence.Store} {action : Action} (reports : isReport action) :
    Placed (report action run) ↔ Keeps { state, store } (.acted action) := by
  have lookup (nodeId : String) : state.container? nodeId = run.containers[nodeId]? := by
    rw [WorkspaceState.container?, env_eq, Option.bind_some]
  have marked (nodeId : String) :
      state.pendingAction? nodeId = (run.containers[nodeId]?).bind ContainerInfo.pendingAction := by
    rw [WorkspaceState.pendingAction?, lookup]
  cases action with
  | containerObserved nodeId status publishedPort ports exitCode unseen basedOn =>
      simp only [report, Keeps, iff_true]
      rw [placed_modify placed]
      intro container found
      have before := placed nodeId container found
      unfold observeContainer
      split
      · exact before
      · split <;> exact before
  | containerActionSettled nodeId of result =>
      have ignores :
          (of.isSome && of != (run.containers[nodeId]?).bind ContainerInfo.pendingAction) =
            !applies state nodeId of := by
        rw [applies, marked]
        cases of <;> simp [bne]
      simp only [report, settleContainerAction, ignores, Bool.not_eq_true']
      by_cases applied : applies state nodeId of
      · rw [if_neg (by simp [applied])]
        rcases result with message | _ | info
        · simp only [Keeps, applied, true_implies, lookup]
          rw [placed_modify placed]
          simp only [held_idle]
        · exact iff_of_true (placed_erase placed nodeId) trivial
        · simp only [Keeps, applied, true_implies, env_eq, Option.isSome_some]
          rw [placed_insert placed, held_idle]
      · rw [if_pos (by simpa using applied)]
        rcases result with message | _ | info <;> simp [Keeps, applied, placed]
  | envCreateSettled result =>
      obtain ⟨created, -, settles⟩ := settleEnvCreate_eq run result
      simp only [report, settles, Keeps, iff_true]
      exact placed_clearCreateMarks created
  | envCreateProgress network sidecarContainerName sidecarIp info =>
      simp only [report, recordProgress, Keeps, env_eq, Option.isSome_some, true_implies]
      have progress : Placed { run with network, sidecarContainerName, sidecarIp } := placed
      rw [← held_idle]
      exact placed_insert progress
  | envCreateWorking nodeId action =>
      simp only [report]
      rw [placed_workOnContainer placed]
      cases action with
      | none => simp [Keeps]
      | some pending => simp [Keeps, lookup]
  | configDriftObserved nodeId drift seeded =>
      simp only [report, observeConfigDrift, Keeps, iff_true]
      rw [placed_modify placed]
      exact placed nodeId
  | sidecarRestored => exact iff_of_true placed trivial
  | volumeObserved => exact iff_of_true placed trivial
  | _ => cases reports

/-- A mark is put on a record with a container, or is that of a start. -/
theorem placed_setPending {state next : WorkspaceState} {pending : PendingAction}
    {desiredRunning : Bool} (placed : ∀ run, state.env = some run → Placed run)
    (accepted : setPending state nodeId pending desiredRunning = .ok next) :
    ∀ run, next.env = some run → Placed run := by
  unfold setPending at accepted
  split at accepted
  · cases accepted
  · rename_i run container lookup
    obtain ⟨env_eq, -, found⟩ := lookupMut_ok lookup
    have here := placed run env_eq
    have before := here nodeId container found
    split at accepted
    · rename_i idle
      obtain rfl := Except.ok.inj accepted
      intro after after_eq
      obtain rfl := Option.some.inj after_eq
      rw [placed_insert here]
      have named : container.desired.containerName ≠ "" := by
        simpa [held, idle, isPlaceholder] using before
      simp [held, isPlaceholder, named]
    · split at accepted
      · obtain rfl := Except.ok.inj accepted
        intro after after_eq
        obtain rfl := Option.some.inj after_eq
        exact placed_erase here nodeId
      · rename_i named
        obtain rfl := Except.ok.inj accepted
        intro after after_eq
        obtain rfl := Option.some.inj after_eq
        rw [placed_insert here]
        simp [held, isPlaceholder, named]
    · cases accepted

/-- A start leaves its record marked as started. -/
theorem placed_starting {marked : EnvState} (placed : Placed run)
    (marks : Marks run nodeId .starting marked) : Placed marked := by
  cases marks with
  | place absent =>
      rw [placed_insert placed]
      rfl
  | mark container desired found free named =>
      rw [placed_insert placed]
      simp [held]
  | callOff container found started unnamed taken => exact absurd rfl taken

/-- An action that is no report leaves every record with a container or being started. -/
theorem placed_of_request {state : WorkspaceState} {action : Action}
    (placed : ∀ run, state.env = some run → Placed run) (request : isReport action = false) :
    ∀ run, (dispatch state action).env = some run → Placed run := by
  cases outcome : reduce state action with
  | error rejected =>
      rw [dispatch_of_error outcome]
      exact placed
  | ok next =>
      rw [dispatch_of_ok outcome]
      cases action with
      | envPlanned plan =>
          obtain ⟨-, rfl⟩ := planEnv_ok outcome
          intro run run_eq
          obtain rfl := Option.some.inj run_eq
          cases env_eq : state.env with
          | none =>
              intro key container found
              simp at found
          | some before => exact placed before env_eq
      | nodeStartRequested nodeId =>
          rcases startNode_ok outcome with ⟨-, rfl⟩ | ⟨run, marked, env_eq, -, marks, rfl⟩
          · intro run run_eq
            obtain rfl := Option.some.inj run_eq
            intro key container found
            simp at found
          · intro after after_eq
            obtain rfl := Option.some.inj after_eq
            exact placed_starting (placed run env_eq) marks
      | nodeDebugWaitRequested nodeId wait =>
          obtain ⟨run, marked, env_eq, marks, rfl⟩ := setDebugWait_ok outcome
          intro after after_eq
          obtain rfl := Option.some.inj after_eq
          exact placed_starting (placed run env_eq) marks
      | nodeStopRequested nodeId => exact placed_setPending placed outcome
      | nodeDeleteRequested nodeId => exact placed_setPending placed outcome
      | ownerSet owner =>
          cases outcome
          exact placed
      | _ => cases request

theorem loadEnv_idle (saved : EnvState) (container : ContainerInfo)
    (found : (Persistence.loadEnv saved).containers[nodeId]? = some container) :
    container.pendingAction = none := by
  revert nodeId container
  apply List.foldlRecOn (motive := fun containers : OrderedMap String ContainerInfo =>
    ∀ {nodeId : String} (container : ContainerInfo), containers[nodeId]? = some container →
      container.pendingAction = none)
  · intro nodeId container found
    simp at found
  · intro containers idle old _ nodeId container found
    rw [ExtTreeMap.getElem?_insert] at found
    split at found
    · cases found
      rfl
    · exact idle container found

theorem rehydrated_frame (answer : DockerAnswer) (container : ContainerInfo) :
    (Persistence.rehydrated answer container).desired = container.desired ∧
      (Persistence.rehydrated answer container).pendingAction = container.pendingAction := by
  unfold Persistence.rehydrated
  split <;> exact ⟨rfl, rfl⟩

/-- What is read back is not in flight, so it is placed exactly if it has a container. -/
theorem placed_rehydrate (saved : EnvState) (answers : String → DockerAnswer) :
    Placed (Persistence.rehydrate saved answers) ↔
      ∀ container ∈ OrderedMap.listed (Persistence.loadEnv saved).containers,
        isPlaceholder container = false := by
  have each (container : ContainerInfo) (idle : container.pendingAction = none) :
      held (Persistence.rehydrated (answers container.desired.containerName) container) ↔
        isPlaceholder container = false := by
    obtain ⟨desired, pending⟩ :=
      rehydrated_frame (answers container.desired.containerName) container
    simp [held, isPlaceholder, desired, pending, idle]
  simp only [Placed, Persistence.rehydrate, ExtTreeMap.getElem?_map, Option.map_eq_some_iff,
    OrderedMap.mem_listed]
  constructor
  · rintro placed container ⟨key, found⟩
    exact (each container (loadEnv_idle saved container found)).mp
      (placed key _ ⟨container, found, rfl⟩)
  · rintro named key _ ⟨container, found, rfl⟩
    exact (each container (loadEnv_idle saved container found)).mpr (named container ⟨key, found⟩)

end Steps

/-- A step keeps every record with a container or being started exactly if it leaves none behind. -/
theorem settled_step {world : World} (settled : Settled world.state) (event : Event) :
    Settled (step world event).state ↔ Keeps world event := by
  have placed := settled_iff.mp settled
  cases event with
  | acted action =>
      change Settled (dispatch world.state action) ↔ _
      rw [settled_iff]
      cases reports : isReport action with
      | false =>
          refine iff_of_true (placed_of_request placed reports) ?_
          cases action <;> trivial
      | true =>
          rw [dispatch_report reports]
          cases env_eq : world.state.env with
          | none =>
              have absent (nodeId : String) : world.state.container? nodeId = none := by
                rw [WorkspaceState.container?, env_eq, Option.bind_none]
              refine iff_of_true (fun run run_eq => by cases run_eq) ?_
              cases action with
              | containerActionSettled nodeId of result =>
                  rcases result with message | _ | info <;> simp [Keeps, absent, env_eq]
              | envCreateWorking nodeId action => cases action <;> simp [Keeps, absent]
              | envCreateProgress => simp [Keeps, env_eq]
              | _ => trivial
          | some run =>
              rw [← placed_report (placed run env_eq) env_eq reports]
              simp
  | persisted => exact iff_of_true settled trivial
  | rebooted answers =>
      rw [settled_iff]
      simp only [step, Option.map_eq_some_iff, Keeps]
      constructor
      · intro every saved stored
        exact (placed_rehydrate saved answers).mp (every _ ⟨saved, stored, rfl⟩)
      · rintro named _ ⟨saved, stored, rfl⟩
        exact (placed_rehydrate saved answers).mpr (named saved stored)

theorem settled_empty : Settled {} := settled_iff.mpr fun _ env_eq => by cases env_eq

/-- Every record without a container is being started, in every state of a run, exactly if no step
leaves one behind. -/
theorem settled_along_iff (events : List Event) :
    (∀ front back, events = front ++ back → Settled (after front).state) ↔
      Execution.Along step Keeps {} events :=
  Execution.invariant_throughout_iff step (fun world => Settled world.state)
    (fun _ event settled => settled_step settled event) settled_empty events

/-- A node is started that has no container, and the start fails. -/
def failedStart : List Event :=
  [.acted (.envPlanned (.flow "all")), .acted (.envCreateSettled (.ok { network := "net" })),
    .acted (.nodeStartRequested "web.app"),
    .acted (.containerActionSettled "web.app" (some .starting) (.error "the build failed"))]

/-- The record of a failed start stays, without a container and in no flight. -/
theorem left_by_failed_start : ¬∀ events : List Event, Settled (after events).state := by
  intro holds
  have settled := (holds failedStart).starting "web.app"
    { startingPlaceholder "web.app" with pendingAction := none } (by decide) (by decide)
  cases settled

end Placeholders
end Fghj
