import Fghj.CreateSettle

/-!
# Stale readings

The observer copies a container's reading, asks Docker, and dispatches the answer together with the
copy. The reducer takes an answer for stale when the reading has changed since the copy. It compares
values, so a result that brings the old reading back lets a stale answer through. This file says
exactly when an answer is dropped, and when it cannot undo a result reduced in between.
-/

namespace Fghj
namespace Observation

open Reducer

/-- What the observer read of one container. -/
structure Reading where
  status : String
  publishedPort : Option UInt16 := none
  ports : OrderedMap String (Option UInt16) := ∅
  exitCode : Option Int := none
  /-- Docker did not answer. -/
  unseen : Bool := false

/-- The report of a reading, with the reading it was taken against. -/
def containerObserved (nodeId : String) (reading : Reading) (basedOn : ContainerObserved) :
    Action :=
  .containerObserved nodeId reading.status reading.publishedPort reading.ports reading.exitCode
    reading.unseen basedOn

/-- The workspace after the actions reduced since the copy. -/
def since (state : WorkspaceState) (others : List Action) : WorkspaceState :=
  Execution.run dispatch state others

/-- The report changes nothing. -/
def Dropped (state : WorkspaceState) (nodeId : String) (reading : Reading)
    (basedOn : ContainerObserved) : Prop :=
  dispatch state (containerObserved nodeId reading basedOn) = state

/-- The action brings the result of a start, a restart or a stop of the node. -/
def Brings (state : WorkspaceState) (nodeId : String) (info : ContainerInfo) : Action → Prop
  | .containerActionSettled named of result =>
      state.env.isSome ∧ named = nodeId ∧ result = .ok (some info) ∧
        (of = none ∨ of = state.pendingAction? nodeId)
  | .envCreateProgress _ _ _ progress =>
      state.env.isSome ∧ progress = info ∧ info.nodeId = nodeId
  | .envCreateSettled result =>
      state.env.isSome ∧ ∃ created, carried result = some created ∧
        created.containers[nodeId]? = some info ∧ isPlaceholder info = false
  | _ => False

/-- The action has nothing to do with the node. -/
def ignores (nodeId : String) (action : Action) : Bool :=
  namedNode action != some nodeId && !settlesCreate action

/-- The record says what the reading says. -/
def Agrees (observed : ContainerObserved) (reading : Reading) : Prop :=
  if reading.unseen then observed.unseen = true
  else
    observed.unseen = false ∧ observed.status = reading.status ∧
      observed.publishedPort = reading.publishedPort ∧ observed.ports = reading.ports ∧
      observed.exitCode = reading.exitCode ∧ (observed.isUp = true → observed.interrupted = false)

/-- A stale answer about the node is dropped, and the node shows what its last result brought. -/
def ResultStands (state : WorkspaceState) (nodeId : String) (reading : Reading)
    (basedOn : ContainerObserved) (others : List Action) (info : ContainerInfo) : Prop :=
  Dropped (since state others) nodeId reading basedOn ∧
    ∃ container,
      (dispatch (since state others) (containerObserved nodeId reading basedOn)).container? nodeId =
        some container ∧
      container.observed.status = info.observed.status ∧
      container.observed.ports = info.observed.ports ∧
      container.observed.exitCode = info.observed.exitCode

/-- Writing a reading over a record leaves it as it is exactly when the record says so already. -/
theorem observeContainer_eq_iff (container : ContainerInfo) (reading : Reading)
    (basedOn : ContainerObserved) :
    observeContainer container reading.status reading.publishedPort reading.ports reading.exitCode
        reading.unseen basedOn = container ↔
      container.pendingAction.isSome ∨ container.observed.sameReading basedOn = false ∨
        Agrees container.observed reading := by
  obtain ⟨nodeId, desired, observed, pending⟩ := container
  obtain ⟨status, publishedPort, ports, sync, exitCode, interrupted, unseen, seeded⟩ := observed
  obtain ⟨status', publishedPort', ports', exitCode', unseen'⟩ := reading
  cases busy : pending with
  | some action => simp [observeContainer]
  | none =>
      cases fresh : ContainerObserved.sameReading
          ⟨status, publishedPort, ports, sync, exitCode, interrupted, unseen, seeded⟩ basedOn with
      | false => simp [observeContainer, fresh]
      | true =>
          cases unseen' with
          | true => simp [observeContainer, fresh, Agrees, eq_comm]
          | false =>
              simp only [observeContainer, fresh, Agrees, ContainerObserved.settleInterruption_eq,
                Option.isSome_none, Bool.not_true, Bool.or_self, Bool.false_eq_true, if_false,
                ContainerInfo.mk.injEq, ContainerObserved.mk.injEq, true_and, and_true, false_or,
                reduceCtorEq]
              constructor
              · rintro ⟨rfl, rfl, rfl, rfl, settled, rfl⟩
                refine ⟨rfl, rfl, rfl, rfl, rfl, fun up => ?_⟩
                rw [← settled, Bool.and_eq_false_iff, Bool.not_eq_false']
                exact .inl up
              · rintro ⟨rfl, rfl, rfl, rfl, rfl, settled⟩
                refine ⟨rfl, rfl, rfl, rfl, ?_, rfl⟩
                cases up : ContainerObserved.isUp
                    ⟨status, publishedPort, ports, sync, exitCode, interrupted, false, seeded⟩ with
                | true => simp [settled up]
                | false => simp

/-- An answer is dropped exactly when the node has no record, has an action in flight, has a reading
other than the copied one, or says so already. -/
theorem dropped_iff (state : WorkspaceState) (nodeId : String) (reading : Reading)
    (basedOn : ContainerObserved) :
    Dropped state nodeId reading basedOn ↔
      ∀ container, state.container? nodeId = some container →
        container.pendingAction.isSome ∨ container.observed.sameReading basedOn = false ∨
          Agrees container.observed reading := by
  obtain ⟨owner, env⟩ := state
  rw [Dropped, dispatch_report rfl]
  cases env with
  | none => simp [WorkspaceState.container?]
  | some run =>
      simp only [WorkspaceState.container?, Option.bind_some, Option.map_some,
        WorkspaceState.mk.injEq, true_and, Option.some.injEq]
      constructor
      · intro unchanged container found
        rw [← observeContainer_eq_iff]
        have same : (report (containerObserved nodeId reading basedOn) run).containers[nodeId]? =
            some container := by rw [unchanged, found]
        simpa [report, containerObserved, found] using same
      · intro superseded
        have containers_eq : run.containers.modify nodeId (fun container =>
            observeContainer container reading.status reading.publishedPort reading.ports
              reading.exitCode reading.unseen basedOn) = run.containers := by
          apply Std.ExtTreeMap.ext_getElem?
          intro other
          rw [OrderedMap.get_modify]
          split
          · rename_i same
            subst same
            cases found : run.containers[nodeId]? with
            | none => rfl
            | some container =>
                rw [Option.map_some,
                  (observeContainer_eq_iff container reading basedOn).mpr (superseded _ found)]
          · rfl
        simp only [report, containerObserved, containers_eq]

/-- A result is what the node's record holds next. -/
theorem container?_of_brings {state : WorkspaceState} {nodeId : String} {info : ContainerInfo}
    {action : Action} (brings : Brings state nodeId info action) :
    (dispatch state action).container? nodeId = some { info with pendingAction := none } := by
  cases action with
  | containerActionSettled named of result =>
      obtain ⟨present, rfl, rfl, current⟩ := brings
      obtain ⟨run, env_eq⟩ := Option.isSome_iff_exists.mp present
      have unmoved : ¬(of.isSome && of != (run.containers[named]?).bind
          ContainerInfo.pendingAction) = true := by
        rcases current with rfl | rfl
        · simp
        · simp [WorkspaceState.pendingAction?, WorkspaceState.container?, env_eq]
      rw [dispatch_report rfl, env_eq]
      simp [WorkspaceState.container?, report, settleContainerAction, unmoved]
  | envCreateProgress network sidecarContainerName sidecarIp progress =>
      obtain ⟨present, rfl, rfl⟩ := brings
      obtain ⟨run, env_eq⟩ := Option.isSome_iff_exists.mp present
      rw [dispatch_report rfl, env_eq]
      simp [WorkspaceState.container?, report, recordProgress]
  | envCreateSettled result =>
      obtain ⟨present, created, carries, found, real⟩ := brings
      obtain ⟨run, env_eq⟩ := Option.isSome_iff_exists.mp present
      obtain ⟨adopted, adopted_eq, settles⟩ := settleEnvCreate_eq run result
      rw [carries, Option.getD_some] at adopted_eq
      rw [dispatch_report rfl, env_eq]
      simp only [WorkspaceState.container?, Option.map_some, Option.bind_some, report, settles,
        CreateSettle.clearCreateMarks_get, adopted_eq, found]
      simp [CreateSettle.settled, real]
  | _ => exact brings.elim

/-- Actions that have nothing to do with a node leave its record alone. -/
theorem container?_of_ignores {state : WorkspaceState} {nodeId : String} {container : ContainerInfo}
    (found : state.container? nodeId = some container) {others : List Action}
    (ignored : ∀ action ∈ others, ignores nodeId action) :
    (since state others).container? nodeId = some container := by
  induction others generalizing state with
  | nil => exact found
  | cons action others ih =>
      have first := ignored action List.mem_cons_self
      simp only [ignores, Bool.and_eq_true, bne_iff_ne, Bool.not_eq_true'] at first
      obtain ⟨run, env_eq, record⟩ := Option.bind_eq_some_iff.mp found
      obtain ⟨next, next_eq, kept, -⟩ := dispatch_frame env_eq action
      have held : (dispatch state action).container? nodeId = some container := by
        rw [WorkspaceState.container?, next_eq, Option.bind_some, kept first.2 nodeId first.1,
          record]
      exact ih held fun other member => ignored other (List.mem_cons_of_mem _ member)

/-- Whatever was reduced since the copy, an answer is dropped exactly when the reading then is not
the copied one, an action is in flight, there is no record, or the record says so already. After a
result that nothing else followed, it stands exactly when its own reading is not the copied one or
is what the answer says. -/
theorem stale_reading_exact (state : WorkspaceState) (nodeId : String) (reading : Reading)
    (basedOn : ContainerObserved) (others : List Action) :
    (Dropped (since state others) nodeId reading basedOn ↔
      ∀ container, (since state others).container? nodeId = some container →
        container.pendingAction.isSome ∨ container.observed.sameReading basedOn = false ∨
          Agrees container.observed reading) ∧
      ∀ front result back info, others = front ++ result :: back →
        Brings (since state front) nodeId info result →
        (∀ action ∈ back, ignores nodeId action) →
        (ResultStands state nodeId reading basedOn others info ↔
          info.observed.sameReading basedOn = false ∨ Agrees info.observed reading) := by
  refine ⟨dropped_iff _ nodeId reading basedOn, ?_⟩
  rintro front result back info rfl brings ignored
  have found : (since state (front ++ result :: back)).container? nodeId =
      some { info with pendingAction := none } := by
    rw [since, Execution.run_append, Execution.run_cons]
    exact container?_of_ignores (container?_of_brings brings) ignored
  have dropped : Dropped (since state (front ++ result :: back)) nodeId reading basedOn ↔
      info.observed.sameReading basedOn = false ∨ Agrees info.observed reading := by
    rw [dropped_iff, found]
    simp
  constructor
  · intro stands
    exact dropped.mp stands.1
  · intro superseded
    have unchanged := dropped.mpr superseded
    refine ⟨unchanged, { info with pendingAction := none }, ?_, rfl, rfl, rfl⟩
    rw [unchanged, found]

/-- A web server that is up. -/
def webUp : ContainerInfo where
  nodeId := "web.app"
  desired := { running := true, containerName := "fghj-app-default-web-app" }
  observed := { status := "running" }

/-- An environment with the web server up. -/
def upState : WorkspaceState where
  env := some
    { network := "fghj-app-default"
      containers := (∅ : OrderedMap String ContainerInfo).insert "web.app" webUp }

/-- A reading taken while a container is down for its restart undoes the restart's result. -/
theorem stale_reading_undoes_restart :
    ¬∀ (state : WorkspaceState) (nodeId : String) (container : ContainerInfo) (reading : Reading)
      (front back : List Action) (result : Action) (info : ContainerInfo),
      state.container? nodeId = some container → Brings (since state front) nodeId info result →
      (∀ action ∈ back, ignores nodeId action) →
      ResultStands state nodeId reading container.observed (front ++ result :: back) info := by
  intro stands
  have dropped := (stands upState "web.app" webUp { status := "exited", exitCode := some 137 }
    [.envCreateWorking "web.app" (some .restarting)] []
    (.envCreateProgress "fghj-app-default" "fghj-app-default-sidecar" none webUp) webUp
    (by decide) ⟨by decide, rfl, rfl⟩ (by simp)).1
  have status := congrArg
    (fun state : WorkspaceState => (state.container? "web.app").map (·.observed.status)) dropped
  revert status
  decide

end Observation
end Fghj
