import Fghj.Library.Execution
import Fghj.Reducer

/-!
# The gate between creates and node actions

A create owns every container until it settles, and a node action holds off a create. This file
follows which marks a user request set, states the gate for every reachable state, and says exactly
in which states the reducer keeps it.
-/

namespace Fghj
namespace CreateGate

open Reducer

/-- The five requests the gate is about. -/
inductive Request where
  | plan (spec : EnvSpec)
  | start (nodeId : String)
  | stop (nodeId : String)
  | delete (nodeId : String)
  | debugWait (nodeId : String) (wait : Bool)

/-- The action a request is dispatched as. -/
def Request.toAction : Request → Action
  | .plan spec => .envPlanned spec
  | .start nodeId => .nodeStartRequested nodeId
  | .stop nodeId => .nodeStopRequested nodeId
  | .delete nodeId => .nodeDeleteRequested nodeId
  | .debugWait nodeId wait => .nodeDebugWaitRequested nodeId wait

/-- The action is rejected and leaves the state unchanged. -/
def Refused (state : WorkspaceState) (action : Action) : Prop :=
  (∃ rejected, reduce state action = .error rejected) ∧ dispatch state action = state

/-- The action is accepted. -/
def Accepted (state : WorkspaceState) (action : Action) : Prop :=
  ∃ next, reduce state action = .ok next

/-- A workspace together with the nodes whose mark a user request set. -/
structure Tracked where
  state : WorkspaceState := {}
  /-- The node's mark was set by an accepted request and has stayed since. -/
  asked : String → Bool := fun _ => false

/-- An accepted request owns the mark it leaves; any other action keeps the marks it leaves
alone. -/
def Tracked.step (tracked : Tracked) (action : Action) : Tracked where
  state := dispatch tracked.state action
  asked nodeId :=
    ((dispatch tracked.state action).pendingAction? nodeId).isSome &&
      (((requested action).any fun asked => asked.1 == nodeId) &&
          (reduce tracked.state action).isOk ||
        tracked.asked nodeId &&
          (dispatch tracked.state action).pendingAction? nodeId ==
            tracked.state.pendingAction? nodeId)

/-- The workspace after a history of actions from the default state. -/
def Tracked.after (history : List Action) : Tracked := Execution.run Tracked.step {} history

/-- Some container carries a stop or a delete that a user asked for. -/
def Tracked.TakesDown (tracked : Tracked) : Prop :=
  ∃ nodeId, tracked.asked nodeId ∧
    (tracked.state.pendingAction? nodeId = some .stopping ∨
      tracked.state.pendingAction? nodeId = some .removing)

/-- A create and a node action a user asked for are in force at the same time. -/
def Tracked.Overlaps (tracked : Tracked) : Prop :=
  tracked.state.pendingCreate?.isSome ∧ ∃ nodeId, tracked.asked nodeId

/-- While a create is in flight every request is refused, and a plan is accepted only while no
container carries a stop or a delete that a user asked for. -/
def Tracked.Gated (tracked : Tracked) : Prop :=
  (tracked.state.pendingCreate?.isSome →
      ∀ request : Request, Refused tracked.state request.toAction) ∧
    ∀ plan, Accepted tracked.state (.envPlanned plan) → ¬tracked.TakesDown

/-- A request that does not slip past the gate: the debug switch of an idle container is left alone
during a create, and a plan waits for the marks users set. -/
def Waits (tracked : Tracked) : Action → Prop
  | .envPlanned _ => tracked.state.pendingCreate? = none → ∀ nodeId, ¬tracked.asked nodeId
  | .nodeDebugWaitRequested nodeId _ =>
      tracked.state.pendingCreate?.isSome → ∀ container,
        tracked.state.container? nodeId = some container → container.pendingAction.isSome
  | _ => True

theorem refused_iff_not_accepted (state : WorkspaceState) (action : Action) :
    Refused state action ↔ ¬Accepted state action := by
  constructor
  · rintro ⟨⟨rejected, refused⟩, -⟩ ⟨next, accepted⟩
    rw [refused] at accepted
    cases accepted
  · intro unaccepted
    cases outcome : reduce state action with
    | error rejected => exact ⟨⟨rejected, outcome⟩, dispatch_of_error outcome⟩
    | ok next => exact (unaccepted ⟨next, outcome⟩).elim

theorem accepted_plan_iff (state : WorkspaceState) (plan : EnvSpec) :
    Accepted state (.envPlanned plan) ↔ state.pendingCreate? = none := by
  constructor
  · rintro ⟨next, accepted⟩
    exact (planEnv_ok accepted).1
  · intro idle
    refine ⟨{ state with env := some { state.env.getD {} with pendingCreate := some plan } }, ?_⟩
    cases env_eq : state.env with
    | none => simp [reduce, planEnv, env_eq]
    | some run =>
        have unplanned : run.pendingCreate = none := by
          simpa [WorkspaceState.pendingCreate?, env_eq] using idle
        simp [reduce, planEnv, env_eq, unplanned]

/-- The debug switch looks at the container alone. -/
theorem accepted_debugWait_iff (state : WorkspaceState) (nodeId : String) (wait : Bool) :
    Accepted state (.nodeDebugWaitRequested nodeId wait) ↔
      ∃ container, state.container? nodeId = some container ∧ container.pendingAction = none := by
  unfold Accepted
  simp only [reduce, setDebugWait, WorkspaceState.container?]
  cases state.env with
  | none => simp
  | some run =>
      simp only [Option.bind_some]
      cases run.containers[nodeId]? with
      | none => simp
      | some container => cases pending : container.pendingAction <;> simp [pending]

/-- During a create only the debug switch of an idle container is accepted. -/
theorem accepted_during_create_iff {state : WorkspaceState}
    (creating : state.pendingCreate?.isSome) (request : Request) :
    Accepted state request.toAction ↔
      ∃ nodeId wait container, request = .debugWait nodeId wait ∧
        state.container? nodeId = some container ∧ container.pendingAction = none := by
  have busy (nodeId : String) (pending : PendingAction) (action : Action)
      (request : requested action = some (nodeId, pending))
      (other : ∀ wait, action ≠ .nodeDebugWaitRequested nodeId wait) : ¬Accepted state action := by
    rintro ⟨next, accepted⟩
    rcases request_ok request accepted with ⟨absent, -⟩ | ⟨run, marked, env_eq, free, -, -⟩
    · simp [WorkspaceState.pendingCreate?, absent] at creating
    · rcases free with idle | ⟨wait, same⟩
      · simp [WorkspaceState.pendingCreate?, env_eq, idle] at creating
      · exact other wait same
  cases request with
  | plan plan =>
      rw [Request.toAction, accepted_plan_iff]
      have planned : state.pendingCreate? ≠ none := Option.isSome_iff_ne_none.mp creating
      simp [planned]
  | start nodeId => simpa [Request.toAction] using busy nodeId .starting _ rfl (by simp)
  | stop nodeId => simpa [Request.toAction] using busy nodeId .stopping _ rfl (by simp)
  | delete nodeId => simpa [Request.toAction] using busy nodeId .removing _ rfl (by simp)
  | debugWait nodeId wait =>
      rw [Request.toAction, accepted_debugWait_iff]
      constructor
      · rintro ⟨container, found, idle⟩
        exact ⟨nodeId, wait, container, rfl, found, idle⟩
      · rintro ⟨_, _, container, same, found, idle⟩
        cases same
        exact ⟨container, found, idle⟩

/-- The gate holds in a state exactly when a create leaves no container idle and no create finds a
stop or a delete that a user asked for. -/
theorem gated_iff (tracked : Tracked) :
    tracked.Gated ↔
      (tracked.state.pendingCreate?.isSome → ∀ nodeId container,
          tracked.state.container? nodeId = some container → container.pendingAction.isSome) ∧
        (tracked.state.pendingCreate? = none → ¬tracked.TakesDown) := by
  unfold Tracked.Gated
  constructor
  · rintro ⟨refuses, plans⟩
    constructor
    · intro creating nodeId container found
      by_contra idle
      have refused := refuses creating (.debugWait nodeId true)
      rw [refused_iff_not_accepted, accepted_during_create_iff creating] at refused
      exact refused ⟨nodeId, true, container, rfl, found, by simpa using idle⟩
    · intro idle
      exact plans (.flow "") ((accepted_plan_iff _ _).mpr idle)
  · rintro ⟨busy, idle⟩
    constructor
    · intro creating request
      rw [refused_iff_not_accepted, accepted_during_create_iff creating]
      rintro ⟨nodeId, wait, container, -, found, free⟩
      have := busy creating nodeId container found
      simp [free] at this
    · intro plan accepted
      exact idle ((accepted_plan_iff _ _).mp accepted)

/-- A mark counts as a user's only if the action set it on request, or it was one before. -/
theorem asked_step {tracked : Tracked} {action : Action} {nodeId : String}
    (asked : (tracked.step action).asked nodeId) :
    (∃ pending, requested action = some (nodeId, pending) ∧ Accepted tracked.state action) ∨
      tracked.asked nodeId := by
  simp only [Tracked.step, Bool.and_eq_true, Bool.or_eq_true] at asked
  rcases asked.2 with ⟨names, accepted⟩ | ⟨before, -⟩
  · left
    cases request : requested action with
    | none => simp [request] at names
    | some named =>
        obtain ⟨other, pending⟩ := named
        have same : other = nodeId := by simpa [request] using names
        cases outcome : reduce tracked.state action with
        | error rejected => simp [outcome, Except.isOk, Except.toBool] at accepted
        | ok next => exact ⟨pending, by rw [same], next, outcome⟩
  · exact .inr before

/-- No step that waits brings a create and a user's node action in force together. -/
theorem step_not_overlaps (tracked : Tracked) (action : Action) (apart : ¬tracked.Overlaps)
    (waits : Waits tracked action) : ¬(tracked.step action).Overlaps := by
  rintro ⟨creating, nodeId, asked⟩
  have apart_of (before : tracked.state.pendingCreate?.isSome) (nodeId : String) :
      ¬tracked.asked nodeId := fun held => apart ⟨before, nodeId, held⟩
  have marked : ((dispatch tracked.state action).pendingAction? nodeId).isSome := by
    simp only [Tracked.step, Bool.and_eq_true] at asked
    exact asked.1
  have source := asked_step asked
  change (dispatch tracked.state action).pendingCreate?.isSome at creating
  rcases dispatch_cases tracked.state action with
    ⟨⟨rejected, refused⟩, unchanged⟩ | ⟨plan, rfl, idle, next⟩ | ⟨first, rfl, absent, next⟩ |
    ⟨named, pending, run, after, request, env_eq, free, marks, next⟩ | ⟨owner, rfl, next⟩ |
    ⟨reports, next⟩
  · -- a refused request leaves both sides as they were
    rw [unchanged] at creating
    rcases source with ⟨pending, -, accepted⟩ | before
    · obtain ⟨next, accepted⟩ := accepted
      rw [refused] at accepted
      cases accepted
    · exact apart_of creating nodeId before
  · rcases source with ⟨pending, request, -⟩ | before
    · cases request
    · exact waits idle nodeId before
  · -- the first start finds no container to mark
    rw [next] at marked
    simp [WorkspaceState.pendingAction?, WorkspaceState.container?] at marked
  · rw [next] at creating
    have planned : tracked.state.pendingCreate?.isSome := by
      simpa [WorkspaceState.pendingCreate?, env_eq, marks.pendingCreate_eq] using creating
    rcases free with idle | ⟨wait, rfl⟩
    · simp [WorkspaceState.pendingCreate?, env_eq, idle] at planned
    · cases request
      have busy := waits planned
      rcases source with ⟨_, same, accepted⟩ | before
      · cases same
        obtain ⟨container, found, free⟩ := (accepted_debugWait_iff _ _ _).mp accepted
        have := busy container found
        simp [free] at this
      · exact apart_of planned nodeId before
  · rw [next] at creating
    rcases source with ⟨pending, request, -⟩ | before
    · cases request
    · exact apart_of creating nodeId before
  · rw [next] at creating
    have planned : tracked.state.pendingCreate?.isSome := by
      cases env_eq : tracked.state.env with
      | none => simp [WorkspaceState.pendingCreate?, env_eq] at creating
      | some run =>
          simp only [WorkspaceState.pendingCreate?, env_eq, Option.map_some, Option.bind_some,
            report_pendingCreate] at creating ⊢
          split at creating
          · cases creating
          · exact creating
    rcases source with ⟨pending, request, -⟩ | before
    · rw [requested_of_report reports] at request
      cases request
    · exact apart_of planned nodeId before

/-- In every reachable state the gate holds exactly when no container is idle during a create and no
stop or delete of a user is in force outside one; and along a history whose requests all wait, a
create and a user's node action are never in force at the same time. -/
theorem gate_exact (history : List Action) :
    ((Tracked.after history).Gated ↔
      ((Tracked.after history).state.pendingCreate?.isSome → ∀ nodeId container,
          (Tracked.after history).state.container? nodeId = some container →
            container.pendingAction.isSome) ∧
        ((Tracked.after history).state.pendingCreate? = none →
          ¬(Tracked.after history).TakesDown)) ∧
      (Execution.Along Tracked.step Waits {} history → ¬(Tracked.after history).Overlaps) := by
  refine ⟨gated_iff _, fun along => ?_⟩
  refine Execution.run_invariant Tracked.step Waits (fun tracked => ¬tracked.Overlaps)
    step_not_overlaps ?_ along
  rintro ⟨creating, -⟩
  cases creating

/-- A switch that has brought its first node up, during which the node's debug switch is flipped. -/
def debugWaitDuringCreate : List Action :=
  [.envPlanned (.flow "app/main"),
    .envCreateProgress "fghj-app-default" "fghj-app-default-sidecar" (some "172.30.0.2")
      { nodeId := "web.app"
        desired := { running := true, containerName := "fghj-app-default-web-app" }
        observed := { status := "running" } }]

/-- The debug switch is accepted during a create, and then both are in force. -/
theorem debugWait_slips_past_create :
    ¬(∀ history : List Action,
      (Tracked.after history).Gated ∧ ¬(Tracked.after history).Overlaps) := by
  intro gated
  have refused := (gated debugWaitDuringCreate).1.1 (by decide) (.debugWait "web.app" true)
  rw [refused_iff_not_accepted] at refused
  apply refused
  rw [Request.toAction, accepted_debugWait_iff]
  refine ⟨_, rfl, ?_⟩
  decide

end CreateGate
end Fghj
