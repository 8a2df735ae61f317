import Fghj.Library.Execution
import Fghj.Reducer

/-!
# What a create writes back

A create copies the environment, works on its copy for minutes, and its settle puts the copy in
place of the environment. Other actions are reduced between the copy and the settle. This file
says exactly when nothing they did is lost.
-/

namespace Fghj
namespace CreateSettle

open Reducer

/-- What the end of a create leaves of a record: the mark goes, and a placeholder goes with it. -/
def settled (container : ContainerInfo) : Option ContainerInfo :=
  if isPlaceholder container then none else some { container with pendingAction := none }

theorem clearCreateMarks_get (run : EnvState) (nodeId : String) :
    (clearCreateMarks run).containers[nodeId]? = run.containers[nodeId]?.bind settled := by
  cases found : run.containers[nodeId]? with
  | none => simp [clearCreateMarks, found]
  | some container =>
      cases placeholder : isPlaceholder container <;>
        simp [clearCreateMarks, found, settled, placeholder]

/-- The run of a create on its own copy: outside the containers it starts, restarts or stops, only
the network and the sidecar differ from the copy it took. -/
structure CreateRun (prior : EnvState) where
  result : EnvState
  /-- The containers the run started, restarted or stopped. -/
  touched : List String
  containers_eq : ∀ nodeId, nodeId ∉ touched →
    result.containers[nodeId]? = prior.containers[nodeId]?
  volumes_eq : result.volumes = prior.volumes

/-- How a create ends. -/
inductive Outcome where
  | ok
  /-- Some node failed; what came up is adopted. -/
  | failed (message : String)
  /-- Nothing came up, or the task ended without reporting. -/
  | abandoned (message : String)
  deriving DecidableEq

/-- Whether the outcome carries the run's copy. -/
def Outcome.adopts : Outcome → Bool
  | .abandoned _ => false
  | _ => true

/-- The result a create's settle carries. -/
def Outcome.result {prior : EnvState} (create : CreateRun prior) :
    Outcome → Except EnvCreateError EnvState
  | .ok => .ok create.result
  | .failed message => .error { message, partialState := some create.result }
  | .abandoned message => .error { message }

/-- Every container the run did not touch and every volume is as it was, apart from cleared marks
and dropped placeholders. -/
def Kept (touched : List String) (before after : EnvState) : Prop :=
  (∀ nodeId, nodeId ∉ touched →
      after.containers[nodeId]? = before.containers[nodeId]?.bind settled) ∧
    ∀ volume : String, after.volumes[volume]? = before.volumes[volume]?

/-- The untouched containers, apart from marks and placeholders, and the volumes are those of the
copy. -/
def Undisturbed (touched : List String) (prior before : EnvState) : Prop :=
  (∀ nodeId, nodeId ∉ touched →
      before.containers[nodeId]?.bind settled = prior.containers[nodeId]?.bind settled) ∧
    before.volumes = prior.volumes

/-- The workspace when the create settles, after the actions reduced since the copy. -/
def settling (owner : Option WorkspaceOwner) (prior : EnvState) (others : List Action) :
    WorkspaceState :=
  Execution.run dispatch { owner, env := some prior } others

/-- Nothing the other actions did is lost when the create settles. -/
def NothingLost (owner : Option WorkspaceOwner) (prior : EnvState) (create : CreateRun prior)
    (outcome : Outcome) (others : List Action) : Prop :=
  ∀ before after, (settling owner prior others).env = some before →
    (dispatch (settling owner prior others) (.envCreateSettled (outcome.result create))).env =
      some after →
    Kept create.touched before after

/-- The action concerns no container outside `touched` and no volume. -/
def spares (touched : List String) (action : Action) : Bool :=
  !touchesVolumes action && (namedNode action).all fun nodeId => nodeId ∈ touched

theorem settling_env (owner : Option WorkspaceOwner) (prior : EnvState) (others : List Action) :
    ∃ before, (settling owner prior others).env = some before := by
  have kept : (settling owner prior others).env.isSome := by
    apply Execution.run_always dispatch (fun state => state.env.isSome)
    · intro state action present
      obtain ⟨run, env_eq⟩ := Option.isSome_iff_exists.mp present
      obtain ⟨next, next_eq, -⟩ := dispatch_frame env_eq action
      simp [next_eq]
    · rfl
  exact Option.isSome_iff_exists.mp kept

/-- Actions that spare what the run did not touch leave it undisturbed. -/
theorem undisturbed_of_spares {touched : List String} (owner : Option WorkspaceOwner)
    (prior : EnvState) {others : List Action} (spared : ∀ action ∈ others, spares touched action)
    {before : EnvState} (reached : (settling owner prior others).env = some before) :
    Undisturbed touched prior before := by
  -- induction on the actions, keeping the untouched records and the volumes equal to the copy's
  have equal : ∀ (state : WorkspaceState) (run : EnvState), state.env = some run →
      ((∀ nodeId, nodeId ∉ touched → run.containers[nodeId]? = prior.containers[nodeId]?) ∧
        run.volumes = prior.volumes) →
      ∀ before, (Execution.run dispatch state others).env = some before →
        (∀ nodeId, nodeId ∉ touched →
          before.containers[nodeId]? = prior.containers[nodeId]?) ∧
          before.volumes = prior.volumes := by
    clear reached
    induction others with
    | nil =>
        intro state run env_eq same before reached
        rw [Execution.run_nil, env_eq] at reached
        cases reached
        exact same
    | cons action others ih =>
        intro state run env_eq same before reached
        have spare := spared action List.mem_cons_self
        simp only [spares, Bool.and_eq_true, Bool.not_eq_true'] at spare
        obtain ⟨next, next_eq, containers_eq, volumes_eq⟩ := dispatch_frame env_eq action
        refine ih (fun other member => spared other (List.mem_cons_of_mem _ member)) _ next next_eq
          ⟨fun nodeId outside => ?_, (volumes_eq spare.1).trans same.2⟩ before reached
        have ongoing : settlesCreate action = false := by
          cases action <;> first | rfl | exact spare.1
        rw [containers_eq ongoing nodeId, same.1 nodeId outside]
        intro named
        apply outside
        simpa [named] using spare.2
  have same := equal { owner, env := some prior } prior rfl ⟨fun _ _ => rfl, rfl⟩ before reached
  exact ⟨fun nodeId outside => by rw [same.1 nodeId outside], same.2⟩

theorem settle_env {state : WorkspaceState} {before prior : EnvState}
    (env_eq : state.env = some before) (create : CreateRun prior) (outcome : Outcome) :
    (dispatch state (.envCreateSettled (outcome.result create))).env =
      some (clearCreateMarks (if outcome.adopts then create.result else before)) := by
  rw [dispatch_report rfl, env_eq]
  cases outcome <;> rfl

/-- Whatever the outcome, what the settle leaves is compared with what it found. -/
theorem nothingLost_iff_kept {owner : Option WorkspaceOwner} {prior before : EnvState}
    {others : List Action} (reached : (settling owner prior others).env = some before)
    (create : CreateRun prior) (outcome : Outcome) :
    NothingLost owner prior create outcome others ↔
      Kept create.touched before
        (clearCreateMarks (if outcome.adopts then create.result else before)) := by
  have settles := settle_env reached create outcome
  constructor
  · intro kept
    exact kept before _ reached settles
  · intro kept found after found_eq after_eq
    rw [reached] at found_eq
    rw [settles] at after_eq
    cases found_eq
    cases after_eq
    exact kept

/-- Clearing the marks of an environment in place loses nothing. -/
theorem kept_clearCreateMarks (touched : List String) (before : EnvState) :
    Kept touched before (clearCreateMarks before) :=
  ⟨fun nodeId _ => clearCreateMarks_get before nodeId, fun _ => rfl⟩

/-- Adopting the run's copy loses nothing exactly when the environment it replaces is
undisturbed. -/
theorem kept_adopted_iff {prior : EnvState} (create : CreateRun prior) (before : EnvState) :
    Kept create.touched before (clearCreateMarks create.result) ↔
      Undisturbed create.touched prior before := by
  constructor
  · rintro ⟨containers, volumes⟩
    refine ⟨fun nodeId outside => ?_, ?_⟩
    · rw [← containers nodeId outside, clearCreateMarks_get, create.containers_eq nodeId outside]
    · apply Std.ExtTreeMap.ext_getElem?
      intro volume
      rw [← volumes volume, ← create.volumes_eq]
      rfl
  · rintro ⟨containers, volumes⟩
    refine ⟨fun nodeId outside => ?_, fun volume => ?_⟩
    · rw [clearCreateMarks_get, create.containers_eq nodeId outside, containers nodeId outside]
    · rw [volumes, ← create.volumes_eq]
      rfl

/-- Nothing is lost over a create exactly when it adopts no copy, or the actions reduced since the
copy left what the run did not touch as the copy had it; in particular when each of them concerned
only containers the run touched. -/
theorem nothingLost_iff (owner : Option WorkspaceOwner) (prior : EnvState)
    (create : CreateRun prior) (outcome : Outcome) (others : List Action) :
    (NothingLost owner prior create outcome others ↔
      outcome.adopts = false ∨ ∀ before, (settling owner prior others).env = some before →
        Undisturbed create.touched prior before) ∧
      ((∀ action ∈ others, spares create.touched action) →
        NothingLost owner prior create outcome others) := by
  obtain ⟨before, reached⟩ := settling_env owner prior others
  have exact_condition : NothingLost owner prior create outcome others ↔
      outcome.adopts = false ∨ ∀ before, (settling owner prior others).env = some before →
        Undisturbed create.touched prior before := by
    rw [nothingLost_iff_kept reached]
    cases outcome.adopts with
    | false => simpa using kept_clearCreateMarks create.touched before
    | true => simpa [reached] using kept_adopted_iff create before
  refine ⟨exact_condition, fun spared => exact_condition.mpr (.inr fun before reached => ?_)⟩
  exact undisturbed_of_spares owner prior spared reached

/-- An environment whose one container a user is deleting when a switch copies it. -/
def deletingDuringCreate : EnvState where
  network := "fghj-app-default"
  containers := (∅ : OrderedMap String ContainerInfo).insert "web.app"
    { nodeId := "web.app"
      desired := { running := true, containerName := "fghj-app-default-web-app" }
      observed := { status := "running" }
      pendingAction := some .removing }
  pendingCreate := some (.flow "app/main")

/-- A delete that settles during a switch is undone when the switch settles. -/
theorem deleted_container_comes_back :
    ¬∀ (owner : Option WorkspaceOwner) (prior : EnvState) (create : CreateRun prior)
      (outcome : Outcome) (others : List Action),
      NothingLost owner prior create outcome others := by
  intro kept
  have lost := kept none deletingDuringCreate ⟨deletingDuringCreate, [], fun _ _ => rfl, rfl⟩ .ok
    [.containerActionSettled "web.app" (some .removing) (.ok none)] _ _ rfl
    (@settle_env (settling none deletingDuringCreate _) _ _ rfl _ _)
  have present := lost.1 "web.app" (by simp)
  rw [clearCreateMarks_get] at present
  revert present
  decide

end CreateSettle
end Fghj
