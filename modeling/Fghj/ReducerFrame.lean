import Fghj.ConvergeBooks
import Mathlib.Data.List.Induction

/-!
# What each action leaves alone

A request is about the record it names, a report about what it reports, and a plan about itself.
Records stay under the ids of their nodes, and none is wanted up that no start asked for or brought
with it.
-/

namespace Fghj
namespace Reducer

open Std

/-- A state that actions lead to which carry their records under the ids of the nodes. -/
def Reachable (state : WorkspaceState) : Prop :=
  ∃ actions : List Action, (∀ action ∈ actions, Converge.Identified action) ∧
    state = Execution.run dispatch {} actions

/-- A reading of a container, or of what it was made from. -/
def observedNode : Action → Option String
  | .containerObserved nodeId .. => some nodeId
  | .configDriftObserved nodeId .. => some nodeId
  | _ => none

/-- What a run reports of a node on the way. -/
def onTheWay : Action → Option String
  | .envCreateWorking nodeId _ => some nodeId
  | .envCreateProgress _ _ _ info => some info.nodeId
  | _ => none

/-- The action starts the node, or is part of a run that does: a request, work on a start, or the
outcome of one. -/
def isStart (nodeId : String) : Action → Prop
  | .nodeStartRequested named => named = nodeId
  | .nodeDebugWaitRequested named _ => named = nodeId
  | .containerActionSettled named of _ =>
      named = nodeId ∧ (of = none ∨ of = some .starting ∨ of = some .restarting)
  | .envCreateSettled _ => True
  | .envCreateProgress _ _ _ info => info.nodeId = nodeId
  | .envCreateWorking named action =>
      named = nodeId ∧ (action = some .starting ∨ action = some .restarting)
  | _ => False

/-- The action asks for the node to be up, or brings a record of it that is wanted up. -/
def asksFor (nodeId : String) : Action → Prop
  | .nodeStartRequested named => named = nodeId
  | .nodeDebugWaitRequested named _ => named = nodeId
  | .containerActionSettled named _ (.ok (some info)) =>
      named = nodeId ∧ info.desired.running = true
  | .envCreateSettled result =>
      ∃ created container, carried result = some created ∧
        created.containers[nodeId]? = some container ∧ container.desired.running = true
  | .envCreateProgress _ _ _ info => info.nodeId = nodeId ∧ info.desired.running = true
  | .envCreateWorking named action =>
      named = nodeId ∧ (action = some .starting ∨ action = some .restarting)
  | _ => False

/-- A run is about to take down a node that has no record. What is left of the node then is said
neither way. -/
def takesDownUnrecorded (state : WorkspaceState) (nodeId : String) : Action → Prop
  | .envCreateWorking named action =>
      named = nodeId ∧ state.container? nodeId = none ∧
        (action = some .stopping ∨ action = some .removing)
  | _ => False

/-- The node is wanted up. -/
def wanted (state : WorkspaceState) (nodeId : String) : Bool :=
  (state.container? nodeId).any fun container => container.desired.running

/-- Nothing changes but the record of one node, and of no record what was observed. -/
structure OnlyNamed (nodeId : String) (before after : EnvState) : Prop where
  others : ∀ other, other ≠ nodeId → after.containers[other]? = before.containers[other]?
  observed : ∀ (key : String) (old container : ContainerInfo), before.containers[key]? = some old →
    after.containers[key]? = some container → container.observed = old.observed
  network : after.network = before.network
  sidecarContainerName : after.sidecarContainerName = before.sidecarContainerName
  sidecarIp : after.sidecarIp = before.sidecarIp
  volumes : after.volumes = before.volumes

/-- The action changes only what it is about, and a node is wanted up only if it was before or the
action starts it, unless nothing is said of that. -/
structure Framed (unsaid : WorkspaceState → String → Action → Prop)
    (starts : String → Action → Prop) (state : WorkspaceState) (action : Action) : Prop where
  reported : isReport action →
    reduce state action = .ok (dispatch state action) ∧
      (state.env = none → (dispatch state action).env = none)
  observed : ∀ nodeId, observedNode action = some nodeId →
    ∃ observe : ContainerInfo → ContainerObserved, dispatch state action =
      { state with
        env := state.env.map fun run =>
          { run with
            containers := run.containers.modify nodeId fun container =>
              { container with observed := observe container } } }
  requested : ∀ nodeId pending next, requested action = some (nodeId, pending) →
    reduce state action = .ok next → next.owner = state.owner ∧
      ∃ after, next.env = some after ∧ OnlyNamed nodeId (state.env.getD {}) after
  planned : ∀ plan next, action = .envPlanned plan → reduce state action = .ok next →
    next = { state with env := some { state.env.getD {} with pendingCreate := some plan } }
  volume : ∀ volumeName «exists», action = .volumeObserved volumeName «exists» →
    ∃ volumes : EnvState → OrderedMap String VolumeInfo, dispatch state action =
      { state with env := state.env.map fun run => { run with volumes := volumes run } }
  sidecar : ∀ sidecarIp, action = .sidecarRestored sidecarIp → dispatch state action =
    { state with env := state.env.map fun run => { run with sidecarIp := some sidecarIp } }
  onTheWay : ∀ nodeId, onTheWay action = some nodeId → ∀ run after, state.env = some run →
    (dispatch state action).env = some after → after.pendingCreate = run.pendingCreate ∧
      ∀ other, other ≠ nodeId → after.containers[other]? = run.containers[other]?
  keyed : Converge.Keyed (dispatch state action)
  wanted : ∀ nodeId, ¬unsaid state nodeId action → wanted (dispatch state action) nodeId →
    wanted state nodeId ∨ starts nodeId action

section Steps

variable {state next : WorkspaceState} {action : Action} {run : EnvState} {nodeId : String}

theorem keyed_of_reachable (reachable : Reachable state) : Converge.Keyed state := by
  obtain ⟨actions, identified, rfl⟩ := reachable
  induction actions using List.reverseRecOn with
  | nil => exact fun run env_eq => by cases env_eq
  | append_singleton actions action ih =>
      rw [Execution.run_append]
      have before := ih fun other listed => identified other (List.mem_append_left _ listed)
      exact Converge.keyed_dispatch before
        (identified action (List.mem_append_right _ (List.mem_singleton_self action)))

theorem Marks.onlyNamed {pending : PendingAction} {marked : EnvState}
    (marks : Marks run nodeId pending marked) : OnlyNamed nodeId run marked where
  others := fun other different => marks.get_of_ne different.symm
  observed := by
    intro key old container before after
    by_cases same : nodeId = key
    · subst same
      cases marks with
      | place absent =>
          rw [absent] at before
          cases before
      | mark held desired found =>
          rw [found] at before
          obtain rfl := Option.some.inj before
          simp only [ExtTreeMap.getElem?_insert_self] at after
          obtain rfl := Option.some.inj after
          rfl
      | callOff => simp at after
    · rw [marks.get_of_ne same, before] at after
      rw [Option.some.inj after]
  network := by cases marks <;> rfl
  sidecarContainerName := by cases marks <;> rfl
  sidecarIp := by cases marks <;> rfl
  volumes := marks.volumes_eq

/-- An accepted request is about the record it names. -/
theorem onlyNamed_of_accepted {pending : PendingAction}
    (request : requested action = some (nodeId, pending))
    (accepted : reduce state action = .ok next) :
    next.owner = state.owner ∧
      ∃ after, next.env = some after ∧ OnlyNamed nodeId (state.env.getD {}) after := by
  rcases request_ok request accepted with ⟨absent, -, rfl⟩ | ⟨run, marked, env_eq, -, marks, rfl⟩
  · refine ⟨rfl, _, rfl, ?_⟩
    rw [absent]
    exact ⟨fun _ _ => rfl, fun key old _ before _ => by simp at before, rfl, rfl, rfl, rfl⟩
  · refine ⟨rfl, marked, rfl, ?_⟩
    rw [env_eq]
    exact marks.onlyNamed

theorem report_onTheWay (passing : onTheWay action = some nodeId) (run : EnvState) :
    (report action run).pendingCreate = run.pendingCreate ∧ ∀ other, other ≠ nodeId →
      (report action run).containers[other]? = run.containers[other]? := by
  cases action with
  | envCreateWorking named action =>
      cases passing
      refine ⟨report_pendingCreate _ run, fun other different => ?_⟩
      refine report_get_of_ne rfl (fun same => different ?_) run
      cases same
      rfl
  | envCreateProgress network sidecarContainerName sidecarIp info =>
      cases passing
      refine ⟨report_pendingCreate _ run, fun other different => ?_⟩
      refine report_get_of_ne rfl (fun same => different ?_) run
      cases same
      rfl
  | _ => cases passing

/-! ### What is wanted up -/

/-- A record of the environment is wanted up. -/
def wantedIn (run : EnvState) (nodeId : String) : Bool :=
  (run.containers[nodeId]?).any fun container => container.desired.running

theorem wanted_eq (env_eq : state.env = some run) (nodeId : String) :
    wanted state nodeId = wantedIn run nodeId := by
  rw [wanted, WorkspaceState.container?, env_eq, Option.bind_some, wantedIn]

theorem wantedIn_insert (run : EnvState) (named nodeId : String) (info : ContainerInfo) :
    wantedIn { run with containers := run.containers.insert named info } nodeId =
      if named = nodeId then info.desired.running else wantedIn run nodeId := by
  rw [wantedIn]
  split
  · rename_i same
    subst same
    simp
  · rename_i different
    simp [different, wantedIn]

theorem wantedIn_erase (run : EnvState) (named nodeId : String) :
    wantedIn { run with containers := run.containers.erase named } nodeId =
      (decide (named ≠ nodeId) && wantedIn run nodeId) := by
  by_cases same : named = nodeId
  · subst same
    simp [wantedIn]
  · simp [wantedIn, same]

theorem wantedIn_modify (run : EnvState) (named nodeId : String)
    {update : ContainerInfo → ContainerInfo}
    (same : ∀ container, (update container).desired = container.desired) :
    wantedIn { run with containers := run.containers.modify named update } nodeId =
      wantedIn run nodeId := by
  rw [wantedIn, wantedIn]
  simp only [OrderedMap.get_modify]
  split
  · cases run.containers[nodeId]? with
    | none => rfl
    | some container => simp [same]
  · rfl

theorem wantedIn_clearCreateMarks (wants : wantedIn (clearCreateMarks run) nodeId) :
    wantedIn run nodeId := by
  simp only [wantedIn, clearCreateMarks, ExtTreeMap.getElem?_map, ExtTreeMap.getElem?_filter',
    Option.any_eq_true, Option.map_eq_some_iff, Option.filter_eq_some_iff] at wants ⊢
  obtain ⟨_, ⟨container, ⟨found, -⟩, rfl⟩, running⟩ := wants
  exact ⟨container, found, running⟩

/-- A reading is written to what is observed and nowhere else. -/
theorem observeContainer_eq (container : ContainerInfo) (status : String)
    (publishedPort : Option UInt16) (ports : OrderedMap String (Option UInt16))
    (exitCode : Option Int) (unseen : Bool) (basedOn : ContainerObserved) :
    observeContainer container status publishedPort ports exitCode unseen basedOn =
      { container with
        observed := (observeContainer container status publishedPort ports exitCode unseen
          basedOn).observed } := by
  unfold observeContainer
  split
  · rfl
  · split <;> rfl

theorem observeContainer_desired (container : ContainerInfo) (status : String)
    (publishedPort : Option UInt16) (ports : OrderedMap String (Option UInt16))
    (exitCode : Option Int) (unseen : Bool) (basedOn : ContainerObserved) :
    (observeContainer container status publishedPort ports exitCode unseen basedOn).desired =
      container.desired := by
  rw [observeContainer_eq]

variable {named : String}

theorem wantedIn_settleContainerAction {of : Option PendingAction}
    {result : Except String (Option ContainerInfo)}
    (wants : wantedIn (settleContainerAction run named of result) nodeId) :
    wantedIn run nodeId ∨
      ∃ info, result = .ok (some info) ∧ named = nodeId ∧ info.desired.running = true := by
  unfold settleContainerAction at wants
  split at wants
  · exact .inl wants
  · rcases result with message | _ | info
    · dsimp only at wants
      rw [wantedIn_modify] at wants
      · exact .inl wants
      · exact fun _ => rfl
    · dsimp only at wants
      rw [wantedIn_erase, Bool.and_eq_true] at wants
      exact .inl wants.2
    · dsimp only at wants
      rw [wantedIn_insert] at wants
      split at wants
      · exact .inr ⟨info, rfl, ‹_›, wants⟩
      · exact .inl wants

/-- A record that is written anew with the same wish wants up what was wanted. -/
theorem wantedIn_insert_same {container info : ContainerInfo}
    (found : run.containers[named]? = some container)
    (same : info.desired.running = container.desired.running)
    (wants : wantedIn { run with containers := run.containers.insert named info } nodeId) :
    wantedIn run nodeId := by
  rw [wantedIn_insert] at wants
  split at wants
  · rename_i own
    subst own
    rw [same] at wants
    simpa [wantedIn, found] using wants
  · exact wants

theorem wantedIn_workOnContainer {action : Option PendingAction}
    (wants : wantedIn (workOnContainer run named action) nodeId) :
    wantedIn run nodeId ∨
      action.isSome ∧ named = nodeId ∧ run.containers[nodeId]? = none := by
  unfold workOnContainer at wants
  split at wants
  · rename_i pending container found
    exact .inl (wantedIn_insert_same found (by rfl) wants)
  · rename_i pending absent
    rw [wantedIn_insert] at wants
    split at wants
    · rename_i same
      exact .inr ⟨rfl, same, same ▸ absent⟩
    · exact .inl wants
  · rename_i container found
    split at wants
    · rw [wantedIn_erase, Bool.and_eq_true] at wants
      exact .inl wants.2
    · exact .inl (wantedIn_insert_same found (by rfl) wants)
  · exact .inl wants

/-- A node is wanted up after a report if it was before, or if the report asks for it. -/
theorem wantedIn_report (env_eq : state.env = some run) (reports : isReport action)
    (said : ¬takesDownUnrecorded state nodeId action)
    (wants : wantedIn (report action run) nodeId) :
    wantedIn run nodeId ∨ asksFor nodeId action := by
  cases action with
  | containerObserved named status publishedPort ports exitCode unseen basedOn =>
      simp only [report] at wants
      rw [wantedIn_modify run named nodeId fun container => observeContainer_desired container ..]
        at wants
      exact .inl wants
  | containerActionSettled named of result =>
      refine (wantedIn_settleContainerAction wants).imp_right ?_
      rintro ⟨info, rfl, same, running⟩
      exact ⟨same, running⟩
  | envCreateSettled result =>
      obtain ⟨created, created_eq, settles⟩ := settleEnvCreate_eq run result
      simp only [report, settles] at wants
      have inside := wantedIn_clearCreateMarks wants
      cases carries : carried result with
      | none =>
          rw [created_eq, carries] at inside
          exact .inl inside
      | some brought =>
          rw [created_eq, carries, wantedIn, Option.any_eq_true] at inside
          obtain ⟨container, found, running⟩ := inside
          exact .inr ⟨brought, container, carries, found, running⟩
  | envCreateProgress network sidecarContainerName sidecarIp info =>
      simp only [report, recordProgress] at wants
      rw [wantedIn_insert { run with network, sidecarContainerName, sidecarIp }] at wants
      split at wants
      · exact .inr ⟨‹_›, wants⟩
      · exact .inl wants
  | envCreateWorking named action =>
      refine (wantedIn_workOnContainer wants).imp_right ?_
      rintro ⟨works, same, absent⟩
      refine ⟨same, ?_⟩
      have unrecorded : state.container? nodeId = none := by
        rw [WorkspaceState.container?, env_eq, Option.bind_some, absent]
      obtain ⟨_ | _ | _ | _, rfl⟩ := Option.isSome_iff_exists.mp works
      · exact .inl rfl
      · exact .inr rfl
      · exact absurd ⟨same, unrecorded, .inl rfl⟩ said
      · exact absurd ⟨same, unrecorded, .inr rfl⟩ said
  | configDriftObserved named drift seeded =>
      simp only [report, observeConfigDrift] at wants
      rw [wantedIn_modify] at wants
      · exact .inl wants
      · exact fun _ => rfl
  | sidecarRestored => exact .inl wants
  | volumeObserved => exact .inl wants
  | _ => cases reports

/-- A stop or a delete leaves at most its own wish behind. -/
theorem wanted_setPending {pending : PendingAction} {desiredRunning : Bool}
    (accepted : setPending state named pending desiredRunning = .ok next)
    (wants : wanted next nodeId) :
    wanted state nodeId ∨ named = nodeId ∧ desiredRunning = true := by
  unfold setPending at accepted
  split at accepted
  · cases accepted
  · rename_i run container lookup
    obtain ⟨env_eq, -, found⟩ := lookupMut_ok lookup
    rw [wanted_eq env_eq]
    have marked (after : next = putContainer state run named
        { container with
          desired := { container.desired with running := desiredRunning }
          pendingAction := some pending }) :
        wantedIn run nodeId ∨ named = nodeId ∧ desiredRunning = true := by
      subst after
      rw [wanted_eq rfl, wantedIn_insert] at wants
      split at wants
      · exact .inr ⟨‹_›, wants⟩
      · exact .inl wants
    split at accepted
    · exact marked (Except.ok.inj accepted).symm
    · split at accepted
      · obtain rfl := Except.ok.inj accepted
        rw [wanted_eq rfl, wantedIn_erase, Bool.and_eq_true] at wants
        exact .inl wants.2
      · exact marked (Except.ok.inj accepted).symm
    · cases accepted

/-- A start that is accepted makes at most its own node wanted up. -/
theorem wanted_starting {marked : EnvState} (marks : Marks run named .starting marked)
    (different : named ≠ nodeId) (wants : wantedIn marked nodeId) : wantedIn run nodeId := by
  rw [wantedIn, marks.get_of_ne different] at wants
  exact wants

/-- A node is wanted up after an action if it was before, or if the action asks for it. -/
theorem wanted_dispatch (said : ¬takesDownUnrecorded state nodeId action)
    (wants : wanted (dispatch state action) nodeId) :
    wanted state nodeId ∨ asksFor nodeId action := by
  cases reports : isReport action with
  | true =>
      rw [dispatch_report reports] at wants
      cases env_eq : state.env with
      | none => simp [wanted, WorkspaceState.container?, env_eq] at wants
      | some run =>
          have reported : ({ state with env := state.env.map (report action) } :
              WorkspaceState).env = some (report action run) := by
            rw [env_eq]
            rfl
          rw [wanted_eq reported] at wants
          rw [wanted_eq env_eq]
          exact wantedIn_report env_eq reports said wants
  | false =>
      cases outcome : reduce state action with
      | error rejected =>
          rw [dispatch_of_error outcome] at wants
          exact .inl wants
      | ok next =>
          rw [dispatch_of_ok outcome] at wants
          cases action with
          | envPlanned plan =>
              obtain ⟨-, rfl⟩ := planEnv_ok outcome
              rw [wanted_eq rfl] at wants
              cases env_eq : state.env with
              | none =>
                  rw [env_eq] at wants
                  simp [wantedIn] at wants
              | some run =>
                  rw [env_eq] at wants
                  exact .inl ((wanted_eq env_eq nodeId).trans wants)
          | nodeStartRequested named =>
              by_cases same : named = nodeId
              · exact .inr same
              · rcases startNode_ok outcome with ⟨-, rfl⟩ | ⟨run, marked, env_eq, -, marks, rfl⟩
                · rw [wanted_eq rfl] at wants
                  simp [wantedIn] at wants
                · rw [wanted_eq rfl] at wants
                  exact .inl ((wanted_eq env_eq nodeId).trans (wanted_starting marks same wants))
          | nodeDebugWaitRequested named wait =>
              by_cases same : named = nodeId
              · exact .inr same
              · obtain ⟨run, marked, env_eq, marks, rfl⟩ := setDebugWait_ok outcome
                rw [wanted_eq rfl] at wants
                exact .inl ((wanted_eq env_eq nodeId).trans (wanted_starting marks same wants))
          | nodeStopRequested named =>
              rcases wanted_setPending outcome wants with before | ⟨-, impossible⟩
              · exact .inl before
              · cases impossible
          | nodeDeleteRequested named =>
              rcases wanted_setPending outcome wants with before | ⟨rfl, before⟩
              · exact .inl before
              · exact .inl before
          | ownerSet owner =>
              cases outcome
              exact .inl wants
          | _ => cases reports

end Steps

/-- In every state that actions lead to, each action changes only what it is about, and a node is
wanted up only once it is asked for. -/
theorem framed {state : WorkspaceState} {action : Action} (reachable : Reachable state)
    (identified : Converge.Identified action) :
    Framed takesDownUnrecorded asksFor state action where
  reported := by
    intro reports
    refine ⟨?_, fun absent => ?_⟩
    · cases action <;> first | rfl | cases reports
    · rw [dispatch_report reports, absent]
      rfl
  observed := by
    intro nodeId looks
    cases action with
    | containerObserved named status publishedPort ports exitCode unseen basedOn =>
        cases looks
        refine ⟨fun container => (observeContainer container status publishedPort ports exitCode
          unseen basedOn).observed, ?_⟩
        rw [dispatch_report rfl]
        refine congrArg (fun update => { state with env := state.env.map update })
          (funext fun run => ?_)
        simp only [report, ← observeContainer_eq]
    | configDriftObserved named drift seeded =>
        cases looks
        exact ⟨fun container => { container.observed with sync := drift, seeded }, rfl⟩
    | _ => cases looks
  requested := fun nodeId pending next request accepted => onlyNamed_of_accepted request accepted
  planned := by
    rintro plan next rfl accepted
    exact (planEnv_ok accepted).2
  volume := by
    rintro volumeName «exists» rfl
    exact ⟨fun run => (observeVolume run volumeName «exists»).volumes, rfl⟩
  sidecar := by
    rintro sidecarIp rfl
    rfl
  onTheWay := by
    intro nodeId passing run after env_eq after_eq
    have reports : isReport action := by
      cases action <;> first | rfl | cases passing
    rw [dispatch_report reports, env_eq] at after_eq
    obtain rfl := Option.some.inj after_eq
    exact report_onTheWay passing run
  keyed := Converge.keyed_dispatch (keyed_of_reachable reachable) identified
  wanted := fun nodeId said wants => wanted_dispatch said wants

/-! ### A stop that settles -/

/-- A container as a run recorded it. -/
def recorded (nodeId : String) : ContainerInfo where
  nodeId := nodeId
  desired := { running := true, containerName := nodeId ++ "-1" }
  observed := { status := "running" }

/-- A run that failed after its two containers were up, and a stop asked of one of them. -/
def toStopping : List Action :=
  [.envPlanned (.flow "all"), .envCreateProgress "shop" "shop-dns" (some "10.0.0.2")
    (recorded "db"), .envCreateProgress "shop" "shop-dns" (some "10.0.0.2") (recorded "web"),
    .envCreateSettled (.error { message := "mailer: no such image" }), .nodeStopRequested "web"]

def stopping : WorkspaceState := Execution.run dispatch {} toStopping

theorem reachable_stopping : Reachable stopping := by
  refine ⟨toStopping, fun action listed => ?_, rfl⟩
  simp only [toStopping, List.mem_cons, List.not_mem_nil, or_false] at listed
  rcases listed with rfl | rfl | rfl | rfl | rfl
  · trivial
  · trivial
  · trivial
  · exact fun created carries => by cases carries
  · trivial

/-- The stop's own record of the container, exited. -/
def exited : ContainerInfo :=
  { recorded "web" with
    desired := { (recorded "web").desired with running := false }
    observed := { status := "exited", exitCode := some 0 } }

theorem framed_stop :
    Reachable stopping ∧
      stopping.container? "db" = some (recorded "db") ∧
      (stopping.container? "web").map (·.pendingAction) = some (some .stopping) ∧
      (dispatch stopping (.containerActionSettled "web" (some .stopping) (.ok (some exited)))
        ).container? "web" = some exited ∧
      Framed takesDownUnrecorded asksFor stopping
        (.containerActionSettled "web" (some .stopping) (.ok (some exited))) :=
  ⟨reachable_stopping, by decide +kernel, by decide +kernel, by decide +kernel,
    framed reachable_stopping rfl⟩

/-- The record that settles a stop replaces the one there was, also the wish in it. -/
theorem wanted_by_settled_stop :
    ¬∀ (state : WorkspaceState) (action : Action), Reachable state → Converge.Identified action →
      Framed (fun _ _ _ => False) isStart state action := by
  intro holds
  have frames := holds stopping
    (.containerActionSettled "web" (some .stopping) (.ok (some (recorded "web"))))
    reachable_stopping rfl
  rcases frames.wanted "web" id (by decide +kernel) with before | ⟨-, starts⟩
  · exact absurd before (by decide +kernel)
  · rcases starts with same | same | same <;> cases same

end Reducer
end Fghj
