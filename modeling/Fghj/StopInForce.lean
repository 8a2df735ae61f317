import Fghj.ConvergeBooks

/-!
# A stop stays in force

An accepted stop or delete marks its node until its own outcome is reduced. Reports of other tasks
name the same node as a requirement or a dependent, and some of them overwrite the mark. This file
says which reports do, and that along every run without one the mark stays.
-/

namespace Fghj
namespace StopInForce

open Reducer Converge

/-- The actions a user takes a node down with. -/
def takesDown : PendingAction → Bool
  | .stopping | .removing => true
  | _ => false

/-- The request that asks for the action. -/
def request (nodeId : String) : PendingAction → Action
  | .removing => .nodeDeleteRequested nodeId
  | _ => .nodeStopRequested nodeId

/-- The action reports the outcome of the node's own stop or delete. -/
def settles (nodeId : String) (pending : PendingAction) : Action → Bool
  | .containerActionSettled named (some of) _ => named == nodeId && of == pending
  | _ => false

/-- The node's own stop or delete has its outcome. -/
def Settled (nodeId : String) (pending : PendingAction) (action : Action) : Prop :=
  settles nodeId pending action = true

/-- The action is a report that overwrites or clears the mark on behalf of something else. -/
def Intrudes (nodeId : String) (pending : PendingAction) : Action → Prop
  | .envCreateWorking named action => named = nodeId ∧ action ≠ some pending
  | .envCreateProgress _ _ _ info => info.nodeId = nodeId
  | .containerActionSettled named none _ => named = nodeId
  | .envCreateSettled _ => True
  | _ => False

/-! ## One action -/

section Mark

variable {state : WorkspaceState} {nodeId : String} {pending : PendingAction}

/-- No request takes a stop or a delete over. -/
theorem mark_of_request {action : Action} (down : takesDown pending)
    (marked : state.pendingAction? nodeId = some pending) (asks : isReport action = false) :
    (dispatch state action).pendingAction? nodeId = some pending := by
  obtain ⟨run, container, env_eq, found, mark⟩ := pendingAction?_eq_some.mp marked
  rcases dispatch_cases state action with
    ⟨-, unchanged⟩ | ⟨plan, -, -, next⟩ | ⟨first, -, absent, -⟩ |
    ⟨named, taken, held, after, -, held_eq, -, marks, next⟩ | ⟨owner, -, next⟩ | ⟨reports, -⟩
  · rw [unchanged, marked]
  · rw [next]
    exact pendingAction?_eq_some.mpr ⟨_, container, rfl, by simpa [env_eq] using found, mark⟩
  · rw [env_eq] at absent
    cases absent
  · rw [env_eq] at held_eq
    cases held_eq
    rw [next]
    refine pendingAction?_eq_some.mpr ⟨after, container, rfl, ?_, mark⟩
    by_cases same : named = nodeId
    · subst same
      have started : pending ≠ .starting := by
        rintro rfl
        cases down
      cases marks with
      | place absent =>
          rw [absent] at found
          cases found
      | mark other desired other_eq free =>
          rw [other_eq] at found
          cases found
          rcases free with idle | ⟨start, -⟩
          · rw [idle] at mark
            cases mark
          · rw [start] at mark
            cases mark
            exact (started rfl).elim
      | callOff other other_eq start =>
          rw [other_eq] at found
          cases found
          rw [start] at mark
          cases mark
          exact (started rfl).elim
    · rw [marks.get_of_ne same, found]
  · rw [next]
    exact marked
  · rw [asks] at reports
    cases reports

/-- What a report leaves of the mark. -/
theorem mark_of_report {action : Action} (marked : state.pendingAction? nodeId = some pending)
    (reports : isReport action) :
    (dispatch state action).pendingAction? nodeId = some pending ↔
      ¬Settled nodeId pending action ∧ ¬Intrudes nodeId pending action := by
  obtain ⟨run, container, env_eq, found, mark⟩ := pendingAction?_eq_some.mp marked
  have after : (dispatch state action).pendingAction? nodeId =
      ((report action run).containers[nodeId]?).bind ContainerInfo.pendingAction := by
    rw [pendingAction?_of_report reports, env_eq]
    rfl
  have elsewhere (ongoing : settlesCreate action = false)
      (different : namedNode action ≠ some nodeId) :
      (dispatch state action).pendingAction? nodeId = some pending := by
    rw [pendingAction?_of_report_ne reports ongoing different, marked]
  cases action with
  | containerActionSettled named of result =>
      by_cases same : named = nodeId
      · subst same
        rw [pendingAction?_of_settled, marked]
        cases of with
        | none => simp [Settled, settles, Intrudes]
        | some of => simp [Settled, settles, Intrudes]
      · have kept := elsewhere rfl (by simpa [namedNode] using same)
        cases of with
        | none => simp [kept, Settled, settles, Intrudes, same]
        | some of => simp [kept, Settled, settles, Intrudes, same]
  | envCreateSettled result =>
      simp [pendingAction?_of_create_settled, Intrudes]
  | envCreateProgress network sidecarContainerName sidecarIp info =>
      by_cases same : info.nodeId = nodeId
      · simp [after, report, recordProgress, same, Intrudes]
      · have kept := elsewhere rfl (by simpa [namedNode] using same)
        simp [kept, same, Settled, settles, Intrudes]
  | envCreateWorking named action =>
      by_cases same : named = nodeId
      · subst same
        rw [after]
        cases action with
        | none =>
            by_cases placeholder : isPlaceholder container
            · simp [report, workOnContainer, found, placeholder, Intrudes]
            · simp [report, workOnContainer, found, placeholder, Intrudes]
        | some action => simp [report, workOnContainer, found, Settled, settles, Intrudes]
      · have kept := elsewhere rfl (by simpa [namedNode] using same)
        simp [kept, same, Settled, settles, Intrudes]
  | containerObserved named status publishedPort ports exitCode unseen basedOn =>
      rw [pendingAction?_of_observation rfl]
      simp [marked, Settled, settles, Intrudes]
  | configDriftObserved named drift seeded =>
      rw [pendingAction?_of_observation rfl]
      simp [marked, Settled, settles, Intrudes]
  | volumeObserved volumeName present =>
      rw [pendingAction?_of_observation rfl]
      simp [marked, Settled, settles, Intrudes]
  | sidecarRestored sidecarIp =>
      rw [pendingAction?_of_observation rfl]
      simp [marked, Settled, settles, Intrudes]
  | _ => cases reports

/-- A stop or a delete stays marked over one action exactly when the action neither settles it nor
intrudes on it. -/
theorem mark_kept_iff (down : takesDown pending)
    (marked : state.pendingAction? nodeId = some pending) (action : Action) :
    (dispatch state action).pendingAction? nodeId = some pending ↔
      ¬Settled nodeId pending action ∧ ¬Intrudes nodeId pending action := by
  by_cases reports : isReport action
  · exact mark_of_report marked reports
  · have asks : isReport action = false := by simpa using reports
    have kept := mark_of_request down marked asks
    have harmless : ¬Settled nodeId pending action ∧ ¬Intrudes nodeId pending action := by
      cases action <;> simp_all [Settled, settles, Intrudes, isReport]
    simp [kept, harmless]

/-- An accepted stop or delete of a node with a container marks it. -/
theorem mark_of_accepted {container : ContainerInfo} {next : WorkspaceState}
    (down : takesDown pending) (found : state.container? nodeId = some container)
    (named : container.desired.containerName ≠ "")
    (accepted : reduce state (request nodeId pending) = .ok next) :
    next.pendingAction? nodeId = some pending := by
  have asks : requested (request nodeId pending) = some (nodeId, pending) := by
    cases pending <;> first | rfl | cases down
  rcases request_ok asks accepted with ⟨absent, -⟩ | ⟨run, marked, env_eq, -, marks, rfl⟩
  · simp [WorkspaceState.container?, absent] at found
  · have here : run.containers[nodeId]? = some container := by
      simpa [WorkspaceState.container?, env_eq] using found
    cases marks with
    | place absent =>
        rw [absent] at here
        cases here
    | mark other desired other_eq =>
        simp [WorkspaceState.pendingAction?, WorkspaceState.container?]
    | callOff other other_eq started unnamed =>
        rw [other_eq] at here
        cases here
        exact (named unnamed).elim

end Mark

/-! ## Whole runs -/

/-- The action an event gets reduced. -/
def reduced (runtime : Runtime) : Event → Option Action
  | .dispatch action => if external action then some action else none
  | .task id move => (runtime.tasks[id]?).bind fun task => (task.step move).bind Prod.snd
  | _ => none

/-- The actions reduced along a run. -/
def history (runtime : Runtime) : List Event → List Action
  | [] => []
  | event :: events => (reduced runtime event).toList ++ history (step runtime event) events

/-- An event that is no intrusion on the node's stop or delete. -/
def Spares (nodeId : String) (pending : PendingAction) (runtime : Runtime) (event : Event) : Prop :=
  ∀ action, reduced runtime event = some action → ¬Intrudes nodeId pending action

/-- The mark is there as long as the action's own outcome is not reduced. -/
def StaysInForce (nodeId : String) (pending : PendingAction) (runtime : Runtime)
    (events : List Event) : Prop :=
  (∀ action ∈ history runtime events, ¬Settled nodeId pending action) →
    (Execution.run step runtime events).state.pendingAction? nodeId = some pending

/-- If a stop in force is reported done next, the node is then not wanted up and no candidate of the
healer. -/
def StaysStopped (nodeId : String) (runtime : Runtime) (events : List Event) : Prop :=
  ∀ event info, (∀ action ∈ history runtime events, ¬Settled nodeId .stopping action) →
    reduced (Execution.run step runtime events) event =
      some (.containerActionSettled nodeId (some .stopping) (.ok (some info))) →
    ∃ container,
      (step (Execution.run step runtime events) event).state.container? nodeId = some container ∧
      container.desired.running = false ∧ container.condition ≠ .crashed ∧
      container.condition ≠ .interrupted

/-- A stop or delete is in force at every moment of a run until it is settled, and a stop that is
settled stays. -/
def InForce (nodeId : String) (pending : PendingAction) (runtime : Runtime)
    (events : List Event) : Prop :=
  ∀ front, front <+: events →
    StaysInForce nodeId pending runtime front ∧
      (pending = .stopping → StaysStopped nodeId runtime front)

/-- Until the action's own outcome, no event intrudes on it. -/
def Unintruded (nodeId : String) (pending : PendingAction) : Runtime → List Event → Prop
  | _, [] => True
  | runtime, event :: events =>
      Spares nodeId pending runtime event ∧
        ((∃ action, reduced runtime event = some action ∧ Settled nodeId pending action) ∨
          Unintruded nodeId pending (step runtime event) events)

theorem step_state (runtime : Runtime) (event : Event) :
    (step runtime event).state =
      (reduced runtime event).elim runtime.state (dispatch runtime.state) := by
  cases event with
  | dispatch action =>
      by_cases outside : external action
      · simp [step, Runtime.act, reduced, outside]
      · simp [step, Runtime.act, reduced, outside]
  | borrow =>
      simp only [step, Runtime.act, reduced, Option.elim_none]
      split <;> rfl
  | converge =>
      simp only [step, Runtime.act, reduced, Option.elim_none]
      cases runtime.seen with
      | none => rfl
      | some snapshot => exact (converged runtime snapshot).state_eq
  | task id move =>
      simp only [step, Runtime.act, reduced]
      cases runtime.tasks[id]? with
      | none => rfl
      | some task =>
          simp only [Option.bind_eq_bind, Option.bind_some]
          cases task.step move with
          | none => rfl
          | some moved => rfl

variable {runtime : Runtime} {nodeId : String} {pending : PendingAction}

/-- One event keeps the mark if it neither settles the action nor intrudes on it. -/
theorem step_mark {event : Event} (down : takesDown pending)
    (marked : runtime.state.pendingAction? nodeId = some pending)
    (spares : Spares nodeId pending runtime event)
    (unsettled : ∀ action, reduced runtime event = some action → ¬Settled nodeId pending action) :
    (step runtime event).state.pendingAction? nodeId = some pending := by
  rw [step_state]
  cases reduced_eq : reduced runtime event with
  | none => exact marked
  | some action =>
      exact (mark_kept_iff down marked action).mpr
        ⟨unsettled action reduced_eq, spares action reduced_eq⟩

/-- Along a run without an intrusion the mark stays until the action's own outcome. -/
theorem staysInForce_of_unintruded {events : List Event} (down : takesDown pending)
    (marked : runtime.state.pendingAction? nodeId = some pending)
    (unintruded : Unintruded nodeId pending runtime events) {front : List Event}
    (early : front <+: events) : StaysInForce nodeId pending runtime front := by
  induction front generalizing runtime events with
  | nil => exact fun _ => marked
  | cons event front ih =>
      intro unsettled
      obtain ⟨back, rfl⟩ := early
      obtain ⟨spares, later⟩ := unintruded
      have first : ∀ action, reduced runtime event = some action →
          ¬Settled nodeId pending action := by
        intro action reduced_eq
        exact unsettled action (by simp [history, reduced_eq])
      have continues : Unintruded nodeId pending (step runtime event) (front ++ back) := by
        rcases later with ⟨action, reduced_eq, settled⟩ | continues
        · exact (first action reduced_eq settled).elim
        · exact continues
      refine ih (step_mark down marked spares first) continues (List.prefix_append front back)
        fun action member => ?_
      exact unsettled action (by simp [history, member])

theorem not_settled_of_intrudes {action : Action} (intrudes : Intrudes nodeId pending action) :
    ¬Settled nodeId pending action := by
  cases action with
  | containerActionSettled named of result =>
      cases of with
      | none => simp [Settled, settles]
      | some of => exact intrudes.elim
  | _ => simp [Settled, settles]

/-- A mark that stays at every moment is intruded on at none. -/
theorem unintruded_of_staysInForce {events : List Event} (down : takesDown pending)
    (marked : runtime.state.pendingAction? nodeId = some pending)
    (stays : ∀ front, front <+: events → StaysInForce nodeId pending runtime front) :
    Unintruded nodeId pending runtime events := by
  induction events generalizing runtime with
  | nil => trivial
  | cons event events ih =>
      have one := stays [event] (by simp)
      have spares : Spares nodeId pending runtime event := by
        intro action reduced_eq intrudes
        have unsettled := not_settled_of_intrudes intrudes
        have kept := one (by simp [history, reduced_eq, unsettled])
        rw [Execution.run_cons, Execution.run_nil, step_state, reduced_eq] at kept
        exact ((mark_kept_iff down marked action).mp kept).2 intrudes
      refine ⟨spares, ?_⟩
      by_cases settled : ∃ action, reduced runtime event = some action ∧
          Settled nodeId pending action
      · exact .inl settled
      · right
        have first : ∀ action, reduced runtime event = some action →
            ¬Settled nodeId pending action :=
          fun action reduced_eq own => settled ⟨action, reduced_eq, own⟩
        refine ih (step_mark down marked spares first) fun front early unsettled => ?_
        refine stays (event :: front) (List.cons_prefix_cons.mpr ⟨rfl, early⟩) fun action member =>
          ?_
        rcases List.mem_append.mp member with here | later
        · exact first action (Option.mem_toList.mp here)
        · exact unsettled action later

/-- The outcome a stop's own task reports is a stopped record. -/
theorem reduced_stop {event : Event} {nodeId : String} {info : ContainerInfo}
    (books : Books runtime)

    (reduces : reduced runtime event =
      some (.containerActionSettled nodeId (some .stopping) (.ok (some info)))) :
    info.desired.running = false := by
  cases event with
  | dispatch action =>
      simp only [reduced, Option.ite_none_right_eq_some, Option.some.injEq] at reduces
      obtain ⟨outside, rfl⟩ := reduces
      cases outside
  | borrow => cases reduces
  | converge => cases reduces
  | task id move =>
      simp only [reduced, Option.bind_eq_some_iff, Prod.exists] at reduces
      obtain ⟨task, found, next, action, taken, action_eq⟩ := reduces
      change action = _ at action_eq
      subst action_eq
      have moves := moves_of_step taken
      generalize settle_eq : some (Action.containerActionSettled nodeId (some .stopping)
        (.ok (some info))) = settle at moves
      cases moves with
      | send progress queue queue_eq claimed =>
          cases progress with
          | planned start stop => cases settle_eq
          | working named pending =>
              simp only [Task.forward] at settle_eq
              split at settle_eq <;> cases settle_eq
          | done done =>
              simp only [Task.forward] at settle_eq
              split at settle_eq <;> cases settle_eq
      | deliver settle settling =>
          cases settle_eq
          have settles := (books.sound id task found).settles _ (by rw [settling]; rfl)
          cases job : task.job with
          | action entry =>
              rw [job] at settles
              obtain ⟨result, same, records⟩ := settles
              simp only [Action.containerActionSettled.injEq, Option.some.injEq] at same
              obtain ⟨-, stopping, rfl⟩ := same
              exact (records info rfl).2 stopping.symm
          | create plan =>
              rw [job] at settles
              obtain ⟨result, same, -⟩ := settles
              cases same
      | _ => cases settle_eq

/-- A stop in force whose success is reduced leaves the node stopped. -/
theorem stopped_of_settled {event : Event} {nodeId : String} {info : ContainerInfo}
    (books : Books runtime) (marked : runtime.state.pendingAction? nodeId = some .stopping)

    (reduces : reduced runtime event =
      some (.containerActionSettled nodeId (some .stopping) (.ok (some info)))) :
    ∃ container, (step runtime event).state.container? nodeId = some container ∧
      container.desired.running = false ∧ container.condition ≠ .crashed ∧
      container.condition ≠ .interrupted := by
  obtain ⟨run, before, env_eq, found, mark⟩ := pendingAction?_eq_some.mp marked
  have stopped := reduced_stop books reduces
  refine ⟨{ info with pendingAction := none }, ?_, stopped, ?_⟩
  · rw [step_state, reduces, Option.elim_some, dispatch_report rfl, env_eq]
    simp [WorkspaceState.container?, report, settleContainerAction, found, mark]
  · apply ContainerInfo.condition_of_not_running
    exact stopped

/-- The runtime after a run from a workspace without marks. -/
def reached (initial : WorkspaceState) (events : List Event) : Runtime :=
  Execution.run step { state := initial } events

theorem books_run (books : Books runtime) (events : List Event) :
    Books (Execution.run step runtime events) :=
  Execution.run_always step Books (fun _ event held => held.step event) books events

/-- In every run, a stop or delete accepted for a node with a container is in force until its own
outcome, and a stop that succeeds stays, exactly when no report for another action's sake names the
node, and no create settles, before that outcome. -/
theorem inForce_iff {initial : WorkspaceState} (idle : Idle initial) (past events : List Event)
    {nodeId : String} {pending : PendingAction} (down : takesDown pending)
    {container : ContainerInfo}
    (found : (reached initial past).state.container? nodeId = some container)
    (named : container.desired.containerName ≠ "") {next : WorkspaceState}
    (accepted : reduce (reached initial past).state (request nodeId pending) = .ok next) :
    InForce nodeId pending
        (step (reached initial past) (.dispatch (request nodeId pending))) events ↔
      Unintruded nodeId pending
        (step (reached initial past) (.dispatch (request nodeId pending))) events := by
  have outside : external (request nodeId pending) := by
    cases pending <;> rfl
  have books : Books (step (reached initial past) (.dispatch (request nodeId pending))) :=
    (books_run (books_initial idle.2.2) past).step _
  have marked : (step (reached initial past)
      (.dispatch (request nodeId pending))).state.pendingAction? nodeId = some pending := by
    have state_eq : (step (reached initial past) (.dispatch (request nodeId pending))).state =
        next := by
      rw [step_state]
      simp only [reduced, outside, if_true, Option.elim_some]
      exact dispatch_of_ok accepted
    rw [state_eq]
    exact mark_of_accepted down found named accepted
  generalize step (reached initial past) (.dispatch (request nodeId pending)) = runtime at *
  constructor
  · intro inForce
    exact unintruded_of_staysInForce down marked fun front early => (inForce front early).1
  · intro unintruded front early
    have stays := staysInForce_of_unintruded down marked unintruded early
    refine ⟨stays, ?_⟩
    rintro rfl event info unsettled reduces
    exact stopped_of_settled (books_run books front) (stays unsettled) reduces

/-- A web server that needs a database, both down. -/
def webAndDb : WorkspaceState where
  env := some
    { network := "fghj-app-default"
      containers := ((∅ : OrderedMap String ContainerInfo).insert "web.app"
        { nodeId := "web.app"
          desired := { running := true, containerName := "fghj-app-default-web-app" }
          observed := { status := "exited" } }).insert "db.app"
        { nodeId := "db.app"
          desired := { running := true, containerName := "fghj-app-default-db-app" }
          observed := { status := "exited" } } }

theorem idle_webAndDb : Idle webAndDb := by
  refine ⟨rfl, fun nodeId => ?_, fun run run_eq => ?_⟩
  · simp only [webAndDb, WorkspaceState.pendingAction?, WorkspaceState.container?,
      Option.bind_some, Std.ExtTreeMap.getElem?_insert]
    split
    · rfl
    · split <;> simp
  · cases run_eq
    decide

/-- The web server is being started; its task has its copy of the environment. -/
def startingWeb : List Event := [.dispatch (.nodeStartRequested "web.app"), .borrow, .converge]

/-- The start of the web server reports that it starts the database. -/
def startsDb : List Event :=
  [.task 0 (.report (.working "db.app" (some .starting))), .task 0 .claim, .task 0 .send]

/-- The record of the database the stop is accepted for. -/
def exitedDb : ContainerInfo where
  nodeId := "db.app"
  desired := { running := true, containerName := "fghj-app-default-db-app" }
  observed := { status := "exited" }

theorem db_found : (reached webAndDb startingWeb).state.container? "db.app" = some exitedDb := by
  decide

theorem stop_accepted :
    ∃ next, reduce (reached webAndDb startingWeb).state (request "db.app" .stopping) =
      .ok next := by
  have accepted :
      (reduce (reached webAndDb startingWeb).state (request "db.app" .stopping)).isOk := by
    decide
  cases outcome : reduce (reached webAndDb startingWeb).state (request "db.app" .stopping) with
  | ok next => exact ⟨next, rfl⟩
  | error rejected => simp [outcome, Except.isOk, Except.toBool] at accepted

/-- The start of a node that needs the database takes the mark of the database's stop. -/
theorem start_overwrites_stop :
    ¬∀ (initial : WorkspaceState), Idle initial → ∀ (past events : List Event) (nodeId : String)
      (pending : PendingAction), takesDown pending → ∀ container : ContainerInfo,
      (reached initial past).state.container? nodeId = some container →
      container.desired.containerName ≠ "" → ∀ next,
      reduce (reached initial past).state (request nodeId pending) = .ok next →
      InForce nodeId pending
        (step (reached initial past) (.dispatch (request nodeId pending))) events := by
  intro inForce
  obtain ⟨next, accepted⟩ := stop_accepted
  have stays := (inForce webAndDb idle_webAndDb startingWeb startsDb "db.app" .stopping rfl
    exitedDb db_found (by decide) next accepted startsDb List.prefix_rfl).1
  have unsettled : ((history (step (reached webAndDb startingWeb)
      (.dispatch (request "db.app" .stopping))) startsDb).all fun action =>
      !settles "db.app" .stopping action) = true := by decide
  have marked := stays fun action member => by
    simpa [Settled] using List.all_eq_true.mp unsettled action member
  revert marked
  decide

/-- The database's own stop, from the effect's read to the report of its outcome. -/
def stopsDb : List Event :=
  [.borrow, .converge,
    .task 1 (.finish (.action
      (.ok (some (Orchestrator.stopContainer exitedDb (.ok (some { status := "exited" }))))) [])),
    .task 1 .lift, .task 1 .settle]

/-- A stop that nothing intrudes on is in force until its outcome arrives. -/
theorem inForce_stopsDb :
    InForce "db.app" .stopping
      (step (reached webAndDb startingWeb) (.dispatch (request "db.app" .stopping))) stopsDb := by
  obtain ⟨next, accepted⟩ := stop_accepted
  refine (inForce_iff idle_webAndDb startingWeb stopsDb rfl db_found (by decide) accepted).mpr ?_
  have quiet (runtime : Runtime) (event : Event) (silent : reduced runtime event = none) :
      Spares "db.app" .stopping runtime event := by
    intro action reduces
    rw [silent] at reduces
    cases reduces
  have quiet_of_isNone (runtime : Runtime) (event : Event)
      (silent : (reduced runtime event).isNone = true) :
      Spares "db.app" .stopping runtime event :=
    quiet runtime event (Option.isNone_iff_eq_none.mp silent)
  refine ⟨quiet _ _ rfl, .inr ⟨quiet _ _ rfl, .inr ⟨quiet_of_isNone _ _ ?_, .inr
    ⟨quiet_of_isNone _ _ ?_, .inr ⟨quiet_of_isNone _ _ ?_, .inr trivial⟩⟩⟩⟩⟩
  · decide
  · decide
  · decide

end StopInForce
end Fghj
