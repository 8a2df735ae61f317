import Fghj.ConvergeBooks
import Mathlib.Data.List.Induction

/-!
# The healer

Every second each environment is read, its sidecar is brought back if it is gone, and one container
that should be up and is down is started again. What to start is picked from the reading, and the
start is an ordinary request: by the time it is reduced the workspace may have changed.
-/

namespace Fghj

open Std Reducer

/-! ## Picking -/

namespace Healer

/-- Five seconds, in nanoseconds. -/
def firstDelay : Nat := 5000000000

def maxDelay : Nat := 300000000000

/-- Up this long after a restart, a node's backoff starts over. -/
def stable : Nat := 60000000000

/-- A node still down after this many restarts is left alone. -/
def maxAttempts : Nat := 8

structure Tries where
  count : Nat
  last : Nat
  givenUp : Bool

def Tries.due (tries : Tries) (now : Nat) : Bool :=
  decide (min (firstDelay * (1 <<< min (tries.count - 1) 16)) maxDelay ≤ now - tries.last)

end Healer

/-- The tries by workspace and node. -/
structure Healer where
  tries : OrderedMap String (OrderedMap String Healer.Tries) := ∅

inductive Heal where
  | restart (nodeId : String) (condition : NodeCondition) (attempt : Nat)
  | giveUp (nodeId : String)

namespace Healer

/-- Asked to be up, and down. -/
def isDown (condition : NodeCondition) : Bool := condition == .crashed || condition == .interrupted

/-- Instants in order, none before all of them. -/
def before : Option Nat → Option Nat → Bool
  | none, some _ => true
  | some first, some second => decide (first < second)
  | _, none => false

/-- The node tried longest ago, the first of them in the order they are listed. -/
def longestAgo (tries : OrderedMap String Tries) :
    List (String × NodeCondition) → Option (String × NodeCondition)
  | [] => none
  | first :: rest =>
      some <| rest.foldl (fun best next =>
        if before ((tries[next.1]?).map Tries.last) ((tries[best.1]?).map Tries.last) then next
        else best) first

/-- The tries that go on: of nodes that are still wanted up and have not been up for long. -/
def retained (tries : OrderedMap String Tries) (env : EnvState) (now : Nat) :
    OrderedMap String Tries :=
  tries.filter fun nodeId held =>
    (env.containers[nodeId]?).any fun container =>
      container.desired.running &&
        !(container.condition == .running && decide (stable ≤ now - held.last))

/-- The nodes that are down and due. -/
def candidates (tries : OrderedMap String Tries) (env : EnvState) (now : Nat) :
    List (String × NodeCondition) :=
  ((OrderedMap.listed env.containers).map fun container =>
      (container.nodeId, container.condition)).filter fun candidate =>
    isDown candidate.2 && (tries[candidate.1]?).all fun held => !held.givenUp && held.due now

/-- What to do for this workspace now, if nothing is in flight. -/
def pick (healer : Healer) (workspace : String) (env : EnvState) (now : Nat) :
    Option Heal × Healer :=
  if env.pendingCreate.isSome ||
      (OrderedMap.listed env.containers).any (fun container => container.pendingAction.isSome) then
    (none, healer)
  else
    let tries := retained ((healer.tries[workspace]?).getD ∅) env now
    match longestAgo tries (candidates tries env now) with
    | none => (none, { tries := healer.tries.insert workspace tries })
    | some (nodeId, condition) =>
        let held := (tries[nodeId]?).getD { count := 0, last := now, givenUp := false }
        if maxAttempts ≤ held.count then
          (some (.giveUp nodeId),
            { tries := healer.tries.insert workspace
                (tries.insert nodeId { held with givenUp := true }) })
        else
          (some (.restart nodeId condition (held.count + 1)),
            { tries := healer.tries.insert workspace
                (tries.insert nodeId { held with count := held.count + 1, last := now }) })

theorem mem_of_longestAgo {tries : OrderedMap String Tries}
    {candidates : List (String × NodeCondition)} {found : String × NodeCondition}
    (picked : longestAgo tries candidates = some found) : found ∈ candidates := by
  cases candidates with
  | nil => cases picked
  | cons first rest =>
      obtain rfl := Option.some.inj picked
      clear picked
      induction rest using List.reverseRecOn with
      | nil => exact List.mem_singleton_self first
      | append_singleton rest next ih =>
          rw [List.foldl_append, List.foldl_cons, List.foldl_nil]
          split
          · simp
          · rcases List.mem_cons.mp ih with same | inside
            · rw [same]
              exact List.mem_cons_self
            · exact List.mem_cons_of_mem _ (List.mem_append_left _ inside)

/-- What is picked was idle, down and wanted up, and nothing was in flight. -/
theorem of_pick {healer next : Healer} {workspace nodeId : String} {env : EnvState} {now : Nat}
    {condition : NodeCondition} {attempt : Nat}
    (picked : healer.pick workspace env now = (some (.restart nodeId condition attempt), next)) :
    env.pendingCreate = none ∧
      (∀ (key : String) (container : ContainerInfo), env.containers[key]? = some container →
        container.pendingAction = none) ∧
      ∃ (key : String) (container : ContainerInfo), env.containers[key]? = some container ∧
        container.nodeId = nodeId ∧ isDown container.condition := by
  rw [pick] at picked
  split at picked
  · cases picked
  · rename_i idle
    simp only [Bool.or_eq_true, Option.isSome_iff_ne_none, not_or, not_not, List.any_eq_true,
      not_exists, not_and, OrderedMap.mem_listed] at idle
    refine ⟨idle.1, fun key container found => idle.2 container ⟨key, found⟩, ?_⟩
    dsimp only at picked
    split at picked
    · cases picked
    · rename_i found chosen
      have member := mem_of_longestAgo chosen
      rw [candidates, List.mem_filter, List.mem_map] at member
      obtain ⟨⟨container, listed, same⟩, down⟩ := member
      obtain ⟨key, lookup⟩ := (OrderedMap.mem_listed env.containers container).mp listed
      rw [Bool.and_eq_true] at down
      split at picked
      · cases picked
      · cases picked
        cases same
        exact ⟨key, container, lookup, rfl, down.1⟩

/-! ## Ticks -/

/-- A tick between its reading and its request. -/
structure Tick where
  env : EnvState
  chosen : Option String := none

/-- One workspace, and what the reconciler has in hand for it. -/
structure World where
  state : WorkspaceState := {}
  healer : Healer := {}
  tick : Option Tick := none

inductive Event where
  /-- Anything else is reduced. -/
  | act (action : Action)
  /-- A tick reads the environment. -/
  | read
  /-- Its sidecar was started again. -/
  | restored (sidecarIp : String)
  | pick (workspace : String) (now : Nat)
  /-- The request is reduced. -/
  | start

def step (world : World) : Event → World
  | .act action => { world with state := dispatch world.state action }
  | .read => { world with tick := world.state.env.map fun env => { env } }
  | .restored sidecarIp =>
      match world.tick with
      | some { env, chosen := none } =>
          if env.pendingCreate.isNone then
            { world with state := dispatch world.state (.sidecarRestored sidecarIp) }
          else world
      | _ => world
  | .pick workspace now =>
      match world.tick with
      | some { env, chosen := none } =>
          let (heal, healer) := world.healer.pick workspace env now
          { world with
            healer
            tick :=
              match heal with
              | some (.restart nodeId _ _) => some { env, chosen := some nodeId }
              | _ => none }
      | _ => world
  | .start =>
      match world.tick with
      | some { chosen := some nodeId, .. } =>
          { world with
            state := dispatch world.state (.nodeStartRequested nodeId)
            tick := none }
      | _ => world

/-- The node is wanted up and its container is down. -/
def Due (state : WorkspaceState) (nodeId : String) : Prop :=
  ∃ container, state.container? nodeId = some container ∧ container.desired.running = true ∧
    isDown container.condition

/-- Something is in flight that a start of the node has to wait for. -/
def Busy (state : WorkspaceState) (nodeId : String) : Prop :=
  state.pendingCreate? ≠ none ∨ state.pendingAction? nodeId ≠ none

/-- If the request is reduced now, it is refused or its node is wanted up and down. -/
def World.StartsDown (world : World) : Prop :=
  ∀ tick ∈ world.tick, ∀ nodeId ∈ tick.chosen, ∀ next,
    reduce world.state (.nodeStartRequested nodeId) = .ok next → Due world.state nodeId

/-- The tick has chosen the node, or may still choose it. -/
def Tick.MayStart (tick : Tick) (nodeId : String) : Prop :=
  tick.chosen = some nodeId ∨ tick.chosen = none ∧ Due { env := some tick.env } nodeId

/-- The record that a report brings the node, told by the one there was. -/
def brings (nodeId : String) (run : EnvState) (action : Action) : Option ContainerInfo :=
  let held := run.containers[nodeId]?
  let clear (container : ContainerInfo) := { container with pendingAction := none }
  match action with
  | .containerObserved named status publishedPort ports exitCode unseen basedOn =>
      if named = nodeId then
        held.map fun container =>
          observeContainer container status publishedPort ports exitCode unseen basedOn
      else held
  | .containerActionSettled named of result =>
      if named = nodeId ∧ (of = none ∨ of = held.bind ContainerInfo.pendingAction) then
        match result with
        | .ok info => info.map clear
        | .error _ => held.map clear
      else held
  | .envCreateSettled result =>
      (((carried result).getD run).containers[nodeId]?.filter (!isPlaceholder ·)).map clear
  | .envCreateProgress _ _ _ info => if info.nodeId = nodeId then some (clear info) else held
  | .envCreateWorking named mark =>
      if named = nodeId then
        match mark, held with
        | some mark, some container => some { container with pendingAction := some mark }
        | some _, none => some (startingPlaceholder nodeId)
        | none, held => (held.filter (!isPlaceholder ·)).map clear
      else held
  | .configDriftObserved named drift seeded =>
      if named = nodeId then
        held.map fun container =>
          { container with observed := { container.observed with sync := drift, seeded } }
      else held
  | _ => held

/-- A report about a node that the tick may start leaves a create in flight, or brings a record that
is in flight or wanted up and down, and no start of it is called off that has no container. -/
def World.Spares (world : World) : Event → Prop
  | .act action =>
      ∀ tick ∈ world.tick, ∀ nodeId, tick.MayStart nodeId →
        if isReport action then
          ∀ run ∈ world.state.env,
            (run.pendingCreate ≠ none ∧ ∀ result, action ≠ .envCreateSettled result) ∨
            ∃ container ∈ brings nodeId run action, container.pendingAction ≠ none ∨
              container.desired.running = true ∧ isDown container.condition
        else
          ∀ pending, requested action = some (nodeId, pending) → pending ≠ .starting →
            ∀ container ∈ world.state.container? nodeId, container.desired.containerName ≠ ""
  | _ => True

section Steps

variable {state next : WorkspaceState} {nodeId : String} {action : Action} {world : World}

theorem due_congr {other : WorkspaceState}
    (same : other.container? nodeId = state.container? nodeId) :
    Due other nodeId ↔ Due state nodeId := by
  rw [Due, Due, same]

theorem busy_congr {other : WorkspaceState}
    (same : other.container? nodeId = state.container? nodeId)
    (create : other.pendingCreate? = state.pendingCreate?) :
    Busy other nodeId ↔ Busy state nodeId := by
  rw [Busy, Busy, create, WorkspaceState.pendingAction?, same, WorkspaceState.pendingAction?]

/-- A start is only accepted of a node that nothing has to wait for. -/
theorem not_busy_of_accepted (accepted : reduce state (.nodeStartRequested nodeId) = .ok next) :
    ¬Busy state nodeId := by
  rw [Busy, not_or, not_not, not_not]
  rcases startNode_ok accepted with ⟨absent, -⟩ | ⟨run, marked, env_eq, idle, marks, -⟩
  · simp [WorkspaceState.pendingCreate?, WorkspaceState.pendingAction?, WorkspaceState.container?,
      absent]
  · simp only [WorkspaceState.pendingCreate?, WorkspaceState.pendingAction?,
      WorkspaceState.container?, env_eq, Option.bind_some]
    refine ⟨idle, ?_⟩
    cases marks with
    | place absent => rw [absent, Option.bind_none]
    | mark container desired found free =>
        rw [found, Option.bind_some]
        exact free.resolve_right fun taken => taken.2 rfl
    | callOff container found started unnamed taken => exact absurd rfl taken

/-- A request leaves a node down and wanted up, or in flight, unless it calls off a start without a
container. -/
theorem kept_of_request (request : isReport action = false)
    (before : Due state nodeId ∨ Busy state nodeId)
    (named : ∀ pending, requested action = some (nodeId, pending) → pending ≠ .starting →
      ∀ container ∈ state.container? nodeId, container.desired.containerName ≠ "") :
    Due (dispatch state action) nodeId ∨ Busy (dispatch state action) nodeId := by
  rcases dispatch_cases state action with
    ⟨-, unchanged⟩ | ⟨plan, -, -, after⟩ | ⟨first, -, -, after⟩ |
    ⟨other, pending, run, marked, asked, env_eq, -, marks, after⟩ | ⟨owner, -, after⟩ |
    ⟨reports, -⟩
  · rw [unchanged]
    exact before
  · rw [after]
    exact .inr (.inl (by simp [WorkspaceState.pendingCreate?]))
  · rw [after]
    exact .inr (.inl (by simp [WorkspaceState.pendingCreate?]))
  · rw [after]
    by_cases same : other = nodeId
    · subst same
      cases marks with
      | place absent start =>
          refine .inr (.inr ?_)
          simp [WorkspaceState.pendingAction?, WorkspaceState.container?, startingPlaceholder]
      | mark container desired found free =>
          refine .inr (.inr ?_)
          simp [WorkspaceState.pendingAction?, WorkspaceState.container?]
      | callOff container found started unnamed taken =>
          have held : state.container? other = some container := by
            rw [WorkspaceState.container?, env_eq, Option.bind_some, found]
          exact absurd unnamed (named pending asked taken container held)
    · have container : ({ state with env := some marked } : WorkspaceState).container? nodeId =
          state.container? nodeId := by
        simp only [WorkspaceState.container?, env_eq, Option.bind_some]
        exact marks.get_of_ne same
      have create : ({ state with env := some marked } : WorkspaceState).pendingCreate? =
          state.pendingCreate? := by
        simp only [WorkspaceState.pendingCreate?, env_eq, Option.bind_some]
        exact marks.pendingCreate_eq
      rw [due_congr container, busy_congr container create]
      exact before
  · rw [after]
    exact before
  · rw [request] at reports
    cases reports

theorem report_brings (nodeId : String) (run : EnvState) (action : Action) :
    (report action run).containers[nodeId]? = brings nodeId run action := by
  cases action with
  | containerObserved named status publishedPort ports exitCode unseen basedOn =>
      rcases eq_or_ne named nodeId with rfl | other <;> simp [report, brings, *]
  | configDriftObserved named drift seeded =>
      rcases eq_or_ne named nodeId with rfl | other <;>
        simp [report, brings, observeConfigDrift, *]
  | envCreateProgress network sidecarContainerName sidecarIp info =>
      simp only [report, brings, recordProgress, ExtTreeMap.getElem?_insert,
        Std.compare_eq_iff_eq]
  | envCreateSettled result =>
      obtain ⟨created, rfl, settles⟩ := settleEnvCreate_eq run result
      simp only [report, brings, settles, clearCreateMarks, ExtTreeMap.getElem?_map,
        ExtTreeMap.getElem?_filter']
  | containerActionSettled named of result =>
      rcases eq_or_ne named nodeId with rfl | other
      · have taken : (of.isSome && of != run.containers[named]?.bind ContainerInfo.pendingAction) =
            true ↔ ¬(of = none ∨ of = run.containers[named]?.bind ContainerInfo.pendingAction) := by
          cases of <;> simp
        simp only [report, brings, settleContainerAction, taken, true_and, ite_not]
        split
        · rcases result with message | _ | info <;> simp
        · rfl
      · simp only [report, brings, settleContainerAction, other, false_and, if_false]
        split
        · rfl
        · rcases result with message | _ | info <;> simp [other]
  | envCreateWorking named mark =>
      rcases eq_or_ne named nodeId with rfl | other
      · rcases mark with _ | mark <;> cases held : run.containers[named]? with
        | none => simp [report, brings, workOnContainer, held]
        | some container =>
            by_cases bare : isPlaceholder container <;>
              simp [report, brings, workOnContainer, held, bare, Option.filter_some]
      · simp only [report, brings, workOnContainer, other, if_false]
        split
        · simp [other]
        · simp [other]
        · split <;> simp [other]
        · rfl
  | _ => rfl

/-- A report leaves a node down and wanted up, or in flight, if it brings that. -/
theorem kept_of_report (reports : isReport action) (before : Due state nodeId ∨ Busy state nodeId)
    (spared : ∀ run ∈ state.env,
      (run.pendingCreate ≠ none ∧ ∀ result, action ≠ .envCreateSettled result) ∨
      ∃ container ∈ brings nodeId run action, container.pendingAction ≠ none ∨
        container.desired.running = true ∧ isDown container.condition) :
    Due (dispatch state action) nodeId ∨ Busy (dispatch state action) nodeId := by
  rw [dispatch_report reports]
  cases env_eq : state.env with
  | none =>
      simp [Due, Busy, WorkspaceState.container?, WorkspaceState.pendingCreate?,
        WorkspaceState.pendingAction?, env_eq] at before
  | some run =>
      rcases spared run env_eq with ⟨creating, other⟩ | ⟨container, brought, waits⟩
      · refine .inr (.inl ?_)
        simp only [WorkspaceState.pendingCreate?, Option.map_some, Option.bind_some]
        rw [report_pendingCreate]
        split
        · exact absurd rfl (other _)
        · exact creating
      · rw [← report_brings] at brought
        rcases waits with flight | ⟨wanted, down⟩
        · refine .inr (.inr ?_)
          rw [WorkspaceState.pendingAction?, WorkspaceState.container?]
          simpa only [Option.map_some, Option.bind_some, Option.mem_def.mp brought] using flight
        · exact .inl ⟨container, brought, wanted, down⟩

/-- The sidecar's address is no container's concern. -/
theorem kept_of_restored (before : Due state nodeId ∨ Busy state nodeId) (sidecarIp : String) :
    Due (dispatch state (.sidecarRestored sidecarIp)) nodeId ∨
      Busy (dispatch state (.sidecarRestored sidecarIp)) nodeId := by
  have container : (dispatch state (.sidecarRestored sidecarIp)).container? nodeId =
      state.container? nodeId := by
    simp only [dispatch, reduce, WorkspaceState.container?]
    cases state.env <;> rfl
  have create : (dispatch state (.sidecarRestored sidecarIp)).pendingCreate? =
      state.pendingCreate? := by
    simp only [dispatch, reduce, WorkspaceState.pendingCreate?]
    cases state.env <;> rfl
  rw [due_congr container, busy_congr container create]
  exact before

/-- What the tick may start is down and wanted up, or in flight. -/
structure Invariant (world : World) : Prop where
  keyed : Converge.Keyed world.state
  reading : ∀ tick ∈ world.tick, Converge.keyed tick.env
  due : ∀ tick ∈ world.tick, ∀ nodeId, tick.MayStart nodeId →
    Due world.state nodeId ∨ Busy world.state nodeId

theorem Invariant.startsDown (invariant : Invariant world) : world.StartsDown := by
  intro tick held nodeId chosen next accepted
  exact (invariant.due tick held nodeId (.inl chosen)).resolve_right
    (not_busy_of_accepted accepted)

theorem Invariant.read (invariant : Invariant world) : Invariant (step world .read) where
  keyed := invariant.keyed
  reading := by
    intro tick held
    obtain ⟨env, env_eq, rfl⟩ := Option.map_eq_some_iff.mp held
    exact invariant.keyed env env_eq
  due := by
    intro tick held nodeId may
    obtain ⟨env, env_eq, rfl⟩ := Option.map_eq_some_iff.mp held
    rcases may with chosen | ⟨-, due⟩
    · cases chosen
    · refine .inl ((due_congr ?_).mp due)
      rw [WorkspaceState.container?, WorkspaceState.container?]
      exact congrArg (Option.bind · _) env_eq.symm

/-- The node that is picked is one the tick could choose. -/
theorem Invariant.pick (invariant : Invariant world) (workspace : String) (now : Nat) :
    Invariant (step world (.pick workspace now)) := by
  simp only [step]
  split
  · rename_i env held
    refine ⟨invariant.keyed, ?_, ?_⟩
    · intro tick next_held
      split at next_held
      · obtain rfl := Option.some.inj next_held
        have reading := invariant.reading _ held
        exact reading
      · cases next_held
    · intro tick next_held other may
      split at next_held
      · rename_i nodeId condition attempt picked
        obtain rfl := Option.some.inj next_held
        rcases may with chosen | ⟨unchosen, -⟩
        · obtain rfl := Option.some.inj chosen
          have answer : world.healer.pick workspace env now =
              (some (.restart nodeId condition attempt), (world.healer.pick workspace env now).2) :=
            Prod.ext picked rfl
          obtain ⟨-, -, key, container, found, rfl, down⟩ := of_pick answer
          have ids := (Converge.keyed_iff env).mp (invariant.reading _ held) key container found
          refine invariant.due _ held _ (.inr ⟨rfl, container, ?_, ?_, down⟩)
          · rw [ids]
            exact found
          · by_contra unwanted
            obtain ⟨crashed, interrupted⟩ :=
              ContainerInfo.condition_of_not_running (Bool.eq_false_iff.mpr unwanted)
            simp [isDown, crashed, interrupted] at down
        · cases unchosen
      · cases next_held
  · exact invariant

theorem Invariant.act (invariant : Invariant world) (identified : Converge.Identified action)
    (spared : world.Spares (.act action)) : Invariant (step world (.act action)) where
  keyed := Converge.keyed_dispatch invariant.keyed identified
  reading := invariant.reading
  due := by
    intro tick held nodeId may
    have here := spared tick held nodeId may
    split at here
    · rename_i reports
      exact kept_of_report reports (invariant.due tick held nodeId may) here
    · rename_i request
      exact kept_of_request (Bool.eq_false_iff.mpr request)
        (invariant.due tick held nodeId may) here

theorem Invariant.restored (invariant : Invariant world) (sidecarIp : String) :
    Invariant (step world (.restored sidecarIp)) := by
  simp only [step]
  split
  · rename_i env held
    split
    · refine ⟨Converge.keyed_dispatch invariant.keyed trivial, invariant.reading, ?_⟩
      exact fun tick held nodeId may =>
        kept_of_restored (invariant.due tick held nodeId may) sidecarIp
    · exact invariant
  · exact invariant

theorem Invariant.start (invariant : Invariant world) : Invariant (step world .start) := by
  simp only [step]
  split
  · refine ⟨Converge.keyed_dispatch invariant.keyed trivial, ?_, ?_⟩
    · intro tick held
      cases held
    · intro tick held
      cases held
  · exact invariant

end Steps

/-- What is reported of a node is kept under the node's id. -/
def Event.Identified : Event → Prop
  | .act action => Converge.Identified action
  | _ => True

theorem Invariant.step {world : World} {event : Event} (invariant : Invariant world)
    (identified : event.Identified) (spared : world.Spares event) :
    Invariant (step world event) := by
  cases event with
  | act action => exact invariant.act identified spared
  | read => exact invariant.read
  | restored sidecarIp => exact invariant.restored sidecarIp
  | pick workspace now => exact invariant.pick workspace now
  | start => exact invariant.start

/-- A tick whose node no report takes out from under it starts only what is wanted up and down. -/
theorem starts_down (state : WorkspaceState) (ids : Converge.Keyed state) (events : List Event)
    (spared : Execution.Along step (fun world event => event.Identified ∧ world.Spares event)
      { state } events) : (Execution.run step { state } events).StartsDown := by
  refine Invariant.startsDown (Execution.run_invariant step _ Invariant
    (fun _ _ invariant fits => invariant.step fits.1 fits.2) ?_ spared)
  exact ⟨ids, (fun _ held => by cases held), fun _ held => by cases held⟩

/-- A crashed service and a database that runs. -/
def crashed : EnvState where
  network := "net"
  containers := (∅ : OrderedMap String ContainerInfo)
    |>.insert "db.app"
      { nodeId := "db.app"
        desired := { running := true, containerName := "db" }
        observed := { status := "running" } }
    |>.insert "web.app"
      { nodeId := "web.app"
        desired := { running := true, containerName := "web" }
        observed := { status := "exited" } }

theorem keyed_crashed : Converge.Keyed { env := some crashed } := by
  intro run env_eq
  cases env_eq
  decide

/-- What is recorded of the database after its stop. -/
def atRest : ContainerInfo where
  nodeId := "db.app"
  desired := { running := false, containerName := "db" }
  observed := { status := "exited" }

/-- The database is stopped, and has stopped, during the tick that starts the service. -/
def besideStop : List Event :=
  [.read, .pick "shop" 0, .act (.nodeStopRequested "db.app"),
    .act (.containerActionSettled "db.app" (some .stopping) (.ok (some atRest)))]

theorem mayStart_of_chosen {world : World} {tick : Tick} {nodeId chosen : String}
    (held : tick ∈ world.tick) (picked : world.tick.bind Tick.chosen = some chosen)
    (may : tick.MayStart nodeId) : chosen = nodeId := by
  rw [Option.mem_def.mp held, Option.bind_some] at picked
  rcases may with own | ⟨unchosen, -⟩
  · exact Option.some.inj (picked.symm.trans own)
  · cases unchosen.symm.trans picked

theorem starts_down_beside_stop :
    let world := Execution.run step { state := { env := some crashed } } besideStop
    Converge.Keyed { env := some crashed } ∧
      Execution.Along step (fun world event => event.Identified ∧ world.Spares event)
        { state := { env := some crashed } } besideStop ∧
      world.tick.bind Tick.chosen = some "web.app" ∧ world.state.container? "db.app" = some atRest ∧
      world.StartsDown := by
  intro world
  have spared : Execution.Along step (fun world event => event.Identified ∧ world.Spares event)
      { state := { env := some crashed } } besideStop := by
    refine ⟨⟨trivial, trivial⟩, ⟨trivial, trivial⟩, ⟨trivial, ?_⟩, ⟨rfl, ?_⟩, trivial⟩
    · intro tick held nodeId may
      obtain rfl := @mayStart_of_chosen _ tick nodeId "web.app" held (by decide +kernel) may
      rw [if_neg (by decide)]
      intro pending asked
      simp [requested] at asked
    · intro tick held nodeId may
      obtain rfl := @mayStart_of_chosen _ tick nodeId "web.app" held (by decide +kernel) may
      rw [if_pos (by decide)]
      refine fun run env_eq => .inr ?_
      revert run env_eq
      decide +kernel
  exact ⟨keyed_crashed, spared, by decide +kernel, by decide +kernel,
    starts_down _ keyed_crashed _ spared⟩

def stoppedInBetween : List Event :=
  [.act (.envPlanned (.flow "all")), .act (.envCreateSettled (.ok crashed)), .read, .pick "shop" 0,
    .act (.nodeStopRequested "web.app"),
    .act (.containerActionSettled "web.app" (some .stopping) (.ok (some
      { nodeId := "web.app"
        desired := { running := false, containerName := "web" }
        observed := { status := "exited" } })))]

/-- The service is stopped, and has stopped, between the tick's reading and its request: the request
is accepted although the service is not wanted up. -/
theorem starts_stopped :
    ¬∀ (state : WorkspaceState), Converge.Keyed state → ∀ events : List Event,
      (∀ event ∈ events, event.Identified) → (Execution.run step { state } events).StartsDown := by
  intro holds
  have starts := holds {} (fun _ env_eq => by cases env_eq) stoppedInBetween (by
    intro event listed
    simp only [stoppedInBetween, List.mem_cons, List.not_mem_nil, or_false] at listed
    rcases listed with rfl | rfl | rfl | rfl | rfl | rfl
    · trivial
    · intro created carries
      cases carries
      exact keyed_crashed crashed rfl
    all_goals trivial)
  obtain ⟨tick, held, chosen⟩ : ∃ tick ∈ (Execution.run step {} stoppedInBetween).tick,
      tick.chosen = some "web.app" := by
    have picked : ((Execution.run step {} stoppedInBetween).tick.bind Tick.chosen) =
        some "web.app" := by decide +kernel
    exact Option.bind_eq_some_iff.mp picked
  have accepted : (reduce (Execution.run step {} stoppedInBetween).state
      (.nodeStartRequested "web.app")).toOption.isSome := by decide +kernel
  cases reduced : reduce (Execution.run step {} stoppedInBetween).state
      (.nodeStartRequested "web.app") with
  | error rejected =>
      rw [reduced] at accepted
      cases accepted
  | ok next =>
      obtain ⟨container, found, wanted, -⟩ := starts tick held "web.app" chosen next reduced
      have unwanted : ((Execution.run step {} stoppedInBetween).state.container? "web.app").map
          (fun container => container.desired.running) = some false := by decide +kernel
      rw [found, Option.map_some, wanted] at unwanted
      cases unwanted

end Healer
end Fghj
