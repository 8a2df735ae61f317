import Fghj.BringUpSpec
import Fghj.Readings
import Mathlib.Logic.Function.Basic

/-!
# Tasks that are done

A task counts as done by the exit code of its record alone. This file follows the exit code of every
record back to the container state it was last read off, through observations, runs, stops, the
store and restarts of the daemon. The code of a record is zero only after a clean exit as long as
nothing reads a zero off a container that has not exited; the reducer and the runs keep it that way,
but both ways of reading Docker can break it.
-/

namespace Fghj
namespace TaskDone

open Std Reducer Orchestrator Converge

/-! ## The daemon -/

/-- The container state the exit code of each record was last read off. -/
abbrev Origin := String → Option DockerState

/-- A run, or another piece of work, with its copy of the environment. -/
structure Flight where
  restart : Option String
  up : BroughtUp
  origin : Origin

/-- The daemon: the workspace, the work in flight and the store, and where exit codes come from. -/
structure Daemon where
  state : WorkspaceState := {}
  origin : Origin := fun _ => none
  flights : List Flight := []
  store : Persistence.Store := {}
  storeOrigin : Origin := fun _ => none

/-- One thing that happens to the daemon. Work in flight is named by its place in the list. -/
inductive Event where
  /-- A request, or a report that brings no record. -/
  | acted (action : Action)
  /-- The report on one node of an observation made from a copy of the environment. -/
  | observed (env : EnvState) (listing : Except String (List Docker.Sighting)) (nodeId : String)
  /-- A run starts from a copy of the environment and stops what it leaves out. -/
  | began (graph : Graph) (world : World) (restart : Option String) (spec : EnvSpec)
  /-- The run works on one node; the polls are what Docker answers while it waits for a task. -/
  | turned (flight : Nat) (graph : Graph) (world : World) (polls : List DockerAnswer)
      (nodeId : String)
  /-- The run reports a node. -/
  | progressed (flight : Nat) (nodeId : String)
  /-- A start settles with the record the work has of the node. -/
  | settled (flight : Nat) (nodeId : String) (of : Option PendingAction)
  /-- A stop settles with the record it copied. -/
  | stopped (flight : Nat) (nodeId : String) (of : Option PendingAction) (answer : DockerAnswer)
  /-- A create settles, failed or not, with the environment the run has. -/
  | finished (flight : Nat) (failure : Option String)
  | persisted
  /-- The daemon is restarted: what is in flight is lost, and the store is read again. -/
  | rebooted (answers : String → DockerAnswer)

/-- The action carries no reading and no record. -/
def plain : Action → Bool
  | .containerObserved .. => false
  | .containerActionSettled _ _ (.ok (some _)) => false
  | .envCreateProgress .. => false
  | .envCreateSettled result => (carried result).isNone
  | _ => true

/-- The reducer writes a report down that was made from this reading. -/
def accepts (state : WorkspaceState) (nodeId : String) (basedOn : ContainerObserved) : Bool :=
  (state.container? nodeId).any fun container =>
    container.pendingAction.isNone && container.observed.sameReading basedOn

/-- The reducer writes the outcome of an action down. -/
def accepted (state : WorkspaceState) (nodeId : String) (of : Option PendingAction) : Bool :=
  of.isNone || of == state.pendingAction? nodeId

/-- The state the listing's exit code for a container is read off. -/
def listingSource (listing : Except String (List Docker.Sighting)) (name : String) :
    Option DockerState :=
  match listing with
  | .error _ => none
  | .ok sightings =>
      (sightings.reverse.find? fun sighting => sighting.name == name).bind Docker.Sighting.source

/-- The state in which a wait for a task finds it no longer running. -/
def exitSeen : List DockerAnswer → Option DockerState
  | [] => none
  | .ok none :: _ => none
  | .ok (some container) :: polls =>
      if container.state.word ≠ "running" ∧ container.state.word ≠ "created" then
        some container.state
      else exitSeen polls
  | .error _ :: polls => exitSeen polls

/-- The world in which Docker answers the polls of one node's wait. -/
def polling (world : World) (nodeId : String) (polls : List DockerAnswer) : World :=
  { world with
    start := fun other =>
      if other = nodeId then { world.start nodeId with polls := polls.map Docker.inspectStatus }
      else world.start other }

/-- The run starts the node when its turn comes. -/
def starts (graph : Graph) (world : World) (restart : Option String) (up : BroughtUp)
    (nodeId : String) : Bool :=
  match graph.node? nodeId with
  | none => false
  | some node =>
      match verdict graph world restart up node with
      | .start => (world.started up node).toOption.isSome
      | _ => false

/-- One turn of a run. -/
def Flight.turn (graph : Graph) (world : World) (polls : List DockerAnswer) (nodeId : String)
    (flight : Flight) : Flight :=
  let world := polling world nodeId polls
  { flight with
    up := bringUpNode graph world flight.restart flight.up nodeId
    origin :=
      if starts graph world flight.restart flight.up nodeId then
        Function.update flight.origin nodeId (exitSeen polls)
      else flight.origin }

/-- The state the exit code of a restored record is read off. -/
def rebootOrigin (saved : EnvState) (origin : Origin) (answers : String → DockerAnswer) : Origin :=
  fun nodeId =>
    match (Persistence.loadEnv saved).containers[nodeId]? with
    | none => none
    | some container =>
        match answers container.desired.containerName with
        | .ok (some found) => some found.state
        | .ok none => none
        | .error _ => origin nodeId

/-- The record of a node in a piece of work, with the work. -/
def Daemon.copy? (daemon : Daemon) (flight : Nat) (nodeId : String) :
    Option (Flight × ContainerInfo) :=
  (daemon.flights[flight]?).bind fun flight =>
    (flight.up.state.containers[nodeId]?).map fun info => (flight, info)

/-- A report that brings the record of one node. -/
def Daemon.bring (daemon : Daemon) (nodeId : String) (written : Bool) (origin : Origin)
    (action : Action) : Daemon :=
  { daemon with
    state := dispatch daemon.state action
    origin :=
      if written then Function.update daemon.origin nodeId (origin nodeId) else daemon.origin }

/-- What one event does to the daemon. -/
def step (daemon : Daemon) : Event → Daemon
  | .acted action =>
      if plain action then { daemon with state := dispatch daemon.state action } else daemon
  | .observed env listing nodeId =>
      match env.containers[nodeId]?, (observe env (listing.bind Docker.listStatuses))[nodeId]? with
      | some copy, some reading =>
          daemon.bring nodeId (accepts daemon.state nodeId copy.observed && !reading.unseen)
            (fun _ => listingSource listing copy.desired.containerName)
            (Observation.containerObserved nodeId reading copy.observed)
      | _, _ => daemon
  | .began graph world restart spec =>
      match targetIds graph restart spec daemon.state.env, world.ensureNetwork,
          world.ensureSidecar with
      | .ok targets, .ok (), .ok sidecarIp =>
          { daemon with
            flights := daemon.flights ++
              [{ restart
                 up := prepared graph world spec daemon.state.env targets sidecarIp
                 origin := daemon.origin }] }
      | _, _, _ => daemon
  | .turned flight graph world polls nodeId =>
      { daemon with
        flights := daemon.flights.modify flight (Flight.turn graph world polls nodeId) }
  | .progressed flight nodeId =>
      match daemon.copy? flight nodeId with
      | none => daemon
      | some (flight, info) =>
          daemon.bring nodeId true flight.origin
            (.envCreateProgress flight.up.state.network flight.up.state.sidecarContainerName
              flight.up.state.sidecarIp info)
  | .settled flight nodeId of =>
      match daemon.copy? flight nodeId with
      | none => daemon
      | some (flight, info) =>
          daemon.bring nodeId (accepted daemon.state nodeId of) flight.origin
            (.containerActionSettled nodeId of (.ok (some info)))
  | .stopped flight nodeId of answer =>
      match daemon.copy? flight nodeId with
      | none => daemon
      | some (flight, info) =>
          daemon.bring nodeId (accepted daemon.state nodeId of) flight.origin
            (.containerActionSettled nodeId of
              (.ok (some (stopContainer info (Docker.inspectStatus answer)))))
  | .finished flight failure =>
      match daemon.flights[flight]? with
      | none => daemon
      | some flight =>
          { daemon with
            state := dispatch daemon.state (.envCreateSettled
              (match failure with
              | none => .ok flight.up.state
              | some message => .error { message, partialState := some flight.up.state }))
            origin := flight.origin }
  | .persisted =>
      { daemon with
        store := daemon.store.converge daemon.state.env
        storeOrigin :=
          if daemon.state.env.any fun env => !Persistence.uncreated env then daemon.origin
          else daemon.storeOrigin }
  | .rebooted answers =>
      { state :=
          { daemon.state with
            env := daemon.store.env.map fun saved => Persistence.rehydrate saved answers }
        origin :=
          match daemon.store.env with
          | none => fun _ => none
          | some saved => rebootOrigin saved daemon.storeOrigin answers
        store := { daemon.store with written := false }
        storeOrigin := daemon.storeOrigin }

/-! ## Records under their ids -/

/-- Wherever the daemon keeps records, it keeps them under the ids of their nodes. -/
structure Filed (daemon : Daemon) : Prop where
  state : Keyed daemon.state
  flights : ∀ flight ∈ daemon.flights, keyed flight.up.state
  store : ∀ env, daemon.store.env = some env → keyed env

variable {action : Action}

theorem identified_of_plain (bare : plain action) : Identified action := by
  cases action with
  | containerActionSettled named of result =>
      rcases result with message | _ | info
      · trivial
      · trivial
      · cases bare
  | envCreateSettled result =>
      intro created held
      rw [plain, held] at bare
      cases bare
  | _ => trivial

theorem keyed_getD {state : WorkspaceState} (ids : Keyed state) : keyed (state.env.getD {}) := by
  cases env_eq : state.env with
  | none => rfl
  | some env => exact ids env env_eq

/-- A record of a restored environment is that of the store under the same id. -/
theorem loadEnv_get {saved : EnvState} (ids : keyed saved) {key : String}
    {container : ContainerInfo}
    (found : (Persistence.loadEnv saved).containers[key]? = some container) :
    ∃ old, saved.containers[key]? = some old ∧ container = Persistence.restored old := by
  have every : ∀ (key : String) (container : ContainerInfo),
      (Persistence.loadEnv saved).containers[key]? = some container →
        ∃ old, saved.containers[key]? = some old ∧ container = Persistence.restored old := by
    apply List.foldlRecOn (motive := fun containers : OrderedMap String ContainerInfo =>
      ∀ (key : String) (container : ContainerInfo), containers[key]? = some container →
        ∃ old, saved.containers[key]? = some old ∧ container = Persistence.restored old)
    · intro key container found
      simp at found
    · intro containers loaded old listed key container found
      obtain ⟨home, held⟩ := (OrderedMap.mem_listed saved.containers old).mp listed
      obtain rfl := (keyed_iff saved).mp ids home old held
      rw [ExtTreeMap.getElem?_insert] at found
      split at found
      · rename_i same
        obtain rfl := Std.compare_eq_iff_eq.mp same
        cases found
        exact ⟨old, held, rfl⟩
      · exact loaded key container found
  exact every key container found

theorem keyed_rehydrate {saved : EnvState} (ids : keyed saved) (answers : String → DockerAnswer) :
    keyed (Persistence.rehydrate saved answers) := by
  rw [keyed_iff]
  intro key container found
  simp only [Persistence.rehydrate, ExtTreeMap.getElem?_map, Option.map_eq_some_iff] at found
  obtain ⟨loaded, loaded_eq, rfl⟩ := found
  obtain ⟨old, old_eq, rfl⟩ := loadEnv_get ids loaded_eq
  have named := (keyed_iff saved).mp ids key old old_eq
  unfold Persistence.rehydrated
  split <;> exact named

variable {work : Flight}

/-- A run keeps its copy under its ids, turn by turn. -/
theorem keyed_turn (ids : keyed work.up.state) (graph : Graph) (world : World)
    (polls : List DockerAnswer) (nodeId : String) :
    keyed (work.turn graph world polls nodeId).up.state :=
  (bringUpNode_frame graph _ work.restart ids nodeId).1

/-! ## Exit codes that stay -/

/-- The node's exit code is that of before, or none. -/
def KeepsCode (nodeId : String) (before after : EnvState) : Prop :=
  ∀ container, after.containers[nodeId]? = some container → container.observed.exitCode = none ∨
    ∃ old, before.containers[nodeId]? = some old ∧
      old.observed.exitCode = container.observed.exitCode

variable {named : String} {info : ContainerInfo}

section KeepsCode

variable {nodeId : String} {run : EnvState}

theorem keepsCode_of_get {after : EnvState}
    (same : after.containers[nodeId]? = run.containers[nodeId]?) : KeepsCode nodeId run after := by
  intro container found
  exact .inr ⟨container, same ▸ found, rfl⟩

theorem keepsCode_insert

    (kept : named = nodeId → info.observed.exitCode = none ∨ ∃ old,
      run.containers[nodeId]? = some old ∧ old.observed.exitCode = info.observed.exitCode) :
    KeepsCode nodeId run { run with containers := run.containers.insert named info } := by
  intro container found
  rw [ExtTreeMap.getElem?_insert] at found
  split at found
  · rename_i same
    cases found
    exact kept (Std.compare_eq_iff_eq.mp same)
  · exact .inr ⟨container, found, rfl⟩

theorem keepsCode_erase (named : String) :
    KeepsCode nodeId run { run with containers := run.containers.erase named } := by
  intro container found
  rw [ExtTreeMap.getElem?_erase] at found
  split at found
  · cases found
  · exact .inr ⟨container, found, rfl⟩

theorem keepsCode_modify (named : String) {update : ContainerInfo → ContainerInfo}
    (kept : ∀ container, (update container).observed.exitCode = container.observed.exitCode) :
    KeepsCode nodeId run { run with containers := run.containers.modify named update } := by
  intro container found
  rw [OrderedMap.get_modify] at found
  split at found
  · obtain ⟨old, old_eq, rfl⟩ := Option.map_eq_some_iff.mp found
    exact .inr ⟨old, old_eq, (kept old).symm⟩
  · exact .inr ⟨container, found, rfl⟩

theorem keepsCode_clearCreateMarks : KeepsCode nodeId run (clearCreateMarks run) := by
  intro container found
  simp only [clearCreateMarks, ExtTreeMap.getElem?_map, Option.map_eq_some_iff,
    ExtTreeMap.getElem?_filter', Option.filter_eq_some_iff] at found
  obtain ⟨old, ⟨old_eq, -⟩, rfl⟩ := found
  exact .inr ⟨old, old_eq, rfl⟩

theorem keepsCode_marks {marked : EnvState} {pending : PendingAction}
    (marks : Marks run named pending marked) : KeepsCode nodeId run marked := by
  cases marks with
  | place => exact keepsCode_insert fun _ => .inl rfl
  | mark container desired found =>
      exact keepsCode_insert fun same => .inr ⟨container, same ▸ found, rfl⟩
  | callOff => exact keepsCode_erase named

/-- A report that carries no reading and no record leaves exit codes alone. -/
theorem keepsCode_report (bare : plain action) : KeepsCode nodeId run (report action run) := by
  cases action with
  | containerObserved => cases bare
  | envCreateProgress => cases bare
  | containerActionSettled named of result =>
      simp only [report, settleContainerAction]
      split
      · exact keepsCode_of_get rfl
      · split
        · cases bare
        · exact keepsCode_erase named
        · exact keepsCode_modify named fun _ => rfl
  | envCreateSettled result =>
      obtain ⟨created, created_eq, settles⟩ := settleEnvCreate_eq run result
      simp only [report, settles]
      rw [created_eq, Option.isNone_iff_eq_none.mp bare]
      exact keepsCode_clearCreateMarks
  | envCreateWorking named working =>
      simp only [report, workOnContainer]
      split
      · rename_i container found
        exact keepsCode_insert fun same => .inr ⟨container, same ▸ found, rfl⟩
      · exact keepsCode_insert fun _ => .inl rfl
      · rename_i container found
        split
        · exact keepsCode_erase named
        · exact keepsCode_insert fun same => .inr ⟨container, same ▸ found, rfl⟩
      · exact keepsCode_of_get rfl
  | configDriftObserved named => exact keepsCode_modify named fun _ => rfl
  | _ => exact keepsCode_of_get rfl

/-- An action that carries no reading and no record leaves exit codes alone. -/
theorem keepsCode_dispatch {state : WorkspaceState} (bare : plain action) {after : EnvState}
    (after_eq : (dispatch state action).env = some after) :
    KeepsCode nodeId (state.env.getD {}) after := by
  rcases dispatch_cases state action with
    ⟨-, unchanged⟩ | ⟨plan, -, -, next⟩ | ⟨first, -, absent, next⟩ |
    ⟨named, pending, run, marked, -, env_eq, -, marks, next⟩ | ⟨owner, -, next⟩ |
    ⟨-, next⟩
  · rw [unchanged] at after_eq
    rw [after_eq]
    exact keepsCode_of_get rfl
  · rw [next] at after_eq
    cases after_eq
    exact keepsCode_of_get rfl
  · rw [next] at after_eq
    cases after_eq
    exact fun container found => by simp at found
  · rw [next] at after_eq
    cases after_eq
    rw [env_eq]
    exact keepsCode_marks marks
  · rw [next] at after_eq
    rw [show state.env = some after from after_eq]
    exact keepsCode_of_get rfl
  · rw [next] at after_eq
    obtain ⟨run, env_eq, rfl⟩ := Option.map_eq_some_iff.mp after_eq
    rw [env_eq]
    exact keepsCode_report bare

end KeepsCode

/-! ## Zeros that were read off a clean exit -/

/-- A zero exit code of the node was read off a container that exited with it. -/
def Backed (nodeId : String) (env : EnvState) (origin : Origin) : Prop :=
  ∀ container, env.containers[nodeId]? = some container → container.observed.exitCode = some 0 →
    origin nodeId = some (.exited ExitCode.success)

/-- Wherever the daemon keeps the node's exit code, a zero of it was read off a clean exit. -/
structure Clean (nodeId : String) (daemon : Daemon) : Prop where
  ids : Keyed daemon.state
  backed : ∀ env, daemon.state.env = some env → Backed nodeId env daemon.origin
  flights : ∀ flight ∈ daemon.flights,
    keyed flight.up.state ∧ Backed nodeId flight.up.state flight.origin
  store : ∀ env, daemon.store.env = some env → keyed env ∧ Backed nodeId env daemon.storeOrigin

/-- The event reads no zero of the node off a container that did not exit with it. -/
def Honest (nodeId : String) (daemon : Daemon) : Event → Prop
  | .observed env listing named =>
      named = nodeId → ∀ copy, env.containers[named]? = some copy →
        accepts daemon.state named copy.observed → ∀ sightings, listing = .ok sightings →
        ∀ sighting ∈ sightings, sighting.name = copy.desired.containerName → sighting.honest
  | .turned _ _ _ polls named =>
      named = nodeId → ∀ state, exitSeen polls = some state → state.falseZero = false
  | .rebooted answers =>
      ∀ saved container found, daemon.store.env = some saved →
        (Persistence.loadEnv saved).containers[nodeId]? = some container →
        answers container.desired.containerName = .ok (some found) → found.state.falseZero = false
  | _ => True

section Backed

variable {nodeId : String} {env : EnvState} {origin : Origin}

theorem Backed.of_keepsCode (backed : Backed nodeId env origin) {after : EnvState}
    (kept : KeepsCode nodeId env after) : Backed nodeId after origin := by
  intro container found zero
  rcases kept container found with absent | ⟨old, old_eq, same⟩
  · rw [absent] at zero
    cases zero
  · exact backed old old_eq (same.trans zero)

theorem backed_empty (nodeId : String) (origin : Origin) : Backed nodeId {} origin := by
  intro container found
  simp at found

/-- A record put in place brings its own origin. -/
theorem Backed.insert (backed : Backed nodeId env origin) {later : Origin} {key : String}
    (kept : key ≠ nodeId → later nodeId = origin nodeId)

    (put : key = nodeId → info.observed.exitCode = some 0 →
      later nodeId = some (.exited ExitCode.success)) :
    Backed nodeId { env with containers := env.containers.insert key info } later := by
  intro container found zero
  rw [ExtTreeMap.getElem?_insert] at found
  split at found
  · rename_i same
    cases found
    exact put (Std.compare_eq_iff_eq.mp same) zero
  · rename_i different
    rw [kept fun same => different (Std.compare_eq_iff_eq.mpr same)]
    exact backed container found zero

end Backed

variable {polls : List DockerAnswer}

/-- The exit a completed wait saw had code zero. -/
theorem exitSeen_of_completed
    (completed : waitForExit (polls.map Docker.inspectStatus) = .completed) :
    ∃ state, exitSeen polls = some state ∧ state.exitCode = 0 := by
  induction polls with
  | nil => cases completed
  | cons answer polls ih =>
      rcases answer with message | _ | container
      · exact ih completed
      · cases completed
      · simp only [List.map_cons, Docker.inspectStatus, waitForExit] at completed
        simp only [exitSeen]
        split at completed
        · rename_i gone
          rw [if_pos gone]
          split at completed
          · rename_i zero
            exact ⟨container.state, rfl, Option.some.inj zero⟩
          · cases completed
        · rename_i busy
          rw [if_neg busy]
          exact ih completed

/-! ## One event -/

section Step

variable {nodeId : String} {daemon : Daemon}

theorem Clean.acted (clean : Clean nodeId daemon) (action : Action) :
    Clean nodeId (step daemon (.acted action)) := by
  simp only [step]
  split
  · rename_i bare
    refine ⟨keyed_dispatch clean.ids (identified_of_plain bare), ?_, clean.flights, clean.store⟩
    intro after after_eq
    apply Backed.of_keepsCode _ (keepsCode_dispatch bare after_eq)
    cases env_eq : daemon.state.env with
    | none => exact backed_empty nodeId daemon.origin
    | some env => exact clean.backed env env_eq
  · exact clean

/-- A report that brings a record of one node, if what it leaves of the node is backed. -/
theorem Clean.bring (clean : Clean nodeId daemon) {written : Bool} {origin : Origin}
    (reports : isReport action) (ongoing : settlesCreate action = false)
    (names : namedNode action = some named) (identified : Identified action)

    (backed : named = nodeId → ∀ run, daemon.state.env = some run →
      Backed nodeId (report action run) (daemon.bring named written origin action).origin) :
    Clean nodeId (daemon.bring named written origin action) := by
  refine ⟨keyed_dispatch clean.ids identified, ?_, clean.flights, clean.store⟩
  intro after after_eq
  rw [Daemon.bring, dispatch_report reports] at after_eq
  obtain ⟨run, env_eq, rfl⟩ := Option.map_eq_some_iff.mp after_eq
  by_cases same : named = nodeId
  · exact backed same run env_eq
  · have elsewhere : (daemon.bring named written origin action).origin nodeId =
        daemon.origin nodeId := by
      simp only [Daemon.bring]
      split
      · exact Function.update_of_ne (Ne.symm same) _ _
      · rfl
    intro container found zero
    rw [report_get_of_ne ongoing (by simpa [names] using same)] at found
    rw [elsewhere]
    exact clean.backed run env_eq container found zero

theorem copy?_eq_some {flight : Nat} (copied : daemon.copy? flight named = some (work, info)) :
    work ∈ daemon.flights ∧ work.up.state.containers[named]? = some info := by
  simp only [Daemon.copy?, Option.bind_eq_some_iff, Option.map_eq_some_iff, Prod.mk.injEq] at copied
  obtain ⟨_, found, _, held, rfl, rfl⟩ := copied
  exact ⟨List.mem_of_getElem? found, held⟩

/-- The report of a zero read off a listing is that of a clean exit. -/
theorem listed_zero {listing : Except String (List Docker.Sighting)} {copy : ContainerInfo}
    (seen : (observedReading (listing.bind Docker.listStatuses) copy).unseen = false)
    (zero : (observedReading (listing.bind Docker.listStatuses) copy).exitCode = some 0)
    (honest : ∀ sightings, listing = .ok sightings → ∀ sighting ∈ sightings,
      sighting.name = copy.desired.containerName → sighting.honest) :
    listingSource listing copy.desired.containerName = some (.exited ExitCode.success) := by
  cases listing with
  | error message => cases seen
  | ok sightings =>
      change (observedReading (Docker.listStatuses sightings) copy).unseen = false at seen
      change (observedReading (Docker.listStatuses sightings) copy).exitCode = some 0 at zero
      cases listed : Docker.listStatuses sightings with
      | error message =>
          rw [listed] at seen
          cases seen
      | ok statuses =>
          rw [listed] at zero
          obtain ⟨status, found, code⟩ := Option.bind_eq_some_iff.mp zero
          obtain ⟨sighting, first, sighted⟩ := Docker.listStatuses_get listed found
          have member := List.mem_reverse.mp (List.mem_of_find?_eq_some first)
          have named := List.find?_some first
          simp only [listingSource, first, Option.bind_some]
          exact Docker.sightedStatus_zero sighted code
            (honest sightings rfl sighting member (by simpa using named))

theorem Clean.observed (clean : Clean nodeId daemon) {env : EnvState}
    {listing : Except String (List Docker.Sighting)}
    (honest : Honest nodeId daemon (.observed env listing named)) :
    Clean nodeId (step daemon (.observed env listing named)) := by
  simp only [step]
  split
  · rename_i copy reading copied read
    refine clean.bring rfl rfl rfl (show Identified (Observation.containerObserved ..) from trivial)
      ?_
    rintro rfl run env_eq container found zero
    obtain ⟨old, old_eq, rfl⟩ : ∃ old, run.containers[named]? = some old ∧
        container = observeContainer old reading.status reading.publishedPort reading.ports
          reading.exitCode reading.unseen copy.observed := by
      simpa [report, Observation.containerObserved, eq_comm] using found
    have accepts_eq : accepts daemon.state named copy.observed =
        (old.pendingAction.isNone && old.observed.sameReading copy.observed) := by
      simp [accepts, WorkspaceState.container?, env_eq, old_eq]
    have reading_eq : reading = observedReading (listing.bind Docker.listStatuses) copy := by
      simpa [observe, copied, eq_comm] using read
    have older := clean.backed run env_eq old old_eq
    simp only [Daemon.bring]
    unfold observeContainer at zero
    split at zero
    · rename_i stale
      have refused : accepts daemon.state named copy.observed = false := by
        rw [accepts_eq]
        rcases Bool.or_eq_true_iff.mp stale with busy | moved
        · simp [Option.isSome_iff_ne_none.mp busy]
        · simp only [Bool.not_eq_true'] at moved
          simp [moved]
      simpa [refused] using older zero
    · rename_i fresh
      have taken : accepts daemon.state named copy.observed = true := by
        rw [accepts_eq]
        simpa using fresh
      split at zero
      · rename_i unseen
        simpa [unseen] using older zero
      · rename_i seen
        have seen : reading.unseen = false := by simpa using seen
        have code : reading.exitCode = some 0 := by
          simp only [ContainerObserved.settleInterruption] at zero
          split at zero
          · exact zero
          · split at zero <;> exact zero
        subst reading_eq
        have source := listed_zero seen code fun sightings listed =>
          honest rfl copy copied taken sightings listed
        simp [taken, seen, source]
  · exact clean

theorem Clean.progressed (clean : Clean nodeId daemon) (flight : Nat) (named : String) :
    Clean nodeId (step daemon (.progressed flight named)) := by
  simp only [step]
  split
  · exact clean
  · rename_i work info copied
    obtain ⟨member, held⟩ := copy?_eq_some copied
    obtain ⟨ids, backed⟩ := clean.flights work member
    obtain rfl := (keyed_iff _).mp ids named info held
    refine clean.bring rfl rfl rfl (show Identified (.envCreateProgress ..) from trivial) ?_
    rintro rfl run env_eq
    have older := clean.backed run env_eq
    apply Backed.insert older
    · exact fun away => (away rfl).elim
    · intro _ zero
      simpa [Daemon.bring] using backed info held zero

/-- The outcome of an action brings a record with the exit code the work has. -/
theorem Clean.settles (clean : Clean nodeId daemon) {info written : ContainerInfo}
    (member : work ∈ daemon.flights) (held : work.up.state.containers[named]? = some info)
    (of : Option PendingAction) (same : written.nodeId = info.nodeId)
    (code : written.observed.exitCode = info.observed.exitCode) :
    Clean nodeId (daemon.bring named (accepted daemon.state named of) work.origin
      (.containerActionSettled named of (.ok (some written)))) := by
  obtain ⟨ids, backed⟩ := clean.flights work member
  have identified : Identified (.containerActionSettled named of (.ok (some written))) :=
    same.trans ((keyed_iff _).mp ids named info held)
  refine clean.bring rfl rfl rfl identified ?_
  rintro rfl run env_eq
  have pending : daemon.state.pendingAction? named =
      (run.containers[named]?).bind ContainerInfo.pendingAction := by
    simp [WorkspaceState.pendingAction?, WorkspaceState.container?, env_eq]
  have older := clean.backed run env_eq
  simp only [report, settleContainerAction, ← pending]
  split
  · rename_i moved
    have refused : accepted daemon.state named of = false := by
      simp only [Bool.and_eq_true, bne_iff_ne] at moved
      simpa [accepted, moved.2] using moved.1
    simpa [Daemon.bring, refused] using older
  · rename_i current
    have taken : accepted daemon.state named of = true := by
      cases of with
      | none => rfl
      | some action => simpa [accepted] using current
    apply Backed.insert older
    · exact fun away => (away rfl).elim
    · intro _ zero
      simpa [Daemon.bring, taken] using backed info held (code.symm.trans zero)

theorem Clean.settled (clean : Clean nodeId daemon) (flight : Nat) (named : String)
    (of : Option PendingAction) : Clean nodeId (step daemon (.settled flight named of)) := by
  simp only [step]
  split
  · exact clean
  · rename_i work info copied
    obtain ⟨member, held⟩ := copy?_eq_some copied
    exact clean.settles member held of rfl rfl

theorem Clean.stopped (clean : Clean nodeId daemon) (flight : Nat) (named : String)
    (of : Option PendingAction) (answer : DockerAnswer) :
    Clean nodeId (step daemon (.stopped flight named of answer)) := by
  simp only [step]
  split
  · exact clean
  · rename_i work info copied
    obtain ⟨member, held⟩ := copy?_eq_some copied
    exact clean.settles member held of rfl rfl

/-- What a run stops before its first node keeps its exit code. -/
theorem backed_prepared {prior : Option EnvState} {origin : Origin}
    (backed : Backed nodeId (prior.getD {}) origin) (graph : Graph) (world : World)
    (spec : EnvSpec) (targets : List String) (sidecarIp : String) :
    Backed nodeId (prepared graph world spec prior targets sidecarIp).state origin := by
  apply Execution.run_always (stopNode world) (fun up => Backed nodeId up.state origin)
  · intro up id backed
    unfold stopNode
    split
    · exact backed
    · rename_i container found
      apply backed.of_keepsCode
      exact keepsCode_insert fun same => .inr ⟨container, same ▸ found, rfl⟩
  · exact backed

theorem Clean.began (clean : Clean nodeId daemon) (graph : Graph) (world : World)
    (restart : Option String) (spec : EnvSpec) :
    Clean nodeId (step daemon (.began graph world restart spec)) := by
  have ids := keyed_getD clean.ids
  have backed : Backed nodeId (daemon.state.env.getD {}) daemon.origin := by
    cases env_eq : daemon.state.env with
    | none => exact backed_empty nodeId daemon.origin
    | some env => exact clean.backed env env_eq
  simp only [step]
  split
  · rename_i targets sidecarIp _ _ _
    refine ⟨clean.ids, clean.backed, ?_, clean.store⟩
    intro flight listed
    rcases List.mem_append.mp listed with earlier | new
    · exact clean.flights flight earlier
    · obtain rfl := List.mem_singleton.mp new
      exact ⟨(prepared_spec graph world ids spec targets sidecarIp).1,
        backed_prepared backed graph world spec targets sidecarIp⟩
  · exact clean

/-- A zero that a turn writes down of a started node comes out of its wait. -/
theorem started_exitCode {world : World} {up : BroughtUp} {node : Node}
    (started : (polling world node.id polls).started up node = .ok info)
    (zero : ((polling world node.id polls).recordStart node info).observed.exitCode = some 0) :
    ∃ state, exitSeen polls = some state ∧ state.exitCode = 0 := by
  obtain ⟨spec, inspected, -, -, rfl, waited⟩ := startNode_ok started
  have code : (if node.kind == .task then some (0 : Int) else none) = some 0 := by
    rw [World.recordStart] at zero
    split at zero
    · exact zero
    · exact zero
  by_cases task : node.kind = .task
  · apply exitSeen_of_completed
    simpa [polling] using waited task
  · simp [task] at code

theorem backed_turn (ids : keyed work.up.state) (backed : Backed nodeId work.up.state work.origin)
    (graph : Graph) (world : World)
    (honest : named = nodeId → ∀ state, exitSeen polls = some state → state.falseZero = false) :
    Backed nodeId (work.turn graph world polls named).up.state
      (work.turn graph world polls named).origin := by
  cases found : graph.node? named with
  | none => simpa [Flight.turn, bringUpNode, starts, found] using backed
  | some node =>
      obtain ⟨-, rfl⟩ := Graph.node?_eq_some found
      simp only [Flight.turn, starts, bringUpNode, found]
      cases decided : verdict graph (polling world node.id polls) work.restart work.up node with
      | leave => exact backed
      | block cause => exact backed
      | restart existing =>
          simp only
          rcases restartNodeInPlace_cases (polling world node.id polls) work.up node existing with
            ⟨message, -, gaveUp⟩ | ⟨info, restarted, cameUp, -, -⟩
          · rw [gaveUp.state_eq]
            exact backed
          · obtain ⟨inspected, -, rfl⟩ := restartInPlace_ok restarted
            obtain ⟨named, -, code⟩ := restartedInfo_keeps existing inspected
            have recorded := (verdict_eq_restart decided).2.2.2.2.2
            have under := (keyed_iff _).mp ids node.id existing recorded
            rw [cameUp.state_eq]
            apply backed.of_keepsCode
            apply keepsCode_insert
            intro here
            exact .inr ⟨existing, by rw [← here, named, under]; exact recorded, code.symm⟩
      | start =>
          simp only
          rcases startNodeOfRun_cases (polling world node.id polls) work.up node with
            ⟨message, refused, gaveUp⟩ | ⟨info, started, cameUp, -, -⟩
          · rw [gaveUp.state_eq, refused]
            exact backed
          · have named := (World.started_ok started).1
            rw [cameUp.state_eq, started]
            apply backed.insert
            · intro away
              exact Function.update_of_ne (fun same => away (named.trans same.symm)) _ _
            · intro here zero
              obtain ⟨state, seen, code⟩ := started_exitCode started zero
              have same : node.id = nodeId := named.symm.trans here
              subst same
              have clean := DockerState.eq_exited_of_exitCode code (honest rfl state seen)
              simp [Except.toOption, seen, clean]

theorem Clean.turned (clean : Clean nodeId daemon) {flight : Nat} {graph : Graph} {world : World}
    (honest : Honest nodeId daemon (.turned flight graph world polls named)) :
    Clean nodeId (step daemon (.turned flight graph world polls named)) := by
  refine ⟨clean.ids, clean.backed, ?_, clean.store⟩
  intro work listed
  simp only [step] at listed
  obtain ⟨place, found⟩ := List.mem_iff_getElem?.mp listed
  rw [List.getElem?_modify] at found
  obtain ⟨old, old_eq, turned⟩ := Option.map_eq_some_iff.mp found
  obtain ⟨ids, backed⟩ := clean.flights old (List.mem_of_getElem? old_eq)
  split at turned
  · subst turned
    exact ⟨keyed_turn ids graph world polls named, backed_turn ids backed graph world honest⟩
  · subst turned
    exact ⟨ids, backed⟩

/-- A create that settles brings every record the work has. -/
theorem Clean.creates (clean : Clean nodeId daemon) (member : work ∈ daemon.flights)
    {result : Except EnvCreateError EnvState} (carries : carried result = some work.up.state) :
    Clean nodeId
      { daemon with
        state := dispatch daemon.state (.envCreateSettled result)
        origin := work.origin } := by
  obtain ⟨ids, backed⟩ := clean.flights work member
  have identified : Identified (.envCreateSettled result) := by
    intro created held
    rw [carries] at held
    cases held
    exact ids
  refine ⟨keyed_dispatch clean.ids identified, ?_, clean.flights, clean.store⟩
  intro after after_eq
  rw [dispatch_report rfl] at after_eq
  obtain ⟨run, env_eq, rfl⟩ := Option.map_eq_some_iff.mp after_eq
  obtain ⟨created, created_eq, settles⟩ := settleEnvCreate_eq run result
  simp only [report, settles]
  rw [created_eq, carries]
  exact backed.of_keepsCode keepsCode_clearCreateMarks

theorem Clean.finished (clean : Clean nodeId daemon) (flight : Nat) (failure : Option String) :
    Clean nodeId (step daemon (.finished flight failure)) := by
  simp only [step]
  split
  · exact clean
  · rename_i work found
    apply clean.creates (List.mem_of_getElem? found)
    cases failure <;> rfl

theorem Clean.persisted (clean : Clean nodeId daemon) : Clean nodeId (step daemon .persisted) := by
  refine ⟨clean.ids, clean.backed, clean.flights, ?_⟩
  intro saved saved_eq
  simp only [step] at saved_eq ⊢
  cases env_eq : daemon.state.env with
  | none =>
      simp only [env_eq, Persistence.Store.converge] at saved_eq
      split at saved_eq
      · cases saved_eq
      · exact clean.store saved saved_eq
  | some env =>
      simp only [env_eq, Persistence.Store.converge] at saved_eq
      split at saved_eq
      · rename_i bare
        simpa [bare] using clean.store saved saved_eq
      · rename_i created
        cases saved_eq
        simpa [created] using ⟨clean.ids saved env_eq, clean.backed saved env_eq⟩

theorem rehydrated_exitCode (answer : DockerAnswer) (container : ContainerInfo) :
    (Persistence.rehydrated answer container).observed.exitCode =
      match answer with
      | .ok (some found) => some found.state.exitCode
      | .ok none => none
      | .error _ => container.observed.exitCode := by
  have settles (observed : ContainerObserved) (unwatched : Bool) :
      (observed.settleInterruption unwatched).exitCode = observed.exitCode := by
    unfold ContainerObserved.settleInterruption
    split
    · rfl
    · split <;> rfl
  rcases answer with message | _ | found
  · rfl
  · exact settles _ _
  · exact settles _ _

theorem Clean.rebooted (clean : Clean nodeId daemon) {answers : String → DockerAnswer}
    (honest : Honest nodeId daemon (.rebooted answers)) :
    Clean nodeId (step daemon (.rebooted answers)) := by
  have reread : ∀ after, (step daemon (.rebooted answers)).state.env = some after → ∃ saved,
      daemon.store.env = some saved ∧ after = Persistence.rehydrate saved answers := by
    intro after after_eq
    obtain ⟨saved, saved_eq, rfl⟩ := Option.map_eq_some_iff.mp after_eq
    exact ⟨saved, saved_eq, rfl⟩
  refine ⟨?_, ?_, fun _ listed => by simp [step] at listed, clean.store⟩
  · intro after after_eq
    obtain ⟨saved, saved_eq, rfl⟩ := reread after after_eq
    exact keyed_rehydrate (clean.store saved saved_eq).1 answers
  · intro after after_eq container found zero
    obtain ⟨saved, saved_eq, rfl⟩ := reread after after_eq
    obtain ⟨ids, backed⟩ := clean.store saved saved_eq
    simp only [Persistence.rehydrate, ExtTreeMap.getElem?_map, Option.map_eq_some_iff] at found
    obtain ⟨loaded, loaded_eq, rfl⟩ := found
    obtain ⟨old, old_eq, restored⟩ := loadEnv_get ids loaded_eq
    rw [rehydrated_exitCode] at zero
    simp only [step, saved_eq, rebootOrigin, loaded_eq]
    split at zero
    · rename_i seen answered
      exact congrArg some (DockerState.eq_exited_of_exitCode (Option.some.inj zero)
        (honest saved loaded seen saved_eq loaded_eq answered))
    · cases zero
    · subst restored
      exact backed old old_eq zero

theorem Clean.step (clean : Clean nodeId daemon) {event : Event}
    (honest : Honest nodeId daemon event) : Clean nodeId (step daemon event) := by
  cases event with
  | acted action => exact clean.acted action
  | observed env listing named => exact clean.observed honest
  | began graph world restart spec => exact clean.began graph world restart spec
  | turned flight graph world polls named => exact clean.turned honest
  | progressed flight named => exact clean.progressed flight named
  | settled flight named of => exact clean.settled flight named of
  | stopped flight named of answer => exact clean.stopped flight named of answer
  | finished flight failure => exact clean.finished flight failure
  | persisted => exact clean.persisted
  | rebooted answers => exact clean.rebooted honest

end Step

section Filed

variable {daemon : Daemon}

theorem Filed.bring (filed : Filed daemon) {written : Bool} {origin : Origin}
    (identified : Identified action) : Filed (daemon.bring named written origin action) :=
  ⟨keyed_dispatch filed.state identified, filed.flights, filed.store⟩

/-- The outcome of an action brings a record under the id the work has it under. -/
theorem Filed.settles (filed : Filed daemon) {flight : Nat} {info written : ContainerInfo}
    (copied : daemon.copy? flight named = some (work, info)) (of : Option PendingAction)
    (same : written.nodeId = info.nodeId) :
    Filed (daemon.bring named (accepted daemon.state named of) work.origin
      (.containerActionSettled named of (.ok (some written)))) := by
  obtain ⟨member, held⟩ := copy?_eq_some copied
  apply filed.bring
  exact same.trans ((keyed_iff _).mp (filed.flights work member) named info held)

theorem Filed.began (filed : Filed daemon) (graph : Graph) (world : World)
    (restart : Option String) (spec : EnvSpec) :
    Filed (step daemon (.began graph world restart spec)) := by
  simp only [step]
  split
  · rename_i targets sidecarIp _ _ _
    refine ⟨filed.state, ?_, filed.store⟩
    intro flight listed
    rcases List.mem_append.mp listed with earlier | new
    · exact filed.flights flight earlier
    · obtain rfl := List.mem_singleton.mp new
      exact (prepared_spec graph world (keyed_getD filed.state) spec targets sidecarIp).1
  · exact filed

theorem Filed.turned (filed : Filed daemon) (flight : Nat) (graph : Graph) (world : World)
    (polls : List DockerAnswer) (named : String) :
    Filed (step daemon (.turned flight graph world polls named)) := by
  refine ⟨filed.state, ?_, filed.store⟩
  intro work listed
  simp only [step] at listed
  obtain ⟨place, found⟩ := List.mem_iff_getElem?.mp listed
  rw [List.getElem?_modify] at found
  obtain ⟨old, old_eq, turned⟩ := Option.map_eq_some_iff.mp found
  have ids := filed.flights old (List.mem_of_getElem? old_eq)
  split at turned
  · subst turned
    exact keyed_turn ids graph world polls named
  · subst turned
    exact ids

theorem Filed.finished (filed : Filed daemon) (flight : Nat) (failure : Option String) :
    Filed (step daemon (.finished flight failure)) := by
  simp only [step]
  split
  · exact filed
  · rename_i work found
    have ids := filed.flights work (List.mem_of_getElem? found)
    refine ⟨keyed_dispatch filed.state ?_, filed.flights, filed.store⟩
    intro created held
    cases failure with
    | none =>
        cases held
        exact ids
    | some message =>
        cases held
        exact ids

theorem Filed.persisted (filed : Filed daemon) : Filed (step daemon .persisted) := by
  refine ⟨filed.state, filed.flights, ?_⟩
  intro saved saved_eq
  cases env_eq : daemon.state.env with
  | none =>
      simp only [step, env_eq, Persistence.Store.converge] at saved_eq
      split at saved_eq
      · cases saved_eq
      · exact filed.store saved saved_eq
  | some env =>
      simp only [step, env_eq, Persistence.Store.converge] at saved_eq
      split at saved_eq
      · exact filed.store saved saved_eq
      · cases saved_eq
        exact filed.state saved env_eq

theorem Filed.rebooted (filed : Filed daemon) (answers : String → DockerAnswer) :
    Filed (step daemon (.rebooted answers)) := by
  refine ⟨?_, fun _ listed => by simp [step] at listed, filed.store⟩
  intro after after_eq
  obtain ⟨saved, saved_eq, rfl⟩ := Option.map_eq_some_iff.mp after_eq
  exact keyed_rehydrate (filed.store saved saved_eq) answers

theorem Filed.step (filed : Filed daemon) (event : Event) : Filed (step daemon event) := by
  cases event with
  | acted action =>
      simp only [TaskDone.step]
      split
      · rename_i bare
        exact ⟨keyed_dispatch filed.state (identified_of_plain bare), filed.flights, filed.store⟩
      · exact filed
  | observed env listing named =>
      simp only [TaskDone.step]
      split
      · exact filed.bring (show Identified (Observation.containerObserved ..) from trivial)
      · exact filed
  | began graph world restart spec => exact filed.began graph world restart spec
  | turned flight graph world polls named => exact filed.turned flight graph world polls named
  | progressed flight named =>
      simp only [TaskDone.step]
      split
      · exact filed
      · exact filed.bring (show Identified (.envCreateProgress ..) from trivial)
  | settled flight named of =>
      simp only [TaskDone.step]
      split
      · exact filed
      · rename_i copied
        exact filed.settles copied of rfl
  | stopped flight named of answer =>
      simp only [TaskDone.step]
      split
      · exact filed
      · rename_i copied
        exact filed.settles copied of rfl
  | finished flight failure => exact filed.finished flight failure
  | persisted => exact filed.persisted
  | rebooted answers => exact filed.rebooted answers

theorem filed_run (events : List Event) : Filed (Execution.run TaskDone.step {} events) := by
  have initial : Filed {} := ⟨fun _ => nofun, fun _ => nofun, fun _ => nofun⟩
  exact Execution.run_always TaskDone.step Filed (fun _ event filed => filed.step event) initial
    events

end Filed

/-! ## Every run -/

/-- Wherever the node counts as done, its exit code was last read off a container that exited with
code zero. -/
def DoneIsDone (nodeId : String) (daemon : Daemon) : Prop :=
  (∀ container, daemon.state.container? nodeId = some container →
    container.condition = .completed → daemon.origin nodeId = some (.exited ExitCode.success)) ∧
  ∀ flight ∈ daemon.flights, ∀ node : Node, node.id = nodeId →
    doneTask flight.restart flight.up node → flight.origin nodeId = some (.exited ExitCode.success)

theorem exitCode_of_completed {container : ContainerInfo}
    (completed : container.condition = .completed) : container.observed.exitCode = some 0 := by
  grind [ContainerInfo.condition]

theorem exitCode_of_doneTask {restart : Option String} {up : BroughtUp} {node : Node}
    (skipped : doneTask restart up node) : ∃ container,
      up.state.containers[node.id]? = some container ∧ container.observed.exitCode = some 0 := by
  simp only [doneTask] at skipped
  split at skipped
  · obtain ⟨container, found, done⟩ := (Option.any_eq_true _ _).mp skipped
    simp only [Bool.and_eq_true, beq_iff_eq] at done
    exact ⟨container, found, done.1.2⟩
  · simp only [taskAlreadyDone, Bool.and_eq_true] at skipped
    obtain ⟨container, found, done⟩ := (Option.any_eq_true _ _).mp skipped.2
    exact ⟨container, found, by simpa using done⟩

theorem Clean.doneIsDone {nodeId : String} {daemon : Daemon} (clean : Clean nodeId daemon) :
    DoneIsDone nodeId daemon := by
  constructor
  · intro container found completed
    obtain ⟨env, env_eq, held⟩ := Option.bind_eq_some_iff.mp found
    exact clean.backed env env_eq container held (exitCode_of_completed completed)
  · rintro flight member node rfl skipped
    obtain ⟨container, held, zero⟩ := exitCode_of_doneTask skipped
    exact (clean.flights flight member).2 container held zero

/-- Along every run that reads no zero of the node off a container that did not exit with it, the
node counts as done only by a clean exit. -/
theorem done_by_clean_exit (nodeId : String) (events : List Event)
    (honest : Execution.Along step (Honest nodeId) {} events) :
    DoneIsDone nodeId (Execution.run step {} events) := by
  have initial : Clean nodeId {} := ⟨fun _ => nofun, fun _ => nofun, fun _ => nofun, fun _ => nofun⟩
  apply Clean.doneIsDone
  exact Execution.run_invariant step (Honest nodeId) (Clean nodeId)
    (fun _ _ clean honest => clean.step honest) initial honest

/-- A task that imports data once. -/
def importTask : Node where
  id := "import.shop"
  kind := .task
  runPolicy := some "once"

def importGraph : Graph where
  workspaceName := "shop"
  nodes := [importTask]
  edges := []
  flows := []

def importWorld : World where
  ensureSidecar := .ok "172.18.0.2"
  resolveNodeSpec := fun _ => .ok
    { containerName := "fghj-shop-default-import-shop"
      domain := "import.shop.fghj.internal"
      rawDomain := "import.shop.fghj.raw.internal"
      portList := [] }
  specHash := fun _ _ => "spec"
  inspectStatus := fun _ => .ok none
  start := fun _ => { inspected := .ok (some { status := "running" }) }

/-- The first start of the task, which exits cleanly. -/
def importRun : List Event :=
  [.acted (.envPlanned (.node "import.shop")),
   .began importGraph importWorld none (.node "import.shop"),
   .turned 0 importGraph importWorld [.ok (some { state := .exited ExitCode.success })]
     "import.shop",
   .finished 0 none]

/-- The first start of the task leaves it completed, by its exit. -/
theorem done_by_first_exit :
    ((Execution.run step {} importRun).state.container? "import.shop").map
        ContainerInfo.condition = some .completed ∧
      DoneIsDone "import.shop" (Execution.run step {} importRun) := by
  refine ⟨by decide +kernel, done_by_clean_exit "import.shop" importRun ?_⟩
  refine ⟨trivial, trivial, fun _ state seen => ?_, trivial, trivial⟩
  cases seen
  rfl

/-- Somebody starts the task's container again, and a listing sees it running. -/
def importSeenRunning : List Event :=
  importRun ++
    [.observed ((Execution.run step {} importRun).state.env.getD {})
      (.ok [{ name := "fghj-shop-default-import-shop", container := { state := .running } }])
      "import.shop",
     .acted (.envPlanned (.node "import.shop")),
     .began importGraph importWorld none (.node "import.shop")]

/-- A run passes over a task that is running as done. -/
theorem running_task_done : ¬∀ nodeId events, DoneIsDone nodeId (Execution.run step {} events) := by
  intro claim
  obtain ⟨-, skips⟩ := claim "import.shop" importSeenRunning
  have second : ((Execution.run step {} importSeenRunning).flights[1]?).map (fun flight =>
      (doneTask flight.restart flight.up importTask, flight.origin "import.shop")) =
      some (true, some .running) := by decide +kernel
  obtain ⟨flight, found, values⟩ := Option.map_eq_some_iff.mp second
  simp only [Prod.mk.injEq] at values
  have origin := skips flight (List.mem_of_getElem? found) importTask rfl values.1
  rw [values.2] at origin
  cases origin

end TaskDone
end Fghj
