import Fghj.Converge

/-!
# What converging does

The membership rules of snapshots and plans, what one converge does to the effect's books and to the
tasks, and every move a task can make.
-/

namespace Fghj
namespace Converge

open Std Reducer Orchestrator

/-! ## Snapshots -/

theorem keyed_iff (run : EnvState) :
    keyed run ↔ ∀ (nodeId : String) (container : ContainerInfo),
      run.containers[nodeId]? = some container → container.nodeId = nodeId := by
  rw [keyed, List.all_eq_true]
  constructor
  · intro every nodeId container found
    have member := ExtTreeMap.mem_toList_iff_getElem?_eq_some.mpr found
    simpa using every (nodeId, container) member
  · intro every entry member
    obtain ⟨nodeId, container⟩ := entry
    have found := ExtTreeMap.mem_toList_iff_getElem?_eq_some.mp member
    simpa using every nodeId container found

/-- A snapshot lists a mark exactly when no create is in flight and the node carries it. -/
theorem mem_extractPending {state : WorkspaceState}
    (ids : ∀ run, state.env = some run → keyed run) (nodeId : String) (action : PendingAction) :
    { nodeId, action } ∈ extractPending state ↔
      state.pendingCreate? = none ∧ state.pendingAction? nodeId = some action := by
  cases env_eq : state.env with
  | none => simp [extractPending, WorkspaceState.pendingAction?, WorkspaceState.container?, env_eq]
  | some run =>
      have under := (keyed_iff run).mp (ids run env_eq)
      cases create : run.pendingCreate with
      | some plan =>
          simp [extractPending, WorkspaceState.pendingCreate?, env_eq, create]
      | none =>
          simp only [extractPending, WorkspaceState.pendingCreate?, WorkspaceState.pendingAction?,
            WorkspaceState.container?, env_eq, create, Option.isSome_none, Bool.false_eq_true,
            if_false, List.mem_filterMap, Option.map_eq_some_iff, PendingEntry.mk.injEq,
            OrderedMap.mem_listed, Option.bind_some, Option.bind_eq_some_iff, true_and]
          constructor
          · rintro ⟨container, ⟨key, found⟩, mark, marked, rfl, rfl⟩
            rw [under key container found]
            exact ⟨container, found, marked⟩
          · rintro ⟨container, found, marked⟩
            exact ⟨container, ⟨nodeId, found⟩, action, marked, under nodeId container found, rfl⟩

/-- A snapshot lists each node at most once. -/
theorem extractPending_pairwise {state : WorkspaceState}
    (ids : ∀ run, state.env = some run → keyed run) :
    (extractPending state).Pairwise fun first second => first.nodeId ≠ second.nodeId := by
  cases env_eq : state.env with
  | none => simp [extractPending, env_eq]
  | some run =>
      have under := (keyed_iff run).mp (ids run env_eq)
      unfold extractPending
      rw [env_eq]
      simp only
      split
      · exact List.Pairwise.nil
      · have distinct := run.containers.distinct_keys_toList
        rw [OrderedMap.listed, List.filterMap_map, List.pairwise_filterMap]
        refine (List.Pairwise.and_mem.mp distinct).imp ?_
        rintro ⟨key, container⟩ ⟨other, second⟩ ⟨here, there, apart⟩ entry entry_eq next next_eq
        have found := ExtTreeMap.mem_toList_iff_getElem?_eq_some.mp here
        have found' := ExtTreeMap.mem_toList_iff_getElem?_eq_some.mp there
        obtain ⟨mark, -, rfl⟩ := Option.map_eq_some_iff.mp entry_eq
        obtain ⟨mark', -, rfl⟩ := Option.map_eq_some_iff.mp next_eq
        simp only [under key container found, under other second found']
        simpa using apart

theorem extractPending_of_create {state : WorkspaceState} (creating : state.pendingCreate?.isSome) :
    extractPending state = [] := by
  cases env_eq : state.env with
  | none => simp [extractPending, env_eq]
  | some run =>
      have planned : run.pendingCreate.isSome := by
        simpa [WorkspaceState.pendingCreate?, env_eq] using creating
      simp [extractPending, env_eq, planned]

/-! ## Plans -/

section Plan

variable (inFlight : OrderedMap String PendingAction)

theorem foldl_planEntry_spawn (snapshot : List PendingEntry) (plan : Plan) :
    (snapshot.foldl (planEntry inFlight) plan).spawn =
      plan.spawn ++ snapshot.filter fun entry => inFlight[entry.nodeId]? ≠ some entry.action := by
  induction snapshot generalizing plan with
  | nil => simp
  | cons first rest ih =>
      rw [List.foldl_cons, ih]
      unfold planEntry
      split
      · rename_i action found
        split
        · rename_i same
          simp [found, same]
        · rename_i different
          simp [found, different]
      · rename_i absent
        simp [absent]

theorem mem_abort_foldl (snapshot : List PendingEntry) (plan : Plan) (nodeId : String) :
    nodeId ∈ (snapshot.foldl (planEntry inFlight) plan).abort ↔
      nodeId ∈ plan.abort ∨
        ∃ entry ∈ snapshot, entry.nodeId = nodeId ∧
          ∃ action, inFlight[nodeId]? = some action ∧ action ≠ entry.action := by
  induction snapshot generalizing plan with
  | nil => simp
  | cons first rest ih =>
      have head : nodeId ∈ (planEntry inFlight plan first).abort ↔
          nodeId ∈ plan.abort ∨ first.nodeId = nodeId ∧
            ∃ action, inFlight[nodeId]? = some action ∧ action ≠ first.action := by
        unfold planEntry
        split
        · rename_i action found
          split
          · rename_i same
            grind
          · rename_i different
            grind
        · rename_i absent
          grind
      rw [List.foldl_cons, ih, head]
      grind

/-- What is spawned: every entry that is not in flight already. -/
theorem plan_spawn (snapshot : List PendingEntry) :
    (plan inFlight snapshot).spawn =
      snapshot.filter fun entry => inFlight[entry.nodeId]? ≠ some entry.action := by
  simp [plan, foldl_planEntry_spawn]

theorem mem_plan_spawn (snapshot : List PendingEntry) (entry : PendingEntry) :
    entry ∈ (plan inFlight snapshot).spawn ↔
      entry ∈ snapshot ∧ inFlight[entry.nodeId]? ≠ some entry.action := by
  simp [plan_spawn]

/-- What is called off: a node that moved on to another action, and a start that is gone. -/
theorem mem_plan_abort (snapshot : List PendingEntry) (nodeId : String) :
    nodeId ∈ (plan inFlight snapshot).abort ↔
      (∃ entry ∈ snapshot, entry.nodeId = nodeId ∧
          ∃ action, inFlight[nodeId]? = some action ∧ action ≠ entry.action) ∨
        inFlight[nodeId]? = some .starting ∧ ∀ entry ∈ snapshot, entry.nodeId ≠ nodeId := by
  simp only [plan, List.mem_append, mem_abort_foldl, List.mem_map, List.mem_filter,
    Prod.exists, exists_and_right, exists_eq_right, ExtTreeMap.mem_toList_iff_getElem?_eq_some]
  simp

end Plan

theorem mem_pending {runtime : Runtime} {snapshot : ConvergeSnapshot} {entry : PendingEntry} :
    entry ∈ runtime.pending snapshot ↔
      entry ∈ snapshot.pending ∧
        ((entry.action = .starting ∨ entry.action = .restarting) →
          runtime.driven.contains entry.nodeId → (runtime.inFlight[entry.nodeId]?).isSome) := by
  simp only [Runtime.pending, withoutProgress, List.mem_filter]
  simp [Runtime.actions]
  grind

/-! ## One converge -/

/-- The task `id` is in flight on one of the nodes called off. -/
def Runtime.callsOff (runtime : Runtime) (aborted : List String) (id : Nat) : Prop :=
  ∃ nodeId ∈ aborted, ∃ action, runtime.inFlight[nodeId]? = some (action, id)

theorem abortStart_inFlight (runtime : Runtime) (nodeId other : String) :
    (runtime.abortStart nodeId).inFlight[other]? =
      if nodeId = other then none else runtime.inFlight[other]? := by
  unfold Runtime.abortStart
  split
  · rename_i absent
    by_cases same : nodeId = other
    · simp [← same, absent]
    · simp [same]
  · simp

theorem abortStart_tasks (runtime : Runtime) (nodeId : String) (id : Nat) :
    (runtime.abortStart nodeId).tasks[id]? =
      if (runtime.inFlight[nodeId]?).map Prod.snd = some id then
        (runtime.tasks[id]?).map Task.callOff
      else runtime.tasks[id]? := by
  unfold Runtime.abortStart
  split
  · rename_i absent
    simp [absent]
  · rename_i action flight found
    by_cases same : flight = id
    · simp [found, same]
    · simp [found, same]

/-- Calling nodes off empties their slots and touches nothing but their tasks. -/
theorem foldl_abortStart (aborted : List String) (runtime : Runtime) :
    (aborted.foldl Runtime.abortStart runtime).state = runtime.state ∧
      (aborted.foldl Runtime.abortStart runtime).driven = runtime.driven ∧
      (aborted.foldl Runtime.abortStart runtime).createInFlight = runtime.createInFlight ∧
      (aborted.foldl Runtime.abortStart runtime).tasks.length = runtime.tasks.length ∧
      ∀ other, (aborted.foldl Runtime.abortStart runtime).inFlight[other]? =
        if other ∈ aborted then none else runtime.inFlight[other]? := by
  induction aborted generalizing runtime with
  | nil => simp
  | cons nodeId aborted ih =>
      obtain ⟨state_eq, driven_eq, creating_eq, length_eq, inFlight_eq⟩ :=
        ih (runtime.abortStart nodeId)
      have unchanged : (runtime.abortStart nodeId).state = runtime.state ∧
          (runtime.abortStart nodeId).driven = runtime.driven ∧
          (runtime.abortStart nodeId).createInFlight = runtime.createInFlight ∧
          (runtime.abortStart nodeId).tasks.length = runtime.tasks.length := by
        unfold Runtime.abortStart
        split <;> simp
      refine ⟨state_eq.trans unchanged.1, driven_eq.trans unchanged.2.1,
        creating_eq.trans unchanged.2.2.1, length_eq.trans unchanged.2.2.2, fun other => ?_⟩
      rw [List.foldl_cons, inFlight_eq, abortStart_inFlight]
      grind

theorem Task.callOff_callOff (task : Task) : task.callOff.callOff = task.callOff := by
  unfold Task.callOff
  split
  · simp
  · simp

/-- Exactly the tasks in flight on the nodes are called off. -/
theorem foldl_abortStart_tasks (aborted : List String) (runtime : Runtime) (id : Nat) (task : Task)
    (found : runtime.tasks[id]? = some task) :
    (runtime.callsOff aborted id →
        (aborted.foldl Runtime.abortStart runtime).tasks[id]? = some task.callOff) ∧
      (¬runtime.callsOff aborted id →
        (aborted.foldl Runtime.abortStart runtime).tasks[id]? = some task) := by
  induction aborted generalizing runtime task with
  | nil => simp [Runtime.callsOff, found]
  | cons nodeId aborted ih =>
      have first := abortStart_tasks runtime nodeId id
      have later : (runtime.abortStart nodeId).callsOff aborted id ↔
          ∃ other ∈ aborted, other ≠ nodeId ∧
            ∃ action, runtime.inFlight[other]? = some (action, id) := by
        simp only [Runtime.callsOff, abortStart_inFlight]
        grind
      have split_calls : runtime.callsOff (nodeId :: aborted) id ↔
          (∃ action, runtime.inFlight[nodeId]? = some (action, id)) ∨
            (runtime.abortStart nodeId).callsOff aborted id := by
        rw [later]
        simp only [Runtime.callsOff]
        grind
      rw [List.foldl_cons, split_calls]
      by_cases here : ∃ action, runtime.inFlight[nodeId]? = some (action, id)
      · obtain ⟨action, flight⟩ := here
        have called : (runtime.abortStart nodeId).tasks[id]? = some task.callOff := by
          rw [first, flight, found]
          simp
        have rest := ih (runtime.abortStart nodeId) task.callOff called
        rw [Task.callOff_callOff] at rest
        refine ⟨fun _ => ?_, fun none => (none (.inl ⟨action, flight⟩)).elim⟩
        by_cases again : (runtime.abortStart nodeId).callsOff aborted id
        · exact rest.1 again
        · exact rest.2 again
      · have kept : (runtime.abortStart nodeId).tasks[id]? = some task := by
          rw [first, if_neg, found]
          intro same
          obtain ⟨flight, flight_eq, rfl⟩ := Option.map_eq_some_iff.mp same
          exact here ⟨flight.1, flight_eq⟩
        simpa only [here, false_or] using ih (runtime.abortStart nodeId) task kept

/-- Spawning appends one task for each entry. -/
theorem foldl_spawnAction (entries : List PendingEntry) (runtime : Runtime) :
    (entries.foldl Runtime.spawnAction runtime).state = runtime.state ∧
      (entries.foldl Runtime.spawnAction runtime).driven = runtime.driven ∧
      (entries.foldl Runtime.spawnAction runtime).createInFlight = runtime.createInFlight ∧
      (entries.foldl Runtime.spawnAction runtime).tasks = runtime.tasks ++
        entries.map fun entry => { job := .action entry, copy := runtime.state.env } := by
  induction entries generalizing runtime with
  | nil => simp
  | cons entry entries ih =>
      obtain ⟨state_eq, driven_eq, creating_eq, tasks_eq⟩ := ih (runtime.spawnAction entry)
      refine ⟨state_eq, driven_eq, creating_eq, ?_⟩
      rw [List.foldl_cons, tasks_eq]
      simp [Runtime.spawnAction]

/-- After spawning, a node is in flight with a task spawned for it, or as it was. -/
theorem foldl_spawnAction_inFlight (entries : List PendingEntry) (runtime : Runtime)
    (nodeId : String) :
    (∃ id entry, entries[id]? = some entry ∧ entry.nodeId = nodeId ∧
        (entries.foldl Runtime.spawnAction runtime).inFlight[nodeId]? =
          some (entry.action, runtime.tasks.length + id)) ∨
      (∀ entry ∈ entries, entry.nodeId ≠ nodeId) ∧
        (entries.foldl Runtime.spawnAction runtime).inFlight[nodeId]? =
          runtime.inFlight[nodeId]? := by
  induction entries generalizing runtime with
  | nil => simp
  | cons first entries ih =>
      rcases ih (runtime.spawnAction first) with ⟨id, entry, found, same, flight⟩ | ⟨none, flight⟩
      · refine .inl ⟨id + 1, entry, by simpa using found, same, ?_⟩
        rw [List.foldl_cons, flight]
        simp [Runtime.spawnAction, Nat.add_comm, Nat.add_left_comm]
      · by_cases here : first.nodeId = nodeId
        · refine .inl ⟨0, first, rfl, here, ?_⟩
          rw [List.foldl_cons, flight]
          simp [Runtime.spawnAction, here]
        · refine .inr ⟨?_, ?_⟩
          · intro entry member
            rcases List.mem_cons.mp member with rfl | later
            · exact here
            · exact none entry later
          · rw [List.foldl_cons, flight]
            simp [Runtime.spawnAction, here]

/-- The task spawned for an entry. -/
def fresh (state : WorkspaceState) (job : Job) : Task := { job, copy := state.env }

/-- Everything one converge does. -/
structure Converged (runtime : Runtime) (snapshot : ConvergeSnapshot) (next : Runtime) : Prop where
  state_eq : next.state = runtime.state
  driven_eq : next.driven = runtime.driven
  creating : next.createInFlight = snapshot.create.isSome
  /-- Tasks that were there are called off or left alone. -/
  old : ∀ id task, runtime.tasks[id]? = some task →
    (runtime.callsOff (runtime.planned snapshot).abort id → next.tasks[id]? = some task.callOff) ∧
      (¬runtime.callsOff (runtime.planned snapshot).abort id → next.tasks[id]? = some task)
  /-- The tasks added: one for each entry to spawn, and the create if one is to start. -/
  tasks_eq : ∃ kept added, next.tasks = kept ++ added ∧ kept.length = runtime.tasks.length ∧
    added =
      (runtime.planned snapshot).spawn.map (fun entry => fresh runtime.state (.action entry)) ++
        (if runtime.createInFlight then [] else
          snapshot.create.toList.map fun plan => fresh runtime.state (.create plan))
  /-- What is in flight: what was spawned, and what was neither called off nor settled. -/
  inFlight : ∀ nodeId,
    (∃ id entry, (runtime.planned snapshot).spawn[id]? = some entry ∧ entry.nodeId = nodeId ∧
        next.inFlight[nodeId]? = some (entry.action, runtime.tasks.length + id)) ∨
      (∀ entry ∈ (runtime.planned snapshot).spawn, entry.nodeId ≠ nodeId) ∧
        next.inFlight[nodeId]? =
          if nodeId ∉ (runtime.planned snapshot).abort ∧
              ∃ entry ∈ runtime.pending snapshot, entry.nodeId = nodeId
          then runtime.inFlight[nodeId]? else none

theorem convergeCreate_eq (runtime : Runtime) (create : Option EnvSpec) :
    runtime.convergeCreate create =
      { runtime with
        createInFlight := create.isSome
        tasks := runtime.tasks ++
          if runtime.createInFlight then [] else
            create.toList.map fun plan => fresh runtime.state (.create plan) } := by
  cases create with
  | none => simp [Runtime.convergeCreate, planCreate]
  | some plan =>
      cases creating : runtime.createInFlight <;>
        simp [Runtime.convergeCreate, planCreate, creating, Runtime.spawnCreate, fresh]

theorem retain_inFlight (runtime : Runtime) (pending : List PendingEntry) (nodeId : String) :
    (runtime.retain pending).inFlight[nodeId]? =
      if ∃ entry ∈ pending, entry.nodeId = nodeId then runtime.inFlight[nodeId]? else none := by
  have kept_iff : (pending.any fun entry => entry.nodeId == nodeId) = true ↔
      ∃ entry ∈ pending, entry.nodeId = nodeId := by simp
  simp only [Runtime.retain, ExtTreeMap.getElem?_filter']
  by_cases kept : ∃ entry ∈ pending, entry.nodeId = nodeId
  · rw [if_pos kept]
    cases found : runtime.inFlight[nodeId]? with
    | none => rfl
    | some flight => exact if_pos (kept_iff.mpr kept)
  · rw [if_neg kept]
    cases found : runtime.inFlight[nodeId]? with
    | none => rfl
    | some flight => exact if_neg (mt kept_iff.mp kept)

theorem converged (runtime : Runtime) (snapshot : ConvergeSnapshot) :
    Converged runtime snapshot (runtime.converge snapshot) := by
  have next_eq : runtime.converge snapshot =
      ((runtime.planned snapshot).spawn.foldl Runtime.spawnAction
        (((runtime.planned snapshot).abort.foldl Runtime.abortStart runtime).retain
          (runtime.pending snapshot))).convergeCreate snapshot.create := rfl
  rw [next_eq, convergeCreate_eq]
  -- name the books after each stage, and what is known of them
  obtain ⟨state_eq, driven_eq, creating_eq, length_eq, inFlight_eq⟩ :=
    foldl_abortStart (runtime.planned snapshot).abort runtime
  have called := foldl_abortStart_tasks (runtime.planned snapshot).abort runtime
  generalize (runtime.planned snapshot).abort.foldl Runtime.abortStart runtime = calledOff at *
  have retained := retain_inFlight calledOff (runtime.pending snapshot)
  have retained_tasks : (calledOff.retain (runtime.pending snapshot)).tasks = calledOff.tasks := rfl
  have retained_state : (calledOff.retain (runtime.pending snapshot)).state = calledOff.state := rfl
  have retained_driven : (calledOff.retain (runtime.pending snapshot)).driven = calledOff.driven :=
    rfl
  have retained_creating : (calledOff.retain (runtime.pending snapshot)).createInFlight =
      calledOff.createInFlight := rfl
  generalize calledOff.retain (runtime.pending snapshot) = kept at *
  obtain ⟨spawned_state, spawned_driven, spawned_creating, spawned_tasks⟩ :=
    foldl_spawnAction (runtime.planned snapshot).spawn kept
  have flights := foldl_spawnAction_inFlight (runtime.planned snapshot).spawn kept
  generalize (runtime.planned snapshot).spawn.foldl Runtime.spawnAction kept = spawned at *
  have state_all : spawned.state = runtime.state := by
    rw [spawned_state, retained_state, state_eq]
  have creating_all : spawned.createInFlight = runtime.createInFlight := by
    rw [spawned_creating, retained_creating, creating_eq]
  refine ⟨state_all, ?_, rfl, ?_, ?_, ?_⟩
  · rw [← driven_eq, ← retained_driven, ← spawned_driven]
  · intro id task found
    have bound : id < calledOff.tasks.length := by
      rw [length_eq]
      exact (List.getElem?_eq_some_iff.mp found).1
    simp only [spawned_tasks, retained_tasks, List.append_assoc, List.getElem?_append_left bound]
    exact called id task found
  · refine ⟨calledOff.tasks, _, ?_, length_eq, rfl⟩
    simp only [spawned_tasks, retained_tasks, retained_state, state_all, creating_all, state_eq,
      List.append_assoc, fresh]
  · intro nodeId
    rcases flights nodeId with ⟨id, entry, found, same, flight⟩ | ⟨none, flight⟩
    · refine .inl ⟨id, entry, found, same, ?_⟩
      rw [flight, retained_tasks, length_eq]
    · refine .inr ⟨none, ?_⟩
      rw [flight, retained, inFlight_eq]
      by_cases aborted : nodeId ∈ (runtime.planned snapshot).abort
      · simp [aborted]
      · simp [aborted]

/-! ## One move of a task -/

/-- Every move a task or its drain can make, with the action it gets reduced. -/
inductive Moves (task : Task) : TaskEvent → Task → Option Action → Prop where
  | report (progress : RunProgress) (working : Option String) (running : task.phase = .running)
      (reports : task.job.reports) (follows : follow task.working progress = some working) :
      Moves task (.report progress)
        { task with working, queue := task.queue ++ [progress] } none
  | claim (nodeId : String) (claims : task.claims = some nodeId) :
      Moves task .claim { task with mine := task.mine ++ [nodeId] } none
  | send (progress : RunProgress) (queue : List RunProgress)
      (queue_eq : task.queue = progress :: queue) (claimed : task.claims = none) :
      Moves task .send { task with queue } (task.forward progress)
  | lift (closed : task.phase.isRunning = false) (drained : task.queue = [])
      (held : task.lifted = false) : Moves task .lift { task with lifted := true } none
  | finish (outcome : RunOutcome) (settle : Action) (cascaded : List ContainerInfo)
      (running : task.phase = .running) (free : task.working = none)
      (settles : task.job.settle task.copy outcome = some (settle, cascaded)) :
      Moves task (.finish outcome) { task with phase := .closing settle cascaded } none
  | cascade (settle : Action) (info : ContainerInfo) (cascaded : List ContainerInfo)
      (closing : task.phase = .closing settle (info :: cascaded)) (lifted : task.lifted = true) :
      Moves task .cascade { task with phase := .closing settle cascaded }
        (some (.containerActionSettled info.nodeId none (.ok (some info))))
  | settle (settle : Action) (closing : task.phase = .closing settle [])
      (lifted : task.lifted = true) :
      Moves task .settle { task with phase := .settling settle } none
  | drop (alive : task.phase.ended = false) :
      Moves task .drop { task with phase := .settling task.job.abandoned } none
  | deliver (settle : Action) (settling : task.phase = .settling settle) :
      Moves task .deliver { task with phase := .settled } (some settle)

theorem Phase.isRunning_iff (phase : Phase) : phase.isRunning = true ↔ phase = .running := by
  cases phase <;> simp [Phase.isRunning]

theorem moves_of_step {task next : Task} {event : TaskEvent} {action : Option Action}
    (taken : task.step event = some (next, action)) : Moves task event next action := by
  cases event with
  | report progress =>
      simp only [Task.step, Option.ite_none_right_eq_some, Option.map_eq_some_iff,
        Prod.mk.injEq] at taken
      obtain ⟨⟨running, reports⟩, working, follows, rfl, rfl⟩ := taken
      exact .report progress working ((Phase.isRunning_iff _).mp running) reports follows
  | claim =>
      simp only [Task.step, Option.map_eq_some_iff, Prod.mk.injEq] at taken
      obtain ⟨nodeId, claims, rfl, rfl⟩ := taken
      exact .claim nodeId claims
  | send =>
      simp only [Task.step] at taken
      split at taken
      · cases taken
      · rename_i progress queue queue_eq
        simp only [Option.ite_none_right_eq_some, Option.some.injEq, Prod.mk.injEq] at taken
        obtain ⟨claimed, rfl, rfl⟩ := taken
        exact .send progress queue queue_eq claimed
  | lift =>
      simp only [Task.step, Option.ite_none_right_eq_some, Option.some.injEq,
        Prod.mk.injEq] at taken
      obtain ⟨⟨closed, drained, held⟩, rfl, rfl⟩ := taken
      exact .lift closed drained held
  | finish outcome =>
      simp only [Task.step, Option.ite_none_right_eq_some, Option.map_eq_some_iff,
        Prod.mk.injEq] at taken
      obtain ⟨⟨running, free⟩, ⟨settle, cascaded⟩, settles, rfl, rfl⟩ := taken
      exact .finish outcome settle cascaded ((Phase.isRunning_iff _).mp running) free settles
  | cascade =>
      simp only [Task.step] at taken
      split at taken
      · rename_i settle info cascaded closing lifted
        cases taken
        exact .cascade settle info cascaded closing lifted
      · cases taken
  | settle =>
      simp only [Task.step] at taken
      split at taken
      · rename_i settle closing lifted
        cases taken
        exact .settle settle closing lifted
      · cases taken
  | drop =>
      simp only [Task.step, Option.ite_none_left_eq_some, Option.some.injEq,
        Prod.mk.injEq] at taken
      obtain ⟨alive, rfl, rfl⟩ := taken
      exact .drop (by simpa using alive)
  | deliver =>
      simp only [Task.step] at taken
      split at taken
      · rename_i settle settling
        cases taken
        exact .deliver settle settling
      · cases taken

/-- A move never changes what a task is for. -/
theorem Moves.job_eq {task next : Task} {event : TaskEvent} {action : Option Action}
    (moves : Moves task event next action) : next.job = task.job := by
  cases moves <;> rfl

/-- Everything that can happen in a workspace. -/
theorem step_cases (runtime : Runtime) (event : Event) :
    step runtime event = runtime ∨
      (∃ action, event = .dispatch action ∧ external action ∧
        step runtime event = { runtime with state := dispatch runtime.state action }) ∨
      (event = .borrow ∧ runtime.seen = none ∧
        step runtime event = { runtime with seen := some (extract runtime.state) }) ∨
      (∃ snapshot next, event = .converge ∧ runtime.seen = some snapshot ∧
        Converged runtime snapshot next ∧
        step runtime event = { next with last := some snapshot, seen := none }) ∨
      (∃ id move task next action, event = .task id move ∧ runtime.tasks[id]? = some task ∧
        Moves task move next action ∧
        step runtime event =
          { runtime with
            state := action.elim runtime.state (dispatch runtime.state)
            driven := Runtime.drive runtime.driven task move
            tasks := runtime.tasks.set id next }) := by
  unfold step
  cases taken : runtime.act event with
  | none => exact .inl rfl
  | some after =>
      right
      rw [Option.getD_some]
      cases event with
      | dispatch action =>
          simp only [Runtime.act, Option.ite_none_right_eq_some, Option.some.injEq] at taken
          exact .inl ⟨action, rfl, taken.1, taken.2.symm⟩
      | borrow =>
          simp only [Runtime.act, Option.ite_none_right_eq_some, Option.some.injEq] at taken
          exact .inr (.inl ⟨rfl, taken.1.1, taken.2.symm⟩)
      | converge =>
          simp only [Runtime.act, Option.map_eq_some_iff] at taken
          obtain ⟨snapshot, seen, rfl⟩ := taken
          exact .inr (.inr (.inl ⟨snapshot, _, rfl, seen, converged runtime snapshot, rfl⟩))
      | task id move =>
          simp only [Runtime.act, Option.bind_eq_bind, Option.bind_eq_some_iff, Option.pure_def,
            Option.some.injEq] at taken
          obtain ⟨task, found, ⟨next, action⟩, taken, rfl⟩ := taken
          exact .inr (.inr (.inr ⟨id, move, task, next, action, rfl, found, moves_of_step taken,
            rfl⟩))

end Converge
end Fghj
