import Fghj.ConvergeBooks
import Fghj.Library.Slots

/-!
# No busy mark without work

When `run_effect` has caught up and nothing is left running or in flight, no container should carry
a mark and no create should be pending. The effect compares snapshots by value, so a mark that is
settled and asked for again between two reads is missed; so is a mark whose claim is lifted without
a change of state. Along runs without either, the books below show that every mark has work behind
it.
-/

namespace Fghj
namespace BusyMarks

open Std Reducer Converge

/-! ## The condition -/

/-- The report is about no other node than the job's own. -/
def ofOwn (job : Job) : RunProgress → Prop
  | .planned _ _ => True
  | .working nodeId _ => job.own = some nodeId
  | .done done => job.own = some done.info.nodeId

/-- The task has reported no work on another node. -/
def Silent (task : Task) : Prop :=
  task.mine = [] ∧ (∀ progress ∈ task.queue, ofOwn task.job progress) ∧
    (task.working = none ∨ task.working = task.job.own)

/-- The event does not slip past the effect: no request asks again for what the effect still counts
as in flight, no create is asked for while the last one is counted, and no task ends early once it
has reported work on another node. -/
def Orderly (runtime : Runtime) : Event → Prop
  | .dispatch action =>
      (∀ nodeId pending next, requested action = some (nodeId, pending) →
          reduce runtime.state action = .ok next →
          ∀ id, runtime.inFlight[nodeId]? ≠ some (pending, id)) ∧
        (runtime.state.pendingCreate? = none →
          (dispatch runtime.state action).pendingCreate?.isSome → runtime.createInFlight = false)
  | .converge =>
      ∀ snapshot, runtime.seen = some snapshot → ∀ (id : Nat) (task : Task),
        runtime.tasks[id]? = some task →
        runtime.callsOff (runtime.planned snapshot).abort id → task.phase.ended = false →
        Silent task
  | .task id (.report progress) =>
      ∀ task : Task, runtime.tasks[id]? = some task → task.calledOff = true →
        ofOwn task.job progress
  | .task id .drop =>
      ∀ task : Task, runtime.tasks[id]? = some task → task.phase.ended = false → Silent task
  | _ => True

/-! ## Tasks that end early -/

/-- A task that was called off or ended early reported no work on another node. -/
structure Composed (task : Task) : Prop where
  given : task.calledOff = true → Silent task
  ended : task.phase.ended = true → task.lifted = true ∨ Silent task
  released : task.phase.isRunning = false → task.working = none ∨ task.working = task.job.own

theorem composed_fresh (state : WorkspaceState) (job : Job) : Composed (fresh state job) where
  given := fun calledOff => by cases calledOff
  ended := fun ended => by cases ended
  released := fun _ => .inl rfl

variable {task : Task}

theorem Composed.callOff (composed : Composed task)
    (silent : task.phase.ended = false → Silent task) : Composed task.callOff := by
  unfold Task.callOff
  split
  · exact composed
  · rename_i alive
    exact { composed with given := fun _ => silent (by simpa using alive) }

/-- A silent task has nothing to claim. -/
theorem Silent.claims_eq_none (silent : Silent task) : task.claims = none := by
  by_contra claims
  obtain ⟨nodeId, claims⟩ := Option.ne_none_iff_exists'.mp claims
  obtain ⟨foreign, -, action, queue, queue_eq⟩ := claims_eq_some claims
  have own := silent.2.1 (.working nodeId (some action))
    (by rw [queue_eq]; exact List.mem_cons_self)
  exact foreign own

variable {progress : RunProgress}

theorem follow_own {job : Job} {working next : Option String} (own : ofOwn job progress)
    (free : working = none ∨ working = job.own) (follows : follow working progress = some next) :
    next = none ∨ next = job.own := by
  cases progress with
  | planned start stop =>
      cases follows
      exact free
  | working nodeId action =>
      cases action with
      | some action =>
          cases working with
          | none =>
              cases follows
              exact .inr own.symm
          | some current => cases follows
      | none =>
          cases working with
          | none => cases follows
          | some current =>
              simp only [follow, Option.ite_none_right_eq_some, Option.some.injEq] at follows
              exact .inl follows.2.symm
  | done done =>
      cases working with
      | none => cases follows
      | some current =>
          simp only [follow, Option.ite_none_right_eq_some, Option.some.injEq] at follows
          exact .inl follows.2.symm

variable {runtime : Runtime} {task next : Task} {action : Option Action} {event : TaskEvent}

/-- An orderly move keeps a task composed. -/
theorem Composed.moves {id : Nat} (composed : Composed task) (sound : task.Sound)
    (found : runtime.tasks[id]? = some task) (moves : Moves task event next action)
    (orderly : Orderly runtime (.task id event)) : Composed next := by
  cases moves with
  | report progress working running reports follows =>
      refine ⟨fun calledOff => ?_, fun ended => ?_, fun closed => ?_⟩
      · obtain ⟨unclaimed, queued, free⟩ := composed.given calledOff
        have own := orderly task found calledOff
        refine ⟨unclaimed, ?_, follow_own own free follows⟩
        intro other member
        rcases List.mem_append.mp member with earlier | here
        · exact queued other earlier
        · rw [List.mem_singleton.mp here]
          exact own
      · simp [running, Phase.ended] at ended
      · simp [running, Phase.isRunning] at closed
  | claim nodeId claims =>
      have noisy : ¬Silent task := by
        intro silent
        rw [silent.claims_eq_none] at claims
        cases claims
      refine ⟨fun calledOff => (noisy (composed.given calledOff)).elim, fun ended => ?_,
        composed.released⟩
      rcases composed.ended ended with lifted | silent
      · exact .inl lifted
      · exact (noisy silent).elim
  | send progress queue queue_eq claimed =>
      have shorter (silent : Silent task) : Silent { task with queue } := by
        refine ⟨silent.1, fun other member => ?_, silent.2.2⟩
        exact silent.2.1 other (by rw [queue_eq]; exact List.mem_cons_of_mem _ member)
      exact ⟨fun calledOff => shorter (composed.given calledOff),
        fun ended => (composed.ended ended).imp (fun lifted => lifted) shorter, composed.released⟩
  | lift closed drained held =>
      exact ⟨fun calledOff => composed.given calledOff, fun _ => .inl rfl, composed.released⟩
  | finish outcome settle cascaded running free settles =>
      exact ⟨fun calledOff => composed.given calledOff, fun ended => (by cases ended),
        fun _ => .inl free⟩
  | cascade settle info cascaded closing lifted =>
      exact ⟨fun calledOff => composed.given calledOff, fun ended => (by cases ended),
        fun _ => .inl (sound.free settle (info :: cascaded) closing)⟩
  | settle settle closing lifted =>
      exact ⟨fun calledOff => composed.given calledOff, fun _ => .inl lifted,
        fun _ => .inl (sound.free settle [] closing)⟩
  | drop alive =>
      have silent := orderly task found alive
      exact ⟨fun _ => silent, fun _ => .inr silent, fun _ => silent.2.2⟩
  | deliver settle settling =>
      refine ⟨fun calledOff => composed.given calledOff, fun _ => ?_, fun _ => ?_⟩
      · exact composed.ended (by rw [settling]; rfl)
      · exact composed.released (by rw [settling]; rfl)

/-! ## Starts -/

/-- A start that is under way is what the effect has in flight on its node. -/
def StartsInFlight (runtime : Runtime) : Prop :=
  ∀ (id : Nat) (task : Task) (nodeId : String), runtime.tasks[id]? = some task →
    task.job = .action { nodeId, action := .starting } → task.lifted = false →
    task.phase.ended = false → task.calledOff = false →
    runtime.inFlight[nodeId]? = some (.starting, id)

/-- The marks of the last snapshot left something in flight. -/
def Inhabited (runtime : Runtime) : Prop :=
  ∀ snapshot, runtime.last = some snapshot → snapshot.pending ≠ [] →
    ∃ (nodeId : String) (flight : PendingAction × Nat), runtime.inFlight[nodeId]? = some flight

theorem alive_of_moves (moves : Moves task event next action) :
    (next.lifted = false → task.lifted = false) ∧
      (next.phase.ended = false → task.phase.ended = false) ∧
      next.calledOff = task.calledOff := by
  cases moves with
  | report progress working running => exact ⟨id, fun _ => by rw [running]; rfl, rfl⟩
  | lift => exact ⟨fun lifted => (by cases lifted), id, rfl⟩
  | finish outcome settle cascaded running => exact ⟨id, fun _ => by rw [running]; rfl, rfl⟩
  | cascade settle info cascaded closing => exact ⟨id, fun _ => by rw [closing]; rfl, rfl⟩
  | settle settle closing => exact ⟨id, fun _ => by rw [closing]; rfl, rfl⟩
  | drop alive => exact ⟨id, fun _ => alive, rfl⟩
  | deliver => exact ⟨id, fun ended => (by cases ended), rfl⟩
  | _ => exact ⟨id, id, rfl⟩

theorem StartsInFlight.moves {id : Nat} (starts : StartsInFlight runtime)
    (found : runtime.tasks[id]? = some task) (moves : Moves task event next action) :
    StartsInFlight { runtime with
      state := action.elim runtime.state (dispatch runtime.state)
      driven := Runtime.drive runtime.driven task event
      tasks := runtime.tasks.set id next } := by
  intro other held nodeId held_eq job_eq unlifted unended wanted
  rcases Slots.getElem?_set_cases held_eq with ⟨rfl, rfl⟩ | ⟨-, before⟩
  · obtain ⟨lifted, ended, calledOff⟩ := alive_of_moves moves
    exact starts id task nodeId found (by rw [← moves.job_eq, job_eq]) (lifted unlifted)
      (ended unended) (by rw [← calledOff, wanted])
  · exact starts other held nodeId before job_eq unlifted unended wanted

variable {nodeId : String}

section Converged

variable {runtime next : Runtime} {snapshot : ConvergeSnapshot}

theorem actions_getElem? (runtime : Runtime) (nodeId : String) :
    runtime.actions[nodeId]? = (runtime.inFlight[nodeId]?).map Prod.fst := by
  simp [Runtime.actions]

/-- A start in flight that is not called off stays in flight. -/
theorem start_kept (converged : Converged runtime snapshot next) {id : Nat}
    (flight : runtime.inFlight[nodeId]? = some (.starting, id))
    (kept : nodeId ∉ (runtime.planned snapshot).abort) :
    next.inFlight[nodeId]? = some (.starting, id) := by
  have current : runtime.actions[nodeId]? = some .starting := by
    rw [actions_getElem?, flight]
    rfl
  have wanted : ∃ entry ∈ runtime.pending snapshot, entry.nodeId = nodeId := by
    by_contra gone
    apply kept
    rw [Runtime.planned, mem_plan_abort]
    refine .inr ⟨current, fun entry member same => gone ⟨entry, member, same⟩⟩
  rcases converged.inFlight nodeId with ⟨place, entry, entry_eq, same, -⟩ | ⟨-, flight_eq⟩
  · -- a spawned entry of this node would have called the start off
    have spawned := (mem_plan_spawn _ _ _).mp (List.mem_of_getElem? entry_eq)
    apply absurd _ kept
    rw [Runtime.planned, mem_plan_abort]
    refine .inl ⟨entry, spawned.1, same, .starting, current, fun equal => spawned.2 ?_⟩
    rw [same, current, equal]
  · rw [flight_eq, if_pos ⟨kept, wanted⟩, flight]

theorem spawn_apart (books : Books runtime) (seen : runtime.seen = some snapshot)
    {first second : Nat} {one other : PendingEntry}
    (first_eq : (runtime.planned snapshot).spawn[first]? = some one)
    (second_eq : (runtime.planned snapshot).spawn[second]? = some other)
    (same : one.nodeId = other.nodeId) : first = second := by
  have apart : (runtime.planned snapshot).spawn.Pairwise fun first second =>
      first.nodeId ≠ second.nodeId := by
    rw [Runtime.planned, plan_spawn, Runtime.pending, withoutProgress]
    exact ((books.apart snapshot seen).filter _).filter _
  obtain ⟨first_bound, rfl⟩ := List.getElem?_eq_some_iff.mp first_eq
  obtain ⟨second_bound, rfl⟩ := List.getElem?_eq_some_iff.mp second_eq
  rw [List.pairwise_iff_getElem] at apart
  rcases Nat.lt_trichotomy first second with less | equal | greater
  · exact (apart first second first_bound second_bound less same).elim
  · exact equal
  · exact (apart second first second_bound first_bound greater same.symm).elim

theorem StartsInFlight.converged (starts : StartsInFlight runtime) (books : Books runtime)
    (seen : runtime.seen = some snapshot) (converged : Converged runtime snapshot next) :
    StartsInFlight { next with last := some snapshot, seen := none } := by
  intro id task nodeId found job_eq unlifted unended wanted
  rcases converged.task_cases found with ⟨before, before_eq, same⟩ |
    ⟨place, entry, entry_eq, rfl, rfl⟩ | ⟨plan, -, -, -, rfl⟩
  · rcases same with ⟨rfl, -⟩ | ⟨rfl, spared⟩
    · exfalso
      unfold Task.callOff at unended wanted
      split at wanted
      · rename_i ended
        rw [if_pos ended, ended] at unended
        cases unended
      · cases wanted
    · have flight := starts id task nodeId before_eq job_eq unlifted unended wanted
      apply start_kept converged flight
      intro aborted
      exact spared ⟨nodeId, aborted, .starting, flight⟩
  · cases job_eq
    rcases converged.inFlight nodeId with ⟨other, second, second_eq, same, flight⟩ | ⟨none, -⟩
    · have places := spawn_apart books seen entry_eq second_eq same.symm
      subst places
      rw [entry_eq] at second_eq
      cases second_eq
      exact flight
    · exact (none _ (List.mem_of_getElem? entry_eq) rfl).elim
  · cases job_eq

/-- Every mark that is a job of its own has something in flight. -/
theorem pending_inFlight (converged : Converged runtime snapshot next)
    {entry : PendingEntry} (member : entry ∈ runtime.pending snapshot) :
    ∃ flight : PendingAction × Nat, next.inFlight[entry.nodeId]? = some flight := by
  rcases converged.inFlight entry.nodeId with ⟨place, spawned, -, -, flight⟩ | ⟨none, flight⟩
  · exact ⟨_, flight⟩
  · -- not spawned, so in flight with the action asked for, and so not called off
    have current (other : PendingEntry) (listed : other ∈ runtime.pending snapshot)
        (same : other.nodeId = entry.nodeId) :
        runtime.actions[entry.nodeId]? = some other.action := by
      by_contra different
      exact none other ((mem_plan_spawn _ _ _).mpr ⟨listed, by rwa [same]⟩) same
    have kept : entry.nodeId ∉ (runtime.planned snapshot).abort := by
      rw [Runtime.planned, mem_plan_abort]
      rintro (⟨other, listed, same, action, action_eq, different⟩ | ⟨-, gone⟩)
      · rw [current other listed same] at action_eq
        cases action_eq
        exact different rfl
      · exact gone entry member rfl
    have here := current entry member rfl
    rw [actions_getElem?] at here
    obtain ⟨held, held_eq, -⟩ := Option.map_eq_some_iff.mp here
    exact ⟨held, by rw [flight, if_pos ⟨kept, entry, member, rfl⟩, held_eq]⟩

/-- Marks the effect takes for progress come with a start in flight that drives their nodes. -/
theorem inhabited_converged (starts : StartsInFlight runtime) (books : Books runtime)
    (composed : ∀ (id : Nat) (task : Task), runtime.tasks[id]? = some task → Composed task)
    (orderly : Orderly runtime .converge) (seen : runtime.seen = some snapshot)
    (settled : ∀ (id : Nat) (task : Task) plan, runtime.tasks[id]? = some task →
      task.job = .create plan → snapshot.pending ≠ [] → task.phase.isSettled = true)
    (converged : Converged runtime snapshot next) :
    Inhabited { next with last := some snapshot, seen := none } := by
  intro last last_eq marks
  cases last_eq
  by_contra empty
  have none (entry : PendingEntry) : entry ∉ runtime.pending snapshot := by
    intro member
    obtain ⟨flight, found⟩ := pending_inFlight converged member
    exact empty ⟨entry.nodeId, flight, found⟩
  obtain ⟨entry, member⟩ := List.exists_mem_of_ne_nil _ marks
  have driven : runtime.driven.contains entry.nodeId := by
    by_contra undriven
    exact none entry (mem_pending.mpr ⟨member, fun _ claimed => (undriven claimed).elim⟩)
  obtain ⟨id, task, found, unlifted, held⟩ := books.counts.driver driven
  have noisy : ¬Silent task := by
    rintro ⟨unclaimed, -⟩
    rw [unclaimed] at held
    cases held
  have unended : task.phase.ended = false := by
    by_contra ended
    rcases (composed id task found).ended (by simpa using ended) with lifted | silent
    · rw [unlifted] at lifted
      cases lifted
    · exact noisy silent
  have wanted : task.calledOff = false := by
    by_contra calledOff
    exact noisy ((composed id task found).given (by simpa using calledOff))
  cases job_eq : task.job with
  | create plan =>
      have done := settled id task plan found job_eq marks
      cases phase_eq : task.phase with
      | settled =>
          rw [phase_eq] at unended
          cases unended
      | _ =>
          rw [phase_eq] at done
          cases done
  | action own =>
      have starting : own.action = .starting := by
        by_contra other
        have quiet := (books.sound id task found).quiet (by simp [job_eq, Job.reports, other])
        rw [quiet.2.1] at held
        cases held
      have own_eq : own = { nodeId := own.nodeId, action := .starting } := by
        rw [← starting]
      have flight := starts id task own.nodeId found (by rw [job_eq, ← own_eq]) unlifted unended
        wanted
      -- the start's own mark is gone from the snapshot, so converging calls it off
      have aborted : own.nodeId ∈ (runtime.planned snapshot).abort := by
        by_contra kept
        exact empty ⟨own.nodeId, _, start_kept converged flight kept⟩
      exact noisy (orderly snapshot seen id task found ⟨own.nodeId, aborted, .starting, flight⟩
        unended)

end Converged

/-! ## Creates -/

/-- The task is a create whose settle has not been reduced. -/
def OpenCreate (runtime : Runtime) (id : Nat) : Prop :=
  ∃ (task : Task) (plan : EnvSpec), runtime.tasks[id]? = some task ∧ task.job = .create plan ∧
    task.phase.isSettled = false

/-- At most one create is open, and the effect and the workspace both know of it. -/
structure Creates (runtime : Runtime) : Prop where
  planned : ∀ id, OpenCreate runtime id → runtime.state.pendingCreate?.isSome
  single : ∀ id other, OpenCreate runtime id → OpenCreate runtime other → id = other
  served : runtime.createInFlight = true → runtime.state.pendingCreate?.isSome →
    ∃ id, OpenCreate runtime id
  counted : ∀ id, OpenCreate runtime id → runtime.createInFlight = true
  seen : ∀ snapshot id, runtime.seen = some snapshot → OpenCreate runtime id →
    snapshot.create.isSome
  fresh : ∀ snapshot, runtime.seen = some snapshot → snapshot.create.isSome →
    runtime.createInFlight = false → runtime.state.pendingCreate?.isSome

/-- A move other than the delivery of a create's settle leaves the open creates as they are. -/
theorem openCreate_moves {id : Nat} {after : Runtime} (found : runtime.tasks[id]? = some task)
    (moves : Moves task event next action)
    (kept : next.phase.isSettled = task.phase.isSettled ∨ ∃ entry, task.job = .action entry)
    (tasks_eq : after.tasks = runtime.tasks.set id next) (other : Nat) :
    OpenCreate after other ↔ OpenCreate runtime other := by
  have bound := (List.getElem?_eq_some_iff.mp found).1
  have same_job := moves.job_eq
  constructor
  · rintro ⟨held, plan, held_eq, job_eq, unsettled⟩
    rw [tasks_eq] at held_eq
    rcases Slots.getElem?_set_cases held_eq with ⟨rfl, rfl⟩ | ⟨-, before⟩
    · refine ⟨task, plan, found, by rw [← same_job, job_eq], ?_⟩
      rcases kept with phase_eq | ⟨entry, entry_eq⟩
      · rw [← phase_eq, unsettled]
      · rw [same_job, entry_eq] at job_eq
        cases job_eq
    · exact ⟨held, plan, before, job_eq, unsettled⟩
  · rintro ⟨held, plan, held_eq, job_eq, unsettled⟩
    by_cases same : id = other
    · subst same
      rw [found] at held_eq
      cases held_eq
      refine ⟨next, plan, by simp [tasks_eq, bound], by rw [same_job, job_eq], ?_⟩
      rcases kept with phase_eq | ⟨entry, entry_eq⟩
      · rw [phase_eq, unsettled]
      · rw [entry_eq] at job_eq
        cases job_eq
    · exact ⟨held, plan, by simpa [tasks_eq, same] using held_eq, job_eq, unsettled⟩

section PendingCreate

variable {state : WorkspaceState} {action : Action}

theorem pendingCreate?_of_report (reports : isReport action)
    (ongoing : settlesCreate action = false) :
    (dispatch state action).pendingCreate? = state.pendingCreate? := by
  rw [dispatch_report reports]
  cases env_eq : state.env with
  | none => simp [WorkspaceState.pendingCreate?, env_eq]
  | some run =>
      simp only [WorkspaceState.pendingCreate?, env_eq, Option.map_some, Option.bind_some,
        report_pendingCreate]
      cases action <;> first | rfl | cases ongoing

theorem pendingCreate?_of_settle (result : Except EnvCreateError EnvState) :
    (dispatch state (.envCreateSettled result)).pendingCreate? = none := by
  rw [dispatch_report rfl]
  cases env_eq : state.env with
  | none => simp [WorkspaceState.pendingCreate?]
  | some run => simp [WorkspaceState.pendingCreate?, report_pendingCreate]

theorem pendingCreate?_of_external (outside : external action)
    (creating : state.pendingCreate?.isSome) :
    (dispatch state action).pendingCreate?.isSome := by
  rcases dispatch_cases state action with
    ⟨-, unchanged⟩ | ⟨plan, -, -, next⟩ | ⟨first, -, -, next⟩ |
    ⟨named, taken, run, marked, -, env_eq, -, marks, next⟩ | ⟨owner, -, next⟩ | ⟨reports, -⟩
  · rw [unchanged]
    exact creating
  · rw [next]
    rfl
  · rw [next]
    rfl
  · rw [next]
    simpa [WorkspaceState.pendingCreate?, env_eq, marks.pendingCreate_eq] using creating
  · rw [next]
    exact creating
  · have ongoing : settlesCreate action = false := by
      cases action <;> first | rfl | cases outside
    rw [pendingCreate?_of_report reports ongoing]
    exact creating

end PendingCreate

theorem creates_initial (state : WorkspaceState) : Creates { state } := by
  have none (id : Nat) : ¬OpenCreate { state } id := by
    rintro ⟨task, plan, found, -⟩
    cases found
  exact ⟨fun id opened => (none id opened).elim, fun id _ opened => (none id opened).elim,
    fun creating => (by cases creating), fun id opened => (none id opened).elim,
    fun _ id _ opened => (none id opened).elim, fun _ seen => (by cases seen)⟩

theorem Creates.dispatch {action : Action} (creates : Creates runtime) (outside : external action)
    (orderly : Orderly runtime (.dispatch action)) :
    Creates { runtime with state := Reducer.dispatch runtime.state action } where
  planned := fun id opened => pendingCreate?_of_external outside (creates.planned id opened)
  single := creates.single
  served := by
    intro creating planned
    by_cases before : runtime.state.pendingCreate? = none
    · have idle := orderly.2 before planned
      rw [idle] at creating
      cases creating
    · exact creates.served creating (Option.isSome_iff_ne_none.mpr before)
  counted := creates.counted
  seen := creates.seen
  fresh := fun snapshot seen wanted idle =>
    pendingCreate?_of_external outside (creates.fresh snapshot seen wanted idle)

theorem Creates.borrow (creates : Creates runtime) :
    Creates { runtime with seen := some (extract runtime.state) } where
  planned := creates.planned
  single := creates.single
  served := creates.served
  counted := creates.counted
  seen := by
    intro snapshot id same opened
    cases same
    exact creates.planned id opened
  fresh := by
    intro snapshot same wanted _
    cases same
    exact wanted

theorem callOff_job (task : Task) :
    task.callOff.job = task.job ∧ task.callOff.phase = task.phase ∧
      task.callOff.queue = task.queue ∧ task.callOff.working = task.working := by
  unfold Task.callOff
  split <;> exact ⟨rfl, rfl, rfl, rfl⟩

section ConvergedCreates

variable {runtime next : Runtime} {snapshot : ConvergeSnapshot}

/-- A converge keeps every task's job and phase. -/
theorem task_kept (converged : Converged runtime snapshot next) {id : Nat}
    (found : runtime.tasks[id]? = some task) :
    ∃ kept : Task, next.tasks[id]? = some kept ∧ kept.job = task.job ∧ kept.phase = task.phase ∧
      kept.queue = task.queue ∧ kept.working = task.working := by
  obtain ⟨called, left⟩ := converged.old id task found
  by_cases calls : runtime.callsOff (runtime.planned snapshot).abort id
  · exact ⟨_, called calls, callOff_job task⟩
  · exact ⟨_, left calls, rfl, rfl, rfl, rfl⟩

theorem openCreate_kept (converged : Converged runtime snapshot next) {id : Nat}
    (opened : OpenCreate runtime id) : OpenCreate next id := by
  obtain ⟨task, plan, found, job_eq, unsettled⟩ := opened
  obtain ⟨kept, kept_eq, same_job, same_phase, -⟩ := task_kept converged found
  exact ⟨kept, plan, kept_eq, by rw [same_job, job_eq], by rw [same_phase, unsettled]⟩

/-- An open create after a converge was open before, or is the one spawned. -/
theorem openCreate_cases (converged : Converged runtime snapshot next) {id : Nat}
    (opened : OpenCreate next id) :
    OpenCreate runtime id ∨ runtime.createInFlight = false ∧ snapshot.create.isSome ∧
      id = runtime.tasks.length + (runtime.planned snapshot).spawn.length := by
  obtain ⟨task, plan, found, job_eq, unsettled⟩ := opened
  rcases converged.task_cases found with ⟨before, before_eq, same⟩ |
    ⟨place, entry, -, -, rfl⟩ | ⟨wanted, idle, wanted_eq, place, -⟩
  · left
    rcases same with ⟨rfl, -⟩ | ⟨rfl, -⟩
    · obtain ⟨same_job, same_phase, -⟩ := callOff_job before
      exact ⟨before, plan, before_eq, by rw [← same_job, job_eq], by rw [← same_phase, unsettled]⟩
    · exact ⟨task, plan, before_eq, job_eq, unsettled⟩
  · cases job_eq
  · exact .inr ⟨idle, by rw [wanted_eq]; rfl, place⟩

theorem openCreate_spawned (converged : Converged runtime snapshot next)
    (idle : runtime.createInFlight = false) (wanted : snapshot.create.isSome) :
    ∃ id, OpenCreate next id := by
  obtain ⟨plan, plan_eq⟩ := Option.isSome_iff_exists.mp wanted
  obtain ⟨kept, added, tasks_eq, length_eq, rfl⟩ := converged.tasks_eq
  refine ⟨kept.length + (runtime.planned snapshot).spawn.length, fresh runtime.state (.create plan),
    plan, ?_, rfl, rfl⟩
  rw [tasks_eq, List.getElem?_append_right (by omega), Nat.add_sub_cancel_left,
    List.getElem?_append_right (by simp), List.length_map, Nat.sub_self, idle, plan_eq]
  rfl

theorem Creates.converged (creates : Creates runtime) (seen : runtime.seen = some snapshot)
    (converged : Converged runtime snapshot next) :
    Creates { next with last := some snapshot, seen := none } where
  planned := by
    intro id opened
    rw [converged.state_eq]
    rcases openCreate_cases converged opened with before | ⟨idle, wanted, -⟩
    · exact creates.planned id before
    · exact creates.fresh snapshot seen wanted idle
  single := by
    intro id other opened opened'
    rcases openCreate_cases converged opened with before | ⟨idle, -, place⟩ <;>
      rcases openCreate_cases converged opened' with before' | ⟨idle', -, place'⟩
    · exact creates.single id other before before'
    · have creating := creates.counted id before
      rw [idle'] at creating
      cases creating
    · have creating := creates.counted other before'
      rw [idle] at creating
      cases creating
    · rw [place, place']
  served := by
    intro creating planned
    rw [converged.state_eq] at planned
    have wanted : snapshot.create.isSome := by
      rw [← converged.creating]
      exact creating
    cases before : runtime.createInFlight with
    | true =>
        obtain ⟨id, opened⟩ := creates.served before planned
        exact ⟨id, openCreate_kept converged opened⟩
    | false =>
        obtain ⟨id, opened⟩ := openCreate_spawned converged before wanted
        exact ⟨id, opened⟩
  counted := by
    intro id opened
    change next.createInFlight = true
    rw [converged.creating]
    rcases openCreate_cases converged opened with before | ⟨-, wanted, -⟩
    · exact creates.seen snapshot id seen before
    · exact wanted
  seen := fun _ _ same => by cases same
  fresh := fun _ same => by cases same

end ConvergedCreates

/-- A move settles nothing, or delivers the settle of its job. -/
theorem settled_of_moves (moves : Moves task event next action) :
    next.phase.isSettled = task.phase.isSettled ∨
      ∃ settle, task.phase = .settling settle ∧ action = some settle ∧
        next = { task with phase := .settled } := by
  cases moves with
  | finish outcome settle cascaded running => exact .inl (by rw [running]; rfl)
  | cascade settle info cascaded closing => exact .inl (by rw [closing]; rfl)
  | settle settle closing => exact .inl (by rw [closing]; rfl)
  | drop alive =>
      left
      cases phase_eq : task.phase with
      | settled =>
          rw [phase_eq] at alive
          cases alive
      | _ => rfl
  | deliver settle settling => exact .inr ⟨settle, settling, rfl, rfl⟩
  | _ => exact .inl rfl

/-- What a move gets reduced is a report, and it ends a create only as that create's settle. -/
theorem report_of_moves {action : Action} (sound : task.Sound)
    (moves : Moves task event next (some action)) :
    isReport action ∧
      (settlesCreate action = true → event = .deliver ∧ ∃ plan, task.job = .create plan) := by
  generalize reduced_eq : some action = reduced at moves
  cases moves with
  | send progress queue queue_eq claimed =>
      cases progress with
      | planned start stop => cases reduced_eq
      | working nodeId pending =>
          simp only [Task.forward] at reduced_eq
          split at reduced_eq
          · cases reduced_eq
          · cases reduced_eq
            exact ⟨rfl, fun settles => by cases settles⟩
      | done done =>
          simp only [Task.forward] at reduced_eq
          split at reduced_eq
          · cases reduced_eq
          · cases reduced_eq
            exact ⟨rfl, fun settles => by cases settles⟩
  | cascade settle info cascaded closing lifted =>
      cases reduced_eq
      exact ⟨rfl, fun settles => by cases settles⟩
  | deliver settle settling =>
      cases reduced_eq
      have settles := sound.settles action (by rw [settling]; rfl)
      cases job_eq : task.job with
      | action entry =>
          rw [job_eq] at settles
          obtain ⟨result, rfl, -⟩ := settles
          exact ⟨rfl, fun ends => by cases ends⟩
      | create plan =>
          rw [job_eq] at settles
          obtain ⟨result, rfl, -⟩ := settles
          exact ⟨rfl, fun _ => ⟨rfl, plan, rfl⟩⟩
  | _ => cases reduced_eq

/-- What is known of the creates stays known while the same ones are open and one is pending or not
as before. -/
theorem Creates.congr {runtime after : Runtime} (creates : Creates runtime)
    (opens : ∀ id, OpenCreate after id ↔ OpenCreate runtime id)
    (pending : after.state.pendingCreate? = runtime.state.pendingCreate?)
    (inFlight : after.createInFlight = runtime.createInFlight)
    (seen : after.seen = runtime.seen) : Creates after where
  planned := by
    intro id held
    rw [pending]
    exact creates.planned id ((opens id).mp held)
  single := fun id other held held' =>
    creates.single id other ((opens id).mp held) ((opens other).mp held')
  served := by
    intro creating planned
    rw [inFlight] at creating
    rw [pending] at planned
    obtain ⟨id, held⟩ := creates.served creating planned
    exact ⟨id, (opens id).mpr held⟩
  counted := by
    intro id held
    rw [inFlight]
    exact creates.counted id ((opens id).mp held)
  seen := by
    intro snapshot id taken held
    rw [seen] at taken
    exact creates.seen snapshot id taken ((opens id).mp held)
  fresh := by
    intro snapshot taken wanted idle
    rw [seen] at taken
    rw [inFlight] at idle
    rw [pending]
    exact creates.fresh snapshot taken wanted idle

/-- A create that is delivered was the only one open, and none is pending afterwards. -/
theorem Creates.delivered {runtime after : Runtime} {id : Nat} (creates : Creates runtime)
    (opened : OpenCreate runtime id)
    (others : ∀ other, OpenCreate after other → other ≠ id ∧ OpenCreate runtime other)
    (idle : after.state.pendingCreate? = none)
    (inFlight : after.createInFlight = runtime.createInFlight) : Creates after := by
  have closed (other : Nat) : ¬OpenCreate after other := fun held =>
    (others other held).1 (creates.single other id (others other held).2 opened)
  refine ⟨fun other held => (closed other held).elim,
    fun other _ held => (closed other held).elim, fun _ planned => ?_,
    fun other held => (closed other held).elim, fun _ other _ held => (closed other held).elim,
    fun snapshot seen wanted uncounted => ?_⟩
  · simp [idle] at planned
  · have creating := creates.counted id opened
    rw [inFlight, creating] at uncounted
    cases uncounted

theorem Creates.moves {id : Nat} (creates : Creates runtime) (books : Books runtime)
    (found : runtime.tasks[id]? = some task) (moves : Moves task event next action) :
    Creates { runtime with
      state := action.elim runtime.state (Reducer.dispatch runtime.state)
      driven := Runtime.drive runtime.driven task event
      tasks := runtime.tasks.set id next } := by
  have sound := books.sound id task found
  by_cases ends : ∃ settle plan, action = some settle ∧ settlesCreate settle = true ∧
      task.job = .create plan
  · obtain ⟨settle, plan, rfl, settles, job_eq⟩ := ends
    obtain ⟨rfl, -⟩ := (report_of_moves sound moves).2 settles
    obtain ⟨settle', settling, same, rfl⟩ := (settled_of_moves moves).resolve_left (by
      cases moves with
      | deliver settle settling => simp [settling, Phase.isSettled])
    cases same
    have opened : OpenCreate runtime id := ⟨task, plan, found, job_eq, by rw [settling]; rfl⟩
    refine creates.delivered opened ?_ ?_ rfl
    · rintro other ⟨held, other_plan, held_eq, held_job, unsettled⟩
      rcases Slots.getElem?_set_cases held_eq with ⟨rfl, rfl⟩ | ⟨different, before⟩
      · cases unsettled
      · exact ⟨different.symm, held, other_plan, before, held_job, unsettled⟩
    · change (Reducer.dispatch runtime.state settle).pendingCreate? = none
      cases settle <;> first | exact pendingCreate?_of_settle _ | cases settles
  · refine creates.congr (fun other => openCreate_moves found moves ?_ rfl other) ?_ rfl rfl
    · rcases settled_of_moves moves with same | ⟨settle, settling, rfl, -⟩
      · exact .inl same
      · right
        have settles := sound.settles settle (by rw [settling]; rfl)
        cases job_eq : task.job with
        | action entry => exact ⟨entry, rfl⟩
        | create plan =>
            rw [job_eq] at settles
            obtain ⟨result, rfl, -⟩ := settles
            exact (ends ⟨_, plan, rfl, rfl, job_eq⟩).elim
    · cases action with
      | none => rfl
      | some action =>
          obtain ⟨reports, create⟩ := report_of_moves sound moves
          change (Reducer.dispatch runtime.state action).pendingCreate? = _
          cases settles : settlesCreate action with
          | false => exact pendingCreate?_of_report reports settles
          | true =>
              obtain ⟨-, plan, job_eq⟩ := create settles
              exact (ends ⟨action, plan, rfl, settles, job_eq⟩).elim

/-! ## Marks -/

/-- The node a drain has announced and not yet reported on. -/
def announced : List RunProgress → Option String → Option String
  | [], working => working
  | .planned _ _ :: queue, working => announced queue working
  | .working nodeId none :: _, _ => some nodeId
  | .working _ (some _) :: _, _ => none
  | .done done :: _, _ => some done.info.nodeId

theorem announced_eq {queue : List RunProgress} {shown working : Option String}
    (follows : queue.foldlM follow shown = some working) : announced queue working = shown := by
  induction queue generalizing shown with
  | nil =>
      cases follows
      rfl
  | cons progress queue ih =>
      rw [List.foldlM_cons] at follows
      obtain ⟨after, first, rest⟩ := Option.bind_eq_some_iff.mp follows
      cases progress with
      | planned start stop =>
          cases first
          exact ih rest
      | working nodeId action =>
          cases action with
          | some action =>
              cases shown with
              | none => rfl
              | some current => cases first
          | none =>
              cases shown with
              | none => cases first
              | some current =>
                  simp only [follow, Option.ite_none_right_eq_some] at first
                  rw [first.1]
                  rfl
      | done done =>
          cases shown with
          | none => cases first
          | some current =>
              simp only [follow, Option.ite_none_right_eq_some] at first
              rw [first.1]
              rfl

/-- The task has set, or is about to clear, a mark on another node. -/
def Shows (task : Task) (nodeId : String) : Prop :=
  announced task.queue task.working = some nodeId ∧ task.job.own ≠ some nodeId

/-- A mark the effect takes for its task in flight has that task, or a drain that put it there. -/
def Backed (runtime : Runtime) : Prop :=
  ∀ (nodeId : String) (pending : PendingAction) (id : Nat),
    runtime.inFlight[nodeId]? = some (pending, id) →
    runtime.state.pendingAction? nodeId = some pending → runtime.state.pendingCreate? = none →
    (∃ task : Task, runtime.tasks[id]? = some task ∧ task.phase.isSettled = false) ∨
      ∃ (other : Nat) (task : Task), runtime.tasks[other]? = some task ∧ Shows task nodeId

theorem observes_of_external {action : Action} (outside : external action)
    (reports : isReport action) : observes action := by
  cases action <;> trivial

theorem Backed.dispatch {action : Action} (backed : Backed runtime) (outside : external action)
    (orderly : Orderly runtime (.dispatch action)) :
    Backed { runtime with state := Reducer.dispatch runtime.state action } := by
  intro nodeId pending id flight marked idle
  have unchanged (same : (Reducer.dispatch runtime.state action).pendingAction? nodeId =
      runtime.state.pendingAction? nodeId)
      (before : runtime.state.pendingCreate? = none) :=
    backed nodeId pending id flight (by rw [← same]; exact marked) before
  have before : runtime.state.pendingCreate? = none := by
    by_contra creating
    have after := pendingCreate?_of_external outside (Option.isSome_iff_ne_none.mpr creating)
    simp only [idle] at after
    cases after
  cases outcome : reduce runtime.state action with
  | error rejected => exact unchanged (by rw [dispatch_of_error outcome]) before
  | ok next =>
      rcases dispatch_cases runtime.state action with
        ⟨-, same⟩ | ⟨plan, -, -, next_eq⟩ | ⟨first, -, -, next_eq⟩ |
        ⟨named, taken, run, after, request, env_eq, -, marks, next_eq⟩ | ⟨owner, -, next_eq⟩ |
        ⟨reports, -⟩
      · exact unchanged (by rw [same]) before
      · simp only [next_eq] at idle
        cases idle
      · simp only [next_eq] at idle
        cases idle
      · by_cases same : named = nodeId
        · -- the request's own mark: the effect has nothing of the kind in flight
          subst same
          simp only [next_eq, WorkspaceState.pendingAction?, WorkspaceState.container?,
            Option.bind_some] at marked
          have asked := orderly.1 named taken next request outcome id
          cases marks with
          | place absent start =>
              have equal : pending = taken := by simpa [startingPlaceholder, start]
                using marked.symm
              rw [equal] at flight
              exact (asked flight).elim
          | mark container desired found free named_eq =>
              have equal : taken = pending := by simpa using marked
              rw [← equal] at flight
              exact (asked flight).elim
          | callOff container found started unnamed => simp at marked
        · refine unchanged ?_ before
          simp only [next_eq, WorkspaceState.pendingAction?, WorkspaceState.container?, env_eq,
            Option.bind_some, marks.get_of_ne same]
      · exact unchanged (by rw [next_eq]; rfl) before
      · exact unchanged
          (pendingAction?_of_observation (observes_of_external outside reports) nodeId) before

theorem Backed.converged {runtime next : Runtime} {snapshot : ConvergeSnapshot}
    (backed : Backed runtime) (converged : Converged runtime snapshot next) :
    Backed { next with last := some snapshot, seen := none } := by
  intro nodeId pending id flight marked idle
  simp only [converged.state_eq] at marked idle
  rcases converged.flight_cases flight with ⟨-, -, spawned⟩ | ⟨-, -, before⟩
  · exact .inl ⟨_, spawned, rfl⟩
  · rcases backed nodeId pending id before marked idle with
      ⟨task, found, unsettled⟩ | ⟨other, task, found, foreign, shows⟩
    · obtain ⟨kept, kept_eq, -, same_phase, -⟩ := task_kept converged found
      exact .inl ⟨kept, kept_eq, by rw [same_phase, unsettled]⟩
    · obtain ⟨kept, kept_eq, same_job, -, same_queue, same_working⟩ := task_kept converged found
      refine .inr ⟨other, kept, kept_eq, ?_, ?_⟩
      · rw [same_queue, same_working, foreign]
      · rw [same_job]
        exact shows

/-- What a report forwarded by the drain does to marks: it announces a node, or clears its mark. -/
theorem mark_of_forward (state : WorkspaceState) {action : Action} {shown after : Option String}
    (forwards : task.forward progress = some action)
    (follows : follow shown progress = some after) :
    ∃ nodeId, namedNode action = some nodeId ∧ task.job.own ≠ some nodeId ∧
      (after = some nodeId ∧ shown = none ∨
        shown = some nodeId ∧ (dispatch state action).pendingAction? nodeId = none) := by
  have cleared (nodeId : String) (action : Action) (reports : isReport action)
      (gone : ∀ run : EnvState, ((report action run).containers[nodeId]?).bind
        ContainerInfo.pendingAction = none) :
      (dispatch state action).pendingAction? nodeId = none := by
    rw [pendingAction?_of_report reports]
    cases state.env with
    | none => rfl
    | some run => exact gone run
  cases progress with
  | planned start stop => cases forwards
  | working nodeId pending =>
      simp only [Task.forward, Option.ite_none_left_eq_some, Option.some.injEq] at forwards
      obtain ⟨foreign, rfl⟩ := forwards
      refine ⟨nodeId, rfl, foreign, ?_⟩
      cases pending with
      | some pending =>
          cases shown with
          | none =>
              cases follows
              exact .inl ⟨rfl, rfl⟩
          | some current => cases follows
      | none =>
          cases shown with
          | none => cases follows
          | some current =>
              simp only [follow, Option.ite_none_right_eq_some] at follows
              refine .inr ⟨by rw [follows.1], cleared _ _ rfl fun run => ?_⟩
              cases found : run.containers[nodeId]? with
              | none => simp [report, workOnContainer, found]
              | some container =>
                  cases placeholder : isPlaceholder container <;>
                    simp [report, workOnContainer, found, placeholder]
  | done done =>
      simp only [Task.forward, Option.ite_none_left_eq_some, Option.some.injEq] at forwards
      obtain ⟨foreign, rfl⟩ := forwards
      refine ⟨done.info.nodeId, rfl, foreign, ?_⟩
      cases shown with
      | none => cases follows
      | some current =>
          simp only [follow, Option.ite_none_right_eq_some] at follows
          refine .inr ⟨by rw [follows.1], cleared _ _ rfl fun run => ?_⟩
          simp [report, recordProgress]

/-- A report the drain skips is about the job's own node or about none. -/
theorem announced_of_skipped {shown after : Option String} (skips : task.forward progress = none)
    (follows : follow shown progress = some after) (foreign : task.job.own ≠ some nodeId)
    (announced : shown = some nodeId) : after = some nodeId := by
  subst announced
  cases progress with
  | planned start stop =>
      cases follows
      rfl
  | working named pending =>
      have own : task.job.own = some named := by
        simpa [Task.forward] using skips
      cases pending with
      | some pending => cases follows
      | none =>
          simp only [follow, Option.ite_none_right_eq_some] at follows
          rw [own, ← follows.1] at foreign
          exact (foreign rfl).elim
  | done done =>
      have own : task.job.own = some done.info.nodeId := by
        simpa [Task.forward] using skips
      simp only [follow, Option.ite_none_right_eq_some] at follows
      rw [own, ← follows.1] at foreign
      exact (foreign rfl).elim

/-- Work behind a mark the effect takes for a task in flight. -/
def Behind (tasks : List Task) (nodeId : String) (flight : Nat) : Prop :=
  (∃ task : Task, tasks[flight]? = some task ∧ task.phase.isSettled = false) ∨
    ∃ (other : Nat) (task : Task), tasks[other]? = some task ∧ Shows task nodeId

theorem Backed.behind (backed : Backed runtime) {pending : PendingAction} {flight : Nat}
    (flies : runtime.inFlight[nodeId]? = some (pending, flight))
    (marked : runtime.state.pendingAction? nodeId = some pending)
    (idle : runtime.state.pendingCreate? = none) : Behind runtime.tasks nodeId flight :=
  backed nodeId pending flight flies marked idle

/-- The work behind a mark stays if the moving task neither settles it nor hides it. -/
theorem Behind.set {tasks : List Task} {flight id : Nat} (behind : Behind tasks nodeId flight)
    (found : tasks[id]? = some task)
    (unsettled : id = flight → task.phase.isSettled = false → next.phase.isSettled = false)
    (shows : Shows task nodeId → Shows next nodeId) : Behind (tasks.set id next) nodeId flight := by
  have bound := (List.getElem?_eq_some_iff.mp found).1
  rcases behind with ⟨held, held_eq, open_held⟩ | ⟨other, held, held_eq, shown⟩
  · left
    by_cases same : id = flight
    · subst same
      rw [found] at held_eq
      cases held_eq
      exact ⟨next, List.getElem?_set_self bound, unsettled rfl open_held⟩
    · exact ⟨held, by rw [List.getElem?_set_ne same, held_eq], open_held⟩
  · right
    by_cases same : id = other
    · subst same
      rw [found] at held_eq
      cases held_eq
      exact ⟨id, next, List.getElem?_set_self bound, shows shown⟩
    · exact ⟨other, held, by rw [List.getElem?_set_ne same, held_eq], shown⟩

/-- A report that joins the queue announces nothing before the others are through. -/
theorem Shows.report (sound : task.Sound) {working : Option String}
    (follows : follow task.working progress = some working) (shows : Shows task nodeId) :
    Shows { task with working, queue := task.queue ++ [progress] } nodeId := by
  obtain ⟨shown, queued⟩ := sound.follows
  have later : (task.queue ++ [progress]).foldlM follow shown = some working := by
    simp [List.foldlM_append, queued, follows]
  refine ⟨?_, shows.2⟩
  rw [announced_eq later, ← announced_eq queued]
  exact shows.1

section Moves

variable {runtime : Runtime} {id : Nat} {task : Task} (backed : Backed runtime)
  (books : Books runtime) (found : runtime.tasks[id]? = some task) {nodeId : String}
  {pending : PendingAction} {flight : Nat} (flies : runtime.inFlight[nodeId]? = some
    (pending, flight))

include backed books found flies

/-- A report the drain sends on takes its node's mark off, or shows the mark to be its own. -/
theorem Backed.send {queue : List RunProgress} (queue_eq : task.queue = progress :: queue)
    (claimed : task.claims = none)
    (marked : ((task.forward progress).elim runtime.state
      (Reducer.dispatch runtime.state)).pendingAction? nodeId = some pending)

    (idle : ((task.forward progress).elim runtime.state
      (Reducer.dispatch runtime.state)).pendingCreate? = none) :
    Behind (runtime.tasks.set id { task with queue }) nodeId flight := by
  have sound := books.sound id task found
  obtain ⟨shown, queued⟩ := sound.follows
  have announces := announced_eq queued
  rw [queue_eq, List.foldlM_cons] at queued
  obtain ⟨after, follows, rest⟩ := Option.bind_eq_some_iff.mp queued
  have announces_next := announced_eq rest
  cases forwards : task.forward progress with
  | none =>
      simp only [forwards, Option.elim_none] at marked idle
      refine (backed.behind flies marked idle).set found
        (fun _ unsettled => unsettled) fun shows => ⟨?_, shows.2⟩
      exact announces_next.trans (announced_of_skipped forwards follows shows.2
        (announces.symm.trans shows.1))
  | some action =>
      simp only [forwards, Option.elim_some] at marked idle
      obtain ⟨reports, create⟩ :=
        report_of_moves sound (forwards ▸ Moves.send progress queue queue_eq claimed)
      have ongoing : settlesCreate action = false := by
        by_contra settles
        obtain ⟨impossible, -⟩ := create (by simpa using settles)
        cases impossible
      rw [pendingCreate?_of_report reports ongoing] at idle
      obtain ⟨named, names, foreign, effect⟩ := mark_of_forward runtime.state forwards follows
      by_cases same : named = nodeId
      · subst same
        rcases effect with ⟨announced, -⟩ | ⟨-, cleared⟩
        · have bound := (List.getElem?_eq_some_iff.mp found).1
          exact .inr ⟨id, { task with queue }, List.getElem?_set_self bound,
            announces_next.trans announced, foreign⟩
        · rw [cleared] at marked
          cases marked
      · rw [pendingAction?_of_report_ne reports ongoing (by simpa [names] using same)] at marked
        refine (backed.behind flies marked idle).set found
          (fun _ unsettled => unsettled) fun shows => ?_
        have here := announces.symm.trans shows.1
        rcases effect with ⟨-, unannounced⟩ | ⟨announced, -⟩
        · rw [unannounced] at here
          cases here
        · rw [announced] at here
          cases here
          exact (same rfl).elim

/-- A settle takes the mark of its own job off, and leaves a mark that is not of its kind. -/
theorem Backed.deliver {settle : Action} (settling : task.phase = .settling settle)
    (marked : (Reducer.dispatch runtime.state settle).pendingAction? nodeId = some pending)
    (idle : (Reducer.dispatch runtime.state settle).pendingCreate? = none) :
    Behind (runtime.tasks.set id { task with phase := .settled }) nodeId flight := by
  have settles := (books.sound id task found).settles settle (by rw [settling]; rfl)
  obtain ⟨plan, job_eq⟩ | ⟨entry, job_eq⟩ :
      (∃ plan, task.job = .create plan) ∨ ∃ entry, task.job = .action entry := by
    cases task.job <;> simp
  · rw [job_eq] at settles
    obtain ⟨result, rfl, -⟩ := settles
    rw [pendingAction?_of_create_settled] at marked
    cases marked
  · rw [job_eq] at settles
    obtain ⟨result, rfl, -⟩ := settles
    rw [pendingCreate?_of_report rfl rfl] at idle
    -- a task in flight on the node is for the mark there is
    have own_flight (here : id = flight) : entry = { nodeId, action := pending } := by
      subst here
      obtain ⟨held, held_eq, held_job⟩ := books.flights nodeId pending id flies
      rw [found] at held_eq
      cases held_eq
      rw [job_eq] at held_job
      cases held_job
      rfl
    by_cases same : entry.nodeId = nodeId
    · rw [← same, pendingAction?_of_settled] at marked
      split at marked
      · rename_i stale
        refine (backed.behind flies (same ▸ marked) idle).set found (fun here => ?_)
          fun shows => shows
        rw [own_flight here] at stale marked
        exact (stale.2 marked.symm).elim
      · cases marked
    · rw [pendingAction?_of_report_ne rfl rfl (by simpa [namedNode] using same)] at marked
      refine (backed.behind flies marked idle).set found (fun here => ?_) fun shows => shows
      rw [own_flight here] at same
      exact (same rfl).elim

end Moves

theorem Backed.moves {id : Nat} (backed : Backed runtime) (books : Books runtime)
    (found : runtime.tasks[id]? = some task) (moves : Moves task event next action) :
    Backed { runtime with
      state := action.elim runtime.state (Reducer.dispatch runtime.state)
      driven := Runtime.drive runtime.driven task event
      tasks := runtime.tasks.set id next } := by
  intro nodeId pending flight flies marked idle
  -- what the moves that settle nothing and clear no mark leave behind it
  have carry (before : runtime.state.pendingAction? nodeId = some pending)
      (before_idle : runtime.state.pendingCreate? = none)
      (same : next.phase.isSettled = task.phase.isSettled)
      (shows : Shows task nodeId → Shows next nodeId) :
      Behind (runtime.tasks.set id next) nodeId flight :=
    (backed.behind flies before before_idle).set found
      (fun _ unsettled => by rw [same, unsettled]) shows
  cases moves with
  | report progress working running reports follows =>
      exact carry marked idle rfl (Shows.report (books.sound id task found) follows)
  | send progress queue queue_eq claimed =>
      exact backed.send books found flies queue_eq claimed marked idle
  | cascade settle info cascaded closing lifted =>
      simp only [Option.elim_some] at marked idle
      rw [pendingCreate?_of_report rfl rfl] at idle
      by_cases same : info.nodeId = nodeId
      · rw [← same, pendingAction?_of_settled] at marked
        simp at marked
      · rw [pendingAction?_of_report_ne rfl rfl (by simpa [namedNode] using same)] at marked
        exact carry marked idle (by rw [closing]; rfl) fun shows => shows
  | deliver settle settling => exact backed.deliver books found flies settling marked idle
  | claim nodeId claims => exact carry marked idle rfl fun shows => shows
  | lift closed drained held => exact carry marked idle rfl fun shows => shows
  | finish outcome settle cascaded running free settles =>
      exact carry marked idle (by rw [running]; rfl) fun shows => shows
  | settle settle closing lifted =>
      exact carry marked idle (by rw [closing]; rfl) fun shows => shows
  | drop alive =>
      exact (backed.behind flies marked idle).set found
        (fun _ _ => rfl) fun shows => shows

/-! ## Whole runs -/

/-- Every mark the effect counts has work behind it. -/
structure Steady (runtime : Runtime) : Prop where
  books : Books runtime
  composed : ∀ (id : Nat) (task : Task), runtime.tasks[id]? = some task → Composed task
  starts : StartsInFlight runtime
  inhabited : Inhabited runtime
  creates : Creates runtime
  backed : Backed runtime

theorem steady_initial {state : WorkspaceState} (ids : Keyed state) : Steady { state } where
  books := books_initial ids
  composed := fun id task found => by cases found
  starts := fun id task nodeId found => by cases found
  inhabited := fun snapshot last => by cases last
  creates := creates_initial state
  backed := fun nodeId pending id flight => by simp at flight

theorem Steady.converged {runtime next : Runtime} {snapshot : ConvergeSnapshot}
    (steady : Steady runtime) (orderly : Orderly runtime .converge)
    (seen : runtime.seen = some snapshot) (converged : Converged runtime snapshot next) :
    Steady { next with last := some snapshot, seen := none } where
  books := steady.books.converged converged
  composed := by
    intro id task found
    rcases converged.task_cases found with ⟨before, before_eq, same⟩ |
      ⟨place, entry, -, -, rfl⟩ | ⟨plan, -, -, -, rfl⟩
    · rcases same with ⟨rfl, calls⟩ | ⟨rfl, -⟩
      · exact (steady.composed id before before_eq).callOff fun alive =>
          orderly snapshot seen id before before_eq calls alive
      · exact steady.composed id task before_eq
    · exact composed_fresh runtime.state _
    · exact composed_fresh runtime.state _
  starts := steady.starts.converged steady.books seen converged
  inhabited := by
    refine inhabited_converged steady.starts steady.books steady.composed orderly seen ?_ converged
    intro id task plan found job_eq marks
    by_contra unsettled
    have opened : OpenCreate runtime id := ⟨task, plan, found, job_eq, by simpa using unsettled⟩
    exact marks (steady.books.read snapshot seen (steady.creates.seen snapshot id seen opened))
  creates := steady.creates.converged seen converged
  backed := steady.backed.converged converged

/-- An orderly event keeps every mark backed. -/
theorem Steady.step (steady : Steady runtime) {event : Event} (orderly : Orderly runtime event) :
    Steady (step runtime event) := by
  have books := steady.books.step event
  rcases step_cases runtime event with unchanged | ⟨action, rfl, outside, next⟩ | ⟨rfl, -, next⟩ |
    ⟨snapshot, next, rfl, seen, converged, next_eq⟩ |
    ⟨id, move, task, next, action, rfl, found, moves, next_eq⟩
  · rw [unchanged]
    exact steady
  · rw [next] at books ⊢
    exact { steady with
      books
      creates := steady.creates.dispatch outside orderly
      backed := steady.backed.dispatch outside orderly }
  · rw [next] at books ⊢
    exact { steady with
      books
      creates := steady.creates.borrow
      backed := steady.backed }
  · rw [next_eq]
    exact steady.converged orderly seen converged
  · rw [next_eq] at books ⊢
    refine ⟨books, ?_, steady.starts.moves found moves, steady.inhabited,
      steady.creates.moves steady.books found moves, steady.backed.moves steady.books found moves⟩
    intro other held held_eq
    rcases Slots.getElem?_set_cases held_eq with ⟨rfl, rfl⟩ | ⟨-, before⟩
    · exact (steady.composed id task found).moves (steady.books.sound id task found) found moves
        orderly
    · exact steady.composed other held before

/-- The effect's last snapshot is that of the state there is. -/
def CaughtUp (runtime : Runtime) : Prop := runtime.last = some (extract runtime.state)

instance (runtime : Runtime) : Decidable (CaughtUp runtime) :=
  inferInstanceAs (Decidable (runtime.last = some (extract runtime.state)))

/-- No task is running, and no report or settle is on its way. -/
def AtRest (runtime : Runtime) : Prop :=
  ∀ (id : Nat) (task : Task), runtime.tasks[id]? = some task →
    task.phase.isSettled = true ∧ task.queue = [] ∧ task.lifted = true

/-- No container carries a mark and no create is pending. -/
def Unmarked (state : WorkspaceState) : Prop :=
  (∀ nodeId, state.pendingAction? nodeId = none) ∧ state.pendingCreate? = none

/-- A steady runtime that is at rest and caught up has nothing marked. -/
theorem Steady.unmarked (steady : Steady runtime) (caught : CaughtUp runtime)
    (rest : AtRest runtime) : Unmarked runtime.state := by
  have closed (id : Nat) : ¬OpenCreate runtime id := by
    rintro ⟨task, plan, found, -, unsettled⟩
    rw [(rest id task found).1] at unsettled
    cases unsettled
  have idle : runtime.state.pendingCreate? = none := by
    by_contra creating
    have planned := Option.isSome_iff_ne_none.mpr creating
    have counted : runtime.createInFlight = true := by
      rw [steady.books.creating _ caught]
      exact planned
    obtain ⟨id, opened⟩ := steady.creates.served counted planned
    exact closed id opened
  refine ⟨fun nodeId => ?_, idle⟩
  by_contra marked
  obtain ⟨pending, mark⟩ := Option.ne_none_iff_exists'.mp marked
  have listed := (mem_extractPending steady.books.ids nodeId pending).mpr ⟨idle, mark⟩
  -- something is in flight, and its mark is there, so it has work behind it
  obtain ⟨other, ⟨action, id⟩, flight⟩ := steady.inhabited _ caught (List.ne_nil_of_mem listed)
  obtain ⟨snapshot, last, member⟩ := steady.books.listed other action id flight
  rw [caught] at last
  cases last
  have other_mark := ((mem_extractPending steady.books.ids other action).mp member).2
  rcases steady.backed other action id flight other_mark idle with
    ⟨task, found, unsettled⟩ | ⟨holder, task, found, announced, foreign⟩
  · rw [(rest id task found).1] at unsettled
    cases unsettled
  · obtain ⟨settled, empty, -⟩ := rest holder task found
    have closed : task.phase.isRunning = false := by
      cases phase_eq : task.phase <;> simp_all [Phase.isSettled, Phase.isRunning]
    have working : task.working = some other := by
      simpa [empty, BusyMarks.announced] using announced
    rcases (steady.composed holder task found).released closed with free | own
    · rw [free] at working
      cases working
    · exact foreign (own ▸ working)

/-- The runtime after a run from a workspace without marks. -/
def after (initial : WorkspaceState) (events : List Event) : Runtime :=
  Execution.run step { state := initial } events

/-- Along every orderly run, whenever the effect has caught up and nothing runs or is in flight, no
container has a mark and no create is pending. -/
theorem unmarked_of_orderly {initial : WorkspaceState} (idle : Idle initial) {events : List Event}
    (orderly : Execution.Along step Orderly { state := initial } events)
    (caught : CaughtUp (after initial events)) (rest : AtRest (after initial events)) :
    Unmarked (after initial events).state := by
  have steady : Steady (after initial events) :=
    Execution.run_invariant step Orderly Steady (fun _ _ held kept => held.step kept)
      (steady_initial idle.2.2) orderly
  exact steady.unmarked caught rest

/-- A web server that is down. -/
def webDown : WorkspaceState where
  env := some
    { network := "fghj-app-default"
      containers := (∅ : OrderedMap String ContainerInfo).insert "web.app"
        { nodeId := "web.app"
          desired := { running := true, containerName := "fghj-app-default-web-app" }
          observed := { status := "exited" } } }

theorem idle_webDown : Idle webDown := by
  refine ⟨rfl, fun nodeId => ?_, fun run run_eq => ?_⟩
  · simp only [webDown, WorkspaceState.pendingAction?, WorkspaceState.container?,
      Option.bind_some, ExtTreeMap.getElem?_insert]
    split
    · rfl
    · simp
  · cases run_eq
    decide

/-- A start of the web server that fails, from the request to the settle. -/
def failedStart : List Event :=
  [.dispatch (.nodeStartRequested "web.app"), .borrow, .converge,
    .task 0 (.finish (.action (.error "web.app: image not found") [])), .task 0 .lift,
    .task 0 .settle, .task 0 .deliver]

theorem atRest_of_all
    (every : (runtime.tasks.all fun task : Task =>
      task.phase.isSettled && task.queue.isEmpty && task.lifted) = true) :
    AtRest runtime := by
  intro id task found
  have here := List.all_eq_true.mp every task (List.mem_of_getElem? found)
  simpa [and_assoc] using here

/-- A start asked for again before the effect reads the settle of the last one is never worked
on. -/
theorem start_again_is_missed :
    ¬∀ (initial : WorkspaceState), Idle initial → ∀ events : List Event,
      CaughtUp (after initial events) → AtRest (after initial events) →
      Unmarked (after initial events).state := by
  intro unmarked
  have none := unmarked webDown idle_webDown
    (failedStart ++ [.dispatch (.nodeStartRequested "web.app")]) (by decide)
    (atRest_of_all (by decide))
  have marked := none.1 "web.app"
  revert marked
  decide

/-- The failed start, read by the effect before anything else, leaves no mark. -/
theorem unmarked_failedStart :
    Unmarked (after webDown (failedStart ++ [.borrow, .converge])).state := by
  apply unmarked_of_orderly idle_webDown
  · have asked : Orderly { state := webDown } (.dispatch (.nodeStartRequested "web.app")) := by
      refine ⟨fun nodeId pending next _ _ id => by simp, fun _ planned => ?_⟩
      revert planned
      decide
    have read (runtime : Runtime)
        (ended : (runtime.tasks.all fun task : Task => task.phase.ended) = true) :
        Orderly runtime .converge := by
      intro snapshot _ id task found _ alive
      have finished := List.all_eq_true.mp ended task (List.mem_of_getElem? found)
      rw [alive] at finished
      cases finished
    exact ⟨asked, trivial, read _ (by decide), trivial, trivial, trivial, trivial, trivial,
      read _ (by decide), trivial⟩
  · decide
  · exact atRest_of_all (by decide)

end BusyMarks
end Fghj
