import Fghj.ConvergeSpec

/-!
# The books of the effect

What holds of the runtime after any run at all: records stay under their ids, a task's settle is the
settle of its own job, a drain follows the run it drains, and the shared claims count the tasks that
hold them.
-/

namespace Fghj
namespace Converge

open Std Reducer Orchestrator

/-! ## Records under their ids -/

/-- Every record of the environment is kept under the id it carries. -/
def Keyed (state : WorkspaceState) : Prop := ∀ run, state.env = some run → keyed run

/-- The report keeps the records it carries under their ids. -/
def Identified : Action → Prop
  | .containerActionSettled nodeId _ (.ok (some info)) => info.nodeId = nodeId
  | .envCreateSettled result => ∀ created, carried result = some created → keyed created
  | _ => True

variable {nodeId : String} {action : Action}

section Keyed

variable {run : EnvState}

theorem keyed_of_containers {other : EnvState} (ids : keyed run)
    (same : other.containers = run.containers) : keyed other := by
  rw [keyed, same]
  exact ids

theorem keyed_insert (ids : keyed run) {info : ContainerInfo} (same : info.nodeId = nodeId) :
    keyed { run with containers := run.containers.insert nodeId info } := by
  rw [keyed_iff] at ids ⊢
  intro key container found
  simp only [ExtTreeMap.getElem?_insert, Std.compare_eq_iff_eq] at found
  split at found
  · rename_i here
    cases found
    rw [same, here]
  · exact ids key container found

theorem keyed_erase (ids : keyed run) (nodeId : String) :
    keyed { run with containers := run.containers.erase nodeId } := by
  rw [keyed_iff] at ids ⊢
  intro key container found
  simp only [ExtTreeMap.getElem?_erase, Std.compare_eq_iff_eq] at found
  split at found
  · cases found
  · exact ids key container found

theorem keyed_modify (ids : keyed run) (nodeId : String) {update : ContainerInfo → ContainerInfo}
    (same : ∀ container, (update container).nodeId = container.nodeId) :
    keyed { run with containers := run.containers.modify nodeId update } := by
  rw [keyed_iff] at ids ⊢
  intro key container found
  simp only [OrderedMap.get_modify] at found
  split at found
  · obtain ⟨before, before_eq, rfl⟩ := Option.map_eq_some_iff.mp found
    rw [same, ids key before before_eq]
  · exact ids key container found

theorem keyed_clearCreateMarks (ids : keyed run) : keyed (clearCreateMarks run) := by
  rw [keyed_iff] at ids ⊢
  intro key container found
  simp only [clearCreateMarks, ExtTreeMap.getElem?_map, Option.map_eq_some_iff,
    ExtTreeMap.getElem?_filter', Option.filter_eq_some_iff] at found
  obtain ⟨before, ⟨before_eq, -⟩, rfl⟩ := found
  exact ids key before before_eq

theorem keyed_marks {marked : EnvState} {pending : PendingAction} (ids : keyed run)
    (marks : Marks run nodeId pending marked) : keyed marked := by
  cases marks with
  | place => exact keyed_insert ids rfl
  | mark container desired found =>
      exact keyed_insert ids ((keyed_iff run).mp ids nodeId container found)
  | callOff => exact keyed_erase ids nodeId

theorem observeContainer_nodeId (container : ContainerInfo) (status : String)
    (publishedPort : Option UInt16) (ports : OrderedMap String (Option UInt16))
    (exitCode : Option Int) (unseen : Bool) (basedOn : ContainerObserved) :
    (observeContainer container status publishedPort ports exitCode unseen basedOn).nodeId =
      container.nodeId := by
  unfold observeContainer
  split
  · rfl
  · split <;> rfl

theorem keyed_report (ids : keyed run) (identified : Identified action) :
    keyed (report action run) := by
  have under := (keyed_iff run).mp ids
  cases action with
  | containerObserved nodeId status publishedPort ports exitCode unseen basedOn =>
      exact keyed_modify ids nodeId fun container =>
        observeContainer_nodeId container status publishedPort ports exitCode unseen basedOn
  | containerActionSettled nodeId of result =>
      simp only [report, settleContainerAction]
      split
      · exact ids
      · split
        · exact keyed_insert ids identified
        · exact keyed_erase ids nodeId
        · exact keyed_modify ids nodeId fun _ => rfl
  | envCreateSettled result =>
      obtain ⟨created, created_eq, settles⟩ := settleEnvCreate_eq run result
      simp only [report, settles]
      apply keyed_clearCreateMarks
      cases held : carried result with
      | none =>
          rw [created_eq, held]
          exact ids
      | some other =>
          rw [created_eq, held]
          exact identified other held
  | envCreateProgress network sidecarContainerName sidecarIp info =>
      exact keyed_insert ids rfl
  | envCreateWorking nodeId action =>
      simp only [report, workOnContainer]
      split
      · rename_i container found
        exact keyed_insert ids (under nodeId container found)
      · exact keyed_insert ids rfl
      · rename_i container found
        split
        · exact keyed_erase ids nodeId
        · exact keyed_insert ids (under nodeId container found)
      · exact ids
  | configDriftObserved nodeId drift seeded => exact keyed_modify ids nodeId fun _ => rfl
  | _ => exact ids

end Keyed

/-- Reducing an action keeps every record under its id. -/
theorem keyed_dispatch {state : WorkspaceState} (ids : Keyed state)
    (identified : Identified action) :
    Keyed (dispatch state action) := by
  intro after after_eq
  rcases dispatch_cases state action with
    ⟨-, unchanged⟩ | ⟨plan, -, -, next⟩ | ⟨first, -, -, next⟩ |
    ⟨named, pending, run, marked, -, env_eq, -, marks, next⟩ | ⟨owner, -, next⟩ |
    ⟨-, next⟩
  · exact ids after (by rw [← after_eq, unchanged])
  · rw [next] at after_eq
    cases after_eq
    cases env_eq : state.env with
    | none => rfl
    | some run => exact keyed_of_containers (ids run env_eq) rfl
  · rw [next] at after_eq
    cases after_eq
    rfl
  · rw [next] at after_eq
    cases after_eq
    exact keyed_marks (ids run env_eq) marks
  · rw [next] at after_eq
    exact ids after after_eq
  · rw [next] at after_eq
    obtain ⟨run, env_eq, rfl⟩ := Option.map_eq_some_iff.mp after_eq
    exact keyed_report (ids run env_eq) identified

theorem identified_of_external (outside : external action) : Identified action := by
  cases action <;> trivial

/-! ## Tasks -/

/-- The settle a task holds or has on its way. -/
def Phase.settle? : Phase → Option Action
  | .closing settle _ => some settle
  | .settling settle => some settle
  | _ => none

/-- The action settles the job: under its node and action, with a record of that node, stopped if
that was the job. -/
def Settles (job : Job) (settle : Action) : Prop :=
  match job with
  | .action entry =>
      ∃ result, settle = .containerActionSettled entry.nodeId (some entry.action) result ∧
        ∀ info, result = .ok (some info) →
          info.nodeId = entry.nodeId ∧ (entry.action = .stopping → info.desired.running = false)
  | .create _ => ∃ result, settle = .envCreateSettled result ∧ Identified settle

theorem Settles.identified {job : Job} {settle : Action} (settles : Settles job settle) :
    Identified settle := by
  cases job with
  | action entry =>
      obtain ⟨result, rfl, records⟩ := settles
      rcases result with message | record
      · trivial
      · cases record with
        | none => trivial
        | some info => exact (records info rfl).1
  | create plan =>
      obtain ⟨result, rfl, identified⟩ := settles
      exact identified

theorem settles_abandoned (job : Job) : Settles job job.abandoned := by
  cases job with
  | action entry => exact ⟨_, rfl, fun info same => by cases same⟩
  | create plan => exact ⟨_, rfl, fun created held => by cases held⟩

theorem stops_iff (container info : ContainerInfo) :
    stops container info = true ↔
      info = stopContainer container (.ok (some { status := info.observed.status })) := by
  simp [stops]

/-- Whatever the work answers, the settle made of it settles the job. -/
theorem settles_of_settle {job : Job} {copy : Option EnvState} {outcome : RunOutcome}
    {settle : Action} {cascaded : List ContainerInfo} (ids : ∀ run, copy = some run → keyed run)
    (ends : job.settle copy outcome = some (settle, cascaded)) : Settles job settle := by
  cases job with
  | action entry =>
      cases outcome with
      | create result => cases ends
      | action result others =>
          simp only [Job.settle, Option.ite_none_right_eq_some, Option.some.injEq,
            Prod.mk.injEq] at ends
          obtain ⟨possible, rfl, -⟩ := ends
          refine ⟨result, rfl, fun info same => ?_⟩
          subst same
          cases copy with
          | none => simp at possible
          | some run =>
              simp only [performs] at possible
              split at possible
              · rename_i starting
                simp only [Bool.and_eq_true, beq_iff_eq] at possible
                exact ⟨possible.2, fun stopping => by rw [starting] at stopping; cases stopping⟩
              · split at possible
                · simp_all
                · rename_i container info_eq found same
                  cases same
                  simp only [Bool.and_eq_true, stops_iff] at possible
                  have under := (keyed_iff run).mp (ids run rfl) entry.nodeId container found
                  rw [possible.1]
                  exact ⟨under, fun _ => rfl⟩
                · cases possible
              · split at possible <;> simp_all
              · simp at possible
  | create plan =>
      cases outcome with
      | action result others => cases ends
      | create result =>
          simp only [Job.settle, Option.ite_none_right_eq_some, Option.some.injEq,
            Prod.mk.injEq] at ends
          obtain ⟨possible, rfl, -⟩ := ends
          refine ⟨result, rfl, fun created held => ?_⟩
          rw [held] at possible
          exact possible

/-- What holds of every task in every state. -/
structure Task.Sound (task : Task) : Prop where
  copied : ∀ run, task.copy = some run → keyed run
  settles : ∀ settle, task.phase.settle? = some settle → Settles task.job settle
  /-- The queued reports lead to the node the run works on. -/
  follows : ∃ shown, task.queue.foldlM follow shown = some task.working
  quiet : task.job.reports = false → task.queue = [] ∧ task.mine = [] ∧ task.working = none
  nodup : task.mine.Nodup
  drained : task.lifted = true → task.phase.isRunning = false ∧ task.queue = []
  free : ∀ settle cascaded, task.phase = .closing settle cascaded → task.working = none

theorem sound_fresh {state : WorkspaceState} (ids : Keyed state) (job : Job) :
    (fresh state job).Sound where
  copied := ids
  settles := fun settle held => by cases held
  follows := ⟨none, rfl⟩
  quiet := fun _ => ⟨rfl, rfl, rfl⟩
  nodup := List.nodup_nil
  drained := fun lifted => by cases lifted
  free := fun settle cascaded closing => by cases closing

theorem Task.Sound.callOff {task : Task} (sound : task.Sound) : task.callOff.Sound := by
  unfold Task.callOff
  split
  · exact sound
  · exact ⟨sound.copied, sound.settles, sound.follows, sound.quiet, sound.nodup, sound.drained,
      sound.free⟩

theorem claims_eq_some {task : Task} (claims : task.claims = some nodeId) :
    task.job.own ≠ some nodeId ∧ nodeId ∉ task.mine ∧
      ∃ action queue, task.queue = .working nodeId (some action) :: queue := by
  unfold Task.claims at claims
  split at claims
  · rename_i named action queue queue_eq
    simp only [Option.ite_none_left_eq_some, Option.some.injEq, not_or] at claims
    obtain ⟨⟨foreign, unclaimed⟩, rfl⟩ := claims
    exact ⟨foreign, unclaimed, action, queue, queue_eq⟩
  · cases claims

variable {task next : Task} {event : TaskEvent}

/-- Every move keeps a task sound. -/
theorem Task.Sound.moves {action : Option Action} (sound : task.Sound)
    (moves : Moves task event next action) : next.Sound := by
  cases moves with
  | report progress working running reports follows =>
      obtain ⟨shown, queued⟩ := sound.follows
      refine { sound with
        follows := ⟨shown, ?_⟩
        quiet := fun silent => ?_
        drained := fun lifted => ?_
        free := fun settle cascaded closing => ?_ }
      · simp [List.foldlM_append, queued, follows]
      · rw [reports] at silent
        cases silent
      · have := (sound.drained lifted).1
        simp [running, Phase.isRunning] at this
      · rw [running] at closing
        cases closing
  | claim nodeId claims =>
      obtain ⟨-, unclaimed, pending, queue, queue_eq⟩ := claims_eq_some claims
      refine { sound with
        quiet := fun silent => ?_
        nodup := ?_ }
      · have := (sound.quiet silent).1
        rw [queue_eq] at this
        cases this
      · rw [List.nodup_append]
        refine ⟨sound.nodup, List.pairwise_singleton _ nodeId, ?_⟩
        rintro claimed member other named rfl
        rw [List.mem_singleton.mp named] at member
        exact unclaimed member
  | send progress queue queue_eq claimed =>
      obtain ⟨shown, queued⟩ := sound.follows
      rw [queue_eq, List.foldlM_cons] at queued
      obtain ⟨after, -, rest⟩ := Option.bind_eq_some_iff.mp queued
      refine { sound with
        follows := ⟨after, rest⟩
        quiet := fun silent => ?_
        drained := fun lifted => ?_ }
      · have := (sound.quiet silent).1
        rw [queue_eq] at this
        cases this
      · have := (sound.drained lifted).2
        rw [queue_eq] at this
        cases this
  | lift closed drained held => exact { sound with drained := fun _ => ⟨closed, drained⟩ }
  | finish outcome settle cascaded running free settles =>
      refine { sound with
        settles := fun other same => ?_
        drained := fun lifted => ⟨rfl, (sound.drained lifted).2⟩
        free := fun _ _ _ => free }
      cases same
      exact settles_of_settle sound.copied settles
  | cascade settle info cascaded closing lifted =>
      refine { sound with
        settles := fun other same => ?_
        drained := fun _ => ⟨rfl, (sound.drained lifted).2⟩
        free := fun _ _ _ => sound.free settle (info :: cascaded) closing }
      cases same
      exact sound.settles settle (by rw [closing]; rfl)
  | settle settle closing lifted =>
      refine { sound with
        settles := fun other same => ?_
        drained := fun _ => ⟨rfl, (sound.drained lifted).2⟩
        free := fun _ _ settling => by cases settling }
      cases same
      exact sound.settles settle (by rw [closing]; rfl)
  | drop alive =>
      refine { sound with
        settles := fun other same => ?_
        drained := fun lifted => ⟨rfl, (sound.drained lifted).2⟩
        free := fun _ _ settling => by cases settling }
      cases same
      exact settles_abandoned task.job
  | deliver settle settling =>
      exact { sound with
        settles := fun other same => by cases same
        drained := fun lifted => ⟨rfl, (sound.drained lifted).2⟩
        free := fun _ _ settled => by cases settled }

/-- The actions a sound task gets reduced keep records under their ids. -/
theorem Task.Sound.identified (sound : task.Sound) (moves : Moves task event next (some action)) :
    Identified action := by
  generalize reduced_eq : some action = reduced at moves
  cases moves with
  | send progress queue queue_eq claimed =>
      cases progress with
      | planned start stop => cases reduced_eq
      | working nodeId pending =>
          simp only [Task.forward] at reduced_eq
          split at reduced_eq
          · cases reduced_eq
          · cases reduced_eq
            trivial
      | done done =>
          simp only [Task.forward] at reduced_eq
          split at reduced_eq
          · cases reduced_eq
          · cases reduced_eq
            trivial
  | cascade settle info cascaded closing lifted =>
      cases reduced_eq
      rfl
  | deliver settle settling =>
      cases reduced_eq
      exact (sound.settles _ (by rw [settling]; rfl)).identified
  | _ => cases reduced_eq

/-! ## Claims -/

/-- How many tasks hold a claim on a node. -/
def drivers (tasks : List Task) (nodeId : String) : Nat :=
  tasks.countP fun task : Task => !task.lifted && task.mine.contains nodeId

/-- The shared claims count the tasks that hold them. -/
def Counts (driven : OrderedMap String Nat) (tasks : List Task) : Prop :=
  ∀ nodeId : String,
    driven[nodeId]?.getD 0 = drivers tasks nodeId ∧ driven[nodeId]? ≠ some 0

variable {tasks : List Task}

/-- A claimed node has a task that holds the claim. -/
theorem Counts.driver {driven : OrderedMap String Nat} (counts : Counts driven tasks)
    (claimed : driven.contains nodeId) :
    ∃ (id : Nat) (task : Task), tasks[id]? = some task ∧ task.lifted = false ∧
      nodeId ∈ task.mine := by
  obtain ⟨count_eq, positive⟩ := counts nodeId
  have held : 0 < drivers tasks nodeId := by
    rw [ExtTreeMap.contains_eq_isSome_getElem?] at claimed
    obtain ⟨count, found⟩ := Option.isSome_iff_exists.mp claimed
    rw [found] at count_eq positive
    simp only [Option.getD_some] at count_eq
    have : count ≠ 0 := fun zero => positive (by rw [zero])
    omega
  obtain ⟨task, member, holds⟩ := List.countP_pos_iff.mp held
  obtain ⟨id, found⟩ := List.mem_iff_getElem?.mp member
  simp only [Bool.and_eq_true, Bool.not_eq_true', List.contains_iff_mem] at holds
  exact ⟨id, task, found, holds⟩

theorem claim_getElem? (driven : OrderedMap String Nat) (nodeId other : String) :
    (Runtime.claim driven nodeId)[other]?.getD 0 =
        driven[other]?.getD 0 + (if nodeId = other then 1 else 0) ∧
      (driven[other]? ≠ some 0 → (Runtime.claim driven nodeId)[other]? ≠ some 0) := by
  by_cases same : nodeId = other
  · simp [Runtime.claim, same]
  · simp [Runtime.claim, same]

theorem unclaim_getElem? (driven : OrderedMap String Nat) (nodeId other : String) :
    (Runtime.unclaim driven nodeId)[other]?.getD 0 =
        driven[other]?.getD 0 - (if nodeId = other then 1 else 0) ∧
      (driven[other]? ≠ some 0 → (Runtime.unclaim driven nodeId)[other]? ≠ some 0) := by
  unfold Runtime.unclaim
  split
  · rename_i absent
    by_cases same : nodeId = other
    · simp [← same, absent]
    · simp [same]
  · rename_i count found
    split
    · rename_i last
      by_cases same : nodeId = other
      · simp [← same, found, last]
      · simp [same]
    · rename_i more
      by_cases same : nodeId = other
      · simp [← same, found, more]
      · simp [same]

theorem foldl_unclaim_getElem? (mine : List String) (nodup : mine.Nodup)
    (driven : OrderedMap String Nat) (other : String) :
    (mine.foldl Runtime.unclaim driven)[other]?.getD 0 =
        driven[other]?.getD 0 - (if other ∈ mine then 1 else 0) ∧
      (driven[other]? ≠ some 0 → (mine.foldl Runtime.unclaim driven)[other]? ≠ some 0) := by
  induction mine generalizing driven with
  | nil => simp
  | cons nodeId mine ih =>
      obtain ⟨absent, rest⟩ := List.nodup_cons.mp nodup
      obtain ⟨value, positive⟩ := ih rest (Runtime.unclaim driven nodeId)
      obtain ⟨first, first_positive⟩ := unclaim_getElem? driven nodeId other
      refine ⟨?_, fun nonzero => positive (first_positive nonzero)⟩
      rw [List.foldl_cons, value, first]
      by_cases same : nodeId = other
      · subst same
        simp [absent]
      · simp [same, Ne.symm same]

variable {id : Nat}

theorem drivers_set (found : tasks[id]? = some task) (nodeId : String) :
    drivers (tasks.set id next) nodeId =
      drivers tasks nodeId - (if !task.lifted && task.mine.contains nodeId then 1 else 0) +
        (if !next.lifted && next.mine.contains nodeId then 1 else 0) := by
  obtain ⟨bound, task_eq⟩ := List.getElem?_eq_some_iff.mp found
  rw [drivers, List.countP_set bound, task_eq]
  rfl

theorem drivers_pos {task : Task} (found : tasks[id]? = some task)
    (holds : (!task.lifted && task.mine.contains nodeId) = true) : 0 < drivers tasks nodeId :=
  List.countP_pos_iff.mpr ⟨task, List.mem_of_getElem? found, holds⟩

/-- Every move keeps the count. -/
theorem Counts.moves {driven : OrderedMap String Nat} {action : Option Action}
    (counts : Counts driven tasks) (found : tasks[id]? = some task) (sound : task.Sound)
    (moves : Moves task event next action) :
    Counts (Runtime.drive driven task event) (tasks.set id next) := by
  have same_claims (unchanged : next.mine = task.mine ∧ next.lifted = task.lifted)
      (driven_eq : Runtime.drive driven task event = driven) :
      Counts (Runtime.drive driven task event) (tasks.set id next) := by
    intro nodeId
    rw [driven_eq, drivers_set found, unchanged.1, unchanged.2]
    refine ⟨(counts nodeId).1.trans ?_, (counts nodeId).2⟩
    split
    · rename_i holds
      have := drivers_pos found holds
      omega
    · simp
  cases moves with
  | claim nodeId claims =>
      obtain ⟨-, unclaimed, pending, queue, queue_eq⟩ := claims_eq_some claims
      have unlifted : task.lifted = false := by
        by_contra lifted
        have := (sound.drained (by simpa using lifted)).2
        rw [queue_eq] at this
        cases this
      intro other
      obtain ⟨value, positive⟩ := claim_getElem? driven nodeId other
      simp only [Runtime.drive, claims, Option.elim_some]
      refine ⟨?_, positive (counts other).2⟩
      rw [value, drivers_set found, (counts other).1]
      by_cases same : nodeId = other
      · subst same
        simp [unlifted, unclaimed]
      · by_cases held : other ∈ task.mine
        · have pos : 0 < drivers tasks other := drivers_pos found (by simp [unlifted, held])
          simp only [unlifted, held, same, Bool.not_false, Bool.true_and, List.contains_iff_mem,
            List.mem_append, true_or, if_true, if_false]
          omega
        · simp [unlifted, held, same, Ne.symm same]
  | lift closed drained held =>
      intro other
      obtain ⟨value, positive⟩ := foldl_unclaim_getElem? task.mine sound.nodup driven other
      refine ⟨?_, positive (counts other).2⟩
      simp only [Runtime.drive]
      rw [value, drivers_set found, (counts other).1]
      simp [held]
  | _ => exact same_claims ⟨rfl, rfl⟩ rfl

/-! ## The books -/

/-- What holds of the runtime after every run. -/
structure Books (runtime : Runtime) : Prop where
  ids : Keyed runtime.state
  sound : ∀ (id : Nat) (task : Task), runtime.tasks[id]? = some task → task.Sound
  counts : Counts runtime.driven runtime.tasks
  /-- What is in flight on a node is a task for it. -/
  flights : ∀ (nodeId : String) action id, runtime.inFlight[nodeId]? = some (action, id) →
    ∃ task : Task, runtime.tasks[id]? = some task ∧ task.job = .action { nodeId, action }
  /-- What is in flight was in the snapshot converged last. -/
  listed : ∀ (nodeId : String) action id, runtime.inFlight[nodeId]? = some (action, id) →
    ∃ snapshot, runtime.last = some snapshot ∧ { nodeId, action } ∈ snapshot.pending
  read : ∀ snapshot, runtime.seen = some snapshot → snapshot.create.isSome → snapshot.pending = []
  apart : ∀ snapshot, runtime.seen = some snapshot →
    snapshot.pending.Pairwise fun first second => first.nodeId ≠ second.nodeId
  creating : ∀ snapshot, runtime.last = some snapshot →
    runtime.createInFlight = snapshot.create.isSome

theorem books_initial {state : WorkspaceState} (ids : Keyed state) : Books { state } where
  ids := ids
  sound := fun id task found => by cases found
  counts := fun nodeId => ⟨rfl, by simp⟩
  flights := fun nodeId action id found => by simp at found
  listed := fun nodeId action id found => by simp at found
  read := fun snapshot seen => by cases seen
  apart := fun snapshot seen => by cases seen
  creating := fun snapshot last => by cases last

section Converged

variable {runtime next : Runtime} {snapshot : ConvergeSnapshot}

/-- A task after a converge is one from before, perhaps called off, or a fresh one. -/
theorem Converged.task_cases (converged : Converged runtime snapshot next) {task : Task}
    (found : next.tasks[id]? = some task) :
    (∃ before : Task, runtime.tasks[id]? = some before ∧
        (task = before.callOff ∧ runtime.callsOff (runtime.planned snapshot).abort id ∨
          task = before ∧ ¬runtime.callsOff (runtime.planned snapshot).abort id)) ∨
      (∃ place entry, (runtime.planned snapshot).spawn[place]? = some entry ∧
        id = runtime.tasks.length + place ∧ task = fresh runtime.state (.action entry)) ∨
      ∃ plan, runtime.createInFlight = false ∧ snapshot.create = some plan ∧
        id = runtime.tasks.length + (runtime.planned snapshot).spawn.length ∧
        task = fresh runtime.state (.create plan) := by
  by_cases bound : id < runtime.tasks.length
  · left
    have before := List.getElem?_eq_getElem bound
    obtain ⟨called, kept⟩ := converged.old id _ before
    by_cases calls : runtime.callsOff (runtime.planned snapshot).abort id
    · have same := called calls
      rw [found] at same
      cases same
      exact ⟨_, before, .inl ⟨rfl, calls⟩⟩
    · have same := kept calls
      rw [found] at same
      cases same
      exact ⟨_, before, .inr ⟨rfl, calls⟩⟩
  · right
    obtain ⟨kept, added, tasks_eq, length_eq, rfl⟩ := converged.tasks_eq
    obtain ⟨place, rfl⟩ : ∃ place, id = runtime.tasks.length + place :=
      ⟨id - runtime.tasks.length, by omega⟩
    rw [tasks_eq, List.getElem?_append_right (by omega), length_eq,
      Nat.add_sub_cancel_left] at found
    by_cases spawned : place < (runtime.planned snapshot).spawn.length
    · left
      rw [List.getElem?_append_left (by simpa using spawned), List.getElem?_map] at found
      obtain ⟨entry, entry_eq, rfl⟩ := Option.map_eq_some_iff.mp found
      exact ⟨place, entry, entry_eq, rfl, rfl⟩
    · right
      rw [List.getElem?_append_right (by simpa using spawned), List.length_map] at found
      split at found
      · simp at found
      · rename_i idle
        cases plan_eq : snapshot.create with
        | none => simp [plan_eq] at found
        | some plan =>
            have first : place - (runtime.planned snapshot).spawn.length = 0 := by
              by_contra later
              simp [plan_eq, later] at found
            rw [plan_eq, first] at found
            have task_eq : fresh runtime.state (.create plan) = task := by simpa using found
            exact ⟨plan, by simpa using idle, rfl, by omega, task_eq.symm⟩

/-- What is in flight after a converge was spawned by it, or was in flight and is still wanted. -/
theorem Converged.flight_cases (converged : Converged runtime snapshot next)
    {action : PendingAction} (found : next.inFlight[nodeId]? = some (action, id)) :
    ({ nodeId, action } ∈ (runtime.planned snapshot).spawn ∧ runtime.tasks.length ≤ id ∧
        next.tasks[id]? = some (fresh runtime.state (.action { nodeId, action }))) ∨
      nodeId ∉ (runtime.planned snapshot).abort ∧
        (∃ entry ∈ runtime.pending snapshot, entry.nodeId = nodeId) ∧
        runtime.inFlight[nodeId]? = some (action, id) := by
  rcases converged.inFlight nodeId with ⟨place, entry, entry_eq, rfl, flight⟩ | ⟨-, flight⟩
  · left
    rw [found] at flight
    cases flight
    refine ⟨List.mem_of_getElem? entry_eq, by omega, ?_⟩
    obtain ⟨kept, added, tasks_eq, length_eq, rfl⟩ := converged.tasks_eq
    have bound := (List.getElem?_eq_some_iff.mp entry_eq).1
    rw [tasks_eq, List.getElem?_append_right (by omega), length_eq, Nat.add_sub_cancel_left,
      List.getElem?_append_left (by simpa using bound), List.getElem?_map, entry_eq]
    rfl
  · right
    rw [found] at flight
    split at flight
    · rename_i wanted
      exact ⟨wanted.1, wanted.2, flight.symm⟩
    · cases flight

theorem Converged.drivers_eq (converged : Converged runtime snapshot next) (nodeId : String) :
    drivers next.tasks nodeId = drivers runtime.tasks nodeId := by
  obtain ⟨kept, added, tasks_eq, length_eq, added_eq⟩ := converged.tasks_eq
  have fresh_claims : drivers added nodeId = 0 := by
    rw [drivers, List.countP_eq_zero]
    intro task member
    have unclaimed : task.mine = [] := by
      rw [added_eq, List.mem_append] at member
      rcases member with spawned | created
      · obtain ⟨entry, -, rfl⟩ := List.mem_map.mp spawned
        rfl
      · split at created
        · cases created
        · obtain ⟨plan, -, rfl⟩ := List.mem_map.mp created
          rfl
    simp [unclaimed]
  have same_claims : kept.map (fun task : Task => (task.lifted, task.mine)) =
      runtime.tasks.map fun task : Task => (task.lifted, task.mine) := by
    apply List.ext_getElem?
    intro id
    rw [List.getElem?_map, List.getElem?_map]
    by_cases bound : id < runtime.tasks.length
    · have before := List.getElem?_eq_getElem bound
      have kept_eq : next.tasks[id]? = kept[id]? := by
        rw [tasks_eq, List.getElem?_append_left (by omega)]
      obtain ⟨called, left⟩ := converged.old id _ before
      rw [before, ← kept_eq]
      by_cases calls : runtime.callsOff (runtime.planned snapshot).abort id
      · rw [called calls]
        simp only [Option.map_some, Task.callOff]
        split <;> rfl
      · rw [left calls]
    · rw [List.getElem?_eq_none (by omega), List.getElem?_eq_none (by omega)]
  have count_map (tasks : List Task) : drivers tasks nodeId =
      (tasks.map fun task : Task => (task.lifted, task.mine)).countP fun held =>
        !held.1 && held.2.contains nodeId := by
    rw [List.countP_map]
    rfl
  have kept_drivers : drivers kept nodeId = drivers runtime.tasks nodeId := by
    rw [count_map, count_map, same_claims]
  have split_drivers : drivers (kept ++ added) nodeId =
      drivers kept nodeId + drivers added nodeId := List.countP_append
  rw [tasks_eq, split_drivers, fresh_claims, kept_drivers, Nat.add_zero]

end Converged

theorem Books.converged {runtime next : Runtime} {snapshot : ConvergeSnapshot}
    (books : Books runtime) (converged : Converged runtime snapshot next) :
    Books { next with last := some snapshot, seen := none } where
  ids := by
    simp only [converged.state_eq]
    exact books.ids
  sound := by
    intro id task found
    rcases converged.task_cases found with ⟨before, before_eq, same⟩ |
      ⟨place, entry, -, -, rfl⟩ | ⟨plan, -, -, -, rfl⟩
    · rcases same with ⟨rfl, -⟩ | ⟨rfl, -⟩
      · exact (books.sound id before before_eq).callOff
      · exact books.sound id task before_eq
    · exact sound_fresh books.ids _
    · exact sound_fresh books.ids _
  counts := by
    intro nodeId
    simp only [converged.driven_eq, converged.drivers_eq]
    exact books.counts nodeId
  flights := by
    intro nodeId action id found
    rcases converged.flight_cases found with ⟨-, -, spawned⟩ | ⟨-, -, before⟩
    · exact ⟨_, spawned, rfl⟩
    · obtain ⟨task, task_eq, job_eq⟩ := books.flights nodeId action id before
      obtain ⟨called, kept⟩ := converged.old id task task_eq
      by_cases calls : runtime.callsOff (runtime.planned snapshot).abort id
      · refine ⟨_, called calls, ?_⟩
        unfold Task.callOff
        split <;> exact job_eq
      · exact ⟨_, kept calls, job_eq⟩
  listed := by
    intro nodeId action id found
    refine ⟨snapshot, rfl, ?_⟩
    rcases converged.flight_cases found with ⟨spawned, -, -⟩ | ⟨kept, ⟨entry, member, same⟩, before⟩
    · exact (mem_pending.mp ((mem_plan_spawn _ _ _).mp spawned).1).1
    · -- a kept node has the action its entry asks for, or it would have been called off
      have action_eq : entry.action = action := by
        by_contra different
        apply kept
        rw [Runtime.planned, mem_plan_abort]
        refine .inl ⟨entry, member, same, action, ?_, fun equal => different equal.symm⟩
        simp [Runtime.actions, before]
      have entry_eq : entry = { nodeId, action } := by
        rw [← same, ← action_eq]
      rw [← entry_eq]
      exact (mem_pending.mp member).1
  read := fun _ seen => by cases seen
  apart := fun _ seen => by cases seen
  creating := fun _ same => by
    cases same
    exact converged.creating

theorem Books.moves {runtime : Runtime} {action : Option Action} (books : Books runtime)
    (found : runtime.tasks[id]? = some task) (moves : Moves task event next action) :
    Books { runtime with
      state := action.elim runtime.state (dispatch runtime.state)
      driven := Runtime.drive runtime.driven task event
      tasks := runtime.tasks.set id next } where
  ids := by
    cases action with
    | none => exact books.ids
    | some action => exact keyed_dispatch books.ids ((books.sound id task found).identified moves)
  sound := by
    intro other held held_eq
    rw [List.getElem?_set] at held_eq
    split at held_eq
    · split at held_eq
      · cases held_eq
        exact (books.sound id task found).moves moves
      · cases held_eq
    · exact books.sound other held held_eq
  counts := books.counts.moves found (books.sound id task found) moves
  flights := by
    intro nodeId pending other flight
    obtain ⟨held, held_eq, job_eq⟩ := books.flights nodeId pending other flight
    by_cases same : id = other
    · subst same
      rw [found] at held_eq
      cases held_eq
      have bound := (List.getElem?_eq_some_iff.mp found).1
      exact ⟨next, by simp [bound], by rw [moves.job_eq, job_eq]⟩
    · exact ⟨held, by simpa [same] using held_eq, job_eq⟩
  listed := books.listed
  read := books.read
  apart := books.apart
  creating := books.creating

theorem Books.step {runtime : Runtime} (books : Books runtime) (event : Event) :
    Books (step runtime event) := by
  rcases step_cases runtime event with unchanged | ⟨action, -, outside, next⟩ | ⟨-, -, next⟩ |
    ⟨snapshot, next, -, -, converged, next_eq⟩ |
    ⟨id, move, task, next, action, -, found, moves, next_eq⟩
  · rw [unchanged]
    exact books
  · rw [next]
    exact { books with ids := keyed_dispatch books.ids (identified_of_external outside) }
  · rw [next]
    refine { books with
      read := fun snapshot same creating => ?_
      apart := fun snapshot same => ?_ }
    · cases same
      exact extractPending_of_create creating
    · cases same
      exact extractPending_pairwise books.ids
  · rw [next_eq]
    exact books.converged converged
  · rw [next_eq]
    exact books.moves found moves

end Converge
end Fghj
