import Fghj.ActivityTrees
import Fghj.State
import Mathlib.Data.List.Sort

/-!
# Following an action

An action's reply only says that its intent is recorded. The command line polls the activity log
and, of an action, then the environment, and decides from the two when the work is over and whether
it failed. The two are read one after the other, and the record of the work may not be there yet,
be replaced already, or say that it was called off.
-/

namespace Fghj
namespace Follow

open Activities

/-! ## One round -/

/-- `ActivityLog::list`: newest first, only the workspace's if one is given. -/
def list (inner : Inner) (workspaceId : Option String) : List Activity :=
  inner.items.reverse.filter fun activity =>
    workspaceId.isNone || activity.workspaceId == workspaceId

/-- The top-level activities newer than `after`, oldest first. -/
def newRoots (list : List Activity) (after : Nat) : List Activity :=
  (list.filter fun activity => activity.parent.isNone && decide (after < activity.id)).insertionSort
    fun activity other => activity.id ≤ other.id

/-- Nothing is pending in the environment, or there is none. -/
def isSettled (env : Option EnvState) : Bool :=
  env.all fun run =>
    run.pendingCreate.isNone &&
      run.containers.toList.all fun entry => entry.2.pendingAction.isNone

inductive Until where
  /-- Nothing is pending in the environment. -/
  | settled
  /-- That one activity is finished. -/
  | closed (id : Nat)

/-- The keys of the roots that failed. -/
def failed (roots : List Activity) : List String :=
  (roots.filter fun activity => activity.status == .error).map (·.key)

/-- One round of the loop of `follow` over the roots and the environment: what it returns, unless
it goes on. -/
def round (goal : Until) (roots : List Activity) (env : Option EnvState) :
    Option (Except String Unit) :=
  let isOpen := roots.any fun activity => activity.status.isOpen
  let finished :=
    match goal with
    | .settled => !isOpen && isSettled env
    | .closed id => roots.any fun activity => activity.id == id && !activity.status.isOpen
  if finished then
    if (failed roots).isEmpty then some (.ok ())
    else some (.error (", ".intercalate (failed roots) ++ " failed"))
  else none

variable {activity : Activity}

theorem mem_list {inner : Inner} {workspaceId : String} :
    activity ∈ list inner (some workspaceId) ↔
      activity ∈ inner.items ∧ activity.workspaceId = some workspaceId := by
  simp [list]

theorem mem_newRoots {list : List Activity} {after : Nat} :
    activity ∈ newRoots list after ↔
      activity ∈ list ∧ activity.parent = none ∧ after < activity.id := by
  simp [newRoots]

theorem failed_eq_nil {roots : List Activity} :
    failed roots = [] ↔ ∀ activity ∈ roots, activity.status ≠ .error := by
  simp [failed, List.filter_eq_nil_iff]

/-- A round that is over found nothing open and nothing pending. -/
theorem round_settled {roots : List Activity} {env : Option EnvState} {verdict : Except String Unit}
    (ends : round .settled roots env = some verdict) :
    (∀ activity ∈ roots, activity.status.isOpen = false) ∧ isSettled env = true ∧
      (verdict = .ok () → ∀ activity ∈ roots, activity.status ≠ .error) := by
  simp only [round] at ends
  split at ends
  · rename_i finished
    obtain ⟨closed, settled⟩ := Bool.and_eq_true_iff.mp finished
    refine ⟨?_, settled, ?_⟩
    · simpa only [Bool.not_eq_true', List.any_eq_false, Bool.not_eq_true] using closed
    · rintro rfl
      split at ends
      · rename_i none
        exact failed_eq_nil.mp (List.isEmpty_iff.mp none)
      · cases ends
  · cases ends

/-- A round that waits for one activity is over exactly if that one is a root that is settled, and
then tells of every root. -/
theorem round_closed {id : Nat} {roots : List Activity} {env : Option EnvState} (failure : Prop) :
    (∃ verdict, round (.closed id) roots env = some verdict ∧
        ((∃ message, verdict = .error message) ↔ failure)) ↔
      (∃ activity ∈ roots, activity.id = id ∧ activity.status.isOpen = false) ∧
        ((∃ activity ∈ roots, activity.status = .error) ↔ failure) := by
  have finished_iff : (roots.any fun activity => activity.id == id && !activity.status.isOpen) =
      true ↔ ∃ activity ∈ roots, activity.id = id ∧ activity.status.isOpen = false := by
    simp
  have failed_iff : (failed roots).isEmpty = false ↔
      ∃ activity ∈ roots, activity.status = .error := by
    rw [Bool.eq_false_iff, Ne, List.isEmpty_iff, failed_eq_nil]
    simp
  rw [← finished_iff, ← failed_iff]
  simp only [round]
  split
  · rename_i finished
    rw [finished]
    split
    · rename_i none
      simp [none]
    · rename_i some
      simp [some]
  · rename_i goesOn
    simp [goesOn]

/-! ## What the log keeps of a job -/

/-- An activity that stayed: a job at the top is settled once. -/
structure Stayed (old later : Activity) : Prop where
  place : later.place = old.place
  running : old.parent = none → old.status ≠ .queued → later.status ≠ .queued
  settled : old.parent = none → old.status.isOpen = false → later.status = old.status

theorem Stayed.refl (activity : Activity) : Stayed activity activity :=
  ⟨rfl, fun _ running => running, fun _ _ => rfl⟩

/-- What is on the log of old stayed, and a running job at the top is on it. -/
structure Kept (before after : Inner) : Prop where
  stayed : ∀ later ∈ after.items, later.id ≤ before.nextId → ∃ old ∈ before.items, Stayed old later
  stays : ∀ old ∈ before.items, old.parent = none → old.status = .running →
    ∃ later ∈ after.items, later.id = old.id

namespace Kept

variable {before after : Inner}

theorem refl (log : Inner) : Kept log log :=
  ⟨fun later member _ => ⟨later, member, .refl later⟩, fun old member _ _ => ⟨old, member, rfl⟩⟩

theorem of_rewritten {write : Activity → Activity} (rewritten : Rewritten before after write)
    (calm : ∀ activity ∈ before.items, activity.parent = none →
      (activity.status ≠ .queued → (write activity).status ≠ .queued) ∧
        (activity.status.isOpen = false → (write activity).status = activity.status)) :
    Kept before after where
  stayed later member _ := by
    rw [rewritten.items] at member
    obtain ⟨old, inside, rfl⟩ := List.mem_map.mp member
    exact ⟨old, inside, rewritten.place old, fun top => (calm old inside top).1,
      fun top => (calm old inside top).2⟩
  stays old member _ _ := by
    refine ⟨write old, ?_, (Activity.place_eq_iff.mp (rewritten.place old)).1⟩
    rw [rewritten.items]
    exact List.mem_map_of_mem member

theorem push (log : Inner) (workspaceId : Option String) (parent : Option Nat)
    (kind : ActivityKind) (key : String) (now : Nat) :
    Kept log (log.push workspaceId parent kind key now) where
  stayed later member low := ⟨later, Rooted.old_push member low, .refl later⟩
  stays old member _ _ := ⟨old, List.mem_append_left _ member, rfl⟩

theorem childOfKind (log : Inner) (handle : Nat) (kind : Option ActivityKind) (key : String)
    (now : Nat) : Kept log (log.childOfKind handle kind key now).1 := by
  unfold Inner.childOfKind
  split
  · exact .refl log
  · exact .push log _ _ _ key now

theorem of_noted (noted : Rooted.Noted before after) : Kept before after := by
  obtain ⟨write, rewritten, same⟩ := noted
  refine .of_rewritten rewritten fun activity _ _ => ?_
  rw [(same activity).1]
  exact ⟨id, fun _ => rfl⟩

end Kept

section Operations

variable {log : Inner} (rooted : Rooted log)
include rooted

/-- A job at the top is under no other one. -/
theorem top_mem_tree (member : activity ∈ log.items) (top : activity.parent = none) {root : Nat}
    (listed : activity.id ∈ log.tree root) : activity.id = root := by
  rw [(rooted.walk_tree root).2, List.mem_cons, List.mem_flatMap] at listed
  rcases listed with same | ⟨parent, -, child⟩
  · exact same
  · obtain ⟨other, inside, below, same⟩ := Rooted.mem_children.mp child
    obtain rfl := rooted.unique inside member same
    rw [top] at below
    cases below

/-- A start replaces a job only once that one is not running. -/
theorem kept_start (workspaceId : Option String) (kind : ActivityKind) (key : String) (now : Nat) :
    Kept log (log.start workspaceId kind key now).1 := by
  unfold Inner.start
  cases found : log.findTop workspaceId kind key with
  | none => exact .push log workspaceId none kind key now
  | some previous =>
      simp only
      split
      · exact .refl log
      · rename_i ends
        refine ⟨fun later member low => ?_, fun old member top running => ?_⟩
        · exact ⟨later, (List.mem_filter.mp (Rooted.old_push member low)).1, .refl later⟩
        · refine ⟨old, List.mem_append_left _ (List.mem_filter.mpr ⟨member, ?_⟩), rfl⟩
          have spared : old.id ∉ log.tree previous.id := by
            intro listed
            have same := top_mem_tree rooted member top listed
            obtain rfl := rooted.unique member (rooted.findTop_eq_some found).1 same
            exact ends running
          simpa using spared

theorem kept_finish {status : ActivityStatus} (final : status.isOpen = false) (handle : Nat)
    (note : Option String) (now : Nat) : Kept log (log.finish handle status note now) := by
  refine .of_rewritten (rooted.finish_rewritten final handle note now) ?_
  intro activity _ _
  split
  · refine ⟨fun _ queued => ?_, fun settled => ?_⟩
    · have := Rooted.finishOne_settled final handle note now activity
      rw [queued] at this
      cases this
    · rw [Rooted.finishOne_of_settled settled]
  · exact ⟨id, fun _ => rfl⟩

theorem kept_begin (handle now : Nat) : Kept log (log.begin handle now) := by
  refine .of_rewritten (Rewritten.findMut rooted.ids handle _ (Rooted.place_begin now)) ?_
  intro activity _ _
  by_cases queued : activity.status = .queued
  · refine ⟨fun running => absurd queued running, fun settled => ?_⟩
    rw [queued] at settled
    cases settled
  · simp [queued]

/-- Only what is under another activity is put into the queue. -/
theorem kept_markQueued {child : Nat}
    (below : ∀ activity ∈ log.items, activity.id = child → activity.parent ≠ none) :
    Kept log (log.markQueued child) := by
  refine .of_rewritten (rooted.markQueued_rewritten child) fun activity member top => ?_
  have apart : activity.id ≠ child := fun named => below activity member named top
  simp [apart]

/-- A new child is under an activity, or has no record. -/
theorem childOfKind_below (handle : Nat) (kind : Option ActivityKind) (key : String) (now : Nat) :
    (log.childOfKind handle kind key now).2 ≤ (log.childOfKind handle kind key now).1.nextId ∧
      ∀ activity ∈ (log.childOfKind handle kind key now).1.items,
        activity.id = (log.childOfKind handle kind key now).2 → activity.parent ≠ none := by
  unfold Inner.childOfKind
  split
  · refine ⟨Nat.zero_le _, fun activity member named => ?_⟩
    exact absurd (rooted.below activity member).1 (by simp [named, detached])
  · refine ⟨Nat.le_refl _, fun activity member named => ?_⟩
    simp only [Inner.push, List.mem_append, List.mem_singleton] at member
    rcases member with old | rfl
    · exact absurd (rooted.below activity old).2 (by simp [named])
    · simp

end Operations

/-- The log as it is in every run: only children are put into the queue. -/
structure Shaped (world : Activities.World) : Prop where
  rooted : Rooted world.inner
  queueing : ∀ child ∈ world.queueing, child ≤ world.inner.nextId ∧
    ∀ activity ∈ world.inner.items, activity.id = child → activity.parent ≠ none

namespace Shaped

variable {world : Activities.World}

theorem kept_step (shaped : Shaped world) (event : Activities.Event) :
    Kept world.inner (world.step event).inner := by
  have rooted := shaped.rooted
  cases event with
  | start workspaceId kind key now => exact kept_start rooted workspaceId kind key now
  | startSuperseding workspaceId kind key now =>
      have kept := kept_start rooted workspaceId kind key now
      simp only [World.step]
      split <;> rename_i inner outcome result <;> rwa [result] at kept
  | supersede call now =>
      simp only [World.step, World.supersede]
      split
      · exact .refl world.inner
      · split
        · exact kept_finish rooted rfl _ _ now
        · exact kept_start rooted _ _ _ now
  | childOfKind handle kind key now => exact .childOfKind world.inner handle kind key now
  | queuedChildOfKind handle kind key now => exact .childOfKind world.inner handle kind key now
  | markQueued call =>
      simp only [World.step]
      split
      · exact .refl world.inner
      · rename_i child listed
        exact kept_markQueued rooted (shaped.queueing child (List.mem_of_getElem? listed)).2
  | begin handle now => exact kept_begin rooted handle now
  | append handle text => exact .of_noted (rooted.append_noted handle text).2
  | settle handle result now => cases result <;> exact kept_finish rooted rfl handle _ now
  | cancel handle why now => exact kept_finish rooted rfl handle _ now

/-- A log without a new call to queue a child is as it was. -/
theorem of_subset (shaped : Shaped world) {after : Activities.World}
    (steady : Steady world.inner after.inner) (kept : Kept world.inner after.inner)
    (fewer : after.queueing ⊆ world.queueing) : Shaped after where
  rooted := steady.rooted
  queueing child listed := by
    obtain ⟨low, below⟩ := shaped.queueing child (fewer listed)
    refine ⟨low.trans steady.nextId, fun activity member named => ?_⟩
    obtain ⟨old, inside, stayed⟩ := kept.stayed activity member (named.trans_le low)
    obtain ⟨same, -, parent, -⟩ := Activity.place_eq_iff.mp stayed.place
    rw [parent]
    exact below old inside (same.symm.trans named)

theorem step (shaped : Shaped world) (event : Activities.Event) : Shaped (world.step event) := by
  have steady := World.steady_step shaped.rooted event
  have kept := shaped.kept_step event
  cases event with
  | queuedChildOfKind handle kind key now =>
      refine ⟨steady.rooted, fun child listed => ?_⟩
      simp only [World.step, List.mem_append, List.mem_singleton] at listed
      rcases listed with old | rfl
      · have before : Shaped { world with
            inner := (world.inner.childOfKind handle kind key now).1 } :=
          shaped.of_subset steady kept (List.Subset.refl _)
        exact before.queueing child old
      · exact childOfKind_below shaped.rooted handle kind key now
  | markQueued call =>
      refine shaped.of_subset steady kept ?_
      simp only [World.step]
      split
      · exact List.Subset.refl _
      · exact List.eraseIdx_subset
  | startSuperseding workspaceId kind key now =>
      refine shaped.of_subset steady kept ?_
      simp only [World.step]
      split <;> exact List.Subset.refl _
  | supersede call now =>
      refine shaped.of_subset steady kept ?_
      simp only [World.step, World.supersede]
      split
      · exact List.Subset.refl _
      · split <;> exact List.Subset.refl _
  | start | childOfKind | begin | append | settle | cancel =>
      exact shaped.of_subset steady kept (List.Subset.refl _)

theorem after (events : List Activities.Event) : Shaped (World.after events) :=
  Execution.run_always World.step Shaped (fun _ event shaped => shaped.step event)
    ⟨.empty, fun child listed => by cases listed⟩ events

end Shaped

/-! ## A whole following -/

/-- The mark an accepted action leaves. -/
inductive Mark where
  | create
  | node (nodeId : String)

def Mark.isSet : Mark → Option EnvState → Bool
  | _, none => false
  | .create, some run => run.pendingCreate.isSome
  | .node nodeId, some run =>
      (run.containers[nodeId]?).any fun container => container.pendingAction.isSome

/-- The action that is followed. -/
structure Followed where
  workspaceId : String
  kind : ActivityKind
  key : String
  mark : Mark

/-- The daemon and the command line: the log, the environment, the action's activity once it is
opened and what it ended as, what the last list was and what `follow` returned. -/
structure World where
  log : Activities.World
  env : Option EnvState
  opened : Option Nat := none
  ended : Option ActivityStatus := none
  listed : Option (List Activity) := none
  returned : Option (Except String Unit) := none

inductive Event where
  /-- Anything on the log, also the settling of the action's activity. -/
  | log (event : Activities.Event)
  /-- The converge effect opens the action's activity. -/
  | opens (now : Nat)
  /-- Any change of the environment; the action's own mark goes once its activity has ended. -/
  | env (after : Option EnvState)
  /-- The command line reads the activities. -/
  | list
  /-- It reads the environment and decides. -/
  | decide

/-- `open_activity`: one still running is superseded. -/
def openActivity (log : Inner) (action : Followed) (now : Nat) : Inner × Option Nat :=
  match log.start (some action.workspaceId) action.kind action.key now with
  | (opened, .ok id) => (opened, some id)
  | (joined, .error running) =>
      match (joined.cancel running.id "superseded" now).start (some action.workspaceId) action.kind
        action.key now with
      | (opened, .ok id) => (opened, some id)
      | (joined, .error _) => (joined, none)

/-- What the activity of the id has ended as, while its record is on the log. -/
def outcome (log : Inner) (id : Nat) : Option ActivityStatus :=
  (log.find id).bind fun activity => if activity.status.isOpen then none else some activity.status

def step (action : Followed) (after : Nat) (world : World) : Event → World
  | .log event =>
      let log := world.log.step event
      { world with log, ended := world.ended.or (world.opened.bind (outcome log.inner)) }
  | .opens now =>
      if world.opened.isSome then world
      else
        let opening := openActivity world.log.inner action now
        { world with log := { world.log with inner := opening.1 }, opened := opening.2 }
  | .env run =>
      if world.ended.isSome || action.mark.isSet run then { world with env := run } else world
  | .list =>
      if world.returned.isSome then world
      else { world with listed := some (list world.log.inner (some action.workspaceId)) }
  | .decide =>
      match world.returned, world.listed with
      | none, some list =>
          { world with listed := none, returned := round .settled (newRoots list after) world.env }
      | _, _ => world

/-- The verdict of the command line is that of the action's activity. -/
def Right (world : World) : Prop :=
  ∀ verdict ∈ world.returned, (verdict = .ok () → world.ended = some .done) ∧
    (world.ended = some .error ∨ world.ended = some .cancelled →
      ∃ message, verdict = .error message)

/-- Where the command line decides that the work is over, the action's activity is done, or it was
not called off and its record was on the list. -/
def Fine (after : Nat) (world : World) : Event → Prop
  | .decide => ∀ list ∈ world.listed,
      (∀ activity ∈ newRoots list after, activity.status.isOpen = false) →
        isSettled world.env = true →
          world.ended = some .done ∨
            (world.ended ≠ some .cancelled ∧
              ∃ activity ∈ list, world.opened = some activity.id)
  | _ => True

instance (after : Nat) (world : World) (event : Event) : Decidable (Fine after world event) := by
  unfold Fine
  split <;> infer_instance

/-- The action is accepted, after `after` was read off the log. -/
structure Accepted (action : Followed) (after : Nat) (world : World) : Prop where
  log : ∃ events, world.log = World.after events
  after : after ≤ world.log.inner.nextId
  marked : action.mark.isSet world.env = true
  opened : world.opened = none
  ended : world.ended = none
  listed : world.listed = none
  returned : world.returned = none

/-! ### Opening -/

section Opening

variable {log : Inner} {workspaceId : Option String} {kind : ActivityKind} {key : String}
  {now : Nat}

/-- A new job has the next id, and runs at the top. -/
structure Opens (log : Inner) (workspaceId : Option String) (opened : Inner) (id : Nat) : Prop where
  id_eq : id = log.nextId + 1
  nextId : opened.nextId = id
  record : ∃ activity ∈ opened.items, activity.id = id ∧ activity.parent = none ∧
    activity.workspaceId = workspaceId ∧ activity.status = .running

theorem opens_push (log : Inner) (workspaceId : Option String) (kind : ActivityKind) (key : String)
    (now : Nat) : Opens log workspaceId (log.push workspaceId none kind key now) (log.nextId + 1) :=
  ⟨rfl, rfl, _, List.mem_append_right _ (List.mem_singleton.mpr rfl), rfl, rfl, rfl, rfl⟩

theorem opens_start {opened : Inner} {id : Nat}
    (started : log.start workspaceId kind key now = (opened, .ok id)) :
    Opens log workspaceId opened id := by
  unfold Inner.start at started
  split at started
  · split at started
    · cases started
    · cases started
      exact ⟨rfl, rfl, (opens_push (log.removeTree _) workspaceId kind key now).record⟩
  · cases started
    exact opens_push log workspaceId kind key now

/-- A start that joins found the job running. -/
theorem start_joins {joined : Inner} {running : Activity}
    (started : log.start workspaceId kind key now = (joined, .error running)) :
    joined = log ∧ log.findTop workspaceId kind key = some running ∧ running.status = .running := by
  unfold Inner.start at started
  split at started
  · rename_i previous found
    split at started
    · rename_i status
      cases started
      exact ⟨rfl, found, status⟩
    · cases started
  · cases started

/-- What was called off is not running. -/
theorem no_top_after_cancel (rooted : Rooted log) {running other : Activity}
    (found : log.findTop workspaceId kind key = some running) {why : String}
    (again : (log.cancel running.id why now).findTop workspaceId kind key = some other) :
    other.status ≠ .running := by
  have final : ActivityStatus.cancelled.isOpen = false := rfl
  have rewritten := rooted.finish_rewritten final running.id (some ("\n" ++ why ++ "\n")) now
  obtain ⟨-, only⟩ := rooted.findTop_eq_some found
  have member := List.mem_of_find?_eq_some again
  have named := List.find?_some again
  simp only [decide_eq_true_eq] at named
  obtain ⟨top, workspace, sort, label⟩ := named
  rw [Inner.cancel, rewritten.items] at member
  obtain ⟨old, inside, rfl⟩ := List.mem_map.mp member
  obtain ⟨-, oldWorkspace, oldParent, oldKind, oldKey⟩ :=
    Activity.place_eq_iff.mp (rewritten.place old)
  have same := only old inside (oldParent.symm.trans top) (oldWorkspace.symm.trans workspace)
    (oldKind.symm.trans sort) (oldKey.symm.trans label)
  have listed : old.id ∈ log.tree running.id := same ▸ rooted.root_mem_tree running.id
  have settled := Rooted.finishOne_settled final running.id (some ("\n" ++ why ++ "\n")) now old
  intro status
  simp only [listed, if_true] at status
  rw [status] at settled
  cases settled

/-- The action's activity is opened with the next id, whatever was running. -/
theorem openActivity_opens {world : Activities.World} (shaped : Shaped world) (action : Followed)
    (now : Nat) : ∃ id, (openActivity world.inner action now).2 = some id ∧
      Opens world.inner (some action.workspaceId) (openActivity world.inner action now).1 id ∧
      Shaped { world with inner := (openActivity world.inner action now).1 } := by
  have rooted := shaped.rooted
  have first : Shaped { world with
      inner := (world.inner.start (some action.workspaceId) action.kind action.key now).1 } :=
    shaped.of_subset (rooted.steady_start _ _ _ now) (kept_start rooted _ _ _ now)
      (List.Subset.refl _)
  unfold openActivity
  split
  · rename_i opened id started
    rw [started] at first
    exact ⟨id, rfl, opens_start started, first⟩
  · rename_i joined running started
    obtain ⟨rfl, found, status⟩ := start_joins started
    have cancelled : Shaped { world with
        inner := world.inner.cancel running.id "superseded" now } :=
      shaped.of_subset (World.steady_cancel rooted _ _ now) (kept_finish rooted rfl _ _ now)
        (List.Subset.refl _)
    have second : Shaped { world with
        inner := ((world.inner.cancel running.id "superseded" now).start (some action.workspaceId)
          action.kind action.key now).1 } :=
      cancelled.of_subset (cancelled.rooted.steady_start _ _ _ now)
        (kept_start cancelled.rooted _ _ _ now) (List.Subset.refl _)
    split
    · rename_i opened id restarted
      rw [restarted] at second
      have opens := opens_start restarted
      have nextId : (world.inner.cancel running.id "superseded" now).nextId = world.inner.nextId :=
        (rooted.finish_rewritten rfl running.id _ now).nextId
      exact ⟨id, rfl, ⟨opens.id_eq.trans (by rw [nextId]), opens.nextId, opens.record⟩, second⟩
    · rename_i again other restarted
      obtain ⟨-, foundAgain, stillRunning⟩ := start_joins restarted
      exact absurd stillRunning (no_top_after_cancel rooted found foundAgain)

end Opening

/-! ### The invariant -/

/-- What the record of the action's activity says. -/
structure Record (workspaceId : String) (ended : Option ActivityStatus) (activity : Activity) :
    Prop where
  top : activity.parent = none
  workspace : activity.workspaceId = some workspaceId
  running : activity.status ≠ .queued
  ended : ended = if activity.status.isOpen then none else some activity.status

/-- Before it has ended the activity is running. -/
theorem Record.status_eq {workspaceId : String} {ended : Option ActivityStatus}
    (record : Record workspaceId ended activity) (open_ : ended = none) :
    activity.status = .running := by
  have shown := record.ended
  rw [open_] at shown
  cases status : activity.status with
  | running => rfl
  | queued => exact absurd status record.running
  | done => simp [status, ActivityStatus.isOpen] at shown
  | error => simp [status, ActivityStatus.isOpen] at shown
  | cancelled => simp [status, ActivityStatus.isOpen] at shown

structure Invariant (action : Followed) (after : Nat) (world : World) : Prop where
  shaped : Shaped world.log
  low : after ≤ world.log.inner.nextId
  unopened : world.opened = none → world.ended = none
  opened : ∀ id ∈ world.opened, after < id ∧ id ≤ world.log.inner.nextId
  record : ∀ id ∈ world.opened, ∀ activity ∈ world.log.inner.items, activity.id = id →
    Record action.workspaceId world.ended activity
  present : ∀ id ∈ world.opened, world.ended = none → ∃ activity ∈ world.log.inner.items,
    activity.id = id
  marked : world.ended = none → action.mark.isSet world.env = true
  listed : ∀ list ∈ world.listed, ∀ activity ∈ list, activity.id ≤ world.log.inner.nextId ∧
    (world.opened = some activity.id → activity.parent = none ∧ activity.status ≠ .queued ∧
      (activity.status.isOpen = false → world.ended = some activity.status))
  ends : world.returned ≠ none → world.ended ≠ none
  right : Right world

theorem Accepted.invariant {action : Followed} {after : Nat} {world : World}
    (accepted : Accepted action after world) : Invariant action after world where
  shaped := by
    obtain ⟨events, log⟩ := accepted.log
    exact log ▸ Shaped.after events
  low := accepted.after
  unopened _ := accepted.ended
  opened id opened := by simp [accepted.opened] at opened
  record id opened := by simp [accepted.opened] at opened
  present id opened := by simp [accepted.opened] at opened
  marked _ := accepted.marked
  listed list listed := by simp [accepted.listed] at listed
  ends returned := absurd accepted.returned returned
  right verdict returned := by simp [accepted.returned] at returned

/-- What the activity of an id on the log has ended as. -/
theorem outcome_eq {log : Inner} (rooted : Rooted log) (member : activity ∈ log.items) :
    outcome log activity.id = if activity.status.isOpen then none else some activity.status := by
  simp [outcome, rooted.find_eq_some member]

namespace Invariant

variable {action : Followed} {after : Nat} {world : World}

theorem logged (invariant : Invariant action after world) (event : Activities.Event) :
    Invariant action after (step action after world (.log event)) := by
  have steady := World.steady_step invariant.shaped.rooted event
  have kept := invariant.shaped.kept_step event
  -- What was known of the outcome stays so.
  have known : ∀ status, world.ended = some status →
      (step action after world (.log event)).ended = some status := by
    intro status ended
    simp [step, ended]
  have unknown : (step action after world (.log event)).ended = none → world.ended = none := by
    simp only [step, Option.or_eq_none_iff]
    exact fun ended => ended.1
  exact
    { shaped := invariant.shaped.step event
      low := invariant.low.trans steady.nextId
      unopened := fun opened => by
        have opened : world.opened = none := opened
        simp [step, opened, invariant.unopened opened]
      opened := fun id opened =>
        ⟨(invariant.opened id opened).1, (invariant.opened id opened).2.trans steady.nextId⟩
      record := by
        intro id opened activity member named
        obtain ⟨old, inside, stayed⟩ :=
          kept.stayed activity member (named.trans_le (invariant.opened id opened).2)
        obtain ⟨same, workspace, parent, -⟩ := Activity.place_eq_iff.mp stayed.place
        have record := invariant.record id opened old inside (same.symm.trans named)
        refine ⟨parent.trans record.top, workspace.trans record.workspace,
          stayed.running record.top record.running, ?_⟩
        have ended := record.ended
        have opened : world.opened = some activity.id := named ▸ opened
        change world.ended.or (world.opened.bind (outcome (world.log.step event).inner)) = _
        rw [opened, Option.bind_some, outcome_eq steady.rooted member, ended]
        cases isOpen : old.status.isOpen with
        | true => rfl
        | false =>
            rw [stayed.settled record.top isOpen, isOpen]
            rfl
      present := by
        intro id opened ended
        obtain ⟨old, inside, named⟩ := invariant.present id opened (unknown ended)
        have record := invariant.record id opened old inside named
        obtain ⟨later, there, same⟩ :=
          kept.stays old inside record.top (record.status_eq (unknown ended))
        exact ⟨later, there, same.trans named⟩
      marked := fun ended => invariant.marked (unknown ended)
      listed := by
        intro list listed activity member
        obtain ⟨low, own⟩ := invariant.listed list listed activity member
        refine ⟨low.trans steady.nextId, fun opened => ?_⟩
        obtain ⟨top, running, settled⟩ := own opened
        exact ⟨top, running, fun ends => known _ (settled ends)⟩
      ends := fun returned ended => invariant.ends returned (unknown ended)
      right := by
        intro verdict returned
        have ends : world.returned = some verdict := returned
        obtain ⟨status, ended⟩ := Option.ne_none_iff_exists'.mp (invariant.ends (by simp [ends]))
        rw [known status ended, ← ended]
        exact invariant.right verdict returned }

theorem opens (invariant : Invariant action after world) (now : Nat) :
    Invariant action after (step action after world (.opens now)) := by
  simp only [step]
  split
  · exact invariant
  · rename_i closed
    have unopened : world.opened = none := by simpa using closed
    obtain ⟨id, id_eq, opens, shaped⟩ := openActivity_opens invariant.shaped action now
    have ended := invariant.unopened unopened
    have higher : world.log.inner.nextId < id := opens.id_eq.ge
    rw [id_eq]
    exact
      { invariant with
        shaped
        low := (invariant.low.trans higher.le).trans opens.nextId.ge
        unopened := fun none => by cases none
        opened := fun named opened => by
          cases opened
          exact ⟨invariant.low.trans_lt higher, opens.nextId.ge⟩
        record := fun named opened activity member same => by
          cases opened
          obtain ⟨fresh, inside, named, top, workspace, status⟩ := opens.record
          obtain rfl := shaped.rooted.unique member inside (same.trans named.symm)
          exact ⟨top, workspace, by simp [status], by simp [ended, status, ActivityStatus.isOpen]⟩
        present := fun named opened _ => by
          cases opened
          obtain ⟨fresh, inside, same, -⟩ := opens.record
          exact ⟨fresh, inside, same⟩
        listed := fun list listed activity member => by
          have low := (invariant.listed list listed activity member).1
          refine ⟨(low.trans higher.le).trans opens.nextId.ge, fun opened => ?_⟩
          cases opened
          exact absurd higher (Nat.not_lt.mpr low) }

theorem changes (invariant : Invariant action after world) (run : Option EnvState) :
    Invariant action after (step action after world (.env run)) := by
  simp only [step]
  split
  · rename_i allowed
    exact
      { invariant with
        marked := fun ended => by
          have ended : world.ended = none := ended
          simpa [ended] using allowed }
  · exact invariant

theorem lists (invariant : Invariant action after world) :
    Invariant action after (step action after world .list) := by
  simp only [step]
  split
  · exact invariant
  · refine { invariant with listed := ?_ }
    rintro _ ⟨⟩ activity member
    obtain ⟨inside, -⟩ := mem_list.mp member
    refine ⟨(invariant.shaped.rooted.below activity inside).2, fun opened => ?_⟩
    have record := invariant.record activity.id opened activity inside rfl
    refine ⟨record.top, record.running, fun ends => ?_⟩
    rw [record.ended, ends]
    rfl

/-- A mark of the action is something pending. -/
theorem not_settled_of_isSet {mark : Mark} {env : Option EnvState} (set : mark.isSet env = true) :
    isSettled env = false := by
  cases env with
  | none => cases mark <;> cases set
  | some run =>
      rw [isSettled, Option.all_some, Bool.and_eq_false_iff]
      cases mark with
      | create =>
          have pending : run.pendingCreate.isSome = true := set
          exact .inl (by simpa using pending)
      | node nodeId =>
          obtain ⟨container, found, pending⟩ := (Option.any_eq_true _ _).mp set
          refine .inr (List.all_eq_false.mpr ⟨(nodeId, container), ?_, ?_⟩)
          · exact Std.ExtTreeMap.mem_toList_iff_getElem?_eq_some.mpr found
          · simpa [Option.isSome_iff_ne_none] using pending

/-- Where the command line returns without an error, the action's activity is done. -/
theorem done_of_ok (invariant : Invariant action after world) (fine : Fine after world .decide)
    {list : List Activity} (listed : world.listed = some list)
    (ends : round .settled (newRoots list after) world.env = some (.ok ())) :
    world.ended = some .done := by
  obtain ⟨closed, settled, spared⟩ := round_settled ends
  rcases fine list listed closed settled with done | ⟨kept, activity, member, opened⟩
  · exact done
  · obtain ⟨-, own⟩ := invariant.listed list listed activity member
    obtain ⟨top, running, shown⟩ := own opened
    have root : activity ∈ newRoots list after :=
      mem_newRoots.mpr ⟨member, top, (invariant.opened activity.id opened).1⟩
    have shut := closed activity root
    have ended := shown shut
    rw [ended]
    cases status : activity.status with
    | done => rfl
    | queued => exact absurd status running
    | running => simp [status, ActivityStatus.isOpen] at shut
    | error => exact absurd status (spared rfl activity root)
    | cancelled => exact absurd (ended.trans (congrArg some status)) kept

theorem decides (invariant : Invariant action after world) (fine : Fine after world .decide) :
    Invariant action after (step action after world .decide) := by
  simp only [step]
  split
  · rename_i list returned listed
    exact
      { invariant with
        listed := fun list none => by cases none
        ends := fun ends ended => by
          obtain ⟨verdict, ends⟩ := Option.ne_none_iff_exists'.mp ends
          have ended : world.ended = none := ended
          have settled := (round_settled ends).2.1
          rw [not_settled_of_isSet (invariant.marked ended)] at settled
          cases settled
        right := fun verdict ends => by
          refine ⟨?_, fun bad => ?_⟩
          · rintro rfl
            exact invariant.done_of_ok fine listed ends
          · cases verdict with
            | error message => exact ⟨message, rfl⟩
            | ok =>
                have done := invariant.done_of_ok fine listed ends
                have bad : world.ended = some .error ∨ world.ended = some .cancelled := bad
                rw [done] at bad
                rcases bad with wrong | wrong <;> cases wrong }
  · exact invariant

theorem step (invariant : Invariant action after world) {event : Event}
    (fine : Fine after world event) :
    Invariant action after (Follow.step action after world event) := by
  cases event with
  | log event => exact invariant.logged event
  | opens now => exact invariant.opens now
  | env run => exact invariant.changes run
  | list => exact invariant.lists
  | decide => exact invariant.decides fine

end Invariant

/-! ## Waiting for one activity -/

/-- The round of `follow` that waits for the job, on this log, is the last one, and fails exactly if
the job did. -/
def ClosedRight (log : Inner) (workspaceId : String) (job : Activity) (env : Option EnvState) :
    Prop :=
  ∃ verdict, round (.closed job.id) (newRoots (list log (some workspaceId)) (job.id - 1)) env =
      some verdict ∧
    ((∃ message, verdict = .error message) ↔ job.status = .error)

/-- The job's record is on the log, and no newer job of the workspace failed, unless the job did. -/
def ClosedFine (log : Inner) (workspaceId : String) (job : Activity) : Prop :=
  (∃ record ∈ log.items, record.id = job.id) ∧
    (job.status = .error ∨ ∀ newer ∈ log.items, newer.workspaceId = some workspaceId →
      newer.parent = none → job.id < newer.id → newer.status ≠ .error)

/-- The record of a job that has ended stays as it is, as long as it is there. -/
theorem ended_stays {front : List Activities.Event} {job : Activity}
    (member : job ∈ (World.after front).inner.items) (top : job.parent = none)
    (ended : job.status.isOpen = false) (middle : List Activities.Event) :
    ∀ record ∈ (World.after (front ++ middle)).inner.items, record.id = job.id →
      record.place = job.place ∧ record.status = job.status := by
  have shaped := Shaped.after front
  have low := (shaped.rooted.below job member).2
  rw [World.after_append]
  refine (Execution.run_always World.step (fun world => Shaped world ∧ job.id ≤ world.inner.nextId ∧
    ∀ record ∈ world.inner.items, record.id = job.id →
      record.place = job.place ∧ record.status = job.status) ?_ ⟨shaped, low, ?_⟩ middle).2.2
  · rintro world event ⟨shaped, low, same⟩
    refine ⟨shaped.step event, low.trans (World.steady_step shaped.rooted event).nextId, ?_⟩
    intro record there named
    obtain ⟨old, inside, stayed⟩ :=
      (shaped.kept_step event).stayed record there (named.trans_le low)
    have old_id := (Activity.place_eq_iff.mp stayed.place).1
    obtain ⟨place, status⟩ := same old inside (old_id.symm.trans named)
    have oldTop := (Activity.place_eq_iff.mp place).2.2.1.trans top
    exact ⟨stayed.place.trans place,
      (stayed.settled oldTop (by rw [status, ended])).trans status⟩
  · intro record there named
    obtain rfl := shaped.rooted.unique there member named
    exact ⟨rfl, rfl⟩

theorem closedRight_iff {front : List Activities.Event} {workspaceId : String} {job : Activity}
    (member : job ∈ (World.after front).inner.items) (top : job.parent = none)
    (workspace : job.workspaceId = some workspaceId) (ended : job.status.isOpen = false)
    (middle : List Activities.Event) (env : Option EnvState) :
    ClosedRight (World.after (front ++ middle)).inner workspaceId job env ↔
      ClosedFine (World.after (front ++ middle)).inner workspaceId job := by
  have same := ended_stays member top ended middle
  have positive := ((Shaped.after front).rooted.below job member).1
  have mem_roots : ∀ activity, activity ∈ newRoots
      (list (World.after (front ++ middle)).inner (some workspaceId)) (job.id - 1) ↔
        activity ∈ (World.after (front ++ middle)).inner.items ∧
          activity.workspaceId = some workspaceId ∧ activity.parent = none ∧
            job.id ≤ activity.id := by
    intro activity
    rw [mem_newRoots, mem_list, and_assoc, Nat.sub_lt_iff_lt_add positive, Nat.lt_succ_iff]
  rw [ClosedRight, round_closed]
  constructor
  · rintro ⟨⟨record, root, named, -⟩, verdict⟩
    refine ⟨⟨record, ((mem_roots record).mp root).1, named⟩, ?_⟩
    by_cases own : job.status = .error
    · exact .inl own
    · refine .inr fun newer there workspace top later bad => own (verdict.mp ⟨newer, ?_, bad⟩)
      exact (mem_roots newer).mpr ⟨there, workspace, top, later.le⟩
  · rintro ⟨⟨record, there, named⟩, spared⟩
    obtain ⟨place, status⟩ := same record there named
    obtain ⟨-, recordWorkspace, recordTop, -⟩ := Activity.place_eq_iff.mp place
    have root := (mem_roots record).mpr
      ⟨there, recordWorkspace.trans workspace, recordTop.trans top, named.ge⟩
    refine ⟨⟨record, root, named, by rw [status, ended]⟩, ?_, fun own =>
      ⟨record, root, status.trans own⟩⟩
    rintro ⟨activity, listed, bad⟩
    obtain ⟨inside, inWorkspace, atTop, later⟩ := (mem_roots activity).mp listed
    rcases spared with own | clean
    · exact own
    · rcases Nat.lt_or_eq_of_le later with newer | same_id
      · exact absurd bad (clean activity inside inWorkspace atTop newer)
      · exact (same activity inside same_id.symm).2 ▸ bad

/-- The command line's verdict is that of the action's activity in every run whose decisions are
fine, and the rounds that wait for one job give that job's verdict exactly as long as its record is
there and no newer job failed. -/
theorem verdict_told (action : Followed) :
    (∀ after world, Accepted action after world → ∀ events,
      Execution.Along (step action after) (Fine after) world events →
        ∀ front back, events = front ++ back →
          Right (Execution.run (step action after) world front)) ∧
      ∀ front middle workspaceId, ∀ job ∈ (World.after front).inner.items, job.parent = none →
        job.workspaceId = some workspaceId → job.status.isOpen = false → ∀ env,
          (ClosedRight (World.after (front ++ middle)).inner workspaceId job env ↔
            ClosedFine (World.after (front ++ middle)).inner workspaceId job) := by
  constructor
  · rintro after world accepted events fine front back rfl
    have along := ((Execution.along_append (step action after) (Fine after) world front back).mp
      fine).1
    exact (Execution.run_invariant (step action after) (Fine after) (Invariant action after)
      (fun _ _ invariant => invariant.step) accepted.invariant along).right
  · intro front middle workspaceId job member top workspace ended env
    exact closedRight_iff member top workspace ended middle env

/-- A switch of a workspace. -/
def switch : Followed where
  workspaceId := "shop"
  kind := .switch
  key := "app/web"
  mark := .create

/-- The switch is accepted, on an empty log. -/
def accepted : World where
  log := {}
  env := some { pendingCreate := some (.flow "app/web") }

theorem accepted_switch : Accepted switch 0 accepted where
  log := ⟨[], rfl⟩
  after := Nat.le_refl 0
  marked := rfl
  opened := rfl
  ended := rfl
  listed := rfl
  returned := rfl

/-- A switch that goes well, and a pull that does. -/
theorem verdict_told_switch :
    Right (Execution.run (step switch 0) accepted
      [.opens 0, .list, .decide, .log (.settle 1 (.ok ()) 1), .env (some {}), .list, .decide]) ∧
    (ClosedRight (World.after [.start (some "shop") .pull "pull-all" 0, .settle 1 (.ok ()) 1]).inner
      "shop" ⟨1, some "shop", none, .pull, "pull-all", .done, "", 0, some 1⟩ none ↔
    ClosedFine (World.after [.start (some "shop") .pull "pull-all" 0, .settle 1 (.ok ()) 1]).inner
      "shop" ⟨1, some "shop", none, .pull, "pull-all", .done, "", 0, some 1⟩) := by
  exact ⟨(verdict_told switch).1 0 accepted accepted_switch _ (by decide) _ []
      (List.append_nil _).symm,
    (verdict_told switch).2 [.start (some "shop") .pull "pull-all" 0, .settle 1 (.ok ()) 1] []
      "shop" _ (by decide) rfl rfl rfl none⟩

theorem not_right {world : World} {status : ActivityStatus}
    (returned : world.returned = some (.ok ())) (ended : world.ended = some status)
    (bad : status ≠ .done) : ¬Right world := fun right =>
  bad (Option.some.inj (ended.symm.trans ((right (.ok ()) returned).1 rfl)))

/-- A switch that fails between the two reads, one that is called off, and one that fails and is
done again before the list is read all return without an error. A pull whose record is replaced is
waited for on, and one that went well fails with a newer one. -/
theorem verdict_lost :
    ¬Right (Execution.run (step switch 0) accepted
      [.list, .opens 0, .log (.settle 1 (.error "boom") 1), .env (some {}), .decide]) ∧
    ¬Right (Execution.run (step switch 0) accepted
      [.opens 0, .log (.cancel 1 "called off" 1), .env (some {}), .list, .decide]) ∧
    ¬Right (Execution.run (step switch 0) accepted
      [.opens 0, .log (.settle 1 (.error "boom") 1), .env (some {}),
        .log (.start (some "shop") .switch "app/web" 2), .log (.settle 2 (.ok ()) 3), .list,
        .decide]) ∧
    ¬ClosedRight (World.after [.start (some "shop") .pull "pull-all" 0, .settle 1 (.ok ()) 1,
        .start (some "shop") .pull "pull-all" 2]).inner
      "shop" ⟨1, some "shop", none, .pull, "pull-all", .done, "", 0, some 1⟩ none ∧
    ¬ClosedRight (World.after [.start (some "shop") .pull "pull-all" 0,
        .start (some "shop") .pull "pull-flow:web" 0, .settle 2 (.error "boom") 1,
        .settle 1 (.ok ()) 1]).inner
      "shop" ⟨1, some "shop", none, .pull, "pull-all", .done, "", 0, some 1⟩ none := by
  refine ⟨not_right rfl rfl (by decide), not_right rfl rfl (by decide),
    not_right rfl rfl (by decide), ?_, ?_⟩
  · rintro ⟨verdict, ends, -⟩
    cases ends
  · rintro ⟨verdict, ends, same⟩
    obtain rfl := Option.some.inj ends
    exact absurd (same.mp ⟨_, rfl⟩) (by decide)

end Follow
end Fghj
