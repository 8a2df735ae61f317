import Fghj.Library.Execution
import Fghj.Library.Forest
import Fghj.Library.Slots

/-!
# The activity log

The log is one list under one lock. Handles are ids into it and outlive the jobs they were given
for. Every operation that takes the lock is one step; `queued_child_of_kind` and
`start_superseding` take it more than once, and other holders may get in between.
-/

namespace Fghj
namespace Activities

inductive ActivityKind where
  | pull | remove | switch | start | stop | delete
  deriving DecidableEq, Repr

inductive ActivityStatus where
  | queued | running | done | error | cancelled
  deriving DecidableEq, Repr

/-- Not settled yet. -/
def ActivityStatus.isOpen : ActivityStatus → Bool
  | .queued | .running => true
  | .done | .error | .cancelled => false

structure Activity where
  id : Nat
  workspaceId : Option String
  parent : Option Nat
  kind : ActivityKind
  key : String
  status : ActivityStatus
  log : String
  startedMs : Nat
  finishedMs : Option Nat
  deriving DecidableEq, Repr

/-- An id no job has: ids start at 1. -/
def detached : Nat := 0

structure Inner where
  nextId : Nat := 0
  items : List Activity := []
  deriving DecidableEq, Repr

/-- A write to the first item of the id, if there is one. -/
def touch (id : Nat) (write : Activity → Activity) : List Activity → List Activity
  | [] => []
  | activity :: rest =>
      if activity.id = id then write activity :: rest else activity :: touch id write rest

namespace Inner

def find (inner : Inner) (id : Nat) : Option Activity := inner.items.find? (·.id = id)

/-- A write through `find_mut`. -/
def findMut (inner : Inner) (id : Nat) (write : Activity → Activity) : Inner :=
  { inner with items := touch id write inner.items }

def push (inner : Inner) (workspaceId : Option String) (parent : Option Nat) (kind : ActivityKind)
    (key : String) (now : Nat) : Inner :=
  { nextId := inner.nextId + 1
    items := inner.items ++
      [⟨inner.nextId + 1, workspaceId, parent, kind, key, .running, "", now, none⟩] }

/-- The ids of the activities right under one. -/
def children (inner : Inner) (id : Nat) : List Nat :=
  (inner.items.filter (·.parent = some id)).map (·.id)

/-- `root` and everything under it. -/
def tree (inner : Inner) (root : Nat) : List Nat :=
  (Forest.walk inner.children (inner.items.length + 2) root).getD [root]

def removeTree (inner : Inner) (root : Nat) : Inner :=
  { inner with items := inner.items.filter (·.id ∉ inner.tree root) }

def findTop (inner : Inner) (workspaceId : Option String) (kind : ActivityKind) (key : String) :
    Option Activity :=
  inner.items.find? fun activity =>
    activity.parent = none ∧ activity.workspaceId = workspaceId ∧ activity.kind = kind ∧
      activity.key = key

/-- `ActivityLog::start`: the id of the new job, or the job that runs already. -/
def start (inner : Inner) (workspaceId : Option String) (kind : ActivityKind) (key : String)
    (now : Nat) : Inner × Except Activity Nat :=
  match inner.findTop workspaceId kind key with
  | some previous =>
      if previous.status = .running then (inner, .error previous)
      else ((inner.removeTree previous.id).push workspaceId none kind key now,
        .ok (inner.nextId + 1))
  | none => (inner.push workspaceId none kind key now, .ok (inner.nextId + 1))

/-- One turn of `append`, at the activity it has come to. -/
def appendPass (text : String) : Inner × Option Nat → Pass (Inner × Option Nat) Inner
  | (inner, none) => .done inner
  | (inner, some id) =>
      match inner.find id with
      | none => .done inner
      | some activity =>
          .again (inner.findMut id fun written => { written with log := written.log ++ text },
            activity.parent)

def append (inner : Inner) (handle : Nat) (text : String) : Inner :=
  (Pass.loop (appendPass text) (handle + 2) (inner, some handle)).getD inner

/-- `child_of_kind`: the id the new handle carries. -/
def childOfKind (inner : Inner) (handle : Nat) (kind : Option ActivityKind) (key : String)
    (now : Nat) : Inner × Nat :=
  match inner.find handle with
  | none => (inner, detached)
  | some activity =>
      (inner.push activity.workspaceId (some handle) (kind.getD activity.kind) key now,
        inner.nextId + 1)

/-- The second half of `queued_child_of_kind`, under a lock of its own. -/
def markQueued (inner : Inner) (child : Nat) : Inner :=
  inner.findMut child fun activity => { activity with status := .queued }

def begin (inner : Inner) (handle : Nat) (now : Nat) : Inner :=
  inner.findMut handle fun activity =>
    if activity.status = .queued then { activity with status := .running, startedMs := now }
    else activity

/-- What `finish` writes to one activity of the tree. -/
def finishOne (handle : Nat) (status : ActivityStatus) (note : Option String) (now : Nat)
    (activity : Activity) : Activity :=
  if activity.status.isOpen then
    if activity.id = handle then
      { activity with
        log := activity.log ++ note.getD "", status := status, finishedMs := some now }
    else
      { activity with status := .cancelled, finishedMs := some now }
  else activity

def finish (inner : Inner) (handle : Nat) (status : ActivityStatus) (note : Option String)
    (now : Nat) : Inner :=
  (inner.tree handle).foldl
    (fun inner id => inner.findMut id (finishOne handle status note now)) inner

def settle (inner : Inner) (handle : Nat) (result : Except String Unit) (now : Nat) : Inner :=
  match result with
  | .ok () => inner.finish handle .done none now
  | .error e => inner.finish handle .error (some ("\nerror: " ++ e ++ "\n")) now

def cancel (inner : Inner) (handle : Nat) (why : String) (now : Nat) : Inner :=
  inner.finish handle .cancelled (some ("\n" ++ why ++ "\n")) now

end Inner

/-- A `start_superseding` that found a job running: it cancels that one, then starts again. -/
structure Superseding where
  workspaceId : Option String
  kind : ActivityKind
  key : String
  running : Option Nat
  deriving DecidableEq, Repr

/-- The log, with the calls that have let go of its lock and will take it again. -/
structure World where
  inner : Inner := {}
  queueing : List Nat := []
  superseding : List Superseding := []
  deriving DecidableEq, Repr

/-- What a holder of a handle does, or a caller of the log. A call under way is named by its place
in its list. -/
inductive Event where
  | start (workspaceId : Option String) (kind : ActivityKind) (key : String) (now : Nat)
  | startSuperseding (workspaceId : Option String) (kind : ActivityKind) (key : String) (now : Nat)
  | supersede (call now : Nat)
  | childOfKind (handle : Nat) (kind : Option ActivityKind) (key : String) (now : Nat)
  | queuedChildOfKind (handle : Nat) (kind : Option ActivityKind) (key : String) (now : Nat)
  | markQueued (call : Nat)
  | begin (handle now : Nat)
  | append (handle : Nat) (text : String)
  | settle (handle : Nat) (result : Except String Unit) (now : Nat)
  /-- Also the drop of a guard. -/
  | cancel (handle : Nat) (why : String) (now : Nat)

namespace World

/-- The next lock a `start_superseding` takes after its first. -/
def supersede (world : World) (call now : Nat) : World :=
  match world.superseding[call]? with
  | none => world
  | some superseding =>
      match superseding.running with
      | some running =>
          { world with
            inner := world.inner.cancel running "superseded" now
            superseding := world.superseding.set call { superseding with running := none } }
      | none =>
          -- a job started in between makes the caller panic, after `start` has let go of the lock
          { world with
            inner := (world.inner.start superseding.workspaceId superseding.kind superseding.key
              now).1
            superseding := world.superseding.eraseIdx call }

def step (world : World) : Event → World
  | .start workspaceId kind key now =>
      { world with inner := (world.inner.start workspaceId kind key now).1 }
  | .startSuperseding workspaceId kind key now =>
      match world.inner.start workspaceId kind key now with
      | (inner, .ok _) => { world with inner := inner }
      | (inner, .error running) =>
          { world with
            inner := inner
            superseding := world.superseding ++ [⟨workspaceId, kind, key, some running.id⟩] }
  | .supersede call now => world.supersede call now
  | .childOfKind handle kind key now =>
      { world with inner := (world.inner.childOfKind handle kind key now).1 }
  | .queuedChildOfKind handle kind key now =>
      let opened := world.inner.childOfKind handle kind key now
      { world with inner := opened.1, queueing := world.queueing ++ [opened.2] }
  | .markQueued call =>
      match world.queueing[call]? with
      | none => world
      | some child =>
          { world with
            inner := world.inner.markQueued child
            queueing := world.queueing.eraseIdx call }
  | .begin handle now => { world with inner := world.inner.begin handle now }
  | .append handle text => { world with inner := world.inner.append handle text }
  | .settle handle result now => { world with inner := world.inner.settle handle result now }
  | .cancel handle why now => { world with inner := world.inner.cancel handle why now }

/-- The log after the events, from an empty one. -/
def after (events : List Event) : World := Execution.run step {} events

end World
/-! ## Writes to one activity -/

/-- What no write changes: the id, whose it is and what it is for. -/
def Activity.place (activity : Activity) :
    Nat × Option String × Option Nat × ActivityKind × String :=
  (activity.id, activity.workspaceId, activity.parent, activity.kind, activity.key)

theorem Activity.place_eq_iff {activity other : Activity} : activity.place = other.place ↔
    activity.id = other.id ∧ activity.workspaceId = other.workspaceId ∧
      activity.parent = other.parent ∧ activity.kind = other.kind ∧ activity.key = other.key := by
  simp [place]

theorem touch_absent {id : Nat} {write : Activity → Activity} {items : List Activity}
    (absent : id ∉ items.map (·.id)) : touch id write items = items := by
  induction items with
  | nil => rfl
  | cons activity rest ih =>
      rw [List.map_cons, List.mem_cons, not_or] at absent
      rw [touch, if_neg (Ne.symm absent.1), ih absent.2]

theorem touch_eq_map {handle : Nat} {write : Activity → Activity} {items : List Activity}
    (distinct : (items.map (·.id)).Nodup) :
    touch handle write items = items.map fun activity =>
      if activity.id = handle then write activity else activity := by
  induction items with
  | nil => rfl
  | cons activity rest ih =>
      rw [List.map_cons, List.nodup_cons] at distinct
      rw [touch, List.map_cons]
      split
      · rename_i same
        have others : rest.map (fun other => if other.id = handle then write other else other) =
            rest.map id := by
          refine List.map_congr_left fun other member => if_neg fun equal => distinct.1 ?_
          exact List.mem_map.mpr ⟨other, member, equal.trans same.symm⟩
        rw [others, List.map_id]
      · rw [ih distinct.2]

/-- Every activity is still there, in its place, as `write` left it. -/
structure Rewritten (before after : Inner) (write : Activity → Activity) : Prop where
  items : after.items = before.items.map write
  nextId : after.nextId = before.nextId
  place : ∀ activity, (write activity).place = activity.place

namespace Rewritten

variable {before middle after : Inner} {write second : Activity → Activity}

theorem ids (rewritten : Rewritten before after write) :
    after.items.map (·.id) = before.items.map (·.id) := by
  rw [rewritten.items, List.map_map]
  refine List.map_congr_left fun activity _ => ?_
  exact (Activity.place_eq_iff.mp (rewritten.place activity)).1

theorem refl (inner : Inner) : Rewritten inner inner id := ⟨(List.map_id _).symm, rfl, fun _ => rfl⟩

theorem trans (first : Rewritten before middle write) (then_ : Rewritten middle after second) :
    Rewritten before after (second ∘ write) where
  items := by rw [then_.items, first.items, List.map_map]
  nextId := then_.nextId.trans first.nextId
  place activity := (then_.place _).trans (first.place activity)

/-- A write through `find_mut`, over a list whose ids are distinct. -/
theorem findMut {inner : Inner} (distinct : (inner.items.map (·.id)).Nodup) (id : Nat)
    (write : Activity → Activity) (place : ∀ activity, (write activity).place = activity.place) :
    Rewritten inner (inner.findMut id write) fun activity =>
      if activity.id = id then write activity else activity where
  items := touch_eq_map distinct
  nextId := rfl
  place activity := by split <;> simp [place]

end Rewritten

/-! ## What every state of the log is like -/

/-- Ids are distinct and given out in order, parents are there and older than their children, and
no two top-level jobs are for the same thing. -/
structure Rooted (inner : Inner) : Prop where
  ids : (inner.items.map (·.id)).Nodup
  below : ∀ activity ∈ inner.items, 0 < activity.id ∧ activity.id ≤ inner.nextId
  parents : ∀ activity ∈ inner.items, ∀ parent, activity.parent = some parent →
    parent < activity.id ∧ parent ∈ inner.items.map (·.id)
  tops : ∀ activity ∈ inner.items, ∀ other ∈ inner.items, activity.parent = none →
    other.parent = none → activity.workspaceId = other.workspaceId → activity.kind = other.kind →
    activity.key = other.key → activity.id = other.id

namespace Rooted

variable {inner : Inner}

theorem empty : Rooted {} := by
  refine ⟨List.nodup_nil, ?_, ?_, ?_⟩ <;> intro activity member <;> cases member

/-- The id names the activity. -/
theorem unique (rooted : Rooted inner) {activity other : Activity} (member : activity ∈ inner.items)
    (also : other ∈ inner.items) (same : activity.id = other.id) : activity = other :=
  List.inj_on_of_nodup_map rooted.ids member also same

theorem find_eq_some (rooted : Rooted inner) {activity : Activity}
    (member : activity ∈ inner.items) : inner.find activity.id = some activity := by
  unfold Inner.find
  cases found : inner.items.find? (·.id = activity.id) with
  | none =>
      have := List.find?_eq_none.mp found activity member
      simp at this
  | some other =>
      have same : other.id = activity.id := by simpa using List.find?_some found
      rw [rooted.unique (List.mem_of_find?_eq_some found) member same]

theorem mem_children {id child : Nat} :
    child ∈ inner.children id ↔
      ∃ activity ∈ inner.items, activity.parent = some id ∧ activity.id = child := by
  simp [Inner.children, and_assoc]

/-- The parent relation makes the ids a forest. -/
theorem isForest (rooted : Rooted inner) :
    Forest.IsForest inner.children (inner.items.map (·.id)) id where
  known vertex child listed := by
    obtain ⟨activity, member, -, rfl⟩ := mem_children.mp listed
    exact List.mem_map_of_mem member
  nodup vertex := rooted.ids.sublist (List.filter_sublist.map _)
  single child parent other here there := by
    obtain ⟨activity, member, below, rfl⟩ := mem_children.mp here
    obtain ⟨again, also, under, same⟩ := mem_children.mp there
    obtain rfl := rooted.unique also member same
    exact Option.some.inj (below.symm.trans under)
  rises vertex child listed := by
    obtain ⟨activity, member, below, rfl⟩ := mem_children.mp listed
    exact (rooted.parents activity member vertex below).1

/-- `tree` comes to its end, with the root and the children of everything it lists. -/
theorem walk_tree (rooted : Rooted inner) (root : Nat) :
    Forest.walk inner.children (inner.items.length + 2) root = some (inner.tree root) ∧
      inner.tree root = root :: (inner.tree root).flatMap inner.children := by
  obtain ⟨list, found, closed⟩ :=
    rooted.isForest.walk_ends (by simp : _ ≤ inner.items.length + 2) root
  rw [Inner.tree, found]
  exact ⟨rfl, closed⟩

theorem root_mem_tree (rooted : Rooted inner) (root : Nat) : root ∈ inner.tree root := by
  rw [(rooted.walk_tree root).2]
  exact List.mem_cons_self

theorem child_mem_tree (rooted : Rooted inner) {root parent : Nat} {activity : Activity}
    (member : activity ∈ inner.items) (below : activity.parent = some parent)
    (listed : parent ∈ inner.tree root) : activity.id ∈ inner.tree root := by
  rw [(rooted.walk_tree root).2]
  refine List.mem_cons_of_mem _ (List.mem_flatMap.mpr ⟨parent, listed, ?_⟩)
  exact mem_children.mpr ⟨activity, member, below, rfl⟩

theorem tree_absent (rooted : Rooted inner) {root : Nat} (absent : root ∉ inner.items.map (·.id)) :
    inner.tree root = [root] := by
  have none : inner.children root = [] := by
    refine List.eq_nil_iff_forall_not_mem.mpr fun child listed => absent ?_
    obtain ⟨activity, member, below, -⟩ := mem_children.mp listed
    exact (rooted.parents activity member root below).2
  simp [Inner.tree, Forest.walk, Pass.loop, Forest.walkPass, none]

/-- A write that keeps every activity in its place keeps the log's shape. -/
theorem rewritten (rooted : Rooted inner) {after : Inner} {write : Activity → Activity}
    (rewritten : Rewritten inner after write) : Rooted after := by
  have same := fun activity => Activity.place_eq_iff.mp (rewritten.place activity)
  refine ⟨?_, ?_, ?_, ?_⟩
  · rw [rewritten.ids]
    exact rooted.ids
  · intro activity member
    rw [rewritten.items] at member
    obtain ⟨old, inside, rfl⟩ := List.mem_map.mp member
    rw [(same old).1, rewritten.nextId]
    exact rooted.below old inside
  · intro activity member parent below
    rw [rewritten.items] at member
    obtain ⟨old, inside, rfl⟩ := List.mem_map.mp member
    rw [(same old).2.2.1] at below
    rw [(same old).1, rewritten.ids]
    exact rooted.parents old inside parent below
  · intro activity member other also top alsoTop workspace kind key
    rw [rewritten.items] at member also
    obtain ⟨old, inside, rfl⟩ := List.mem_map.mp member
    obtain ⟨older, within, rfl⟩ := List.mem_map.mp also
    simp only [same old, same older] at top alsoTop workspace kind key ⊢
    exact rooted.tops old inside older within top alsoTop workspace kind key

/-- A new activity keeps the log's shape if its parent is there, or nothing at the top is for the
same thing. -/
theorem push (rooted : Rooted inner) {workspaceId : Option String} {parent : Option Nat}
    {kind : ActivityKind} {key : String} (now : Nat)
    (under : ∀ id, parent = some id → id ∈ inner.items.map (·.id))
    (fresh : parent = none → ∀ activity ∈ inner.items, activity.parent = none →
      activity.workspaceId = workspaceId → activity.kind = kind → activity.key ≠ key) :
    Rooted (inner.push workspaceId parent kind key now) := by
  have small : ∀ id ∈ inner.items.map (·.id), id ≤ inner.nextId := by
    intro id member
    obtain ⟨activity, inside, rfl⟩ := List.mem_map.mp member
    exact (rooted.below activity inside).2
  refine ⟨?_, ?_, ?_, ?_⟩
  · rw [Inner.push, List.map_append, List.nodup_append]
    refine ⟨rooted.ids, by simp, fun id member new added => ?_⟩
    have := small id member
    simp only [List.map_cons, List.map_nil, List.mem_singleton] at added
    omega
  · intro activity member
    simp only [Inner.push, List.mem_append, List.mem_singleton] at member ⊢
    rcases member with old | rfl
    · have := rooted.below activity old
      omega
    · simp
  · intro activity member id below
    simp only [Inner.push, List.mem_append, List.mem_singleton] at member
    rcases member with old | rfl
    · obtain ⟨older, present⟩ := rooted.parents activity old id below
      exact ⟨older,
        by simp only [Inner.push, List.map_append]; exact List.mem_append_left _ present⟩
    · have present := under id below
      have := small id present
      refine ⟨by simp only; omega, ?_⟩
      simp only [Inner.push, List.map_append]
      exact List.mem_append_left _ present
  · intro activity member other also top alsoTop workspace kind key
    simp only [Inner.push, List.mem_append, List.mem_singleton] at member also
    rcases member with old | rfl <;> rcases also with older | rfl
    · exact rooted.tops activity old other older top alsoTop workspace kind key
    · exact absurd key (fresh alsoTop activity old top workspace kind)
    · exact absurd key.symm (fresh top other older alsoTop workspace.symm kind.symm)
    · rfl

/-- Taking a job out with everything under it keeps the log's shape. -/
theorem removeTree (rooted : Rooted inner) (root : Nat) : Rooted (inner.removeTree root) := by
  have inside : ∀ activity, activity ∈ (inner.removeTree root).items ↔
      activity ∈ inner.items ∧ activity.id ∉ inner.tree root := by
    simp [Inner.removeTree]
  refine ⟨?_, ?_, ?_, ?_⟩
  · exact rooted.ids.sublist (List.filter_sublist.map _)
  · exact fun activity member => rooted.below activity ((inside activity).mp member).1
  · intro activity member parent below
    obtain ⟨old, kept⟩ := (inside activity).mp member
    obtain ⟨older, present⟩ := rooted.parents activity old parent below
    obtain ⟨above, there, rfl⟩ := List.mem_map.mp present
    refine ⟨older, List.mem_map.mpr ⟨above, (inside above).mpr ⟨there, fun listed => kept ?_⟩, rfl⟩⟩
    exact rooted.child_mem_tree old below listed
  · intro activity member other also
    exact rooted.tops activity ((inside activity).mp member).1 other ((inside other).mp also).1

end Rooted

end Activities
end Fghj
