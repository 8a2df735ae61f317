import Fghj.Activities

/-!
# The trees of the activity log

Each operation keeps the shape of the log. It also keeps settled trees settled, unless a child is
opened too late: under a job that is settled, or put back into the queue by the second lock of
`queued_child_of_kind` after it was settled.
-/

namespace Fghj
namespace Activities

/-! ## Operations -/

/-- The log keeps its shape, its ids go on counting, and what is gone stays gone. -/
structure Steady (before after : Inner) : Prop where
  rooted : Rooted after
  nextId : before.nextId ≤ after.nextId
  old : ∀ activity ∈ after.items, activity.id ≤ before.nextId →
    activity.id ∈ before.items.map (·.id)

namespace Steady

theorem refl {inner : Inner} (rooted : Rooted inner) : Steady inner inner :=
  ⟨rooted, Nat.le_refl _, fun _ member _ => List.mem_map_of_mem member⟩

theorem of_rewritten {before after : Inner} {write : Activity → Activity} (rooted : Rooted before)
    (rewritten : Rewritten before after write) : Steady before after := by
  refine ⟨rooted.rewritten rewritten, rewritten.nextId.ge, fun activity member _ => ?_⟩
  rw [← rewritten.ids]
  exact List.mem_map_of_mem member

end Steady

/-- An activity that is open has no settled parent. -/
def Sealed (inner : Inner) : Prop :=
  ∀ activity ∈ inner.items, activity.status.isOpen → ∀ parent ∈ inner.items,
    activity.parent = some parent.id → parent.status.isOpen

/-- No activity is left open under a settled one, and what was settled stays as it was. -/
structure Orderly (before after : Inner) : Prop where
  closed : Sealed after
  settled : ∀ activity ∈ before.items, activity.status.isOpen = false → ∀ later ∈ after.items,
    later.id = activity.id → later.status = activity.status ∧
      later.finishedMs = activity.finishedMs

variable {activity : Activity}

namespace Rooted

variable {inner : Inner}

/-- A write that opens and settles nothing. -/
theorem orderly_noted (rooted : Rooted inner) (closed : Sealed inner) {after : Inner}
    {write : Activity → Activity} (rewritten : Rewritten inner after write)
    (open_ : ∀ activity ∈ inner.items, (write activity).status.isOpen = activity.status.isOpen)
    (settled : ∀ activity ∈ inner.items, activity.status.isOpen = false →
      (write activity).status = activity.status ∧
        (write activity).finishedMs = activity.finishedMs) : Orderly inner after := by
  have same := fun activity => Activity.place_eq_iff.mp (rewritten.place activity)
  refine ⟨?_, ?_⟩
  · intro activity member isOpen parent above below
    rw [rewritten.items] at member above
    obtain ⟨child, inside, rfl⟩ := List.mem_map.mp member
    obtain ⟨upper, within, rfl⟩ := List.mem_map.mp above
    rw [(same child).2.2.1, (same upper).1] at below
    rw [open_ child inside] at isOpen
    rw [open_ upper within]
    exact closed child inside isOpen upper within below
  · intro activity member done later also equal
    rw [rewritten.items] at also
    obtain ⟨before, inside, rfl⟩ := List.mem_map.mp also
    rw [(same before).1] at equal
    obtain rfl := rooted.unique inside member equal
    exact settled before inside done

/-! ### Settling -/

theorem finishOne_place (handle : Nat) (status : ActivityStatus) (note : Option String) (now : Nat)
    (activity : Activity) :
    (Inner.finishOne handle status note now activity).place = activity.place := by
  unfold Inner.finishOne
  split
  · split <;> rfl
  · rfl

variable {status : ActivityStatus}

theorem finishOne_settled (final : status.isOpen = false) (handle : Nat) (note : Option String)
    (now : Nat) (activity : Activity) :
    (Inner.finishOne handle status note now activity).status.isOpen = false := by
  unfold Inner.finishOne
  split
  · split
    · exact final
    · rfl
  · rename_i done
    simpa using done

theorem finishOne_of_settled (done : activity.status.isOpen = false) (handle : Nat)
    (status : ActivityStatus) (note : Option String) (now : Nat) :
    Inner.finishOne handle status note now activity = activity := by
  simp [Inner.finishOne, done]

/-- The writes of `finish`, all at once. -/
theorem foldl_finishOne (rooted : Rooted inner) (final : status.isOpen = false) (handle : Nat)
    (note : Option String) (now : Nat) (ids : List Nat) :
    Rewritten inner
      (ids.foldl (fun inner id => inner.findMut id (Inner.finishOne handle status note now)) inner)
      fun activity =>
        if activity.id ∈ ids then Inner.finishOne handle status note now activity
        else activity := by
  induction ids generalizing inner with
  | nil =>
      simp only [List.not_mem_nil, if_false]
      exact Rewritten.refl inner
  | cons id ids ih =>
      have first := Rewritten.findMut rooted.ids id _ (finishOne_place handle status note now)
      have both := first.trans (ih (rooted.rewritten first))
      rw [List.foldl_cons]
      convert both using 2 with activity
      -- a second write finds the activity settled
      by_cases here : activity.id = id
      · have again := finishOne_of_settled (finishOne_settled final handle note now activity) handle
          status note now
        by_cases later : activity.id ∈ ids <;>
          simp [here, again, (Activity.place_eq_iff.mp (finishOne_place handle status note now
            activity)).1]
      · simp [here]

theorem finish_rewritten (rooted : Rooted inner) (final : status.isOpen = false) (handle : Nat)
    (note : Option String) (now : Nat) :
    Rewritten inner (inner.finish handle status note now) fun activity =>
      if activity.id ∈ inner.tree handle then Inner.finishOne handle status note now activity
      else activity :=
  rooted.foldl_finishOne final handle note now (inner.tree handle)

/-- `finish` settles whole trees, so nothing open is left under what it settles. -/
theorem orderly_finish (rooted : Rooted inner) (closed : Sealed inner)
    (final : status.isOpen = false) (handle : Nat) (note : Option String) (now : Nat) :
    Orderly inner (inner.finish handle status note now) := by
  have rewritten := rooted.finish_rewritten final handle note now
  have same := fun activity => Activity.place_eq_iff.mp (rewritten.place activity)
  refine ⟨?_, ?_⟩
  · intro activity member isOpen parent above below
    rw [rewritten.items] at member above
    obtain ⟨child, inside, rfl⟩ := List.mem_map.mp member
    obtain ⟨upper, within, rfl⟩ := List.mem_map.mp above
    rw [(same child).2.2.1, (same upper).1] at below
    have out : child.id ∉ inner.tree handle := by
      intro listed
      simp only [listed, if_true, finishOne_settled final] at isOpen
      cases isOpen
    have upperOut : upper.id ∉ inner.tree handle := fun listed =>
      out (rooted.child_mem_tree inside below listed)
    simp only [out, upperOut, if_false] at isOpen ⊢
    exact closed child inside isOpen upper within below
  · intro activity member done later also equal
    rw [rewritten.items] at also
    obtain ⟨before, inside, rfl⟩ := List.mem_map.mp also
    rw [(same before).1] at equal
    obtain rfl := rooted.unique inside member equal
    split
    · rw [finishOne_of_settled done]
      exact ⟨rfl, rfl⟩
    · exact ⟨rfl, rfl⟩

/-- Settling an id that is gone writes nothing. -/
theorem finish_absent (rooted : Rooted inner) {handle : Nat}
    (absent : handle ∉ inner.items.map (·.id)) (status : ActivityStatus) (note : Option String)
    (now : Nat) : inner.finish handle status note now = inner := by
  rw [Inner.finish, rooted.tree_absent absent, List.foldl_cons, List.foldl_nil, Inner.findMut,
    touch_absent absent]

/-! ### Appending -/

/-- Nothing but logs and clocks is written. -/
def Noted (before after : Inner) : Prop :=
  ∃ write, Rewritten before after write ∧
    ∀ activity, (write activity).status = activity.status ∧
      (write activity).finishedMs = activity.finishedMs

theorem appendPass_some (text : String) {id : Nat} (found : inner.find id = some activity) :
    Inner.appendPass text (inner, some id) =
      .again (inner.findMut id fun written => { written with log := written.log ++ text },
        activity.parent) := by
  simp [Inner.appendPass, found]

theorem appendPass_none (text : String) {id : Nat} (absent : inner.find id = none) :
    Inner.appendPass text (inner, some id) = .done inner := by
  simp [Inner.appendPass, absent]

/-- The way up from any activity ends: parents are older than their children, so ids only fall. -/
theorem appendPass_ends (text : String) (fuel : Nat) (next : Option Nat) (rooted : Rooted inner)
    (short : ∀ id ∈ next, id + 1 < fuel) (positive : 0 < fuel) :
    ∃ result, Pass.loop (Inner.appendPass text) fuel (inner, next) = some result ∧
      Noted inner result := by
  induction fuel generalizing inner next with
  | zero => exact absurd positive (Nat.lt_irrefl 0)
  | succ fuel ih =>
      have calm : Noted inner inner := ⟨id, .refl inner, fun _ => ⟨rfl, rfl⟩⟩
      cases next with
      | none => exact ⟨inner, Pass.loop_done rfl fuel, calm⟩
      | some id =>
          cases found : inner.find id with
          | none => exact ⟨inner, Pass.loop_done (appendPass_none text found) fuel, calm⟩
          | some activity =>
              have member : activity ∈ inner.items := List.mem_of_find?_eq_some found
              have named : activity.id = id := by simpa using List.find?_some found
              have low := short id rfl
              have first := Rewritten.findMut rooted.ids id
                (fun written => { written with log := written.log ++ text }) (fun _ => rfl)
              obtain ⟨result, run, write, rewritten, noted⟩ := ih activity.parent
                (rooted.rewritten first) (fun parent above => by
                  have := (rooted.parents activity member parent above).1
                  omega) (by omega)
              refine ⟨result, ?_, _, first.trans rewritten, fun other => ?_⟩
              · rw [Pass.loop_again (appendPass_some text found), run]
              · rw [Function.comp, (noted _).1, (noted _).2]
                constructor <;> split <;> rfl

/-- `append` comes to the top of the tree, and changes nothing but the logs on the way. -/
theorem append_noted (rooted : Rooted inner) (handle : Nat) (text : String) :
    Pass.loop (Inner.appendPass text) (handle + 2) (inner, some handle) =
        some (inner.append handle text) ∧ Noted inner (inner.append handle text) := by
  obtain ⟨result, run, noted⟩ := appendPass_ends text (handle + 2) (some handle) rooted
    (fun id same => by cases same; omega) (by omega)
  have value : inner.append handle text = result := by rw [Inner.append, run]; rfl
  rw [value]
  exact ⟨run, noted⟩

theorem append_absent {handle : Nat} (absent : inner.find handle = none) (text : String) :
    inner.append handle text = inner := by
  rw [Inner.append, Pass.loop_done (appendPass_none text absent)]
  rfl

theorem orderly_of_noted (rooted : Rooted inner) (closed : Sealed inner) {after : Inner}
    (noted : Noted inner after) : Orderly inner after := by
  obtain ⟨write, rewritten, same⟩ := noted
  exact rooted.orderly_noted closed rewritten (fun activity _ => by rw [(same activity).1])
    fun activity _ _ => same activity

theorem find_eq_none_iff {handle : Nat} :
    inner.find handle = none ↔ handle ∉ inner.items.map (·.id) := by
  rw [Inner.find, List.find?_eq_none]
  simp

/-! ### Starting -/

variable {workspaceId : Option String} {kind : ActivityKind} {key : String}

theorem findTop_eq_none (none : inner.findTop workspaceId kind key = none) :
    ∀ activity ∈ inner.items,
      activity.parent = .none → activity.workspaceId = workspaceId → activity.kind = kind →
      activity.key ≠ key := by
  intro activity member top workspace kind key
  have := List.find?_eq_none.mp none activity member
  simp_all

/-- What `start` finds is the one top-level job for the thing. -/
theorem findTop_eq_some (rooted : Rooted inner) {previous : Activity}
    (found : inner.findTop workspaceId kind key = some previous) :
    previous ∈ inner.items ∧
      ∀ activity ∈ inner.items, activity.parent = none → activity.workspaceId = workspaceId →
        activity.kind = kind → activity.key = key → activity.id = previous.id := by
  have member := List.mem_of_find?_eq_some found
  have named := List.find?_some found
  simp only [decide_eq_true_eq] at named
  obtain ⟨top, workspace, sort, label⟩ := named
  refine ⟨member, fun activity inside alsoTop sameWorkspace sameKind sameKey => ?_⟩
  exact rooted.tops activity inside previous member alsoTop top (sameWorkspace.trans workspace.symm)
    (sameKind.trans sort.symm) (sameKey.trans label.symm)

theorem old_push {parent : Option Nat} {now : Nat}
    (member : activity ∈ (inner.push workspaceId parent kind key now).items)
    (low : activity.id ≤ inner.nextId) : activity ∈ inner.items := by
  simp only [Inner.push, List.mem_append, List.mem_singleton] at member
  rcases member with old | rfl
  · exact old
  · exact absurd low (by simp)

theorem steady_start (rooted : Rooted inner) (workspaceId : Option String) (kind : ActivityKind)
    (key : String) (now : Nat) : Steady inner (inner.start workspaceId kind key now).1 := by
  unfold Inner.start
  cases found : inner.findTop workspaceId kind key with
  | none =>
      refine ⟨rooted.push now (by simp) fun _ => findTop_eq_none found, Nat.le_succ _, ?_⟩
      exact fun activity member low => List.mem_map_of_mem (old_push member low)
  | some previous =>
      simp only
      split
      · exact .refl rooted
      · obtain ⟨member, only⟩ := rooted.findTop_eq_some found
        refine ⟨(rooted.removeTree previous.id).push now (by simp) ?_, Nat.le_succ _, ?_⟩
        · intro _ activity left top workspace sort label
          simp only [Inner.removeTree, List.mem_filter, decide_eq_true_eq] at left
          have same := only activity left.1 top workspace sort label
          exact left.2 (same ▸ rooted.root_mem_tree previous.id)
        · intro activity left low
          have old := old_push left low
          exact List.mem_map_of_mem (List.mem_filter.mp old).1

theorem orderly_push (rooted : Rooted inner) (closed : Sealed inner) {parent : Option Nat}
    (now : Nat) (under : ∀ upper ∈ inner.items, parent = some upper.id → upper.status.isOpen) :
    Orderly inner (inner.push workspaceId parent kind key now) := by
  refine ⟨?_, ?_⟩
  · intro activity member isOpen upper above below
    simp only [Inner.push, List.mem_append, List.mem_singleton] at member above
    rcases above with there | rfl
    · rcases member with old | rfl
      · exact closed activity old isOpen upper there below
      · exact under upper there below
    · rfl
  · intro activity member done later also equal
    have low : later.id ≤ inner.nextId := equal ▸ (rooted.below activity member).2
    obtain rfl := rooted.unique (old_push also low) member equal
    exact ⟨rfl, rfl⟩

theorem orderly_removeTree (rooted : Rooted inner) (closed : Sealed inner) (root : Nat) :
    Orderly inner (inner.removeTree root) := by
  have inside : ∀ activity ∈ (inner.removeTree root).items, activity ∈ inner.items :=
    fun activity member => (List.mem_filter.mp member).1
  refine ⟨?_, ?_⟩
  · exact fun activity member isOpen upper above =>
      closed activity (inside activity member) isOpen upper (inside upper above)
  · intro activity member _ later also equal
    obtain rfl := rooted.unique (inside later also) member equal
    exact ⟨rfl, rfl⟩

end Rooted

/-- A settled activity stays as it was over one operation after the other. -/
theorem Orderly.trans {before middle after : Inner} (rooted : Rooted before)
    (first : Orderly before middle) (low : before.nextId ≤ middle.nextId)
    (steady : Steady middle after) (second : Orderly middle after) : Orderly before after where
  closed := second.closed
  settled := by
    intro activity member done later also equal
    have small : later.id ≤ middle.nextId :=
      (equal ▸ (rooted.below activity member).2 : later.id ≤ before.nextId).trans low
    obtain ⟨between, there, same⟩ := List.mem_map.mp (steady.old later also small)
    obtain ⟨status, finished⟩ := first.settled activity member done between there
      (same.trans equal)
    obtain ⟨laterStatus, laterFinished⟩ := second.settled between there (by rw [status, done])
      later also same.symm
    exact ⟨laterStatus.trans status, laterFinished.trans finished⟩

namespace Rooted

variable {inner : Inner}

theorem orderly_start (rooted : Rooted inner) (closed : Sealed inner)
    (workspaceId : Option String) (kind : ActivityKind) (key : String) (now : Nat) :
    Orderly inner (inner.start workspaceId kind key now).1 := by
  have top : ∀ (log : Inner), ∀ upper ∈ log.items, (none : Option Nat) = some upper.id →
      upper.status.isOpen := fun _ _ _ impossible => by cases impossible
  unfold Inner.start
  cases found : inner.findTop workspaceId kind key with
  | none => exact rooted.orderly_push closed now (top inner)
  | some previous =>
      simp only
      split
      · exact ⟨closed, fun activity member _ later also equal => by
          rw [rooted.unique also member equal]; exact ⟨rfl, rfl⟩⟩
      · have less := rooted.removeTree previous.id
        have removed := rooted.orderly_removeTree closed previous.id
        have pushed : Orderly (inner.removeTree previous.id)
            ((inner.removeTree previous.id).push workspaceId none kind key now) :=
          less.orderly_push removed.closed now (top _)
        refine ⟨pushed.closed, fun activity member done later also equal => ?_⟩
        have low : later.id ≤ inner.nextId := equal ▸ (rooted.below activity member).2
        have kept := (List.mem_filter.mp (old_push also low)).1
        rw [rooted.unique kept member equal]
        exact ⟨rfl, rfl⟩

theorem steady_childOfKind (rooted : Rooted inner) (handle : Nat) (kind : Option ActivityKind)
    (key : String) (now : Nat) : Steady inner (inner.childOfKind handle kind key now).1 := by
  unfold Inner.childOfKind
  cases found : inner.find handle with
  | none => exact .refl rooted
  | some activity =>
      have member : activity ∈ inner.items := List.mem_of_find?_eq_some found
      have named : activity.id = handle := by simpa using List.find?_some found
      refine ⟨rooted.push now ?_ (by simp), Nat.le_succ _, ?_⟩
      · intro id same
        obtain rfl := Option.some.inj same
        exact List.mem_map.mpr ⟨activity, member, named⟩
      · exact fun other also low => List.mem_map_of_mem (old_push also low)

theorem orderly_same (rooted : Rooted inner) (closed : Sealed inner) : Orderly inner inner :=
  rooted.orderly_of_noted closed ⟨id, .refl inner, fun _ => ⟨rfl, rfl⟩⟩

/-- A child is opened in order exactly under an activity that is open, or gone. -/
theorem orderly_childOfKind (rooted : Rooted inner) (closed : Sealed inner) {handle : Nat}
    (isOpen : ∀ activity ∈ inner.find handle, activity.status.isOpen)
    (kind : Option ActivityKind) (key : String) (now : Nat) :
    Orderly inner (inner.childOfKind handle kind key now).1 := by
  unfold Inner.childOfKind
  cases found : inner.find handle with
  | none => exact rooted.orderly_same closed
  | some activity =>
      refine rooted.orderly_push closed now fun upper member same => isOpen upper ?_
      obtain rfl := Option.some.inj same
      exact rooted.find_eq_some member

theorem place_begin (now : Nat) (activity : Activity) :
    (if activity.status = .queued then { activity with status := .running, startedMs := now }
      else activity : Activity).place = activity.place := by
  split <;> rfl

theorem begin_rewritten (rooted : Rooted inner) (handle now : Nat) :
    ∃ write, Rewritten inner (inner.begin handle now) write ∧ ∀ activity,
      (write activity).status.isOpen = activity.status.isOpen ∧
        (activity.status.isOpen = false → write activity = activity) := by
  refine ⟨_, Rewritten.findMut rooted.ids handle _ (place_begin now), fun activity => ?_⟩
  by_cases named : activity.id = handle
  · by_cases queued : activity.status = .queued
    · simp [named, queued, ActivityStatus.isOpen]
    · simp [named, queued]
  · simp [named]

theorem markQueued_rewritten (rooted : Rooted inner) (child : Nat) :
    Rewritten inner (inner.markQueued child) fun activity =>
      if activity.id = child then { activity with status := .queued } else activity :=
  Rewritten.findMut rooted.ids child _ fun _ => rfl

/-- A child that is still open is put back into the queue. -/
theorem orderly_markQueued (rooted : Rooted inner) (closed : Sealed inner) {child : Nat}
    (isOpen : ∀ activity ∈ inner.find child, activity.status.isOpen) :
    Orderly inner (inner.markQueued child) := by
  have running : ∀ activity ∈ inner.items, activity.id = child → activity.status.isOpen :=
    fun activity member named => isOpen activity (named ▸ rooted.find_eq_some member)
  refine rooted.orderly_noted closed (rooted.markQueued_rewritten child) ?_ ?_
  · intro activity member
    split
    · exact (running activity member ‹_›).symm
    · rfl
  · intro activity member done
    split
    · rw [running activity member ‹_›] at done
      cases done
    · exact ⟨rfl, rfl⟩

end Rooted

/-! ## Steps -/

/-- A child is opened under a job that is open or gone, and put into the queue before it is
settled. -/
def Timely (world : World) : Event → Prop
  | .childOfKind handle _ _ _ | .queuedChildOfKind handle _ _ _ =>
      ∀ activity ∈ world.inner.find handle, activity.status.isOpen
  | .markQueued call => ∀ child ∈ world.queueing[call]?, ∀ activity ∈ world.inner.find child,
      activity.status.isOpen
  | _ => True

/-- The handle an event writes through. -/
def World.handle (world : World) : Event → Option Nat
  | .start _ _ _ _ | .startSuperseding _ _ _ _ => none
  | .supersede call _ => world.superseding[call]?.bind (·.running)
  | .markQueued call => world.queueing[call]?
  | .childOfKind handle _ _ _ | .queuedChildOfKind handle _ _ _ | .begin handle _
  | .append handle _ | .settle handle _ _ | .cancel handle _ _ => some handle

namespace World

variable {world : World}

theorem steady_cancel (rooted : Rooted world.inner) (handle : Nat) (why : String) (now : Nat) :
    Steady world.inner (world.inner.cancel handle why now) :=
  .of_rewritten rooted (rooted.finish_rewritten rfl handle _ now)

theorem steady_step (rooted : Rooted world.inner) (event : Event) :
    Steady world.inner (world.step event).inner := by
  cases event with
  | start workspaceId kind key now => exact rooted.steady_start workspaceId kind key now
  | startSuperseding workspaceId kind key now =>
      have steady := rooted.steady_start workspaceId kind key now
      simp only [step]
      split <;> rename_i inner outcome result <;> rwa [result] at steady
  | supersede call now =>
      simp only [step, supersede]
      split
      · exact .refl rooted
      · split
        · exact steady_cancel rooted _ _ now
        · exact rooted.steady_start _ _ _ now
  | childOfKind handle kind key now => exact rooted.steady_childOfKind handle kind key now
  | queuedChildOfKind handle kind key now => exact rooted.steady_childOfKind handle kind key now
  | markQueued call =>
      simp only [step]
      split
      · exact .refl rooted
      · exact .of_rewritten rooted (rooted.markQueued_rewritten _)
  | begin handle now =>
      obtain ⟨write, rewritten, -⟩ := rooted.begin_rewritten handle now
      exact .of_rewritten rooted rewritten
  | append handle text =>
      obtain ⟨-, write, rewritten, -⟩ := rooted.append_noted handle text
      exact .of_rewritten rooted rewritten
  | settle handle result now =>
      cases result <;> exact .of_rewritten rooted (rooted.finish_rewritten rfl handle _ now)
  | cancel handle why now => exact steady_cancel rooted handle why now

theorem orderly_step (rooted : Rooted world.inner) (closed : Sealed world.inner) {event : Event}
    (timely : Timely world event) : Orderly world.inner (world.step event).inner := by
  cases event with
  | start workspaceId kind key now => exact rooted.orderly_start closed workspaceId kind key now
  | startSuperseding workspaceId kind key now =>
      have orderly := rooted.orderly_start closed workspaceId kind key now
      simp only [step]
      split <;> rename_i inner outcome result <;> rwa [result] at orderly
  | supersede call now =>
      simp only [step, supersede]
      split
      · exact rooted.orderly_same closed
      · split
        · exact rooted.orderly_finish closed rfl _ _ now
        · exact rooted.orderly_start closed _ _ _ now
  | childOfKind handle kind key now => exact rooted.orderly_childOfKind closed timely kind key now
  | queuedChildOfKind handle kind key now =>
      exact rooted.orderly_childOfKind closed timely kind key now
  | markQueued call =>
      simp only [step]
      split
      · exact rooted.orderly_same closed
      · exact rooted.orderly_markQueued closed (timely _ ‹_›)
  | begin handle now =>
      obtain ⟨write, rewritten, calm⟩ := rooted.begin_rewritten handle now
      refine rooted.orderly_noted closed rewritten (fun activity _ => (calm activity).1) ?_
      intro activity _ done
      rw [(calm activity).2 done]
      exact ⟨rfl, rfl⟩
  | append handle text => exact rooted.orderly_of_noted closed (rooted.append_noted handle text).2
  | settle handle result now =>
      cases result <;> exact rooted.orderly_finish closed rfl handle _ now
  | cancel handle why now => exact rooted.orderly_finish closed rfl handle _ now

/-- What is written through the handle of a job that is gone goes nowhere. -/
theorem step_of_gone (rooted : Rooted world.inner) {event : Event} {handle : Nat}
    (through : world.handle event = some handle) (gone : world.inner.find handle = none) :
    (world.step event).inner = world.inner := by
  have absent := Rooted.find_eq_none_iff.mp gone
  cases event with
  | start workspaceId kind key now => cases through
  | startSuperseding workspaceId kind key now => cases through
  | supersede call now =>
      obtain ⟨superseding, found, running⟩ := Option.bind_eq_some_iff.mp through
      simp only [step, supersede, found, running]
      exact rooted.finish_absent absent _ _ now
  | childOfKind other kind key now =>
      obtain rfl := Option.some.inj through
      simp only [step, Inner.childOfKind, gone]
  | queuedChildOfKind other kind key now =>
      obtain rfl := Option.some.inj through
      simp only [step, Inner.childOfKind, gone]
  | markQueued call =>
      have listed : world.queueing[call]? = some handle := through
      simp only [step, listed, Inner.markQueued, Inner.findMut, touch_absent absent]
  | begin other now =>
      obtain rfl := Option.some.inj through
      simp only [step, Inner.begin, Inner.findMut, touch_absent absent]
  | append other text =>
      obtain rfl := Option.some.inj through
      exact Rooted.append_absent gone text
  | settle other result now =>
      obtain rfl := Option.some.inj through
      cases result <;> exact rooted.finish_absent absent _ _ now
  | cancel other why now =>
      obtain rfl := Option.some.inj through
      exact rooted.finish_absent absent _ _ now

end World

/-! ## Runs -/

/-- The jobs of one workspace, kind and key that are running at the top. -/
def Inner.runningTop (inner : Inner) (workspaceId : Option String) (kind : ActivityKind)
    (key : String) : List Activity :=
  inner.items.filter fun activity =>
    activity.parent = none ∧ activity.workspaceId = workspaceId ∧ activity.kind = kind ∧
      activity.key = key ∧ activity.status = .running

/-- One activity is right or further above another. -/
def Inner.Above (inner : Inner) : Nat → Nat → Prop :=
  Relation.TransGen fun parent child => child ∈ inner.children parent

/-- What a state of the log promises. -/
structure Consistent (inner : Inner) : Prop where
  oneRunning : ∀ workspaceId kind key, (inner.runningTop workspaceId kind key).length ≤ 1
  openUnderOpen : ∀ activity ∈ inner.items, activity.status.isOpen → ∀ ancestor ∈ inner.items,
    inner.Above ancestor.id activity.id → ancestor.status.isOpen
  acyclic : ∀ id, ¬inner.Above id id
  treeEnds : ∀ root, Forest.walk inner.children (inner.items.length + 2) root =
    some (inner.tree root)
  appendEnds : ∀ handle text, Pass.loop (Inner.appendPass text) (handle + 2) (inner, some handle) =
    some (inner.append handle text)

namespace Rooted

variable {inner : Inner}

theorem runningTop_length (rooted : Rooted inner) (workspaceId : Option String)
    (kind : ActivityKind) (key : String) :
    (inner.runningTop workspaceId kind key).length ≤ 1 := by
  have distinct : (inner.runningTop workspaceId kind key).Nodup :=
    (List.Nodup.of_map _ rooted.ids).filter _
  have same : ∀ activity ∈ inner.runningTop workspaceId kind key,
      ∀ other ∈ inner.runningTop workspaceId kind key, activity = other := by
    intro activity listed other also
    simp only [Inner.runningTop, List.mem_filter, decide_eq_true_eq] at listed also
    obtain ⟨member, top, workspace, sort, label, -⟩ := listed
    obtain ⟨there, alsoTop, alsoWorkspace, alsoSort, alsoLabel, -⟩ := also
    exact rooted.unique member there (rooted.tops activity member other there top alsoTop
      (workspace.trans alsoWorkspace.symm) (sort.trans alsoSort.symm) (label.trans alsoLabel.symm))
  rcases list : inner.runningTop workspaceId kind key with _ | ⟨first, _ | ⟨second, rest⟩⟩
  · simp
  · simp
  · rw [list] at same distinct
    have equal := same first (by simp) second (by simp)
    simp [equal] at distinct

/-- Openness goes all the way up. -/
theorem open_above (rooted : Rooted inner) (closed : Sealed inner) {activity ancestor : Activity}
    (member : activity ∈ inner.items) (isOpen : activity.status.isOpen)
    (there : ancestor ∈ inner.items) (above : inner.Above ancestor.id activity.id) :
    ancestor.status.isOpen := by
  have up : ∀ id, inner.Above id activity.id → ∀ upper ∈ inner.items, upper.id = id →
      upper.status.isOpen := by
    intro id chain
    induction chain using Relation.TransGen.head_induction_on with
    | single step =>
        rintro upper inside rfl
        obtain ⟨child, within, below, same⟩ := mem_children.mp step
        obtain rfl := rooted.unique within member same
        exact closed child within isOpen upper inside below
    | head step _ ih =>
        rintro upper inside rfl
        obtain ⟨child, within, below, same⟩ := mem_children.mp step
        exact closed child within (ih child within same) upper inside below
  exact up ancestor.id above ancestor there rfl

theorem consistent (rooted : Rooted inner) (closed : Sealed inner) : Consistent inner where
  oneRunning := rooted.runningTop_length
  openUnderOpen _ member isOpen _ there above := rooted.open_above closed member isOpen there above
  acyclic := rooted.isForest.acyclic
  treeEnds root := (rooted.walk_tree root).1
  appendEnds handle text := (rooted.append_noted handle text).1

end Rooted

namespace World

theorem after_append (front back : List Event) :
    after (front ++ back) = Execution.run step (after front) back :=
  Execution.run_append step {} front back

theorem rooted_after (events : List Event) : Rooted (after events).inner :=
  Execution.run_always step (fun world => Rooted world.inner)
    (fun _ event rooted => (steady_step rooted event).rooted) .empty events

theorem steady_run {world : World} (rooted : Rooted world.inner) (events : List Event) :
    Steady world.inner (Execution.run step world events).inner := by
  induction events generalizing world with
  | nil => exact .refl rooted
  | cons event events ih =>
      have first := steady_step rooted event
      have rest := ih first.rooted
      refine ⟨rest.rooted, first.nextId.trans rest.nextId, fun activity member low => ?_⟩
      obtain ⟨between, there, same⟩ :=
        List.mem_map.mp (rest.old activity member (low.trans first.nextId))
      exact same ▸ first.old between there (by omega)

/-- Over timely events the log stays in order, and what is settled stays as it was. -/
theorem orderly_run {world : World} (rooted : Rooted world.inner) (closed : Sealed world.inner)
    {events : List Event} (timely : Execution.Along step Timely world events) :
    Orderly world.inner (Execution.run step world events).inner := by
  induction events generalizing world with
  | nil => exact rooted.orderly_same closed
  | cons event events ih =>
      have first := steady_step rooted event
      have orderly := orderly_step rooted closed timely.1
      exact orderly.trans rooted first.nextId (steady_run first.rooted events)
        (ih first.rooted orderly.closed timely.2)

end World

/-- What the log promises of a run: every state is consistent, what is settled stays as it was, a
job that is gone stays gone, and what is written through its handle changes nothing. -/
structure TreesConsistent (events : List Event) : Prop where
  states : ∀ front back, events = front ++ back → Consistent (World.after front).inner
  settled : ∀ front middle back, events = front ++ middle ++ back →
    ∀ activity ∈ (World.after front).inner.items, activity.status.isOpen = false →
      ∀ later ∈ (World.after (front ++ middle)).inner.items, later.id = activity.id →
        later.status = activity.status ∧ later.finishedMs = activity.finishedMs
  gone : ∀ front middle back, events = front ++ middle ++ back →
    ∀ id ≤ (World.after front).inner.nextId, (World.after front).inner.find id = none →
      (World.after (front ++ middle)).inner.find id = none
  silent : ∀ front event back, events = front ++ event :: back →
    ∀ handle, (World.after front).handle event = some handle →
      (World.after front).inner.find handle = none →
        (World.after (front ++ [event])).inner = (World.after front).inner

namespace World

theorem sealed_empty : Sealed {} := fun activity member => by cases member

theorem treesConsistent_of_timely {events : List Event}
    (timely : Execution.Along step Timely {} events) : TreesConsistent events where
  states := by
    rintro front back rfl
    rw [Execution.along_append] at timely
    exact (rooted_after front).consistent (orderly_run .empty sealed_empty timely.1).closed
  settled := by
    rintro front middle back rfl
    rw [Execution.along_append, Execution.along_append] at timely
    have closed := (orderly_run .empty sealed_empty timely.1.1).closed
    rw [after_append]
    exact (orderly_run (rooted_after front) closed timely.1.2).settled
  gone := by
    rintro front middle back rfl id low absent
    rw [Rooted.find_eq_none_iff] at absent ⊢
    rw [after_append]
    intro present
    obtain ⟨activity, member, rfl⟩ := List.mem_map.mp present
    exact absent ((steady_run (rooted_after front) middle).old activity member low)
  silent := by
    rintro front event back rfl handle through absent
    rw [after_append]
    exact step_of_gone (rooted_after front) through absent

/-- A child opened under a settled job is open under it. -/
theorem not_consistent_of_late {world : World} {handle : Nat}
    (found : world.inner.find handle = some activity) (done : activity.status.isOpen = false)
    (kind : Option ActivityKind) (key : String) (now : Nat) :
    ¬Consistent (world.inner.childOfKind handle kind key now).1 := by
  intro consistent
  have member : activity ∈ world.inner.items := List.mem_of_find?_eq_some found
  have named : activity.id = handle := by simpa using List.find?_some found
  have value : (world.inner.childOfKind handle kind key now).1 =
      world.inner.push activity.workspaceId (some handle) (kind.getD activity.kind) key now := by
    simp [Inner.childOfKind, found]
  rw [value] at consistent
  have isOpen := consistent.openUnderOpen _ (List.mem_append_right _ (List.mem_singleton_self _))
    rfl activity (List.mem_append_left _ member) (.single (Rooted.mem_children.mpr
      ⟨_, List.mem_append_right _ (List.mem_singleton_self _), by rw [named], rfl⟩))
  rw [done] at isOpen
  cases isOpen

/-- An event that comes too late breaks the promise in the very next state. -/
theorem timely_of_treesConsistent {events : List Event} (trees : TreesConsistent events) :
    Execution.Along step Timely {} events := by
  rw [Execution.along_iff]
  rintro front event back rfl
  have rooted := rooted_after front
  have next := trees.states (front ++ [event]) back (by simp)
  rw [after_append] at next
  by_contra late
  cases event with
  | childOfKind handle kind key now =>
      simp only [Timely, not_forall, Bool.not_eq_true] at late
      obtain ⟨activity, found, done⟩ := late
      exact not_consistent_of_late found done kind key now next
  | queuedChildOfKind handle kind key now =>
      simp only [Timely, not_forall, Bool.not_eq_true] at late
      obtain ⟨activity, found, done⟩ := late
      exact not_consistent_of_late found done kind key now next
  | markQueued call =>
      simp only [Timely, not_forall, Bool.not_eq_true] at late
      obtain ⟨child, listed, activity, found, done⟩ := late
      have member : activity ∈ (after front).inner.items := List.mem_of_find?_eq_some found
      have named : activity.id = child := by simpa using List.find?_some found
      have written : (after (front ++ [.markQueued call])).inner =
          (after front).inner.markQueued child := by
        rw [after_append]
        have marked : (after front).queueing[call]? = some child := listed
        simp only [Execution.run_cons, Execution.run_nil, step, marked]
      have queued := (trees.settled front [.markQueued call] back (by simp) activity member done
        { activity with status := .queued } (by
          rw [written, (rooted.markQueued_rewritten child).items]
          exact List.mem_map.mpr ⟨activity, member, by rw [if_pos named]⟩) rfl).1
      rw [← queued] at done
      cases done
  | _ => exact late trivial

/-- A run keeps what the log promises if and only if no child is opened under a settled job or put
back into the queue once it is settled. -/
theorem treesConsistent_iff (events : List Event) :
    TreesConsistent events ↔ Execution.Along step Timely {} events :=
  ⟨timely_of_treesConsistent, treesConsistent_of_timely⟩

/-- A pull that is done is given one more child by a task that still holds its handle. -/
def lateChild : List Event :=
  [.start (some "ws") .pull "pull-all" 1, .settle 1 (.ok ()) 2, .childOfKind 1 none "api" 3]

/-- A switch is called off while its planner is between the two locks of `queued_child`. -/
def racedQueue : List Event :=
  [.start (some "ws") .switch "app" 1, .queuedChildOfKind 1 (some .start) "db" 2,
    .cancel 1 "called off" 3, .markQueued 0]

theorem late_children_left_open : ¬TreesConsistent lateChild ∧ ¬TreesConsistent racedQueue := by
  refine ⟨fun trees => ?_, fun trees => ?_⟩
  · have isOpen := (timely_of_treesConsistent trees).2.2.1
      ⟨1, some "ws", none, .pull, "pull-all", .done, "", 1, some 2⟩ (by decide)
    cases isOpen
  · have isOpen := (timely_of_treesConsistent trees).2.2.2.1 2 (by decide)
      ⟨2, some "ws", some 1, .start, "db", .cancelled, "", 2, some 3⟩ (by decide)
    cases isOpen

end World
end Activities
end Fghj
