import Fghj.ActivityTrees

/-!
# What the logs of activities say

A log only ever grows. What is appended through a handle goes onto the log of its activity and of
every activity above it, so that the log of a job at the top is the transcript of the whole run, and
that of a child its own part of it. What a job says of its own end goes onto its own log alone.
-/

namespace Fghj
namespace Activities

/-- A text that came onto a log. -/
structure Piece where
  /-- The number of the event that brought it. -/
  event : Nat
  text : String
  /-- It says how the activity itself ended. -/
  note : Bool
  deriving DecidableEq

/-- What is appended through a handle reaches the log of an activity at it or above it. -/
def Inner.reaches (inner : Inner) (handle id : Nat) : Bool :=
  (inner.find id).isSome && decide (handle ∈ inner.tree id)

/-- An activity that is settled through its own handle, and was open. -/
def Inner.ends (inner : Inner) (handle id : Nat) : Bool :=
  decide (handle = id) && (inner.find id).any fun activity => activity.status.isOpen

namespace World

/-- What an event brings onto the log of an activity. -/
def told (world : World) (n : Nat) (id : Nat) : Event → List Piece
  | .append handle text => if world.inner.reaches handle id then [⟨n, text, false⟩] else []
  | .settle handle (.error e) _ =>
      if world.inner.ends handle id then [⟨n, "\nerror: " ++ e ++ "\n", true⟩] else []
  | .cancel handle why _ =>
      if world.inner.ends handle id then [⟨n, "\n" ++ why ++ "\n", true⟩] else []
  | .supersede call _ =>
      match world.superseding[call]?.bind (·.running) with
      | some running =>
          if world.inner.ends running id then [⟨n, "\nsuperseded\n", true⟩] else []
      | none => []
  | _ => []

/-- What the events bring onto the log of an activity, numbered from `n`. -/
def pieces (world : World) (n : Nat) (id : Nat) : List Event → List Piece
  | [] => []
  | event :: events => world.told n id event ++ (world.step event).pieces (n + 1) id events

end World

/-- The text of the pieces. -/
def joined (pieces : List Piece) : String := String.join (pieces.map Piece.text)

theorem joined_append (front back : List Piece) :
    joined (front ++ back) = joined front ++ joined back := by
  simp [joined]

/-! ## Trees -/

namespace Rooted

variable {inner after : Inner}

/-- A tree holds its root and what has its parent in it. -/
theorem mem_tree (rooted : Rooted inner) {root : Nat} {activity : Activity}
    (member : activity ∈ inner.items) : activity.id ∈ inner.tree root ↔
      activity.id = root ∨ ∃ parent, activity.parent = some parent ∧ parent ∈ inner.tree root := by
  rw [(rooted.walk_tree root).2, List.mem_cons, List.mem_flatMap]
  refine or_congr_right ⟨?_, ?_⟩
  · rintro ⟨parent, listed, child⟩
    obtain ⟨other, inside, below, same⟩ := mem_children.mp child
    obtain rfl := rooted.unique inside member same
    exact ⟨parent, below, (rooted.walk_tree root).2 ▸ listed⟩
  · rintro ⟨parent, below, listed⟩
    exact ⟨parent, (rooted.walk_tree root).2 ▸ listed,
      mem_children.mpr ⟨activity, member, below, rfl⟩⟩

/-- Below a root that is in the log stands only what is in the log, and younger. -/
theorem of_mem_tree (rooted : Rooted inner) {root id : Nat} (listed : id ∈ inner.tree root) :
    root ≤ id ∧ (id = root ∨ id ∈ inner.items.map (·.id)) := by
  induction id using Nat.strong_induction_on with
  | _ id ih =>
      rw [(rooted.walk_tree root).2, List.mem_cons, List.mem_flatMap] at listed
      rcases listed with rfl | ⟨parent, above, child⟩
      · exact ⟨Nat.le_refl _, .inl rfl⟩
      · obtain ⟨activity, member, below, rfl⟩ := mem_children.mp child
        have younger := (rooted.parents activity member parent below).1
        have older := (ih parent younger above).1
        exact ⟨by omega, .inr (List.mem_map_of_mem member)⟩

/-- What is in a tree has its own tree in it. -/
theorem mem_tree_trans (rooted : Rooted inner) {root middle id : Nat}
    (upper : middle ∈ inner.tree root) (lower : id ∈ inner.tree middle) :
    id ∈ inner.tree root := by
  induction id using Nat.strong_induction_on with
  | _ id ih =>
      rw [(rooted.walk_tree middle).2, List.mem_cons, List.mem_flatMap] at lower
      rcases lower with rfl | ⟨parent, above, child⟩
      · exact upper
      · obtain ⟨activity, member, below, rfl⟩ := mem_children.mp child
        have younger := (rooted.parents activity member parent below).1
        exact rooted.child_mem_tree member below (ih parent younger above)

theorem tree_rewritten {write : Activity → Activity} (rewritten : Rewritten inner after write) :
    after.tree = inner.tree := by
  have children : after.children = inner.children := by
    funext id
    have same := fun activity => Activity.place_eq_iff.mp (rewritten.place activity)
    simp only [Inner.children, rewritten.items, List.filter_map, List.map_map]
    rw [show ((fun activity : Activity => decide (activity.parent = some id)) ∘ write) =
      fun activity => decide (activity.parent = some id) from by
        funext activity
        simp [(same activity).2.2.1]]
    exact List.map_congr_left fun activity _ => (same activity).1
  funext root
  rw [Inner.tree, Inner.tree, children, rewritten.items, List.length_map]

/-- What one turn of `append` writes is not written again further up. -/
theorem loop_append (text : String) (fuel : Nat) (next : Option Nat) (rooted : Rooted inner)
    (short : ∀ id ∈ next, id + 1 < fuel) (positive : 0 < fuel) :
    ∃ result, Pass.loop (Inner.appendPass text) fuel (inner, next) = some result ∧
      Rewritten inner result fun activity =>
        if next.any (· ∈ inner.tree activity.id) then
          { activity with log := activity.log ++ text }
        else activity := by
  induction fuel generalizing inner next with
  | zero => exact absurd positive (Nat.lt_irrefl 0)
  | succ fuel ih =>
      cases next with
      | none => exact ⟨inner, Pass.loop_done rfl fuel, by simpa using .refl inner⟩
      | some id =>
          cases found : inner.find id with
          | none =>
              refine ⟨inner, Pass.loop_done (appendPass_none text found) fuel, ?_, rfl, ?_⟩
              · symm
                refine (List.map_congr_left fun activity member => if_neg ?_).trans (List.map_id _)
                intro listed
                have absent := find_eq_none_iff.mp found
                rcases (rooted.of_mem_tree (by simpa using listed)).2 with rfl | present
                · exact absent (List.mem_map_of_mem member)
                · exact absent present
              · intro activity
                split <;> rfl
          | some activity =>
              have member : activity ∈ inner.items := List.mem_of_find?_eq_some found
              obtain rfl : activity.id = id := by simpa using List.find?_some found
              have low := short activity.id rfl
              have first := Rewritten.findMut rooted.ids activity.id
                (fun written => { written with log := written.log ++ text }) (fun _ => rfl)
              obtain ⟨result, run, rewritten⟩ := ih activity.parent (rooted.rewritten first)
                (fun parent above => by
                  have := (rooted.parents activity member parent above).1
                  omega) (by omega)
              refine ⟨result, by rw [Pass.loop_again (appendPass_some text found), run], ?_⟩
              have both := first.trans rewritten
              refine ⟨both.items.trans (List.map_congr_left fun other inside => ?_),
                both.nextId, ?_⟩
              · rw [tree_rewritten first, Function.comp]
                by_cases same : other.id = activity.id
                · obtain rfl := rooted.unique inside member same
                  have above : other.parent.any (· ∈ inner.tree other.id) = false := by
                    cases here : other.parent with
                    | none => rfl
                    | some parent =>
                        have older := (rooted.parents other member parent here).1
                        have not : parent ∉ inner.tree other.id := fun listed => by
                          have := (rooted.of_mem_tree listed).1
                          omega
                        simpa using not
                  simp [above, rooted.root_mem_tree]
                · have up := @Rooted.mem_tree _ rooted other.id _ member
                  simp only [Ne.symm same, false_or] at up
                  simp only [same, if_false, Option.any_some, up, Option.any_eq_true,
                    decide_eq_true_eq]
              · intro other
                split <;> rfl

theorem append_rewritten (rooted : Rooted inner) (handle : Nat) (text : String) :
    Rewritten inner (inner.append handle text) fun activity =>
      if handle ∈ inner.tree activity.id then { activity with log := activity.log ++ text }
      else activity := by
  obtain ⟨result, run, rewritten⟩ := loop_append text (handle + 2) (some handle) rooted
    (fun id same => by cases same; omega) (by omega)
  rw [Inner.append, run]
  simpa using rewritten

end Rooted

/-! ## One event -/

/-- An activity is new, or what was told came onto its log. -/
def Carried (before after : Inner) (told : Nat → List Piece) : Prop :=
  ∀ later ∈ after.items, (before.nextId < later.id ∧ later.log = "") ∨
    ∃ old ∈ before.items, later.place = old.place ∧ later.log = old.log ++ joined (told old.id)

namespace Carried

variable {before after : Inner}

theorem of_subset (same : ∀ later ∈ after.items, later ∈ before.items) :
    Carried before after fun _ => [] :=
  fun later member => .inr ⟨later, same later member, rfl, by simp [joined]⟩

theorem of_rewritten {write : Activity → Activity} {told : Nat → List Piece}
    (rewritten : Rewritten before after write) (writes : ∀ activity ∈ before.items,
      (write activity).log = activity.log ++ joined (told activity.id)) :
    Carried before after told := by
  intro later member
  rw [rewritten.items] at member
  obtain ⟨old, inside, rfl⟩ := List.mem_map.mp member
  exact .inr ⟨old, inside, rewritten.place old, writes old inside⟩

theorem push (carried : Carried before after fun _ => []) (next : after.nextId = before.nextId)
    (workspaceId : Option String) (parent : Option Nat) (kind : ActivityKind) (key : String)
    (now : Nat) : Carried before (after.push workspaceId parent kind key now) fun _ => [] := by
  intro later member
  simp only [Inner.push, List.mem_append, List.mem_singleton] at member
  rcases member with old | rfl
  · exact carried later old
  · exact .inl ⟨by simp [next], rfl⟩

theorem start (inner : Inner) (workspaceId : Option String) (kind : ActivityKind) (key : String)
    (now : Nat) : Carried inner (inner.start workspaceId kind key now).1 fun _ => [] := by
  unfold Inner.start
  have same : Carried inner inner fun _ => [] := of_subset fun _ member => member
  split
  · split
    · exact same
    · rename_i previous _ _
      have left : Carried inner (inner.removeTree previous.id) fun _ => [] :=
        of_subset fun later member => (List.mem_filter.mp member).1
      exact left.push rfl workspaceId none kind key now
  · exact same.push rfl workspaceId none kind key now

theorem childOfKind (inner : Inner) (handle : Nat) (kind : Option ActivityKind) (key : String)
    (now : Nat) : Carried inner (inner.childOfKind handle kind key now).1 fun _ => [] := by
  unfold Inner.childOfKind
  have same : Carried inner inner fun _ => [] := of_subset fun _ member => member
  split
  · exact same
  · exact same.push rfl _ (some handle) _ key now

/-- What a job says of its end comes onto its own log, if it was open. -/
theorem finish (rooted : Rooted before) {status : ActivityStatus} (final : status.isOpen = false)
    (handle : Nat) (note : Option String) (now n : Nat) :
    Carried before (before.finish handle status note now) fun id =>
      if before.ends handle id then note.toList.map fun text => ⟨n, text, true⟩ else [] := by
  refine of_rewritten (rooted.finish_rewritten final handle note now) fun activity member => ?_
  have here : before.find activity.id = some activity := rooted.find_eq_some member
  have nothing : joined [] = "" := rfl
  have noted : joined (note.toList.map fun text => ⟨n, text, true⟩) = note.getD "" := by
    cases note <;> simp [joined]
  by_cases same : activity.id = handle
  · have listed : activity.id ∈ before.tree handle := same ▸ rooted.root_mem_tree activity.id
    rw [if_pos listed, Inner.finishOne, Inner.ends, here, same]
    by_cases isOpen : activity.status.isOpen
    · simp [isOpen, noted]
    · simp [isOpen, nothing]
  · have others : before.ends handle activity.id = false := by
      simp [Inner.ends, Ne.symm same]
    rw [others]
    split
    · rw [Inner.finishOne]
      split <;> simp [nothing]
    · simp [nothing]

end Carried

/-- What an event does to the logs. -/
theorem World.carried_step {world : World} (rooted : Rooted world.inner) (n : Nat) (event : Event) :
    Carried world.inner (world.step event).inner fun id => world.told n id event := by
  have same : Carried world.inner world.inner fun _ => [] := .of_subset fun _ member => member
  cases event with
  | start workspaceId kind key now => exact .start world.inner workspaceId kind key now
  | startSuperseding workspaceId kind key now =>
      have carried := Carried.start world.inner workspaceId kind key now
      simp only [step]
      split <;> rename_i inner outcome result <;> rwa [result] at carried
  | supersede call now =>
      simp only [step, supersede, told]
      cases here : world.superseding[call]? with
      | none => exact same
      | some superseding =>
          cases running : superseding.running with
          | none =>
              simp only [Option.bind_some, running]
              exact .start world.inner _ _ _ now
          | some job =>
              simp only [Option.bind_some, running]
              exact .finish rooted rfl job (some _) now n
  | childOfKind handle kind key now => exact .childOfKind world.inner handle kind key now
  | queuedChildOfKind handle kind key now => exact .childOfKind world.inner handle kind key now
  | markQueued call =>
      simp only [step]
      split
      · exact same
      · refine .of_rewritten (rooted.markQueued_rewritten _) fun activity _ => ?_
        split <;> simp [told, joined]
  | begin handle now =>
      refine .of_rewritten (Rewritten.findMut rooted.ids handle _ (Rooted.place_begin now))
        fun activity _ => ?_
      split
      · split <;> simp [told, joined]
      · simp [told, joined]
  | append handle text =>
      refine .of_rewritten (rooted.append_rewritten handle text) fun activity member => ?_
      have here : (world.inner.find activity.id).isSome := by rw [rooted.find_eq_some member]; rfl
      by_cases listed : handle ∈ world.inner.tree activity.id <;>
        simp [told, Inner.reaches, here, listed, joined]
  | settle handle result now =>
      cases result with
      | ok _ =>
          have carried := @Carried.finish _ rooted .done rfl handle none now n
          simpa [told, step, Inner.settle] using carried
      | error e => exact .finish rooted rfl handle (some _) now n
  | cancel handle why now => exact .finish rooted rfl handle (some _) now n

/-! ## Runs -/

namespace World

variable {world : World}

theorem pieces_append (world : World) (n : Nat) (id : Nat) (front back : List Event) :
    world.pieces n id (front ++ back) =
      world.pieces n id front ++
        (Execution.run step world front).pieces (n + front.length) id back := by
  induction front generalizing world n with
  | nil => simp [pieces]
  | cons event front ih =>
      rw [List.cons_append, pieces, pieces, ih, Execution.run_cons, List.append_assoc,
        List.length_cons, show n + 1 + front.length = n + (front.length + 1) by omega]

/-- The pieces of one more event. -/
theorem pieces_snoc (events : List Event) (event : Event) (id : Nat) :
    pieces {} 0 id (events ++ [event]) =
      pieces {} 0 id events ++ (after events).told events.length id event := by
  rw [pieces_append, pieces, pieces, List.append_nil, Nat.zero_add]
  rfl

theorem told_absent {id : Nat} (absent : world.inner.find id = none) (n : Nat) (event : Event) :
    world.told n id event = [] := by
  unfold told
  split <;> simp [Inner.reaches, Inner.ends, absent]
  split <;> rfl

/-- What is to come has not been heard of. -/
theorem pieces_unborn (events : List Event) {id : Nat} (unborn : (after events).inner.nextId < id) :
    pieces {} 0 id events = [] := by
  induction events using List.reverseRecOn with
  | nil => rfl
  | append_singleton events event ih =>
      have rooted := rooted_after events
      have steady := steady_step rooted event
      rw [after_append] at unborn
      have low : (after events).inner.nextId < id := lt_of_le_of_lt steady.nextId unborn
      have absent : (after events).inner.find id = none := by
        refine Rooted.find_eq_none_iff.mpr fun listed => ?_
        obtain ⟨activity, member, rfl⟩ := List.mem_map.mp listed
        have := (rooted.below activity member).2
        omega
      rw [pieces_snoc, ih low, told_absent absent, List.nil_append]

/-- Every log is what came onto it, one piece after the other. -/
theorem log_eq (events : List Event) : ∀ activity ∈ (after events).inner.items,
    activity.log = joined (pieces {} 0 activity.id events) := by
  induction events using List.reverseRecOn with
  | nil => intro activity member; cases member
  | append_singleton events event ih =>
      have rooted := rooted_after events
      intro activity member
      rw [after_append] at member
      rw [pieces_snoc, joined_append]
      rcases carried_step rooted events.length event activity member with ⟨new, blank⟩ | carried
      · have absent : (after events).inner.find activity.id = none := by
          refine Rooted.find_eq_none_iff.mpr fun listed => ?_
          obtain ⟨old, inside, same⟩ := List.mem_map.mp listed
          have := (rooted.below old inside).2
          omega
        rw [pieces_unborn events new, told_absent absent, blank]
        rfl
      · obtain ⟨old, inside, place, log⟩ := carried
        rw [(Activity.place_eq_iff.mp place).1, log, ih old inside]

/-- The pieces that were appended, at the activity or below it. -/
def lines (id : Nat) (events : List Event) : List Piece :=
  (pieces {} 0 id events).filter fun piece => !piece.note

/-- What is appended below reaches what is above. -/
theorem told_lines (rooted : Rooted world.inner) {child : Activity} {parent : Nat}
    (member : child ∈ world.inner.items) (below : child.parent = some parent) (n : Nat)
    (event : Event) :
    ((world.told n child.id event).filter fun piece => !piece.note).Sublist
      ((world.told n parent event).filter fun piece => !piece.note) := by
  cases event with
  | append handle text =>
      have listed := (rooted.parents child member parent below).2
      have present : (world.inner.find parent).isSome := by
        obtain ⟨activity, inside, rfl⟩ := List.mem_map.mp listed
        rw [rooted.find_eq_some inside]
        rfl
      have under := rooted.child_mem_tree member below (rooted.root_mem_tree parent)
      by_cases lower : handle ∈ world.inner.tree child.id
      · have upper := rooted.mem_tree_trans under lower
        simp only [told, Inner.reaches, present, lower, upper, decide_true, Bool.and_self, if_true,
          Bool.and_true]
        split
        · exact List.Sublist.refl _
        · exact List.nil_sublist _
      · simp [told, Inner.reaches, lower]
  | settle handle result now =>
      cases result with
      | ok _ => simp [told]
      | error e =>
          simp only [told]
          split <;> simp
  | cancel handle why now =>
      simp only [told]
      split <;> simp
  | supersede call now =>
      simp only [told]
      split
      · split <;> simp
      · simp
  | start workspaceId kind key now => simp [told]
  | startSuperseding workspaceId kind key now => simp [told]
  | childOfKind handle kind key now => simp [told]
  | queuedChildOfKind handle kind key now => simp [told]
  | markQueued call => simp [told]
  | begin handle now => simp [told]

theorem lines_sublist (events : List Event) : ∀ child ∈ (after events).inner.items,
    ∀ parent, child.parent = some parent → (lines child.id events).Sublist (lines parent
      events) := by
  induction events using List.reverseRecOn with
  | nil => intro child member; cases member
  | append_singleton events event ih =>
      have rooted := rooted_after events
      intro child member parent below
      rw [after_append] at member
      simp only [lines, pieces_snoc, List.filter_append]
      rcases carried_step rooted events.length event child member with ⟨new, -⟩ | carried
      · have absent : (after events).inner.find child.id = none := by
          refine Rooted.find_eq_none_iff.mpr fun listed => ?_
          obtain ⟨old, inside, same⟩ := List.mem_map.mp listed
          have := (rooted.below old inside).2
          omega
        simp [pieces_unborn events new, told_absent absent]
      · obtain ⟨old, inside, place, -⟩ := carried
        obtain ⟨same, -, above, -⟩ := Activity.place_eq_iff.mp place
        rw [same]
        exact (ih old inside parent (above ▸ below)).append
          (told_lines rooted inside (above ▸ below) _ event)

/-- What the logs of activities say. -/
structure Transcribed (events : List Event) : Prop where
  /-- A log is all that came onto it, in order, and nothing else. -/
  whole : ∀ activity ∈ (after events).inner.items,
    activity.log = joined (pieces {} 0 activity.id events)
  /-- What is appended to an activity or below it is on every log above, in the same order. -/
  part : ∀ upper lower, (after events).inner.Above upper lower →
    (lines lower events).Sublist (lines upper events)

/-- The log of every activity is the transcript of what went on at it and below it. -/
theorem transcribed (events : List Event) : Transcribed events where
  whole := log_eq events
  part := by
    intro upper lower above
    induction above with
    | single child =>
        obtain ⟨activity, member, below, rfl⟩ := Rooted.mem_children.mp child
        exact lines_sublist events activity member upper below
    | tail _ child ih =>
        obtain ⟨activity, member, below, rfl⟩ := Rooted.mem_children.mp child
        exact (lines_sublist events activity member _ below).trans ih

end World

end Activities
end Fghj
