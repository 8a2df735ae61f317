import Fghj.Follow
import Fghj.Library.Slices
import Fghj.Transcripts

/-!
# What following prints

Every poll prints what came onto the logs of the jobs at the top since the poll before, as far as
their lines are whole. The logs are cut at offsets in bytes that were read off an earlier state of
them, so that a wrong offset would end the program.
-/

namespace Fghj
namespace FollowPrint

open Activities Follow

/-! ## Polls -/

structure Printer where
  /-- How far each log is printed, in bytes. -/
  printed : Nat → Nat := fun _ => 0
  /-- What was printed, and of which activity. -/
  out : List (Nat × List Char) := []

/-- The offset behind the last whole line. -/
def lineEnd (log : List Char) : Nat := ((Slices.rfind '\n' log).map (· + 1)).getD 0

/-- One activity of a poll; `none` if a log is cut where it cannot be. -/
def printRoot (quiet : Bool) (printer : Printer) (activity : Activity) : Option Printer :=
  let log := activity.log.toList
  let done := printer.printed activity.id
  let stop := lineEnd log
  let next := { printer with
    printed := Function.update printer.printed activity.id (max done stop) }
  if !quiet && decide (done < stop) then
    (Slices.between log done stop).map fun lines =>
      { next with out := printer.out ++ [(activity.id, lines)] }
  else some next

/-- One poll. -/
def poll (quiet : Bool) (workspaceId : String) (after : Nat) (inner : Inner) (printer : Printer) :
    Option Printer :=
  (newRoots (list inner (some workspaceId)) after).foldlM (printRoot quiet) printer

structure World where
  log : Activities.World := {}
  /-- Nothing once a log was cut wrongly. -/
  printer : Option Printer := some {}

inductive Event where
  | log (event : Activities.Event)
  | poll

def step (quiet : Bool) (workspaceId : String) (after : Nat) (world : World) : Event → World
  | .log event => { world with log := world.log.step event }
  | .poll => { world with
    printer := world.printer.bind (poll quiet workspaceId after world.log.inner) }

/-- What happened to the log. -/
def logged : List Event → List Activities.Event
  | [] => []
  | .log event :: events => event :: logged events
  | .poll :: events => logged events

/-! ## What is printed -/

/-- Everything that was printed of one activity. -/
def Printer.text (printer : Printer) (id : Nat) : List Char :=
  (printer.out.filter fun chunk => chunk.1 = id).flatMap Prod.snd

/-- The whole lines of a log. -/
def wholeLines (log : String) : List Char := Slices.upToLast '\n' log.toList

/-- The whole lines of what came onto a log. -/
def toldLines (id : Nat) (events : List Activities.Event) : List Char :=
  wholeLines (joined (World.pieces {} 0 id events))

/-- What a printer has printed of an activity, and remembers to have. -/
structure Printer.Shows (printer : Printer) (quiet : Bool) (id : Nat) (lines : List Char) :
    Prop where
  printed : printer.printed id = Slices.size lines
  text : printer.text id = if quiet then [] else lines

theorem lineEnd_eq (log : String) : lineEnd log.toList = Slices.size (wholeLines log) :=
  Slices.rfind_elim '\n' log.toList

theorem size_pos {text : List Char} (nonempty : text ≠ []) : 0 < Slices.size text := by
  cases text with
  | nil => exact absurd rfl nonempty
  | cons char text =>
      have := char.utf8Size_pos
      rw [Slices.size_cons]
      omega

section Poll

variable {quiet : Bool} {printer next : Printer} {activity : Activity} {lines : List Char}
  {id stop : Nat}

/-- One activity is printed on to the end of its whole lines, and no other is touched. -/
structure PrintedOn (quiet : Bool) (activity : Activity) (printer next : Printer) : Prop where
  here : next.Shows quiet activity.id (wholeLines activity.log)
  others : ∀ other ≠ activity.id, ∀ lines, printer.Shows quiet other lines →
    next.Shows quiet other lines
  out : next.out = printer.out ∨ ∃ chunk, next.out = printer.out ++ [(activity.id, chunk)]

/-- The lines of one activity leave the text of the others. -/
theorem Printer.Shows.frame (shows : printer.Shows quiet id lines) {other : Nat}
    (apart : id ≠ other)
    (added : next.out = printer.out ∨ ∃ chunk, next.out = printer.out ++ [(other, chunk)])
    (printed : next.printed = Function.update printer.printed other stop) :
    next.Shows quiet id lines where
  printed := by rw [printed, Function.update_of_ne apart, shows.printed]
  text := by
    have same : next.text id = printer.text id := by
      rw [Printer.text, Printer.text]
      rcases added with same | ⟨chunk, more⟩
      · rw [same]
      · simp [more, apart.symm]
    rw [same, shows.text]

theorem printedOn_silent (shows : printer.Shows quiet activity.id lines)
    (still : quiet = true ∨ lines = wholeLines activity.log) :
    PrintedOn quiet activity printer { printer with
      printed := Function.update printer.printed activity.id
        (Slices.size (wholeLines activity.log)) } where
  here := by
    refine ⟨Function.update_self .., ?_⟩
    have same := shows.text
    rcases still with rfl | rfl
    · exact same
    · exact same
  others := fun other apart lines shows => shows.frame apart (.inl rfl) rfl
  out := .inl rfl

theorem printRoot_spec (shows : printer.Shows quiet activity.id lines)
    (grown : lines <+: wholeLines activity.log) :
    ∃ next, printRoot quiet printer activity = some next ∧
      PrintedOn quiet activity printer next := by
  obtain ⟨middle, whole⟩ := grown
  obtain ⟨rest, log⟩ := Slices.upToLast_prefix '\n' activity.log.toList
  have size : Slices.size (wholeLines activity.log) = Slices.size lines + Slices.size middle := by
    rw [← whole, Slices.size_append]
  have furthest : max (Slices.size lines) (Slices.size (wholeLines activity.log)) =
      Slices.size (wholeLines activity.log) := by omega
  rw [printRoot]
  simp only [lineEnd_eq, shows.printed, furthest]
  by_cases mute : quiet
  · rw [mute, Bool.not_true, Bool.false_and, if_neg (by simp)]
    exact ⟨_, rfl, mute ▸ printedOn_silent shows (.inl mute)⟩
  · rw [Bool.not_eq_true] at mute
    rw [mute, Bool.not_false, Bool.true_and]
    by_cases more : middle = []
    · rw [if_neg (by rw [size, more, Slices.size_nil]; simp)]
      refine ⟨_, rfl, mute ▸ printedOn_silent shows (.inr ?_)⟩
      rw [← whole, more, List.append_nil]
    · have := size_pos more
      have cut : Slices.between activity.log.toList (Slices.size lines)
          (Slices.size (wholeLines activity.log)) = some middle := by
        have text : activity.log.toList = lines ++ middle ++ rest := by
          rw [whole]
          exact log.symm
        rw [size, text, Slices.between_size]
      rw [if_pos (by simp only [decide_eq_true_eq]; omega), cut]
      refine ⟨_, rfl, ⟨⟨Function.update_self .., ?_⟩, ?_, .inr ⟨middle, rfl⟩⟩⟩
      · have same := shows.text
        rw [mute, if_neg (by simp), Printer.text] at same
        rw [if_neg (by simp), Printer.text, List.filter_append, List.flatMap_append, same, ← whole]
        simp
      · exact fun other apart lines shows => shows.frame apart (.inr ⟨middle, rfl⟩) rfl

/-- A poll prints every one of its activities on, and no other, in their order. -/
theorem foldlM_printRoot {lines : Nat → List Char} (roots : List Activity)
    (distinct : (roots.map Activity.id).Nodup) (shows : ∀ id, printer.Shows quiet id (lines id))
    (grown : ∀ activity ∈ roots, lines activity.id <+: wholeLines activity.log) :
    ∃ next added, roots.foldlM (printRoot quiet) printer = some next ∧
      next.out = printer.out ++ added ∧
      (added.map Prod.fst).Sublist (roots.map Activity.id) ∧
      (∀ activity ∈ roots, next.Shows quiet activity.id (wholeLines activity.log)) ∧
      ∀ id, id ∉ roots.map Activity.id → next.Shows quiet id (lines id) := by
  induction roots generalizing printer lines with
  | nil => exact ⟨printer, [], rfl, by simp, by simp, by simp, fun id _ => shows id⟩
  | cons first roots ih =>
      rw [List.map_cons, List.nodup_cons] at distinct
      obtain ⟨middle, run, on⟩ := printRoot_spec (shows first.id) (grown first (by simp))
      have after : ∀ id, middle.Shows quiet id
          (if id = first.id then wholeLines first.log else lines id) := by
        intro id
        split
        · rename_i same
          exact same ▸ on.here
        · rename_i apart
          exact on.others id apart _ (shows id)
      have apart (activity : Activity) (member : activity ∈ roots) : activity.id ≠ first.id :=
        fun same => distinct.1 (same ▸ List.mem_map_of_mem member)
      obtain ⟨next, added, runs, out, sublist, printed, others⟩ := ih distinct.2 after
        fun activity member => by
          rw [if_neg (apart activity member)]
          exact grown activity (List.mem_cons_of_mem _ member)
      refine ⟨next, ?_⟩
      have here : next.Shows quiet first.id (wholeLines first.log) := by
        simpa using others first.id distinct.1
      have rest (id : Nat) (other : id ∉ (first :: roots).map Activity.id) :
          next.Shows quiet id (lines id) := by
        rw [List.map_cons, List.mem_cons, not_or] at other
        simpa [other.1] using others id other.2
      have all : ∀ activity ∈ first :: roots,
          next.Shows quiet activity.id (wholeLines activity.log) :=
        List.forall_mem_cons.mpr ⟨here, printed⟩
      rcases on.out with same | ⟨chunk, more⟩
      · exact ⟨added, by rw [List.foldlM_cons, run]; exact runs, by rw [out, same],
          sublist.cons _, all, rest⟩
      · exact ⟨(first.id, chunk) :: added, by rw [List.foldlM_cons, run]; exact runs,
          by rw [out, more, List.append_assoc, List.singleton_append], sublist.cons_cons _,
            all, rest⟩

end Poll

/-! ## Runs -/

section Runs

variable {quiet : Bool} {workspaceId : String} {after : Nat}

theorem newRoots_sorted {log : Inner} (rooted : Rooted log) :
    ((newRoots (list log (some workspaceId)) after).map Activity.id).Pairwise (· < ·) := by
  have sorted : (newRoots (list log (some workspaceId)) after).Pairwise
      fun activity other => activity.id ≤ other.id :=
    haveI : Std.Total fun activity other : Activity => activity.id ≤ other.id :=
      ⟨fun activity other => Nat.le_total activity.id other.id⟩
    haveI : IsTrans Activity fun activity other => activity.id ≤ other.id :=
      ⟨fun _ _ _ => Nat.le_trans⟩
    List.pairwise_insertionSort _ _
  have listed : ((list log (some workspaceId)).map Activity.id).Nodup := by
    have reversed : (log.items.reverse.map Activity.id).Nodup := by
      rw [List.map_reverse]
      exact List.nodup_reverse.mpr rooted.ids
    exact reversed.sublist (List.filter_sublist.map _)
  have distinct : ((newRoots (list log (some workspaceId)) after).map Activity.id).Nodup := by
    refine ((List.perm_insertionSort _ _).map Activity.id).nodup_iff.mpr ?_
    exact listed.sublist (List.filter_sublist.map _)
  rw [List.Nodup, List.pairwise_map] at distinct
  rw [List.pairwise_map]
  exact (sorted.and distinct).imp fun both => Nat.lt_of_le_of_ne both.1 both.2

theorem mem_items_of_newRoots {log : Inner} {activity : Activity}
    (listed : activity ∈ newRoots (list log (some workspaceId)) after) : activity ∈ log.items :=
  (mem_list.mp (mem_newRoots.mp listed).1).1

theorem logged_append (front back : List Event) :
    logged (front ++ back) = logged front ++ logged back := by
  induction front with
  | nil => rfl
  | cons event front ih => cases event <;> simp [logged, ih]

theorem run_log (events : List Event) :
    (Execution.run (step quiet workspaceId after) {} events).log =
      Activities.World.after (logged events) := by
  induction events using List.reverseRecOn with
  | nil => rfl
  | append_singleton events event ih =>
      rw [Execution.run_append, logged_append]
      cases event with
      | log event =>
          rw [logged, logged, Activities.World.after_append, ← ih]
          rfl
      | poll =>
          rw [logged, logged, List.append_nil, ← ih]
          rfl

/-- More comes onto a log, so its whole lines only grow. -/
theorem toldLines_prefix (id : Nat) {front events : List Activities.Event}
    (early : front <+: events) : toldLines id front <+: toldLines id events := by
  obtain ⟨back, rfl⟩ := early
  refine Slices.upToLast_mono ?_
  rw [World.pieces_append, joined_append, String.toList_append]
  exact List.prefix_append _ _

/-- What following prints. -/
structure Prints (quiet : Bool) (workspaceId : String) (after : Nat) (events : List Event)
    (printer : Printer) : Prop where
  /-- Of every activity, the whole lines of all that had come onto its log at some time. -/
  each : ∀ id, ∃ front, front <+: logged events ∧ printer.Shows quiet id (toldLines id front)
  /-- Right after a poll, of all that came onto the logs of the new jobs at the top. -/
  current : ∀ front, events = front ++ [.poll] →
    ∀ activity ∈ newRoots (list (Activities.World.after (logged events)).inner (some workspaceId))
      after, printer.Shows quiet activity.id (toldLines activity.id (logged events))
  /-- A poll prints older jobs first. -/
  order : ∀ front, events = front ++ [.poll] → ∃ before added,
    (Execution.run (step quiet workspaceId after) {} front).printer = some before ∧
      printer.out = before.out ++ added ∧ (added.map Prod.fst).Pairwise (· < ·)

theorem prints_log {events : List Event} {printer : Printer}
    (prints : Prints quiet workspaceId after events printer) (event : Activities.Event) :
    Prints quiet workspaceId after (events ++ [.log event]) printer where
  each := by
    intro id
    obtain ⟨front, early, shows⟩ := prints.each id
    exact ⟨front, early.trans (by rw [logged_append]; exact List.prefix_append _ _), shows⟩
  current := by
    intro front split
    cases (List.append_inj' split rfl).2
  order := by
    intro front split
    cases (List.append_inj' split rfl).2

theorem prints_poll {events : List Event} {printer : Printer}
    (prints : Prints quiet workspaceId after events printer)
    (run : (Execution.run (step quiet workspaceId after) {} events).printer = some printer) :
    ∃ next, poll quiet workspaceId after (Activities.World.after (logged events)).inner printer =
        some next ∧ Prints quiet workspaceId after (events ++ [.poll]) next := by
  have rooted := Activities.World.rooted_after (logged events)
  have sorted := @newRoots_sorted workspaceId after _ rooted
  choose front early shows using prints.each
  have same : logged (events ++ [.poll]) = logged events := by
    rw [logged_append, logged, logged, List.append_nil]
  have log (activity : Activity)
      (listed : activity ∈ newRoots (list (Activities.World.after (logged events)).inner
        (some workspaceId)) after) :
      wholeLines activity.log = toldLines activity.id (logged events) := by
    rw [toldLines, Activities.World.log_eq _ activity (mem_items_of_newRoots listed)]
  obtain ⟨next, added, polled, out, sublist, here, others⟩ := @foldlM_printRoot quiet _ _ _
    (sorted.imp Nat.ne_of_lt) shows fun activity listed => by
      rw [log activity listed]
      exact toldLines_prefix activity.id (early activity.id)
  refine ⟨next, polled, ?_, ?_, ?_⟩
  · intro id
    rw [same]
    by_cases listed : id ∈ (newRoots (list (Activities.World.after (logged events)).inner
        (some workspaceId)) after).map Activity.id
    · obtain ⟨activity, member, rfl⟩ := List.mem_map.mp listed
      exact ⟨_, List.prefix_rfl, log activity member ▸ here activity member⟩
    · exact ⟨front id, early id, others id listed⟩
  · intro _ _ activity listed
    rw [same] at listed ⊢
    exact log activity listed ▸ here activity listed
  · intro before split
    obtain rfl := (List.append_inj' split rfl).1
    exact ⟨printer, added, run, out, sorted.sublist sublist⟩

/-- Following never cuts a log where it cannot be cut, and prints of every new job at the top the
whole lines of what came onto its log, each once and in order. -/
theorem follow_prints (quiet : Bool) (workspaceId : String) (after : Nat) (events : List Event) :
    ∃ printer, (Execution.run (step quiet workspaceId after) {} events).printer = some printer ∧
      Prints quiet workspaceId after events printer := by
  induction events using List.reverseRecOn with
  | nil =>
      refine ⟨{}, rfl, fun id => ⟨[], List.prefix_rfl, rfl, ?_⟩, by simp, by simp⟩
      cases quiet <;> rfl
  | append_singleton events event ih =>
      obtain ⟨printer, run, prints⟩ := ih
      rw [Execution.run_append, Execution.run_cons, Execution.run_nil]
      cases event with
      | log event => exact ⟨printer, run, prints_log prints event⟩
      | poll =>
          obtain ⟨next, polled, goes⟩ := prints_poll prints run
          refine ⟨next, ?_, goes⟩
          rw [step, run, run_log]
          exact polled

end Runs

end FollowPrint
end Fghj
