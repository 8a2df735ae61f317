import Mathlib.Tactic.Common
import Mathlib.Data.List.Chain
import Mathlib.Data.List.Sort
import Mathlib.Logic.Relation
import Mathlib.Order.WellFounded

/-!
# Finite directed graphs

Three algorithms on a graph given by the successors of each vertex: a worklist search for what can
be reached, an order in rounds that puts successors first, and a depth-first walk that reports the
loops it closes. Each takes fuel; the specifications say how much is enough.
-/

namespace Fghj
namespace Digraph

variable {α : Type} [DecidableEq α] (next : α → List α)

/-! ## Search -/

/-- Find one vertex: a new one joins the found ones and the queue. -/
def find (reached : List α × List α) (vertex : α) : List α × List α :=
  if vertex ∈ reached.1 then reached else (vertex :: reached.1, vertex :: reached.2)

/-- Expand the queue until it is empty, and return everything found. -/
def search : Nat → List α → List α → List α
  | 0, found, _ => found
  | _ + 1, found, [] => found
  | fuel + 1, found, current :: queue =>
      let reached := (next current).foldl find (found, queue)
      search fuel reached.1 reached.2

/-- The vertices of a list that are not found yet. -/
def missing (bound found : List α) : List α := bound.filter fun vertex => vertex ∉ found

theorem length_missing_le (bound found : List α) : (missing bound found).length ≤ bound.length :=
  List.length_filter_le _ bound

theorem length_missing_anti (bound : List α) {found later : List α} (grown : found ⊆ later) :
    (missing bound later).length ≤ (missing bound found).length := by
  apply List.Sublist.length_le
  apply List.monotone_filter_right
  intro vertex
  simp only [decide_eq_true_eq]
  exact fun absent member => absent (grown member)

variable {vertex : α}

theorem length_missing_lt {bound found : List α} (known : vertex ∈ bound)
    (absent : vertex ∉ found) :
    (missing bound (vertex :: found)).length < (missing bound found).length := by
  have smaller : missing bound (vertex :: found) =
      (missing bound found).filter fun other => other ≠ vertex := by
    rw [missing, missing, List.filter_filter]
    apply List.filter_congr
    intro other _
    simp [not_or]
  rw [smaller]
  apply List.length_filter_lt_length_iff_exists.mpr
  exact ⟨vertex, by simp [missing, known, absent], by simp⟩

/-- What finding a list of vertices does. -/
theorem foldl_find (vertices found queue : List α) :
    (∀ vertex, vertex ∈ (vertices.foldl find (found, queue)).1 ↔
      vertex ∈ found ∨ vertex ∈ vertices) ∧
    (∀ vertex, vertex ∈ (vertices.foldl find (found, queue)).2 ↔
      vertex ∈ queue ∨ vertex ∈ vertices ∧ vertex ∉ found) := by
  induction vertices generalizing found queue with
  | nil => simp
  | cons first vertices ih =>
      rw [List.foldl_cons, find]
      split
      · rename_i known
        have known : first ∈ found := known
        obtain ⟨found_iff, queue_iff⟩ := ih found queue
        refine ⟨fun vertex => ?_, fun vertex => ?_⟩
        · rw [found_iff, List.mem_cons]
          grind
        · rw [queue_iff, List.mem_cons]
          grind
      · rename_i fresh
        have fresh : first ∉ found := fresh
        obtain ⟨found_iff, queue_iff⟩ := ih (first :: found) (first :: queue)
        refine ⟨fun vertex => ?_, fun vertex => ?_⟩
        · rw [found_iff, List.mem_cons, List.mem_cons]
          grind
        · rw [queue_iff, List.mem_cons, List.mem_cons, List.mem_cons]
          grind

/-- Every vertex that joins the queue leaves the missing ones. -/
theorem foldl_find_length {bound vertices : List α} (known : vertices ⊆ bound)
    (found queue : List α) :
    (vertices.foldl find (found, queue)).2.length +
        (missing bound (vertices.foldl find (found, queue)).1).length ≤
      queue.length + (missing bound found).length := by
  induction vertices generalizing found queue with
  | nil => simp
  | cons first vertices ih =>
      have rest : vertices ⊆ bound := fun vertex member => known (List.mem_cons_of_mem _ member)
      rw [List.foldl_cons, find]
      split
      · exact ih rest found queue
      · rename_i fresh
        have fresh : first ∉ found := fresh
        have dropped := length_missing_lt (known List.mem_cons_self) fresh
        have shrinks := ih rest (first :: found) (first :: queue)
        rw [List.length_cons] at shrinks
        dsimp only
        omega

/-- The search with its fuel in sight: nothing when the fuel runs out before the queue does. -/
def searchWithin : Nat → List α → List α → Option (List α)
  | _, found, [] => some found
  | 0, _, _ :: _ => none
  | fuel + 1, found, current :: queue =>
      let reached := (next current).foldl find (found, queue)
      searchWithin fuel reached.1 reached.2

variable {fuel : Nat} {bound : List α}

/-- With enough fuel the search comes to its end. -/
theorem searchWithin_eq_some (known : ∀ vertex, next vertex ⊆ bound) {found queue : List α}
    (enough : queue.length + (missing bound found).length ≤ fuel) :
    searchWithin next fuel found queue = some (search next fuel found queue) := by
  induction fuel generalizing found queue with
  | zero =>
      have empty : queue = [] := List.length_eq_zero_iff.mp (by omega)
      subst empty
      rfl
  | succ fuel ih =>
      cases queue with
      | nil => rfl
      | cons current queue =>
          have shrinks := foldl_find_length (known current) found queue
          rw [List.length_cons] at enough
          exact ih (by omega)

/-- With enough fuel the search finds exactly what it had and what the queue leads to, and what it
finds is closed under successors. -/
theorem search_spec (known : ∀ vertex, next vertex ⊆ bound) {found queue : List α}
    (enough : queue.length + (missing bound found).length ≤ fuel)
    (expanded : ∀ vertex ∈ found, vertex ∈ queue ∨ next vertex ⊆ found) :
    found ⊆ search next fuel found queue ∧
      (∀ vertex, vertex ∈ queue ∨ vertex ∈ search next fuel found queue →
        next vertex ⊆ search next fuel found queue) ∧
      ∀ vertex ∈ search next fuel found queue, vertex ∈ found ∨
        ∃ start ∈ queue, Relation.TransGen (fun a b => b ∈ next a) start vertex := by
  induction fuel generalizing found queue with
  | zero =>
      have empty : queue = [] := List.length_eq_zero_iff.mp (by omega)
      subst empty
      refine ⟨List.Subset.refl _, ?_, fun vertex member => .inl member⟩
      rintro vertex (queued | member)
      · cases queued
      · exact (expanded vertex member).resolve_left List.not_mem_nil
  | succ fuel ih =>
      cases queue with
      | nil =>
          refine ⟨List.Subset.refl _, ?_, fun vertex member => .inl member⟩
          rintro vertex (queued | member)
          · cases queued
          · exact (expanded vertex member).resolve_left List.not_mem_nil
      | cons current queue =>
          have shrinks := foldl_find_length (known current) found queue
          rw [List.length_cons] at enough
          obtain ⟨found_iff, queue_iff⟩ := foldl_find (next current) found queue
          set reached := (next current).foldl find (found, queue) with reached_eq
          have step : search next (fuel + 1) found (current :: queue) =
              search next fuel reached.1 reached.2 := rfl
          have grown : ∀ vertex ∈ reached.1, vertex ∈ reached.2 ∨ next vertex ⊆ reached.1 := by
            intro vertex member
            by_cases old : vertex ∈ found
            · rcases expanded vertex old with queued | closed
              · rcases List.mem_cons.mp queued with rfl | later
                · exact .inr fun other successor => (found_iff other).mpr (.inr successor)
                · exact .inl ((queue_iff vertex).mpr (.inl later))
              · exact .inr fun other successor => (found_iff other).mpr (.inl (closed successor))
            · have new := ((found_iff vertex).mp member).resolve_left old
              exact .inl ((queue_iff vertex).mpr (.inr ⟨new, old⟩))
          obtain ⟨kept, closed, origin⟩ := ih (by omega) grown
          rw [step]
          refine ⟨fun vertex member => kept ((found_iff vertex).mpr (.inl member)), ?_, ?_⟩
          · rintro vertex (queued | member)
            · rcases List.mem_cons.mp queued with rfl | later
              · exact fun other successor => kept ((found_iff other).mpr (.inr successor))
              · exact closed vertex (.inl ((queue_iff vertex).mpr (.inl later)))
            · exact closed vertex (.inr member)
          · intro vertex member
            rcases origin vertex member with old | ⟨start, queued, path⟩
            · rcases (found_iff vertex).mp old with old | new
              · exact .inl old
              · exact .inr ⟨current, List.mem_cons_self, .single new⟩
            · rcases (queue_iff start).mp queued with later | ⟨new, -⟩
              · exact .inr ⟨start, List.mem_cons_of_mem _ later, path⟩
              · exact .inr ⟨current, List.mem_cons_self, .trans (.single new) path⟩

/-! ## Order in rounds -/

/-- One round over the remaining vertices: place each whose successors are all placed. -/
def sweep : List α → List α → List α × List α
  | ordered, [] => (ordered, [])
  | ordered, vertex :: remaining =>
      if (next vertex).all (· ∈ ordered) then sweep (ordered ++ [vertex]) remaining
      else ((sweep ordered remaining).1, vertex :: (sweep ordered remaining).2)

/-- Rounds until nothing remains; if a round places nothing, the rest follows as it is. -/
def rounds : Nat → List α → List α → List α
  | 0, ordered, _ => ordered
  | _ + 1, ordered, [] => ordered
  | fuel + 1, ordered, vertex :: remaining =>
      let swept := sweep next ordered (vertex :: remaining)
      if swept.2.length = remaining.length + 1 then swept.1 ++ swept.2
      else rounds fuel swept.1 swept.2

/-- The rounds with their fuel in sight: nothing when it runs out while something remains. -/
def roundsWithin : Nat → List α → List α → Option (List α)
  | _, ordered, [] => some ordered
  | 0, _, _ :: _ => none
  | fuel + 1, ordered, vertex :: remaining =>
      let swept := sweep next ordered (vertex :: remaining)
      if swept.2.length = remaining.length + 1 then some (swept.1 ++ swept.2)
      else roundsWithin fuel swept.1 swept.2

/-- Every vertex of the list comes after its successors. -/
def Sorted (order : List α) : Prop :=
  ∀ front vertex back, order = front ++ vertex :: back → next vertex ⊆ front

omit [DecidableEq α] in
theorem Sorted.nil : Sorted next [] := by
  intro front vertex back split
  simp at split

omit [DecidableEq α] in
variable {next} in
theorem Sorted.concat {order : List α} (sorted : Sorted next order) (placed : next vertex ⊆ order) :
    Sorted next (order ++ [vertex]) := by
  intro front other back split
  rcases List.eq_nil_or_concat back with rfl | ⟨rest, last, rfl⟩
  · obtain ⟨rfl, same⟩ := List.append_inj' split rfl
    cases same
    exact placed
  · have whole : order ++ [vertex] = (front ++ other :: rest) ++ [last] := by simp [split]
    exact sorted front other rest (List.append_inj' whole rfl).1

theorem sweep_perm (ordered remaining : List α) :
    ((sweep next ordered remaining).1 ++ (sweep next ordered remaining).2).Perm
      (ordered ++ remaining) := by
  induction remaining generalizing ordered with
  | nil => simp [sweep]
  | cons vertex remaining ih =>
      rw [sweep]
      split
      · exact (ih _).trans (by simp)
      · exact List.perm_middle.trans (((ih ordered).cons vertex).trans List.perm_middle.symm)

variable {next} in
theorem sweep_sorted {ordered : List α} (sorted : Sorted next ordered) (remaining : List α) :
    Sorted next (sweep next ordered remaining).1 := by
  induction remaining generalizing ordered with
  | nil => exact sorted
  | cons vertex remaining ih =>
      rw [sweep]
      split
      · rename_i ready
        exact ih (sorted.concat fun other member => by
          simpa using List.all_eq_true.mp ready other member)
      · exact ih sorted

theorem sweep_length_le (ordered remaining : List α) :
    (sweep next ordered remaining).2.length ≤ remaining.length := by
  induction remaining generalizing ordered with
  | nil => simp [sweep]
  | cons vertex remaining ih =>
      rw [sweep]
      split
      · exact (ih _).trans (by simp)
      · simpa using ih ordered

variable {ordered remaining : List α}

variable {next} in
/-- A round places a vertex whose successors are placed. -/
theorem sweep_progress (member : vertex ∈ remaining) (ready : next vertex ⊆ ordered) :
    (sweep next ordered remaining).2.length < remaining.length := by
  induction remaining generalizing ordered with
  | nil => cases member
  | cons first remaining ih =>
      rw [sweep]
      split
      · have shrinks := sweep_length_le next (ordered ++ [first]) remaining
        rw [List.length_cons]
        omega
      · rename_i waits
        rcases List.mem_cons.mp member with rfl | later
        · exact (waits (List.all_eq_true.mpr fun other successor => by
            simpa using ready successor)).elim
        · simpa using ih later ready

/-- Every vertex is placed exactly as often as it was given. -/
theorem rounds_perm (enough : remaining.length ≤ fuel) :
    (rounds next fuel ordered remaining).Perm (ordered ++ remaining) := by
  induction fuel generalizing ordered remaining with
  | zero =>
      have empty : remaining = [] := List.length_eq_zero_iff.mp (by omega)
      simp [empty, rounds]
  | succ fuel ih =>
      cases remaining with
      | nil => simp [rounds]
      | cons vertex remaining =>
          rw [rounds]
          have perm := sweep_perm next ordered (vertex :: remaining)
          have shrinks := sweep_length_le next ordered (vertex :: remaining)
          rw [List.length_cons] at enough shrinks
          split
          · exact perm
          · exact (ih (by omega)).trans perm

variable {next} in
/-- Without a loop, every round places something: a vertex none of whose successors remains is ready
in it. -/
theorem sweep_shrinks (acyclic : WellFounded fun after before => after ∈ next before)
    (some : remaining ≠ []) (inside : ∀ vertex ∈ remaining, next vertex ⊆ ordered ++ remaining) :
    (sweep next ordered remaining).2.length < remaining.length := by
  obtain ⟨least, member, minimal⟩ :=
    acyclic.has_min {other | other ∈ remaining} (List.exists_mem_of_ne_nil remaining some)
  have ready : next least ⊆ ordered := by
    intro other successor
    rcases List.mem_append.mp (inside least member successor) with placed | remains
    · exact placed
    · exact (minimal other remains successor).elim
  exact sweep_progress member ready

variable {next} in
/-- What remains after a round has its successors among what is placed and what remains. -/
theorem sweep_inside (inside : ∀ vertex ∈ remaining, next vertex ⊆ ordered ++ remaining)
    (sorted : Sorted next ordered) :
    ∀ vertex ∈ (sweep next ordered remaining).2,
      next vertex ⊆ (sweep next ordered remaining).1 ++ (sweep next ordered remaining).2 := by
  have perm := sweep_perm next ordered remaining
  intro vertex left successor found
  apply perm.mem_iff.mpr
  have given : vertex ∈ ordered ++ remaining := perm.mem_iff.mp (List.mem_append_right _ left)
  rcases List.mem_append.mp given with placed | remains
  · obtain ⟨front, back, rfl⟩ := List.append_of_mem placed
    have earlier := sorted front vertex back rfl found
    exact List.mem_append_left _ (List.mem_append_left _ earlier)
  · exact inside vertex remains found

/-- Without a loop, every vertex comes after its successors. -/
theorem rounds_sorted (acyclic : WellFounded fun after before => after ∈ next before)
    (enough : remaining.length ≤ fuel)
    (inside : ∀ vertex ∈ remaining, next vertex ⊆ ordered ++ remaining)
    (sorted : Sorted next ordered) : Sorted next (rounds next fuel ordered remaining) := by
  induction fuel generalizing ordered remaining with
  | zero => simpa [rounds] using sorted
  | succ fuel ih =>
      cases remaining with
      | nil => simpa [rounds] using sorted
      | cons vertex remaining =>
          rw [rounds]
          have progress := sweep_shrinks acyclic (List.cons_ne_nil vertex remaining) inside
          rw [List.length_cons] at enough progress
          split
          · omega
          · exact ih (by omega) (sweep_inside inside sorted) (sweep_sorted sorted _)

/-- With enough fuel the rounds come to their end. -/
theorem roundsWithin_eq_some (enough : remaining.length ≤ fuel) :
    roundsWithin next fuel ordered remaining = some (rounds next fuel ordered remaining) := by
  induction fuel generalizing ordered remaining with
  | zero =>
      obtain rfl := List.length_eq_zero_iff.mp (Nat.le_zero.mp enough)
      rfl
  | succ fuel ih =>
      cases remaining with
      | nil => rfl
      | cons vertex remaining =>
          have shrinks := sweep_length_le next ordered (vertex :: remaining)
          rw [List.length_cons] at enough shrinks
          rw [roundsWithin, rounds]
          split
          · rfl
          · exact ih (by omega)

section Congr

variable {next} {after : α → List α}
  (same : ∀ vertex other, other ∈ next vertex ↔ other ∈ after vertex)

include same

/-- Only which successors a vertex has makes a difference, not how they are listed. -/
theorem sweep_congr (ordered remaining : List α) :
    sweep next ordered remaining = sweep after ordered remaining := by
  induction remaining generalizing ordered with
  | nil => rfl
  | cons vertex remaining ih =>
      have ready : (next vertex).all (· ∈ ordered) = (after vertex).all (· ∈ ordered) := by
        rw [Bool.eq_iff_iff, List.all_eq_true, List.all_eq_true]
        exact forall_congr' fun other => imp_congr_left (same vertex other)
      rw [sweep, sweep, ready, ih, ih]

theorem rounds_congr (fuel : Nat) (ordered remaining : List α) :
    rounds next fuel ordered remaining = rounds after fuel ordered remaining := by
  induction fuel generalizing ordered remaining with
  | zero => rfl
  | succ fuel ih =>
      cases remaining with
      | nil => rfl
      | cons vertex remaining => rw [rounds, rounds, sweep_congr same, ih]

end Congr

omit [DecidableEq α] in
variable {next} in
/-- In a sorted list, everything a vertex leads to comes before it. -/
theorem Sorted.mem_front {order front back : List α} {vertex other : α}
    (sorted : Sorted next order) (split : order = front ++ vertex :: back)
    (path : Relation.TransGen (fun a b => b ∈ next a) vertex other) : other ∈ front := by
  induction path with
  | single successor => exact sorted front vertex back split successor
  | tail _ successor ih =>
      obtain ⟨head, middle, rfl⟩ := List.append_of_mem ih
      refine List.mem_append_left _ (sorted head _ (middle ++ vertex :: back) ?_ successor)
      rw [split, List.append_assoc, List.cons_append]

/-- Some round places nothing. -/
def stalls : Nat → List α → List α → Bool
  | 0, _, _ => false
  | _ + 1, _, [] => false
  | fuel + 1, ordered, vertex :: remaining =>
      let swept := sweep next ordered (vertex :: remaining)
      if swept.2.length = remaining.length + 1 then true else stalls fuel swept.1 swept.2

/-- Without a loop, no round places nothing. -/
theorem stalls_eq_false (acyclic : WellFounded fun after before => after ∈ next before)
    (inside : ∀ vertex ∈ remaining, next vertex ⊆ ordered ++ remaining)
    (sorted : Sorted next ordered) : stalls next fuel ordered remaining = false := by
  induction fuel generalizing ordered remaining with
  | zero => rfl
  | succ fuel ih =>
      cases remaining with
      | nil => rfl
      | cons vertex remaining =>
          rw [stalls]
          have progress := sweep_shrinks acyclic (List.cons_ne_nil vertex remaining) inside
          rw [List.length_cons] at progress
          split
          · omega
          · exact ih (sweep_inside inside sorted) (sweep_sorted sorted _)

/-! ## Loops -/

/-- Look at one successor: on the stack it closes a loop, and unless it is done it is descended
into. -/
def enter (descend : List α × List (List α) → α → List α × List (List α)) (stack : List α)
    (seen : List α × List (List α)) (vertex : α) : List α × List (List α) :=
  if vertex ∈ stack then (seen.1, seen.2 ++ [stack.drop (stack.idxOf vertex)])
  else if vertex ∈ seen.1 then seen
  else descend seen vertex

/-- Walk depth first from a vertex, collecting the vertices done and the loops closed. -/
def walk : Nat → List α → List α × List (List α) → α → List α × List (List α)
  | 0, _, seen, _ => seen
  | fuel + 1, stack, seen, vertex =>
      let below := (next vertex).foldl (enter (walk fuel (stack ++ [vertex])) (stack ++ [vertex]))
        seen
      (vertex :: below.1, below.2)

/-- The loops closed by walking from every root. -/
def loops (fuel : Nat) (roots : List α) : List (List α) :=
  (roots.foldl (enter (walk next fuel []) []) ([], [])).2

/-- From one state of the walk to a later one: nothing is forgotten, and while no loop is closed
every path from what is done ends. -/
def Advances (seen later : List α × List (List α)) : Prop :=
  seen.1 ⊆ later.1 ∧
    (later.2 = [] → seen.2 = [] ∧
      ((∀ vertex ∈ seen.1, Acc (fun after before => after ∈ next before) vertex) →
        ∀ vertex ∈ later.1, Acc (fun after before => after ∈ next before) vertex))

omit [DecidableEq α] in
theorem Advances.refl (seen : List α × List (List α)) : Advances next seen seen :=
  ⟨List.Subset.refl _, fun none => ⟨none, id⟩⟩

omit [DecidableEq α] in
variable {next} in
theorem Advances.trans {first second third : List α × List (List α)}
    (early : Advances next first second) (late : Advances next second third) :
    Advances next first third := by
  refine ⟨fun vertex member => late.1 (early.1 member), fun none => ?_⟩
  obtain ⟨still, lateAcc⟩ := late.2 none
  obtain ⟨before, earlyAcc⟩ := early.2 still
  exact ⟨before, fun acc => lateAcc (earlyAcc acc)⟩

variable {next} in
/-- Looking at successors one after another advances the walk, and leaves each of them done unless
a loop is closed. -/
theorem foldl_enter {descend : List α × List (List α) → α → List α × List (List α)}
    {stack vertices : List α}
    (descends : ∀ seen, ∀ vertex ∈ vertices, vertex ∉ stack →
      Advances next seen (descend seen vertex) ∧ vertex ∈ (descend seen vertex).1)
    (seen : List α × List (List α)) :
    Advances next seen (vertices.foldl (enter descend stack) seen) ∧
      ((vertices.foldl (enter descend stack) seen).2 = [] →
        vertices ⊆ (vertices.foldl (enter descend stack) seen).1) := by
  induction vertices generalizing seen with
  | nil => exact ⟨Advances.refl next seen, fun _ => List.nil_subset _⟩
  | cons vertex vertices ih =>
      rw [List.foldl_cons]
      obtain ⟨later, done⟩ := ih (fun seen other member =>
        descends seen other (List.mem_cons_of_mem _ member)) (enter descend stack seen vertex)
      have first : Advances next seen (enter descend stack seen vertex) ∧
          ((enter descend stack seen vertex).2 = [] →
            vertex ∈ (enter descend stack seen vertex).1) := by
        rw [enter]
        split
        · exact ⟨⟨List.Subset.refl _, fun none => by simp at none⟩, fun none => by simp at none⟩
        · rename_i off
          split
          · rename_i known
            exact ⟨Advances.refl next seen, fun _ => known⟩
          · obtain ⟨advances, reached⟩ := descends seen vertex List.mem_cons_self off
            exact ⟨advances, fun _ => reached⟩
      refine ⟨first.1.trans later, fun none => ?_⟩
      have here := later.1 (first.2 (later.2 none).1)
      exact List.cons_subset.mpr ⟨here, done none⟩

/-- The fuel of a walk covers what is not on its stack, so a walk ends with its vertex done. -/
theorem walk_spec (known : ∀ vertex, next vertex ⊆ bound) {stack : List α}
    (simple : (stack ++ [vertex]).Nodup) (inside : stack ++ [vertex] ⊆ bound)
    (enough : bound.length ≤ fuel + stack.length) (seen : List α × List (List α)) :
    Advances next seen (walk next fuel stack seen vertex) ∧
      vertex ∈ (walk next fuel stack seen vertex).1 := by
  induction fuel generalizing stack vertex seen with
  | zero =>
      have fits := (List.subperm_of_subset simple inside).length_le
      rw [List.length_append, List.length_singleton] at fits
      omega
  | succ fuel ih =>
      have descends : ∀ seen, ∀ other ∈ next vertex, other ∉ stack ++ [vertex] →
          Advances next seen (walk next fuel (stack ++ [vertex]) seen other) ∧
            other ∈ (walk next fuel (stack ++ [vertex]) seen other).1 := by
        intro seen other successor off
        apply ih
        · exact List.Nodup.append simple (List.nodup_singleton other) (by simpa using off)
        · exact List.append_subset.mpr
            ⟨inside, List.cons_subset.mpr ⟨known vertex successor, List.nil_subset _⟩⟩
        · rw [List.length_append, List.length_singleton]
          omega
      obtain ⟨⟨kept, acc⟩, done⟩ := foldl_enter descends seen
      rw [walk]
      refine ⟨⟨fun other member => List.mem_cons_of_mem _ (kept member), fun none => ?_⟩,
        List.mem_cons_self⟩
      obtain ⟨before, accs⟩ := acc none
      refine ⟨before, fun ended other member => ?_⟩
      rcases List.mem_cons.mp member with rfl | below
      · exact Acc.intro other fun after successor => accs ended after (done none successor)
      · exact accs ended other below

/-- When no loop is closed, there is none. -/
theorem wellFounded_of_loops_nil {bound roots : List α} (known : ∀ vertex, next vertex ⊆ bound)
    (rooted : roots ⊆ bound) (covered : ∀ vertex, next vertex ≠ [] → vertex ∈ roots)
    (enough : bound.length ≤ fuel) (none : loops next fuel roots = []) :
    WellFounded fun after before => after ∈ next before := by
  have descends : ∀ seen, ∀ vertex ∈ roots, vertex ∉ ([] : List α) →
      Advances next seen (walk next fuel [] seen vertex) ∧
        vertex ∈ (walk next fuel [] seen vertex).1 := by
    intro seen vertex root _
    apply walk_spec next known
    · simp
    · simpa using rooted root
    · simpa using enough
  obtain ⟨⟨-, acc⟩, done⟩ := foldl_enter descends ([], [])
  constructor
  intro vertex
  by_cases final : next vertex = []
  · exact Acc.intro vertex fun after successor => by simp [final] at successor
  · exact (acc none).2 (by simp) vertex (done none (covered vertex final))

/-- A closed path: distinct vertices, each joined to the next one and the last to the first. -/
structure Loop (joined : α → α → Prop) (cycle : List α) : Prop where
  distinct : cycle.Nodup
  chain : cycle.IsChain joined
  closed : ∃ first last, cycle.head? = some first ∧ cycle.getLast? = some last ∧ joined last first

omit [DecidableEq α] in
/-- A loop leads from its first vertex back to it. -/
theorem Loop.transGen {joined : α → α → Prop} {cycle : List α} (loop : Loop joined cycle) :
    ∃ vertex, Relation.TransGen joined vertex vertex := by
  obtain ⟨first, last, head, final, back⟩ := loop.closed
  have path : ∀ (start : α) (rest : List α), (start :: rest).IsChain joined →
      (start :: rest).getLast? = some last → Relation.ReflTransGen joined start last := by
    intro start rest
    induction rest generalizing start with
    | nil =>
        intro _ final
        cases final
        exact .refl
    | cons after rest ih =>
        intro chain final
        obtain ⟨step, chain⟩ := List.isChain_cons_cons.mp chain
        exact .head step (ih after chain (by rwa [List.getLast?_cons_cons] at final))
  cases cycle with
  | nil => cases head
  | cons start rest =>
      obtain rfl : start = first := Option.some.inj head
      exact ⟨start, Relation.TransGen.tail' (path start rest loop.chain final) back⟩

omit [DecidableEq α] in
theorem Loop.mono {joined weaker : α → α → Prop} {cycle : List α} (loop : Loop joined cycle)
    (implied : ∀ a b, joined a b → weaker a b) : Loop weaker cycle := by
  obtain ⟨first, last, head, final, back⟩ := loop.closed
  exact ⟨loop.distinct, loop.chain.imp implied, first, last, head, final, implied last first back⟩

variable {next} in
/-- A successor of the top of the stack that is on the stack closes a loop. -/
theorem loop_of_mem_stack {front : List α} {top vertex : α} (simple : (front ++ [top]).Nodup)
    (chain : (front ++ [top]).IsChain fun a b => b ∈ next a) (successor : vertex ∈ next top)
    (on : vertex ∈ front ++ [top]) :
    Loop (fun a b => b ∈ next a) ((front ++ [top]).drop ((front ++ [top]).idxOf vertex)) := by
  have bound := List.idxOf_lt_length_iff.mpr on
  have shape : (front ++ [top]).drop ((front ++ [top]).idxOf vertex) =
      vertex :: (front ++ [top]).drop ((front ++ [top]).idxOf vertex + 1) := by
    rw [List.drop_eq_getElem_cons bound, List.getElem_idxOf bound]
  refine ⟨simple.sublist (List.drop_sublist _ _), chain.drop _, vertex, top, ?_, ?_, successor⟩
  · rw [shape, List.head?_cons]
  · rw [List.getLast?_drop, if_neg (by omega), List.getLast?_concat]

variable {next} in
/-- A walk closes nothing but loops. -/
theorem walk_loops {stack : List α} (simple : (stack ++ [vertex]).Nodup)
    (chain : (stack ++ [vertex]).IsChain fun a b => b ∈ next a) {seen : List α × List (List α)}
    (sound : ∀ cycle ∈ seen.2, Loop (fun a b => b ∈ next a) cycle) :
    ∀ cycle ∈ (walk next fuel stack seen vertex).2, Loop (fun a b => b ∈ next a) cycle := by
  induction fuel generalizing stack vertex seen with
  | zero => exact sound
  | succ fuel ih =>
      rw [walk]
      apply List.foldlRecOn (motive := fun seen : List α × List (List α) =>
        ∀ cycle ∈ seen.2, Loop (fun a b => b ∈ next a) cycle) _ _ sound
      intro seen sound other successor
      rw [enter]
      split
      · rename_i on
        intro cycle listed
        rcases List.mem_append.mp listed with old | new
        · exact sound cycle old
        · obtain rfl := List.mem_singleton.mp new
          exact loop_of_mem_stack simple chain successor on
      · rename_i off
        split
        · exact sound
        · apply ih
          · exact List.Nodup.append simple (List.nodup_singleton other) (by simpa using off)
          · apply List.IsChain.append chain (List.isChain_singleton other)
            intro last final first start
            rw [List.getLast?_concat, Option.mem_some_iff] at final
            rw [List.head?_singleton, Option.mem_some_iff] at start
            exact final ▸ start ▸ successor
          · exact sound

theorem loop_of_mem_loops {roots cycle : List α} (listed : cycle ∈ loops next fuel roots) :
    Loop (fun a b => b ∈ next a) cycle := by
  revert cycle
  apply List.foldlRecOn (motive := fun seen : List α × List (List α) =>
    ∀ {cycle}, cycle ∈ seen.2 → Loop (fun a b => b ∈ next a) cycle)
  · intro cycle listed
    cases listed
  · intro seen sound root _ cycle listed
    rw [enter, if_neg List.not_mem_nil] at listed
    split at listed
    · exact sound listed
    · exact walk_loops (by simp) (List.isChain_singleton root) (fun _ => sound) cycle listed

/-- A finite graph in which no vertex leads back to itself ends everywhere. -/
theorem wellFounded_of_irrefl (known : ∀ vertex, next vertex ⊆ bound)
    (covered : ∀ vertex, next vertex ≠ [] → vertex ∈ bound)
    (irreflexive : ∀ vertex, ¬Relation.TransGen (fun a b => b ∈ next a) vertex vertex) :
    WellFounded fun after before => after ∈ next before := by
  refine wellFounded_of_loops_nil next known (List.Subset.refl bound) covered
    (Nat.le_refl bound.length) (List.eq_nil_iff_forall_not_mem.mpr fun cycle listed => ?_)
  obtain ⟨vertex, path⟩ := (loop_of_mem_loops next listed).transGen
  exact irreflexive vertex path

end Digraph
end Fghj
