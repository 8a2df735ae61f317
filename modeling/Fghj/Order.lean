import Fghj.Graph

/-!
# Start order and outcomes

The order a run starts its nodes in, what a node needs and what needs it, and which nodes of a run
failed or were blocked by a failure.
-/

namespace Fghj
namespace Orchestrator

/-! ## Order -/

/-- What a node needs among the given ones. -/
def depsAmong (ids : List String) (edges : List Edge) (id : String) : List String :=
  (requirements edges id).filter fun dep => id ∈ ids && dep ∈ ids

/-- Order nodes so that what each needs comes first. -/
def topologicalStartOrder (ids : List String) (edges : List Edge) : List String :=
  Digraph.rounds (depsAmong ids edges) ids.length [] (sortUnstable ids)

variable {edges : List Edge} {ids : List String} {id dep : String}

theorem mem_depsAmong :
    dep ∈ depsAmong ids edges id ↔ Needs edges id dep ∧ id ∈ ids ∧ dep ∈ ids := by
  simp [depsAmong, mem_requirements]

/-- A start order holds exactly the given nodes. -/
theorem topologicalStartOrder_perm (ids : List String) (edges : List Edge) :
    (topologicalStartOrder ids edges).Perm ids := by
  have enough : (sortUnstable ids).length ≤ ids.length := (sortUnstable_perm ids).length_eq.le
  have placed : (topologicalStartOrder ids edges).Perm ([] ++ sortUnstable ids) :=
    Digraph.rounds_perm (depsAmong ids edges) enough
  exact placed.trans (sortUnstable_perm ids)

/-- In a start order, what a node needs of the given nodes comes before it, unless the needs among
these form a loop. -/
theorem topologicalStartOrder_sorted_among
    (acyclic : WellFounded fun dep id => dep ∈ depsAmong ids edges id) :
    Digraph.Sorted (depsAmong ids edges) (topologicalStartOrder ids edges) := by
  apply Digraph.rounds_sorted
  · exact acyclic
  · exact (sortUnstable_perm ids).length_eq.le
  · intro id _ dep member
    simpa using (mem_depsAmong.mp member).2.2
  · exact Digraph.Sorted.nil _

theorem topologicalStartOrder_sorted (acyclic : Acyclic edges) (ids : List String) :
    Digraph.Sorted (depsAmong ids edges) (topologicalStartOrder ids edges) := by
  apply topologicalStartOrder_sorted_among
  apply Subrelation.wf _ acyclic
  intro dep id member
  exact (mem_depsAmong.mp member).1

/-- What a node of a start order needs of the given nodes has its turn before it. -/
theorem mem_front_of_needs (acyclic : Acyclic edges) {ids front back : List String}
    (split : topologicalStartOrder ids edges = front ++ id :: back) (needs : Needs edges id dep)
    (among : dep ∈ ids) : dep ∈ front := by
  have inside : id ∈ ids := (topologicalStartOrder_perm ids edges).mem_iff.mp (by rw [split]; simp)
  exact topologicalStartOrder_sorted acyclic ids front id back split
    (mem_depsAmong.mpr ⟨needs, inside, among⟩)

/-- One node comes before another in an order. -/
def Before (order : List String) (first second : String) : Prop :=
  ∃ front middle back, order = front ++ first :: middle ++ second :: back

theorem before_of_mem_front {order front back : List String} {first second : String}
    (split : order = front ++ second :: back) (earlier : first ∈ front) :
    Before order first second := by
  obtain ⟨head, middle, rfl⟩ := List.append_of_mem earlier
  exact ⟨head, middle, back, by rw [split]⟩

theorem before_of_needs (acyclic : Acyclic edges) (needs : Needs edges id dep) (inside : id ∈ ids)
    (among : dep ∈ ids) : Before (topologicalStartOrder ids edges) dep id := by
  obtain ⟨front, back, split⟩ :=
    List.append_of_mem ((topologicalStartOrder_perm ids edges).mem_iff.mpr inside)
  exact before_of_mem_front split (mem_front_of_needs acyclic split needs among)

/-- The nodes among the given ones that another of them cannot start without. -/
def waitedOn (ids : List String) (edges : List Edge) : List String :=
  ((edges.filter Edge.neededToStart).filter fun edge =>
    edge.from ∈ ids && edge.to ∈ ids).map Edge.to

/-- The nodes found from `id` along edges of the given direction, in start order. -/
def closure (id : String) (edges : List Edge) (here next : Edge → String) : List String :=
  let step (current : String) :=
    ((edges.filter Edge.neededToStart).filter fun edge =>
      here edge == current && next edge != id).map next
  topologicalStartOrder (intoIter (Digraph.search step (1 + edges.length) [] [id])) edges

/-- Everything `id` cannot start without. -/
def requirementsOf (id : String) (edges : List Edge) : List String :=
  closure id edges Edge.from Edge.to

/-- Everything that cannot start without `id`. -/
def dependentsOf (id : String) (edges : List Edge) : List String :=
  closure id edges Edge.to Edge.from

/-- One step of that search: over a needed edge, but not back to where it began. -/
def closureStep (id : String) (edges : List Edge) (here next : Edge → String) (current : String) :
    List String :=
  ((edges.filter Edge.neededToStart).filter fun edge =>
    here edge == current && next edge != id).map next

section Closure

variable {id current other : String} {edges : List Edge} {here next : Edge → String}

theorem mem_closureStep : other ∈ closureStep id edges here next current ↔ other ≠ id ∧
    ∃ edge ∈ edges, edge.neededToStart ∧ here edge = current ∧ next edge = other := by
  simp only [closureStep, List.mem_map, List.mem_filter, Bool.and_eq_true, beq_iff_eq, bne_iff_ne]
  constructor
  · rintro ⟨edge, ⟨⟨listed, needed⟩, at_, away⟩, rfl⟩
    exact ⟨away, edge, listed, needed, at_, rfl⟩
  · rintro ⟨away, edge, listed, needed, at_, rfl⟩
    exact ⟨edge, ⟨⟨listed, needed⟩, at_, away⟩, rfl⟩

theorem closureStep_subset : closureStep id edges here next current ⊆ edges.map next := by
  intro other member
  obtain ⟨-, edge, listed, -, -, rfl⟩ := mem_closureStep.mp member
  exact List.mem_map.mpr ⟨edge, listed, rfl⟩

/-- The search for a closure has fuel for every edge. -/
theorem closure_enough :
    [id].length + (Digraph.missing (edges.map next) []).length ≤ 1 + edges.length := by
  have fits := Digraph.length_missing_le (edges.map next) []
  rw [List.length_map] at fits
  rw [List.length_singleton]
  omega

/-- A closure holds what a path of needs leads to, except where it began. -/
theorem mem_closure : other ∈ closure id edges here next ↔ other ≠ id ∧
    Relation.TransGen
      (fun a b => ∃ edge ∈ edges, edge.neededToStart ∧ here edge = a ∧ next edge = b) id other := by
  obtain ⟨-, closed, origin⟩ := Digraph.search_spec (closureStep id edges here next)
    (fun _ => closureStep_subset) closure_enough (by simp)
  have found_iff : other ∈ closure id edges here next ↔
      other ∈ Digraph.search (closureStep id edges here next) (1 + edges.length) [] [id] := by
    rw [closure, (topologicalStartOrder_perm _ edges).mem_iff, mem_intoIter]
    rfl
  rw [found_iff]
  constructor
  · intro found
    rcases origin other found with nowhere | ⟨start, queued, path⟩
    · cases nowhere
    · obtain rfl := List.mem_singleton.mp queued
      obtain ⟨before, -, last⟩ := Relation.TransGen.tail'_iff.mp path
      exact ⟨(mem_closureStep.mp last).1,
        Relation.TransGen.mono (fun _ _ found => (mem_closureStep.mp found).2) _ _ path⟩
  · rintro ⟨away, path⟩
    -- a path may come back to where it began and goes on from there as from the start
    have reached : other = id ∨
        other ∈ Digraph.search (closureStep id edges here next) (1 + edges.length) [] [id] := by
      clear away found_iff
      induction path with
      | @single after joined =>
          by_cases same : after = id
          · exact .inl same
          · exact .inr (closed id (.inl List.mem_cons_self) (mem_closureStep.mpr ⟨same, joined⟩))
      | @tail before after _ joined ih =>
          by_cases same : after = id
          · exact .inl same
          · refine .inr (closed before ?_ (mem_closureStep.mpr ⟨same, joined⟩))
            exact ih.imp_left fun start => List.mem_singleton.mpr start
    exact reached.resolve_left away

theorem closure_nodup : (closure id edges here next).Nodup :=
  (topologicalStartOrder_perm _ edges).nodup_iff.mpr (intoIter_nodup _)

end Closure

theorem mem_requirementsOf {id other : String} :
    other ∈ requirementsOf id edges ↔ other ≠ id ∧ Relation.TransGen (Needs edges) id other :=
  mem_closure

theorem mem_dependentsOf {id other : String} :
    other ∈ dependentsOf id edges ↔ other ≠ id ∧ Relation.TransGen (Needs edges) other id := by
  have turned : ∀ a b, (∃ edge ∈ edges, edge.neededToStart ∧ edge.to = b ∧ edge.from = a) ↔
      Needs edges a b :=
    fun a b => exists_congr fun edge => and_congr_right fun _ => and_congr_right fun _ => and_comm
  rw [dependentsOf, mem_closure, ← Relation.transGen_swap]
  refine and_congr_right fun _ => ⟨fun path => ?_, fun path => ?_⟩
  · exact Relation.TransGen.mono (fun a b => (turned a b).mp) _ _ path
  · exact Relation.TransGen.mono (fun a b => (turned a b).mpr) _ _ path

theorem requirementsOf_spec (id : String) (edges : List Edge) :
    (requirementsOf id edges).Nodup ∧ ∀ other ∈ requirementsOf id edges,
      other ≠ id ∧ Relation.TransGen (Needs edges) id other :=
  ⟨closure_nodup, fun _ => mem_requirementsOf.mp⟩

theorem dependentsOf_spec (id : String) (edges : List Edge) :
    (dependentsOf id edges).Nodup ∧ ∀ other ∈ dependentsOf id edges,
      other ≠ id ∧ Relation.TransGen (Needs edges) other id :=
  ⟨closure_nodup, fun _ => mem_dependentsOf.mp⟩

/-! ## Outcomes -/

/-- Which nodes of a run failed, and which were blocked by a failure. -/
structure StartOutcomes where
  /-- What each node needs among the run's nodes, in edge order. -/
  requirements : List (String × String) := []
  failed : OrderedMap String String := ∅
  /-- Blocked node to the failure that blocks it, not its nearest victim. -/
  blocked : OrderedMap String String := ∅

namespace StartOutcomes

/-- No outcome yet. -/
def new (ids : List String) (edges : List Edge) : StartOutcomes where
  requirements :=
    ((edges.filter Edge.neededToStart).filter fun edge => edge.from ∈ ids && edge.to ∈ ids).map
      fun edge => (edge.from, edge.to)

/-- What a failed or blocked requirement is blamed on. -/
def cause (outcomes : StartOutcomes) (dep : String) : Option String :=
  if outcomes.failed.contains dep then some dep else outcomes.blocked[dep]?

/-- The failure that blocks a node, the first in name order; only sees outcomes already recorded. -/
def blockedBy (outcomes : StartOutcomes) (id : String) : Option String :=
  (sortUnstable
    ((outcomes.requirements.filter fun needs => needs.1 == id).filterMap fun needs =>
      outcomes.cause needs.2)).head?

def fail (outcomes : StartOutcomes) (id error : String) : StartOutcomes :=
  { outcomes with failed := outcomes.failed.insert id error }

def block (outcomes : StartOutcomes) (id cause : String) : StartOutcomes :=
  { outcomes with blocked := outcomes.blocked.insert id cause }

/-- The nodes a failure blocks. -/
def victims (outcomes : StartOutcomes) (id : String) : List String :=
  (outcomes.blocked.toList.filter fun entry => entry.2 == id).map Prod.fst

/-- A failure, with the nodes it blocks. -/
def line (outcomes : StartOutcomes) (id error : String) : String :=
  if (outcomes.victims id).isEmpty then id ++ ": " ++ error
  else id ++ ": " ++ error ++ " (blocked: " ++ ", ".intercalate (outcomes.victims id) ++ ")"

/-- Every failure with the nodes it blocks, if there is one. -/
def error (outcomes : StartOutcomes) : Option String :=
  if outcomes.failed.isEmpty then none
  else
    some ("\n".intercalate (outcomes.failed.toList.map fun entry =>
      outcomes.line entry.1 entry.2))

theorem mem_new_requirements :
    (id, dep) ∈ (new ids edges).requirements ↔ Needs edges id dep ∧ id ∈ ids ∧ dep ∈ ids := by
  simp only [new, List.mem_map, List.mem_filter, Bool.and_eq_true, decide_eq_true_eq,
    Prod.mk.injEq]
  constructor
  · rintro ⟨edge, ⟨⟨listed, needed⟩, inside⟩, rfl, rfl⟩
    exact ⟨⟨edge, listed, needed, rfl, rfl⟩, inside⟩
  · rintro ⟨⟨edge, listed, needed, rfl, rfl⟩, inside⟩
    exact ⟨edge, ⟨⟨listed, needed⟩, inside⟩, rfl, rfl⟩

/-- A node is blocked by what a requirement of it is blamed on. -/
theorem blockedBy_eq_some {outcomes : StartOutcomes} {id cause : String}
    (blocked : outcomes.blockedBy id = some cause) :
    ∃ dep, (id, dep) ∈ outcomes.requirements ∧ outcomes.cause dep = some cause := by
  have member := List.mem_of_mem_head? (Option.mem_def.mpr blocked)
  rw [mem_sortUnstable, List.mem_filterMap] at member
  obtain ⟨⟨named, dep⟩, kept, blamed⟩ := member
  obtain ⟨listed, same⟩ := List.mem_filter.mp kept
  obtain rfl : named = id := by simpa using same
  exact ⟨dep, listed, blamed⟩

/-- A node is free exactly when no requirement of it is failed or blocked. -/
theorem blockedBy_eq_none {outcomes : StartOutcomes} {id : String} :
    outcomes.blockedBy id = none ↔
      ∀ dep, (id, dep) ∈ outcomes.requirements → outcomes.cause dep = none := by
  rw [blockedBy, List.head?_eq_none_iff]
  constructor
  · intro empty dep listed
    have none : (outcomes.requirements.filter fun needs => needs.1 == id).filterMap
        (fun needs => outcomes.cause needs.2) = [] := by
      have perm := sortUnstable_perm ((outcomes.requirements.filter fun needs =>
        needs.1 == id).filterMap fun needs => outcomes.cause needs.2)
      rw [empty] at perm
      exact perm.nil_eq.symm
    exact List.filterMap_eq_nil_iff.mp none (id, dep) (by simpa using listed)
  · intro free
    have none : (outcomes.requirements.filter fun needs => needs.1 == id).filterMap
        (fun needs => outcomes.cause needs.2) = [] := by
      apply List.filterMap_eq_nil_iff.mpr
      rintro ⟨named, dep⟩ kept
      obtain ⟨listed, same⟩ := List.mem_filter.mp kept
      obtain rfl : named = id := by simpa using same
      exact free dep listed
    rw [none]
    rfl

theorem cause_eq_none {outcomes : StartOutcomes} {dep : String} :
    outcomes.cause dep = none ↔ outcomes.failed[dep]? = none ∧ outcomes.blocked[dep]? = none := by
  simp only [cause, Std.ExtTreeMap.contains_eq_isSome_getElem?]
  cases outcomes.failed[dep]? <;> simp

end StartOutcomes
end Orchestrator
end Fghj
