import Fghj.BringUpSpec

/-!
# A stable start order

The start order of a set of nodes is one of all its topological orders, and which one it is depends
on the set and on the needs within it alone: not on how the nodes or the edges are listed, and not
on other edges. What a switch of flows stops is put in that order from its end.
-/

namespace Fghj
namespace Orchestrator

open Converge (keyed keyed_iff)

/-- The needs within a set of nodes. -/
def NeedsAmong (ids : List String) (edges : List Edge) (id dep : String) : Prop :=
  Needs edges id dep ∧ id ∈ ids ∧ dep ∈ ids

/-- No node of the set needs itself in the end. -/
def AcyclicAmong (ids : List String) (edges : List Edge) : Prop :=
  ∀ id, ¬Relation.TransGen (NeedsAmong ids edges) id id

/-- The two lists of edges hold the same ones that are needed to start and within the set, however
often and in whatever order, and any others. -/
def SameAmong (ids : List String) (edges others : List Edge) : Prop :=
  ∀ edge, edge.neededToStart → edge.from ∈ ids → edge.to ∈ ids → (edge ∈ edges ↔ edge ∈ others)

/-- What a start order of a set of nodes is. -/
structure StableOrder (ids : List String) (edges : List Edge) : Prop where
  /-- The rounds end before the bound on their number does. -/
  ends : Digraph.roundsWithin (depsAmong ids edges) ids.length [] (sortUnstable ids) =
    some (topologicalStartOrder ids edges)
  perm : (topologicalStartOrder ids edges).Perm ids
  sorted : AcyclicAmong ids edges → ∀ id dep, Relation.TransGen (NeedsAmong ids edges) id dep →
    Before (topologicalStartOrder ids edges) dep id
  stable : ∀ otherIds others, otherIds.Perm ids → SameAmong ids edges others →
    topologicalStartOrder otherIds others = topologicalStartOrder ids edges

/-- What a switch to a flow stops. -/
structure StopsOutside (graph : Graph) (keep : List String) (state : EnvState) : Prop where
  once : (stopOrder graph keep state).Nodup
  exactly : ∀ id, id ∈ stopOrder graph keep state ↔ ∃ container,
    state.containers[id]? = some container ∧ container.observed.status = "running" ∧ id ∉ keep
  first : ∀ id dep, id ∈ stopOrder graph keep state → dep ∈ stopOrder graph keep state →
    Needs graph.edges id dep → Before (stopOrder graph keep state) id dep

section StartOrder

variable {ids : List String} {edges : List Edge} {id dep : String}

theorem mem_depsAmong_iff : dep ∈ depsAmong ids edges id ↔ NeedsAmong ids edges id dep :=
  mem_depsAmong

/-- Finitely many nodes without a loop are ordered by their needs. -/
theorem wellFounded_among (acyclic : AcyclicAmong ids edges) :
    WellFounded fun dep id => dep ∈ depsAmong ids edges id := by
  have known : ∀ id, depsAmong ids edges id ⊆ ids := fun _ _ member => (mem_depsAmong.mp member).2.2
  refine Digraph.wellFounded_of_irrefl _ known (fun id some => ?_) fun id path => ?_
  · obtain ⟨dep, member⟩ := List.exists_mem_of_ne_nil _ some
    exact (mem_depsAmong.mp member).2.1
  · exact acyclic id (Relation.TransGen.mono (fun _ _ => mem_depsAmong.mp) _ _ path)

theorem sortUnstable_congr {others : List String} (permuted : others.Perm ids) :
    sortUnstable others = sortUnstable ids :=
  List.Perm.eq_of_pairwise' (r := (· ≤ ·)) (List.pairwise_insertionSort _ others)
    (List.pairwise_insertionSort _ ids)
    ((sortUnstable_perm others).trans (permuted.trans (sortUnstable_perm ids).symm))

theorem needsAmong_congr {others : List Edge} {otherIds : List String}
    (permuted : otherIds.Perm ids) (same : SameAmong ids edges others) :
    NeedsAmong otherIds others id dep ↔ NeedsAmong ids edges id dep := by
  rw [NeedsAmong, NeedsAmong, permuted.mem_iff, permuted.mem_iff]
  constructor
  · rintro ⟨⟨edge, listed, needed, rfl, rfl⟩, inside, among⟩
    exact ⟨⟨edge, (same edge needed inside among).mpr listed, needed, rfl, rfl⟩, inside, among⟩
  · rintro ⟨⟨edge, listed, needed, rfl, rfl⟩, inside, among⟩
    exact ⟨⟨edge, (same edge needed inside among).mp listed, needed, rfl, rfl⟩, inside, among⟩

theorem stableOrder (ids : List String) (edges : List Edge) : StableOrder ids edges where
  ends := Digraph.roundsWithin_eq_some _ (sortUnstable_perm ids).length_eq.le
  perm := topologicalStartOrder_perm ids edges
  sorted := by
    intro acyclic id dep path
    have sorted := topologicalStartOrder_sorted_among (wellFounded_among acyclic)
    have inside : id ∈ ids := by
      obtain ⟨next, first, -⟩ := Relation.TransGen.head'_iff.mp path
      exact first.2.1
    obtain ⟨front, back, split⟩ :=
      List.append_of_mem ((topologicalStartOrder_perm ids edges).mem_iff.mpr inside)
    refine before_of_mem_front split (sorted.mem_front split ?_)
    exact Relation.TransGen.mono (fun _ _ => mem_depsAmong.mpr) _ _ path
  stable := by
    intro otherIds others permuted same
    rw [topologicalStartOrder, topologicalStartOrder, sortUnstable_congr permuted,
      permuted.length_eq]
    refine Digraph.rounds_congr (fun id dep => ?_) _ _ _
    rw [mem_depsAmong_iff, mem_depsAmong_iff]
    exact needsAmong_congr permuted same

theorem before_reverse {order : List String} (before : Before order dep id) :
    Before order.reverse id dep := by
  obtain ⟨front, middle, back, rfl⟩ := before
  exact ⟨back.reverse, middle.reverse, front.reverse, by simp⟩

end StartOrder

section StopOrder

variable {graph : Graph} {keep : List String} {state : EnvState}

theorem stopsOutside (acyclic : ∀ id, ¬Relation.TransGen (Needs graph.edges) id id)
    (named : keyed state) : StopsOutside graph keep state := by
  have names := (keyed_iff state).mp named
  have exactly : ∀ id, id ∈ stopOrder graph keep state ↔ ∃ container,
      state.containers[id]? = some container ∧ container.observed.status = "running" ∧
        id ∉ keep := by
    intro id
    rw [mem_stopOrder]
    constructor
    · rintro ⟨container, ⟨key, found⟩, up, outside, rfl⟩
      rw [names key container found] at outside ⊢
      exact ⟨container, found, up, outside⟩
    · rintro ⟨container, found, up, outside⟩
      have own := names id container found
      exact ⟨container, ⟨id, found⟩, up, own ▸ outside, own⟩
  refine ⟨?_, exactly, fun id dep listed also needs => ?_⟩
  · rw [stopOrder, List.nodup_reverse, (topologicalStartOrder_perm _ graph.edges).nodup_iff]
    exact (OrderedMap.nodup_map_listed state.containers names).sublist
      (List.filter_sublist.map _)
  · rw [stopOrder, List.mem_reverse, (topologicalStartOrder_perm _ graph.edges).mem_iff]
      at listed also
    refine before_reverse ((stableOrder _ graph.edges).sorted (fun id path => ?_) id dep
      (.single ⟨needs, listed, also⟩))
    exact acyclic id (Relation.TransGen.mono (fun _ _ among => among.1) _ _ path)

end StopOrder

/-- The start order of any nodes is a stable topological order, and what a switch of flows stops is
put in that order from its end. -/
theorem start_order_stable :
    (∀ (ids : List String) (edges : List Edge), StableOrder ids edges) ∧
      ∀ (graph : Graph) (keep : List String) (state : EnvState),
        (∀ id, ¬Relation.TransGen (Needs graph.edges) id id) → keyed state →
          StopsOutside graph keep state :=
  ⟨stableOrder, fun _ _ _ => stopsOutside⟩

/-- A service that needs its database, both of them running. -/
def shop : Graph where
  workspaceName := "ws"
  nodes := [{ id := "api", kind := .service }, { id := "db", kind := .backing }]
  edges := [{ «from» := "api", «to» := "db", required := true }]

def shopRunning : EnvState where
  containers := (∅ : OrderedMap String ContainerInfo)
    |>.insert "api" { nodeId := "api", observed := { status := "running" } }
    |>.insert "db" { nodeId := "db", observed := { status := "running" } }

theorem shop_needs {id dep : String} (needs : Needs shop.edges id dep) :
    id = "api" ∧ dep = "db" := by
  obtain ⟨edge, listed, -, rfl, rfl⟩ := needs
  obtain rfl := List.mem_singleton.mp listed
  exact ⟨rfl, rfl⟩

theorem shop_acyclic (id : String) : ¬Relation.TransGen (Needs shop.edges) id id := by
  intro path
  obtain ⟨_, first, -⟩ := Relation.TransGen.head'_iff.mp path
  obtain ⟨_, -, last⟩ := Relation.TransGen.tail'_iff.mp path
  have same := (shop_needs first).1.symm.trans (shop_needs last).2
  exact absurd same (by decide)

theorem start_order_stable_shop :
    StableOrder ["api", "db"] shop.edges ∧ StopsOutside shop [] shopRunning :=
  ⟨start_order_stable.1 _ _, start_order_stable.2 _ _ _ shop_acyclic (by decide)⟩

end Orchestrator
end Fghj
