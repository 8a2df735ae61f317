import Fghj.Universe
import Mathlib.Data.Finset.Basic

/-!
# Cycles of needs

The search for cycles as the program makes it, with the stack of the walk and the set of what is on
it kept apart. It never misses on its stack what that set says is there, and never goes deeper than
there are nodes; so it finds what the plain walk finds. What it reports are loops of needs, and it
reports one whenever there is one.
-/

namespace Fghj

/-! ## The search -/

/-- The search for cycles on its way. -/
structure CycleSearch where
  done : Finset String := ∅
  stack : List String := []
  onStack : Finset String := ∅
  cycles : List (List String) := []

/-- What would break the search off. -/
inductive SearchFault where
  /-- A node said to be on the stack is not there. -/
  | notOnStack
  /-- The walk goes deeper than allowed. -/
  | tooDeep
  deriving DecidableEq

namespace CycleSearch

/-- Look at one node that is needed: on the stack it closes a cycle, and unless it is done it is
walked. -/
def look (walk : CycleSearch → String → Except SearchFault CycleSearch) (search : CycleSearch)
    (next : String) : Except SearchFault CycleSearch :=
  if next ∈ search.onStack then
    match search.stack.idxOf? next with
    | none => .error .notOnStack
    | some place => .ok { search with cycles := search.cycles ++ [search.stack.drop place] }
  else if next ∈ search.done then .ok search
  else walk search next

/-- Walk depth first from a node. -/
def walk (adjacency : String → List String) :
    Nat → CycleSearch → String → Except SearchFault CycleSearch
  | 0, _, _ => .error .tooDeep
  | fuel + 1, search, id =>
      let pushed :=
        { search with stack := search.stack ++ [id], onStack := insert id search.onStack }
      match (adjacency id).foldlM (look (walk adjacency fuel)) pushed with
      | .error fault => .error fault
      | .ok walked =>
          .ok
            { walked with
              stack := walked.stack.dropLast
              onStack := walked.onStack.erase id
              done := insert id walked.done }

/-- Walk from every node that needs another, unless it is done. -/
def searchCycles (edges : List Edge) : Except SearchFault CycleSearch :=
  (intoIter ((edges.filter Edge.neededToStart).map Edge.from)).foldlM (fun search root =>
    if root ∈ search.done then .ok search
    else walk (adjacency edges) (edges.map Edge.from ++ edges.map Edge.to).length search root) {}

/-- The search stands where the plain walk stands. -/
structure Tracks (search : CycleSearch) (stack : List String)
    (seen : List String × List (List String)) : Prop where
  stack_eq : search.stack = stack
  onStack : ∀ id, id ∈ search.onStack ↔ id ∈ stack
  done : ∀ id, id ∈ search.done ↔ id ∈ seen.1
  cycles_eq : search.cycles = seen.2

/-- Looking at one node after another, the search keeps up with the plain walk. -/
theorem foldlM_look {walk : CycleSearch → String → Except SearchFault CycleSearch}
    {descend : List String × List (List String) → String → List String × List (List String)}
    {stack : List String} (nodes : List String)
    (walks : ∀ id ∈ nodes, id ∉ stack → ∀ search seen, Tracks search stack seen →
      ∃ after, walk search id = .ok after ∧ Tracks after stack (descend seen id))
    {search : CycleSearch} {seen : List String × List (List String)}
    (tracks : Tracks search stack seen) :
    ∃ after, nodes.foldlM (look walk) search = .ok after ∧
      Tracks after stack (nodes.foldl (Digraph.enter descend stack) seen) := by
  induction nodes generalizing search seen with
  | nil => exact ⟨search, rfl, tracks⟩
  | cons id nodes ih =>
      have step : ∃ after, look walk search id = .ok after ∧
          Tracks after stack (Digraph.enter descend stack seen id) := by
        by_cases on : id ∈ stack
        · have place : search.stack.idxOf? id = some (stack.idxOf id) := by
            rw [tracks.stack_eq]
            exact List.findIdx?_eq_some_iff_findIdx_eq.mpr ⟨List.idxOf_lt_length_iff.mpr on, rfl⟩
          refine ⟨{ search with cycles := search.cycles ++ [search.stack.drop (stack.idxOf id)] },
            ?_, ?_⟩
          · rw [look, if_pos ((tracks.onStack id).mpr on), place]
          · rw [Digraph.enter, if_pos on]
            exact ⟨tracks.stack_eq, tracks.onStack, tracks.done, by
              rw [tracks.stack_eq, tracks.cycles_eq]⟩
        · have off : id ∉ search.onStack := fun member => on ((tracks.onStack id).mp member)
          rw [look, if_neg off, Digraph.enter, if_neg on]
          by_cases known : id ∈ seen.1
          · rw [if_pos ((tracks.done id).mpr known), if_pos known]
            exact ⟨search, rfl, tracks⟩
          · rw [if_neg fun member => known ((tracks.done id).mp member), if_neg known]
            exact walks id List.mem_cons_self on search seen tracks
      obtain ⟨between, looked, kept⟩ := step
      obtain ⟨after, rest, final⟩ := ih
        (fun id member => walks id (List.mem_cons_of_mem _ member)) kept
      refine ⟨after, ?_, final⟩
      rw [List.foldlM_cons, looked]
      exact rest

/-- The search keeps up with the plain walk, and neither misses on its stack nor goes too deep. -/
theorem walk_tracks {next : String → List String} {bound : List String}
    (known : ∀ id, next id ⊆ bound) {fuel : Nat} {stack : List String} {id : String}
    (simple : (stack ++ [id]).Nodup) (inside : stack ++ [id] ⊆ bound)
    (enough : bound.length ≤ fuel + stack.length) {search : CycleSearch}
    {seen : List String × List (List String)} (tracks : Tracks search stack seen) :
    ∃ after, walk next fuel search id = .ok after ∧
      Tracks after stack (Digraph.walk next fuel stack seen id) := by
  induction fuel generalizing stack id search seen with
  | zero =>
      have fits := (List.subperm_of_subset simple inside).length_le
      rw [List.length_append, List.length_singleton] at fits
      omega
  | succ fuel ih =>
      have fresh : id ∉ stack := by
        intro member
        exact (List.nodup_append.mp simple).2.2 id member id (List.mem_singleton_self id) rfl
      have pushed : Tracks
          { search with stack := search.stack ++ [id], onStack := insert id search.onStack }
          (stack ++ [id]) seen := by
        refine ⟨by rw [tracks.stack_eq], fun other => ?_, tracks.done, tracks.cycles_eq⟩
        rw [Finset.mem_insert, tracks.onStack, List.mem_append, List.mem_singleton, or_comm]
      have walks : ∀ other ∈ next id, other ∉ stack ++ [id] → ∀ search seen,
          Tracks search (stack ++ [id]) seen → ∃ after, walk next fuel search other = .ok after ∧
            Tracks after (stack ++ [id]) (Digraph.walk next fuel (stack ++ [id]) seen other) := by
        intro other needed off search seen tracks
        apply ih _ _ _ tracks
        · exact List.Nodup.append simple (List.nodup_singleton other) (by simpa using off)
        · exact List.append_subset.mpr
            ⟨inside, List.cons_subset.mpr ⟨known id needed, List.nil_subset _⟩⟩
        · rw [List.length_append, List.length_singleton]
          omega
      obtain ⟨walked, looked, kept⟩ := foldlM_look (next id) walks pushed
      rw [walk, looked]
      refine ⟨_, rfl, ?_, fun other => ?_, fun other => ?_, kept.cycles_eq⟩
      · rw [kept.stack_eq, List.dropLast_concat]
      · rw [Finset.mem_erase, kept.onStack, List.mem_append, List.mem_singleton]
        constructor
        · rintro ⟨different, here | same⟩
          · exact here
          · exact (different same).elim
        · intro here
          exact ⟨fun same => fresh (same ▸ here), .inl here⟩
      · rw [Finset.mem_insert, kept.done, Digraph.walk, List.mem_cons]

/-- The search ends, and with the cycles of the plain walk. -/
theorem searchCycles_eq (edges : List Edge) :
    ∃ search, searchCycles edges = .ok search ∧ search.cycles = Fghj.cycles edges := by
  have every : ∀ (roots : List String), roots ⊆ edges.map Edge.from ++ edges.map Edge.to →
      ∀ (search : CycleSearch) (seen : List String × List (List String)),
      Tracks search [] seen → ∃ after, roots.foldlM (fun search root =>
        if root ∈ search.done then .ok search
        else walk (adjacency edges) (edges.map Edge.from ++ edges.map Edge.to).length search root)
        search = .ok after ∧
        Tracks after [] (roots.foldl (Digraph.enter (Digraph.walk (adjacency edges)
          (edges.map Edge.from ++ edges.map Edge.to).length []) []) seen) := by
    intro roots
    induction roots with
    | nil => exact fun _ search _ tracks => ⟨search, rfl, tracks⟩
    | cons root roots ih =>
        intro rooted search seen tracks
        obtain ⟨here, rest⟩ := List.cons_subset.mp rooted
        rw [List.foldlM_cons, List.foldl_cons, Digraph.enter, if_neg List.not_mem_nil]
        by_cases known : root ∈ seen.1
        · rw [if_pos ((tracks.done root).mpr known), if_pos known]
          exact ih rest search seen tracks
        · rw [if_neg fun member => known ((tracks.done root).mp member), if_neg known]
          obtain ⟨after, walked, kept⟩ : ∃ after, walk (adjacency edges)
              (edges.map Edge.from ++ edges.map Edge.to).length search root = .ok after ∧
              Tracks after [] (Digraph.walk (adjacency edges)
                (edges.map Edge.from ++ edges.map Edge.to).length [] seen root) := by
            apply walk_tracks (adjacency_subset edges) _ _ _ tracks
            · simp
            · simpa using here
            · simp
          rw [walked]
          exact ih rest after _ kept
  obtain ⟨after, searched, tracks⟩ := every _ (roots_subset edges) {} ([], [])
    ⟨rfl, fun id => by simp, fun id => by simp, rfl⟩
  exact ⟨after, searched, tracks.cycles_eq⟩

end CycleSearch

/-! ## What is reported -/

/-- The warning about one cycle. -/
def cycleWarning (cycle : List String) : Warning :=
  .blocking ("dependency cycle: " ++ " -> ".intercalate cycle ++ " -> " ++ cycle.headD "" ++
    ". Each waits for the next to start, so none of them can")

theorem checkCycles_eq (edges : List Edge) :
    checkCycles edges = (distinctCycles [] (cycles edges)).map cycleWarning := rfl

theorem mem_of_mem_distinctCycles {seen found : List (List String)} {cycle : List String}
    (listed : cycle ∈ distinctCycles seen found) : cycle ∈ found := by
  induction found generalizing seen with
  | nil => cases listed
  | cons first found ih =>
      rw [distinctCycles] at listed
      split at listed
      · exact List.mem_cons_of_mem _ (ih listed)
      · rcases List.mem_cons.mp listed with rfl | later
        · exact List.mem_cons_self
        · exact List.mem_cons_of_mem _ (ih later)

/-- Every cycle the walk closes is a loop of needs. -/
theorem loop_of_mem_cycles {edges : List Edge} {cycle : List String}
    (listed : cycle ∈ cycles edges) : Digraph.Loop (Needs edges) cycle := by
  apply (Digraph.loop_of_mem_loops (adjacency edges) listed).mono
  intro id dep member
  rw [adjacency, mem_intoIter] at member
  exact mem_requirements.mp member

/-- The search for cycles reports one exactly when there is one, and nothing else. -/
structure DetectsCycles (edges : List Edge) : Prop where
  ends : ∃ search, CycleSearch.searchCycles edges = .ok search ∧ checkCycles edges =
    (distinctCycles [] search.cycles).map cycleWarning
  complete : checkCycles edges ≠ [] ↔ ∃ id, Relation.TransGen (Needs edges) id id
  sound : ∀ warning ∈ checkCycles edges, ∃ cycle, warning = cycleWarning cycle ∧
    Digraph.Loop (Needs edges) cycle

theorem detectsCycles (edges : List Edge) : DetectsCycles edges := by
  have sound : ∀ warning ∈ checkCycles edges, ∃ cycle, warning = cycleWarning cycle ∧
      Digraph.Loop (Needs edges) cycle := by
    intro warning listed
    rw [checkCycles_eq] at listed
    obtain ⟨cycle, member, rfl⟩ := List.mem_map.mp listed
    exact ⟨cycle, rfl, loop_of_mem_cycles (mem_of_mem_distinctCycles member)⟩
  refine ⟨?_, ?_, sound⟩
  · obtain ⟨search, searched, same⟩ := CycleSearch.searchCycles_eq edges
    exact ⟨search, searched, by rw [checkCycles_eq, same]⟩
  · constructor
    · intro reported
      obtain ⟨warning, listed⟩ := List.exists_mem_of_ne_nil _ reported
      obtain ⟨cycle, -, loop⟩ := sound warning listed
      exact loop.transGen
    · rintro ⟨id, loop⟩ none
      exact (acyclic_of_checkCycles none).irrefl loop

namespace Orchestrator

/-- Ordering the nodes comes to a round that places none of them. -/
def takesNoProgress (ids : List String) (edges : List Edge) : Bool :=
  Digraph.stalls (depsAmong ids edges) ids.length [] (sortUnstable ids)

theorem takesNoProgress_eq_false {edges : List Edge} (acyclic : Acyclic edges)
    (ids : List String) : takesNoProgress ids edges = false := by
  apply Digraph.stalls_eq_false
  · apply Subrelation.wf _ acyclic
    intro dep id member
    exact (mem_depsAmong.mp member).1
  · intro id _ dep member
    simpa using (mem_depsAmong.mp member).2.2
  · exact Digraph.Sorted.nil _

end Orchestrator

theorem Graph.blockingWarnings_of_ok {graph : Graph} (passes : graph.refuseIfBlocked = .ok ()) :
    graph.blockingWarnings = [] := by
  unfold Graph.refuseIfBlocked at passes
  simp only at passes
  split at passes
  · rename_i none
    exact List.isEmpty_iff.mp none
  · cases passes

/-- Cycle detection is sound and complete for every list of edges, so any nodes of a resolved graph
that is not refused are ordered without giving up, each after what it needs of them. -/
theorem cycle_detection_exact :
    (∀ edges, DetectsCycles edges) ∧
    ∀ (toLowercase : String → String) (workspaceName : String)
      (scanned : OrderedMap String ComponentConfig)
      (facts : OrderedMap String RepoFacts),
      (Resolver.resolveUniverse toLowercase workspaceName scanned facts).refuseIfBlocked = .ok () →
      ∀ ids : List String,
        let edges := (Resolver.resolveUniverse toLowercase workspaceName scanned facts).edges
        Orchestrator.takesNoProgress ids edges = false ∧
        (Orchestrator.topologicalStartOrder ids edges).Perm ids ∧
        ∀ id ∈ ids, ∀ dep ∈ ids, Needs edges id dep →
          Orchestrator.Before (Orchestrator.topologicalStartOrder ids edges) dep id := by
  refine ⟨detectsCycles, ?_⟩
  intro toLowercase workspaceName scanned facts passes ids
  have startable := Resolver.resolveUniverse_startable (Graph.blockingWarnings_of_ok passes)
  refine ⟨Orchestrator.takesNoProgress_eq_false startable.acyclic ids,
    Orchestrator.topologicalStartOrder_perm ids _, ?_⟩
  intro id inside dep among needs
  exact Orchestrator.before_of_needs startable.acyclic needs inside among

/-- The nodes of the shop: the migration comes after the database, and the service after both. -/
theorem cycle_detection_exact_shop :
    (Resolver.resolveUniverse String.toLower "ws" (Resolver.shopFiles []) ∅).refuseIfBlocked =
      .ok () ∧ Orchestrator.Before (Orchestrator.topologicalStartOrder ["api.shop", "db.shop"]
        (Resolver.resolveUniverse String.toLower "ws" (Resolver.shopFiles []) ∅).edges)
        "db.shop" "api.shop" := by
  have passes : (Resolver.resolveUniverse String.toLower "ws"
      (Resolver.shopFiles []) ∅).refuseIfBlocked = .ok () := by
    decide
  refine ⟨passes, ?_⟩
  apply (cycle_detection_exact.2 String.toLower "ws" (Resolver.shopFiles []) ∅ passes
    ["api.shop", "db.shop"]).2.2 "api.shop" (by decide) "db.shop" (by decide)
  decide

end Fghj
