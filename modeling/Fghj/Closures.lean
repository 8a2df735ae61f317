import Fghj.StartOrder

/-!
# The closures

What a node cannot start without, what cannot start without it, what a set of nodes needs, and a set
with its migrations are each computed by a loop of its own. They are the sets of the nodes that
paths of needs lead to, and agree with one another.
-/

namespace Fghj
namespace Orchestrator

/-- The first node leads to the second by one need or more. -/
abbrev Leads (edges : List Edge) : String → String → Prop := Relation.TransGen (Needs edges)

/-- Nothing that a node of the set needs is outside of it. -/
def ClosedUnderNeeds (edges : List Edge) (set : List String) : Prop :=
  ∀ id ∈ set, ∀ dep, Needs edges id dep → dep ∈ set

/-- Every store of the set has its migrations in it. -/
def ClosedUnderMigrations (nodes : List Node) (set : List String) : Prop :=
  ∀ node ∈ nodes, ∀ store ∈ set, node.migrates = some store → node.id ∈ set

/-- The search for a closure with its fuel in sight. -/
def closureWithin (id : String) (edges : List Edge) (here next : Edge → String) :
    Option (List String) :=
  (Digraph.searchWithin (closureStep id edges here next) (1 + edges.length) [] [id]).map
    fun found => topologicalStartOrder (intoIter found) edges

/-- What the closures of an edge list are. -/
structure Closures (edges : List Edge) : Prop where
  requirements : ∀ id other, other ∈ requirementsOf id edges ↔ other ≠ id ∧ Leads edges id other
  once : ∀ id, (requirementsOf id edges).Nodup
  /-- Whatever lists these nodes once each is put in the same order. -/
  ordered : ∀ id set, set.Nodup → (∀ other, other ∈ set ↔ other ≠ id ∧ Leads edges id other) →
    requirementsOf id edges = topologicalStartOrder set edges
  required : ∀ id other, other ∈ requirementsOf id edges ↔
    other ∈ requiredClosure edges [id] ∧ other ≠ id
  dependents : ∀ id other, id ≠ other →
    (other ∈ dependentsOf id edges ↔ id ∈ requirementsOf other edges)
  waited : ∀ ids dep, dep ∈ waitedOn ids edges ↔ dep ∈ ids ∧ ∃ id ∈ ids, Needs edges id dep
  ends : ∀ id, closureWithin id edges Edge.from Edge.to = some (requirementsOf id edges) ∧
    closureWithin id edges Edge.to Edge.from = some (dependentsOf id edges)
  requiredEnds : ∀ seeds, Digraph.searchWithin (Fghj.requirements edges)
    (seeds.length + edges.length) seeds seeds.reverse = some (requiredClosure edges seeds)

/-- What a list of nodes is with its migrations. -/
def Appended (graph : Graph) (ids : List String) : Prop :=
  ∃ added, graph.withMigrations ids = ids ++ added ∧ added.Nodup ∧
    ∀ id, id ∈ added ↔ id ∈ addMigrations graph.nodes graph.edges graph.nodes.length ids ∧ id ∉ ids

/-- What a set of nodes is with its migrations, if nothing it needs is outside of it. -/
structure LeastMigrated (nodes : List Node) (edges : List Edge) (set : List String) : Prop where
  ends : Saturation.saturateWithin (missingMigrations nodes) (withRequired edges) nodes.length set =
    some (addMigrations nodes edges nodes.length set)
  kept : set ⊆ addMigrations nodes edges nodes.length set
  needs : ClosedUnderNeeds edges (addMigrations nodes edges nodes.length set)
  migrations : ClosedUnderMigrations nodes (addMigrations nodes edges nodes.length set)
  least : ∀ larger, set ⊆ larger → ClosedUnderNeeds edges larger →
    ClosedUnderMigrations nodes larger → addMigrations nodes edges nodes.length set ⊆ larger

section Closures

variable {edges : List Edge} {id other : String} {here next : Edge → String} {nodes : List Node}
  {set ids : List String}

theorem closureWithin_eq_some :
    closureWithin id edges here next = some (closure id edges here next) := by
  rw [closureWithin, Digraph.searchWithin_eq_some _ (fun _ => closureStep_subset) closure_enough]
  rfl

theorem ClosedUnderNeeds.of_leads (closed : ClosedUnderNeeds edges set) (inside : id ∈ set)
    (path : Leads edges id other) : other ∈ set := by
  induction path with
  | single needs => exact closed id inside _ needs
  | tail _ needs ih => exact closed _ ih _ needs

theorem mem_requiredClosure_singleton :
    other ∈ requiredClosure edges [id] ↔ other = id ∨ Leads edges id other := by
  obtain ⟨kept, closed, origin⟩ := requiredClosure_spec edges [id]
  constructor
  · intro member
    rcases origin other member with seed | ⟨start, seed, path⟩
    · exact .inl (List.mem_singleton.mp seed)
    · obtain rfl := List.mem_singleton.mp seed
      exact .inr path
  · rintro (rfl | path)
    · exact kept List.mem_cons_self
    · exact ClosedUnderNeeds.of_leads closed (kept List.mem_cons_self) path

theorem mem_waitedOn :
    other ∈ waitedOn ids edges ↔ other ∈ ids ∧ ∃ id ∈ ids, Needs edges id other := by
  simp only [waitedOn, List.mem_map, List.mem_filter, Bool.and_eq_true, decide_eq_true_eq]
  constructor
  · rintro ⟨edge, ⟨⟨listed, needed⟩, inside, among⟩, rfl⟩
    exact ⟨among, edge.from, inside, edge, listed, needed, rfl, rfl⟩
  · rintro ⟨among, id, inside, edge, listed, needed, rfl, rfl⟩
    exact ⟨edge, ⟨⟨listed, needed⟩, inside, among⟩, rfl⟩

theorem closures (edges : List Edge) : Closures edges where
  requirements := fun _ _ => mem_requirementsOf
  once := fun _ => closure_nodup
  ordered := by
    intro id set distinct exactly
    have permuted : (requirementsOf id edges).Perm set :=
      (List.perm_ext_iff_of_nodup closure_nodup distinct).mpr fun other =>
        mem_requirementsOf.trans (exactly other).symm
    refine (stableOrder set edges).stable _ edges ?_ fun _ _ _ _ => Iff.rfl
    exact (topologicalStartOrder_perm _ edges).symm.trans permuted
  required := by
    intro id other
    rw [mem_requirementsOf, mem_requiredClosure_singleton, and_comm]
    constructor
    · rintro ⟨path, away⟩
      exact ⟨.inr path, away⟩
    · rintro ⟨found, away⟩
      exact ⟨found.resolve_left away, away⟩
  dependents := by
    intro id other different
    rw [mem_dependentsOf, mem_requirementsOf]
    exact and_congr_left fun _ => iff_of_true different.symm different
  waited := fun _ _ => mem_waitedOn
  ends := fun _ => ⟨closureWithin_eq_some, closureWithin_eq_some⟩
  requiredEnds := requiredClosure_within edges

/-- Whatever holds a set and is closed holds the set with its migrations. -/
theorem addMigrations_least {larger : List String} (inside : set ⊆ larger)
    (needs : ClosedUnderNeeds edges larger) (migrations : ClosedUnderMigrations nodes larger)
    (fuel : Nat) : addMigrations nodes edges fuel set ⊆ larger := by
  rw [addMigrations_eq_saturate]
  refine Saturation.saturate_invariant _ _ (· ⊆ larger) (fun later below _ id member => ?_) fuel
    inside
  rcases mem_withRequired.mp member with old | new
  · exact below old
  · have missing : missingMigrations nodes later ⊆ larger := by
      intro id lacked
      obtain ⟨node, listed, store, stored, migrates, rfl, -⟩ := mem_missingMigrations.mp lacked
      exact migrations node listed store (below stored) migrates
    rcases (requiredClosure_spec edges _).2.2 id new with seed | ⟨start, seed, path⟩
    · exact missing seed
    · exact needs.of_leads (missing seed) path

theorem leastMigrated (closed : ClosedUnderNeeds edges set) : LeastMigrated nodes edges set := by
  obtain ⟨kept, migrated, needs, -⟩ := addMigrations_spec nodes edges (length_missing_ids nodes set)
  exact ⟨addMigrations_within nodes edges set, kept, needs closed, migrated,
    fun larger inside needs migrations => addMigrations_least inside needs migrations _⟩

end Closures

section Graph

variable {graph : Graph}

/-- A list of nodes gets the migrations it lacks at its end, once each. -/
theorem appended (graph : Graph) (ids : List String) : Appended graph ids := by
  refine ⟨_, rfl, (intoIter_nodup _).filter _, fun id => ?_⟩
  rw [List.mem_filter, mem_intoIter, decide_eq_true_eq]

theorem restartTargets_nodup (acyclic : ∀ id, ¬Leads graph.edges id id) (id : String)
    (prior : EnvState) : (restartTargets graph id prior).Nodup := by
  have apart : ∀ other ∈ requirementsOf id graph.edges, ∀ dependent ∈ dependentsOf id graph.edges,
      other ≠ dependent := by
    rintro other required _ depends rfl
    exact acyclic id ((mem_requirementsOf.mp required).2.trans (mem_dependentsOf.mp depends).2)
  rw [restartTargets, List.nodup_append, List.nodup_append]
  refine ⟨⟨closure_nodup, List.nodup_singleton id, ?_⟩, closure_nodup.filter _, ?_⟩
  · rintro other required _ own rfl
    exact (mem_requirementsOf.mp required).1 (List.mem_singleton.mp own)
  · rintro other target _ kept rfl
    have depends := (List.mem_filter.mp kept).1
    rcases List.mem_append.mp target with required | own
    · exact apart other required other depends rfl
    · exact (mem_dependentsOf.mp depends).1 (List.mem_singleton.mp own)

end Graph

/-- The closures are the sets of nodes that needs lead to, a set with its migrations is the least
closed one, and no loop fails to end. -/
theorem closures_exact :
    (∀ edges, Closures edges) ∧
      (∀ nodes edges set, ClosedUnderNeeds edges set → LeastMigrated nodes edges set) ∧
      (∀ graph ids, Appended graph ids) ∧
      ∀ graph : Graph, (∀ id, ¬Leads graph.edges id id) → ∀ id prior,
        (restartTargets graph id prior).Nodup :=
  ⟨closures, fun _ _ _ => leastMigrated, appended, fun _ => restartTargets_nodup⟩

/-- The shop with a migration of its database. -/
def migratedShop : Graph :=
  { shop with
    nodes := shop.nodes ++ [{ id := "migrate", kind := .task, migrates := some "db" }]
    edges := shop.edges ++ [{ «from» := "migrate", «to» := "db", required := true }] }

theorem closures_exact_shop :
    addMigrations migratedShop.nodes migratedShop.edges 3 ["db"] = ["db", "migrate"] ∧
      Closures migratedShop.edges ∧
      LeastMigrated migratedShop.nodes migratedShop.edges ["db"] ∧
      Appended migratedShop ["api", "db"] ∧
      (restartTargets migratedShop "db" shopRunning).Nodup := by
  have acyclic : Acyclic migratedShop.edges := acyclic_of_checkCycles (by decide)
  refine ⟨by decide, closures_exact.1 _, closures_exact.2.1 _ _ _ (fun id inside dep needs => ?_),
    closures_exact.2.2.1 _ _, closures_exact.2.2.2 _ (fun id => acyclic.irrefl) _ _⟩
  obtain rfl := List.mem_singleton.mp inside
  obtain ⟨edge, listed, -, source, -⟩ := needs
  simp only [migratedShop, shop, List.cons_append, List.nil_append, List.mem_cons,
    List.not_mem_nil, or_false] at listed
  rcases listed with rfl | rfl <;> exact absurd source (by decide)

end Orchestrator
end Fghj
