import Fghj.Universe

/-!
# What an implied edge says

An implied edge to a migration stands beside a written edge, or an edge of a task, to the store that
is migrated, and a store has one migration. So the graph can be drawn without its implied edges.
-/

namespace Fghj

open Std

namespace Resolver

/-- What the resolver sees to about migrations. -/
structure MigrationsImplied (graph : Graph) : Prop where
  /-- An implied edge to a migration has another edge with the same start to the store. -/
  cause : ∀ edge ∈ graph.edges, edge.implied → ∃ other ∈ graph.edges, other.implied = false ∧
    other.from = edge.from ∧ ∃ node ∈ graph.nodes, node.id = edge.to ∧ node.migrates = some other.to
  /-- A store has one migration. -/
  one : ∀ node ∈ graph.nodes, ∀ other ∈ graph.nodes, ∀ store, node.migrates = some store →
    other.migrates = some store → node.id = other.id

variable {workspaceName : String}

namespace ResolveCtx

variable {ctx : ResolveCtx}

/-- Every edge so far is written in some file. -/
def Unimplied (ctx : ResolveCtx) : Prop := ∀ edge ∈ ctx.edges, edge.implied = false

theorem Unimplied.push (unimplied : ctx.Unimplied) {edge : Edge} (plain : edge.implied = false) :
    Unimplied { ctx with edges := ctx.edges ++ [edge] } := by
  intro other listed
  rcases List.mem_append.mp listed with old | new
  · exact unimplied other old
  · rw [List.mem_singleton.mp new]
    exact plain

theorem Unimplied.addForeign (unimplied : ctx.Unimplied) (localPath source key : String)
    (target : Target) (entry : DependsOnEntry) :
    (ctx.addForeign localPath source key target entry).Unimplied := by
  simp only [ResolveCtx.addForeign]
  split
  · exact unimplied
  have checked : (if entry.required then ctx
      else ctx.warn (checkRuntimeCondition source key entry.condition)).Unimplied := by
    split <;> exact unimplied
  split
  · exact checked
  · refine List.foldlRecOn _ _ checked fun ctx unimplied member _ => ?_
    rw [ResolveCtx.addMember]
    split
    · split <;> exact unimplied
    · exact unimplied.push rfl

theorem Unimplied.addDependency (unimplied : ctx.Unimplied) (repo : String × ComponentConfig)
    (source : String) (declared : String × DependsOnEntry) :
    (addDependency repo source ctx declared).Unimplied := by
  simp only [ResolveCtx.addDependency]
  split
  · split
    · split
      · exact unimplied
      · exact @Unimplied.push (ctx.warn _) unimplied _ rfl
    split
    · exact unimplied
    split
    · exact unimplied.addForeign _ _ _ _ _
    · exact unimplied
  · split
    · exact unimplied.addForeign _ _ _ _ _
    · exact unimplied

theorem Unimplied.addStoreEdge (unimplied : ctx.Unimplied) (task store : String) :
    (addStoreEdge task ctx store).Unimplied := by
  rw [ResolveCtx.addStoreEdge]
  split
  · exact unimplied
  split
  · exact unimplied
  split
  · exact unimplied
  · exact unimplied.push rfl

theorem Unimplied.storeWaits (unimplied : ctx.Unimplied) : ctx.storeWaits.1.Unimplied := by
  refine List.foldlRecOn (motive := fun acc : ResolveCtx × OrderedMap String String =>
    acc.1.Unimplied) _ _ unimplied fun acc kept task _ => ?_
  have stores : ((storesOf task).foldl (ResolveCtx.addStoreEdge task.id) acc.1).Unimplied :=
    List.foldlRecOn _ _ kept fun ctx kept store _ => kept.addStoreEdge task.id store
  rw [addStoreTask]
  split
  · exact stores
  split <;> exact stores

theorem unimplied_declaredCtx (toLowercase : String → String)
    (scanned : OrderedMap String ComponentConfig) (facts : OrderedMap String RepoFacts) :
    (declaredCtx toLowercase scanned facts).Unimplied := by
  simp only [declaredCtx]
  refine List.foldlRecOn (motive := Unimplied) _ _ ?_ fun ctx unimplied repo _ =>
    List.foldlRecOn _ _ unimplied fun ctx unimplied entry _ =>
      List.foldlRecOn _ _ unimplied fun ctx unimplied declared _ =>
        unimplied.addDependency repo _ declared
  refine List.foldlRecOn (motive := Unimplied) _ _ ?_ fun ctx unimplied repo _ =>
    List.foldlRecOn _ _ unimplied fun ctx unimplied entry _ => ?_
  · refine List.foldlRecOn (motive := Unimplied) _ _ ?_ fun ctx unimplied repo _ => ?_
    · refine List.foldlRecOn (motive := Unimplied) _ _ (fun edge listed => by cases listed)
        fun ctx unimplied repo _ => ?_
      have none : ∀ ctx : ResolveCtx, ctx.Unimplied →
          (repo.2.services.toList.foldl (addServiceNode repo.1) ctx).Unimplied :=
        fun ctx unimplied => List.foldlRecOn _ _ unimplied fun _ unimplied _ _ => unimplied
      rw [addRepoNodes]
      split <;> exact none _ unimplied
    · refine List.foldlRecOn (motive := fun acc : ResolveCtx × OrderedMap String String =>
        acc.1.Unimplied) _ _ unimplied fun acc kept entry _ => ?_
      simp only [addInclude]
      split <;> split <;> exact kept
  · simp only [markTask]
    split <;> exact unimplied

/-- An edge of the graph is one of the resolution with its flows. -/
theorem resolveFlows_edge {edge : Edge} (listed : edge ∈ ctx.resolveFlows.1.edges) :
    ∃ plain ∈ ctx.edges, edge = { plain with flows := edge.flows } := by
  obtain ⟨plain, member, rfl⟩ := List.mem_map.mp listed
  exact ⟨plain, member, rfl⟩

theorem exists_resolveFlows_edge {plain : Edge} (listed : plain ∈ ctx.edges) :
    ∃ edge ∈ ctx.resolveFlows.1.edges, edge.implied = plain.implied ∧ edge.from = plain.from ∧
      edge.to = plain.to :=
  ⟨_, List.mem_map_of_mem listed, rfl, rfl, rfl⟩

/-- What migrates a store in the resolution does so in the graph. -/
theorem MigratesStore.resolved (sound : Sound ctx) {id store : String}
    (migrates : ctx.MigratesStore id store) :
    ∃ node ∈ (ctx.resolved workspaceName).nodes, node.id = id ∧ node.migrates = some store := by
  obtain ⟨task, filed, named⟩ := migrates
  exact ⟨_, (mem_resolved_nodes sound).mpr ⟨id, task, filed, rfl⟩,
    (sound.node_sound id task filed).named, named⟩

theorem migratesStore_of_resolved (sound : Sound ctx) {node : Node}
    (member : node ∈ (ctx.resolved workspaceName).nodes) {store : String}
    (migrates : node.migrates = some store) :
    ∃ task, ctx.nodes[node.id]? = some task ∧ task.id = node.id ∧ task.migrates = some store := by
  obtain ⟨id, held, filed, rfl⟩ := (mem_resolved_nodes sound).mp member
  have named : (ctx.addStoreEdges.inFlows id held).id = id := (sound.node_sound id held filed).named
  exact ⟨held, named.symm ▸ filed, rfl, migrates⟩

/-- The implied edges of a graph that nothing refuses are implied by others, and no store has two
migrations. -/
theorem Sound.migrationsImplied (sound : Sound ctx) (unimplied : ctx.Unimplied)
    (free : ctx.addStoreEdges.Unblocked) : MigrationsImplied (ctx.resolved workspaceName) := by
  constructor
  · intro edge listed implied
    obtain ⟨plain, member, same⟩ := resolveFlows_edge listed
    rw [same] at implied
    rw [addStoreEdges_eq] at member
    rcases List.mem_append.mp member with old | new
    · rw [unimplied.storeWaits plain old] at implied
      cases implied
    · obtain ⟨-, -, -, cause, kept, source, recorded⟩ :=
        linked_impliedEdges.mp ⟨plain, new, rfl, rfl⟩
      have waits : cause ∈ ctx.addStoreEdges.edges := by
        rw [addStoreEdges_eq]
        exact List.mem_append_left _ (List.mem_filter.mp kept).1
      obtain ⟨other, known, sameImplied, sameFrom, sameTo⟩ := exists_resolveFlows_edge waits
      obtain ⟨node, filed, named, migrates⟩ := (storeWaits_migrations sound recorded).resolved sound
      refine ⟨other, known, ?_, ?_, node, filed, ?_, ?_⟩
      · rw [sameImplied]
        exact unimplied.storeWaits cause (List.mem_filter.mp kept).1
      · rw [sameFrom, source, same]
      · rw [named, same]
      · rw [migrates, sameTo]
  · intro node member other listed store migrates also
    obtain ⟨task, filed, named, migratesStore⟩ := migratesStore_of_resolved sound member migrates
    obtain ⟨second, found, secondNamed, alsoMigrates⟩ := migratesStore_of_resolved sound listed also
    rw [← named] at filed ⊢
    rw [← secondNamed] at found ⊢
    have served := (storeWaits_served sound filed (by simp [storesOf, migratesStore]) free).2
      store migratesStore
    have servedAlso := (storeWaits_served sound found (by simp [storesOf, alsoMigrates]) free).2
      store alsoMigrates
    exact Option.some.inj (served.symm.trans servedAlso)

end ResolveCtx

theorem migrationsImplied_resolveUniverse {toLowercase : String → String}
    {scanned : OrderedMap String ComponentConfig} {facts : OrderedMap String RepoFacts}
    (unrefused : (resolveUniverse toLowercase workspaceName scanned facts).blockingWarnings = []) :
    MigrationsImplied (resolveUniverse toLowercase workspaceName scanned facts) :=
  (declaredCtx_spec toLowercase scanned facts).2.migrationsImplied
    (ResolveCtx.unimplied_declaredCtx toLowercase scanned facts)
    (ResolveCtx.resolved_free unrefused).1

end Resolver
end Fghj
