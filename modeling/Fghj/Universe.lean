import Fghj.Remigration
import Fghj.StoreEdges

/-!
# Graphs that may be started

A graph without a blocking warning keeps what the orchestrator relies on: unique ids, edges between
its nodes, no cycle of needs, stores that stay up, and flows closed under needs and migrations.
Whether it also starts a store before its migration, and that before whatever waits on the store,
depends on the files: an edge that is not needed to start keeps the needed one from being added.
-/

namespace Fghj
namespace Resolver

open Std

namespace ResolveCtx

variable {ctx : ResolveCtx}

/-! ## Start sets -/

/-- Holding a node, the set holds what it needs; holding a store, it holds its migration. -/
structure Closed (ctx : ResolveCtx) (set : List String) : Prop where
  needs : ∀ id ∈ set, ∀ dep, Needs ctx.edges id dep → dep ∈ set
  migrations : ∀ node ∈ OrderedMap.listed ctx.nodes, ∀ store ∈ set, node.migrates = some store →
    node.id ∈ set

/-- All nodes, in any order. -/
def Lists (ctx : ResolveCtx) (nodes : List Node) : Prop :=
  ∀ node, node ∈ nodes ↔ node ∈ OrderedMap.listed ctx.nodes

variable {nodes : List Node}

theorem closed_addMigrations (lists : ctx.Lists nodes) {set : List String}
    (closed : ∀ id ∈ set, ∀ dep, Needs ctx.edges id dep → dep ∈ set) :
    ctx.Closed (addMigrations nodes ctx.edges nodes.length set) := by
  have enough := Digraph.length_missing_le (nodes.map Node.id) set
  rw [List.length_map] at enough
  obtain ⟨-, migrations, needs, -⟩ := addMigrations_spec nodes ctx.edges enough
  exact ⟨needs closed, fun node listed => migrations node ((lists node).mpr listed)⟩

theorem Closed.addPulledSeeds (lists : ctx.Lists nodes) {start : List String}
    (closed : ctx.Closed start) (fuel : Nat) :
    ctx.Closed (ctx.addPulledSeeds nodes fuel start) := by
  induction fuel generalizing start with
  | zero => exact closed
  | succ fuel ih =>
      rw [ResolveCtx.addPulledSeeds]
      split
      · exact closed
      · rename_i first rest _
        obtain ⟨-, pulled, -⟩ := requiredClosure_spec ctx.edges (intoIter (first :: rest))
        apply ih
        apply closed_addMigrations lists
        intro id member dep needs
        rw [List.mem_append, List.mem_filter, decide_eq_true_eq] at member ⊢
        by_cases inside : dep ∈ start
        · exact .inl inside
        · rcases member with old | ⟨new, -⟩
          · exact absurd (closed.needs id old dep needs) inside
          · exact .inr ⟨pulled id new dep needs, inside⟩

/-- What a flow starts is closed under needs and migrations. -/
theorem closed_startSet (lists : ctx.Lists nodes) (members : List String) :
    ctx.Closed (ctx.startSetOf nodes members) := by
  apply Closed.addPulledSeeds lists
  apply closed_addMigrations lists
  exact (requiredClosure_spec ctx.edges (intoIter members)).2.1

/-! ## Flows -/

/-- What each flow starts. -/
def memberships (ctx : ResolveCtx) : List (String × List String) :=
  ctx.expandedFlows.map fun flow => (flow.1, ctx.startSet flow.2.out)

/-- The node with the flows that start it. -/
def inFlows (ctx : ResolveCtx) (id : String) (node : Node) : Node :=
  { node with
    flows := node.flows ++
      (ctx.memberships.filter fun membership => id ∈ membership.2).map Prod.fst }

theorem resolveFlows_nodes (ctx : ResolveCtx) (id : String) :
    ctx.resolveFlows.1.nodes[id]? = ctx.nodes[id]?.map (ctx.inFlows id) :=
  ExtTreeMap.getElem?_map

theorem mem_listed_resolveFlows {node : Node} :
    node ∈ OrderedMap.listed ctx.resolveFlows.1.nodes ↔
      ∃ (id : String) (held : Node), ctx.nodes[id]? = some held ∧ ctx.inFlows id held = node := by
  rw [OrderedMap.mem_listed]
  simp only [resolveFlows_nodes, Option.map_eq_some_iff]

/-- Knowing its flows changes nothing about what an edge joins. -/
theorem needs_resolveFlows {id dep : String} :
    Needs ctx.resolveFlows.1.edges id dep ↔ Needs ctx.edges id dep := by
  simp only [Needs, resolveFlows, List.mem_map]
  constructor
  · rintro ⟨-, ⟨edge, listed, rfl⟩, needed, source, target⟩
    exact ⟨edge, listed, needed, source, target⟩
  · rintro ⟨edge, listed, needed, source, target⟩
    exact ⟨_, ⟨edge, listed, rfl⟩, needed, source, target⟩

theorem resolveFlows_edges {edge : Edge} (listed : edge ∈ ctx.resolveFlows.1.edges) :
    ∃ plain ∈ ctx.edges, plain.from = edge.from ∧ plain.to = edge.to := by
  obtain ⟨plain, member, rfl⟩ := List.mem_map.mp listed
  exact ⟨plain, member, rfl, rfl⟩

/-- A flow starts a node exactly when the node is in what the flow starts. -/
theorem mem_inFlows_flows {id flow : String} {node : Node} (unset : node.flows = []) :
    flow ∈ (ctx.inFlows id node).flows ↔ ∃ start, (flow, start) ∈ ctx.memberships ∧ id ∈ start := by
  simp only [inFlows, unset, List.nil_append, List.mem_map, List.mem_filter, decide_eq_true_eq]
  constructor
  · rintro ⟨⟨flow, start⟩, ⟨listed, inside⟩, rfl⟩
    exact ⟨start, listed, inside⟩
  · rintro ⟨start, listed, inside⟩
    exact ⟨(flow, start), ⟨listed, inside⟩, rfl⟩

theorem closed_of_mem_memberships {flow : String} {start : List String}
    (listed : (flow, start) ∈ ctx.memberships) : ctx.Closed start := by
  obtain ⟨expanded, -, same⟩ := List.mem_map.mp listed
  obtain ⟨-, rfl⟩ := Prod.mk.inj same
  exact closed_startSet (fun _ => Iff.rfl) _

/-! ## The resolved graph -/

theorem checkCycles_blocking {edges : List Edge} {warning : Warning}
    (listed : warning ∈ checkCycles edges) : warning.isBlocking := by
  obtain ⟨cycle, -, rfl⟩ := List.mem_map.mp listed
  rfl

variable {workspaceName : String}

/-- A graph that nothing refuses: no phase refused it, and its needs have no cycle. -/
theorem resolved_free (free : (ctx.resolved workspaceName).blockingWarnings = []) :
    ctx.addStoreEdges.Unblocked ∧ Acyclic (ctx.resolved workspaceName).edges := by
  have none : ∀ warning ∈ (ctx.resolved workspaceName).warnings, ¬warning.isBlocking :=
    List.filter_eq_nil_iff.mp free
  constructor
  · intro warning reported
    exact none warning (List.mem_append_left _ (List.mem_append_left _ reported))
  · apply acyclic_of_checkCycles
    apply List.eq_nil_iff_forall_not_mem.mpr
    intro warning listed
    exact none warning (List.mem_append_right _ listed) (checkCycles_blocking listed)

/-- A node of the graph is a node of the resolution with its flows. -/
theorem mem_resolved_nodes (sound : Sound ctx) {node : Node} :
    node ∈ (ctx.resolved workspaceName).nodes ↔
      ∃ (id : String) (held : Node), ctx.nodes[id]? = some held ∧
        ctx.addStoreEdges.inFlows id held = node := by
  rw [← addStoreEdges_nodes sound]
  exact mem_listed_resolveFlows

theorem needs_resolved {id dep : String} :
    Needs (ctx.resolved workspaceName).edges id dep ↔ Needs ctx.addStoreEdges.edges id dep :=
  needs_resolveFlows

/-- Every known node is in the graph. -/
theorem known_resolved (sound : Sound ctx) {id : String} (filed : id ∈ ctx.nodes) :
    id ∈ (ctx.resolved workspaceName).nodes.map Node.id := by
  obtain ⟨held, lookup⟩ := Option.isSome_iff_exists.mp (ExtTreeMap.mem_iff_isSome_getElem?.mp filed)
  exact List.mem_map.mpr ⟨_, (mem_resolved_nodes sound).mpr ⟨id, held, lookup, rfl⟩,
    (sound.node_sound id held lookup).named⟩

theorem resolved_ids_nodup (sound : Sound ctx) :
    ((ctx.resolved workspaceName).nodes.map Node.id).Nodup := by
  apply OrderedMap.nodup_map_listed
  intro id node filed
  obtain ⟨held, lookup, rfl⟩ :=
    Option.map_eq_some_iff.mp ((resolveFlows_nodes ctx.addStoreEdges id).symm.trans filed)
  rw [addStoreEdges_nodes sound] at lookup
  exact (sound.node_sound id held lookup).named

/-- If a flow starts a node and what it starts leads to another, the flow starts the other. -/
theorem flow_resolved (sound : Sound ctx) {flow id dep : String} {node other : Node}
    (filed : ctx.nodes[id]? = some node) (lookup : ctx.nodes[dep]? = some other)
    (inside : flow ∈ (ctx.addStoreEdges.inFlows id node).flows)
    (leads : ∀ start, ctx.addStoreEdges.Closed start → id ∈ start → dep ∈ start) :
    flow ∈ (ctx.addStoreEdges.inFlows dep other).flows := by
  obtain ⟨start, membership, started⟩ :=
    (mem_inFlows_flows (sound.node_sound id node filed).flows_unset).mp inside
  apply (mem_inFlows_flows (sound.node_sound dep other lookup).flows_unset).mpr
  exact ⟨start, membership, leads start (closed_of_mem_memberships membership) started⟩

/-- The graph of a sound resolution may be started if nothing refuses it. -/
theorem Sound.startable (sound : Sound ctx)
    (unrefused : (ctx.resolved workspaceName).blockingWarnings = []) :
    (ctx.resolved workspaceName).Startable := by
  obtain ⟨free, acyclic⟩ := resolved_free unrefused
  refine
    { ids_nodup := resolved_ids_nodup sound
      ends_known := ?_
      acyclic
      store_task := ?_
      migration_runs := ?_
      store_stays := ?_
      flow_needs := ?_
      flow_migrates := ?_ }
  · intro edge listed
    obtain ⟨plain, member, source, target⟩ := resolveFlows_edges listed
    obtain ⟨fromKnown, toKnown⟩ := sound.addStoreEdges.ends_known plain member
    rw [addStoreEdges_nodes sound] at fromKnown toKnown
    exact ⟨source ▸ known_resolved sound fromKnown, target ▸ known_resolved sound toKnown⟩
  · intro node member names
    obtain ⟨id, held, lookup, rfl⟩ := (mem_resolved_nodes sound).mp member
    apply (sound.node_sound id held lookup).store_task
    intro none
    obtain ⟨migrates, seeds⟩ := List.append_eq_nil_iff.mp none
    rcases names with some | some
    · exact absurd some (by simp [inFlows, Option.toList_eq_nil_iff.mp migrates])
    · exact some seeds
  · intro node member migrates
    obtain ⟨id, held, lookup, rfl⟩ := (mem_resolved_nodes sound).mp member
    exact (sound.node_sound id held lookup).migration_runs
      ((extends_addStoreEdges sound).unblocked free) migrates
  · intro node member store migrates
    obtain ⟨id, held, lookup, rfl⟩ := (mem_resolved_nodes sound).mp member
    have names := MigratesStore.names ⟨held, lookup, migrates⟩
    obtain ⟨target, filed, stays⟩ := names.stays sound free
    exact ⟨_, (mem_resolved_nodes sound).mpr ⟨store, target, filed, rfl⟩,
      (sound.node_sound store target filed).named, stays⟩
  · intro flow node member inside target listed needs
    obtain ⟨id, held, lookup, rfl⟩ := (mem_resolved_nodes sound).mp member
    obtain ⟨dep, other, filed, rfl⟩ := (mem_resolved_nodes sound).mp listed
    apply flow_resolved sound lookup filed inside
    intro start closed started
    apply closed.needs id started
    rw [← (sound.node_sound id held lookup).named, ← (sound.node_sound dep other filed).named]
    exact needs_resolved.mp needs
  · intro flow node member inside task listed migrates
    obtain ⟨id, held, lookup, rfl⟩ := (mem_resolved_nodes sound).mp member
    obtain ⟨name, other, filed, rfl⟩ := (mem_resolved_nodes sound).mp listed
    apply flow_resolved sound lookup filed inside
    intro start closed started
    have task : other ∈ OrderedMap.listed ctx.addStoreEdges.nodes := by
      rw [addStoreEdges_nodes sound]
      exact (OrderedMap.mem_listed _ _).mpr ⟨name, filed⟩
    have held_id := (sound.node_sound id held lookup).named
    rw [← (sound.node_sound name other filed).named]
    exact closed.migrations other task id started (migrates.trans (congrArg some held_id))

end ResolveCtx

/-- A resolved graph without a blocking warning may be started. -/
theorem resolveUniverse_startable {toLowercase : String → String} {workspaceName : String}
    {scanned : OrderedMap String ComponentConfig} {facts : OrderedMap String RepoFacts}
    (unrefused : (resolveUniverse toLowercase workspaceName scanned facts).blockingWarnings = []) :
    (resolveUniverse toLowercase workspaceName scanned facts).Startable :=
  (declaredCtx_spec toLowercase scanned facts).2.startable unrefused

/-! ## Stores first -/

/-- A migration or seed waits on its stores, whatever waits on a store waits on its migration, and
any start takes the store, its migration and what waits on the store in this order. -/
structure StoresFirst (graph : Graph) : Prop where
  task_waits : ∀ task ∈ graph.nodes, ∀ store ∈ ResolveCtx.storesOf task,
    Needs graph.edges task.id store
  migration_waited : ∀ task ∈ graph.nodes, ∀ store, task.migrates = some store →
    ∀ id ≠ task.id, Needs graph.edges id store → Needs graph.edges id task.id
  start_order : ∀ task ∈ graph.nodes, ∀ store, task.migrates = some store →
    ∀ id ≠ task.id, Needs graph.edges id store → ∀ targets : List String,
      store ∈ targets → task.id ∈ targets → id ∈ targets →
        Orchestrator.Before (Orchestrator.topologicalStartOrder targets graph.edges) store task.id ∧
        Orchestrator.Before (Orchestrator.topologicalStartOrder targets graph.edges) task.id id

/-- No file joins a task to its store, or what waits on a store to its migration, only as not needed
to start. -/
structure StoresUnhidden (ctx : ResolveCtx) : Prop where
  store : ∀ task store, ctx.NamesStore task store → ¬OnlyOptional ctx.edges task store
  migration : ∀ migration store, ctx.MigratesStore migration store → ∀ id ≠ migration,
    Needs ctx.edges id store ∨ ctx.NamesStore id store → ¬OnlyOptional ctx.edges id migration

/-- Files whose every edge is needed to start hide nothing. -/
theorem StoresUnhidden.of_needed {ctx : ResolveCtx}
    (needed : ∀ edge ∈ ctx.edges, edge.neededToStart) : StoresUnhidden ctx := by
  have shown : ∀ id dep, ¬OnlyOptional ctx.edges id dep := by
    rintro id dep ⟨⟨edge, listed, source, target⟩, unneeded⟩
    exact unneeded ⟨edge, listed, needed edge listed, source, target⟩
  exact ⟨fun _ _ _ => shown _ _, fun _ _ _ _ _ _ => shown _ _⟩

/-- Without a cycle, the order of a start follows from the waits. -/
theorem storesFirst_of_waits {graph : Graph} (acyclic : Acyclic graph.edges)
    (task_waits : ∀ task ∈ graph.nodes, ∀ store ∈ ResolveCtx.storesOf task,
      Needs graph.edges task.id store)
    (migration_waited : ∀ task ∈ graph.nodes, ∀ store, task.migrates = some store →
      ∀ id ≠ task.id, Needs graph.edges id store → Needs graph.edges id task.id) :
    StoresFirst graph := by
  refine ⟨task_waits, migration_waited, ?_⟩
  intro task member store migrates id other needs targets storeIn taskIn idIn
  have waits : Needs graph.edges task.id store :=
    task_waits task member store (by simp [ResolveCtx.storesOf, migrates])
  exact ⟨Orchestrator.before_of_needs acyclic waits taskIn storeIn,
    Orchestrator.before_of_needs acyclic (migration_waited task member store migrates id
      other needs)
      idIn taskIn⟩

namespace ResolveCtx

variable {ctx : ResolveCtx} {workspaceName : String}

/-- What does not depend on a node's flows holds of the nodes of the graph exactly when it holds of
the nodes of the resolution. -/
theorem forall_mem_resolved_iff (sound : Sound ctx) (property : String → Node → Prop)
    (blind : ∀ id task, property id (ctx.addStoreEdges.inFlows id task) ↔ property id task) :
    (∀ node ∈ (ctx.resolved workspaceName).nodes, property node.id node) ↔
      ∀ (id : String) (task : Node), ctx.nodes[id]? = some task → property id task := by
  constructor
  · intro every id task filed
    have named : (ctx.addStoreEdges.inFlows id task).id = id :=
      (sound.node_sound id task filed).named
    have holds := every _ ((mem_resolved_nodes sound).mpr ⟨id, task, filed, rfl⟩)
    rw [named] at holds
    exact (blind id task).mp holds
  · intro every node member
    obtain ⟨id, held, filed, rfl⟩ := (mem_resolved_nodes sound).mp member
    have named : (ctx.addStoreEdges.inFlows id held).id = id :=
      (sound.node_sound id held filed).named
    rw [named]
    exact (blind id held).mpr (every id held filed)

theorem task_waits_iff (sound : Sound ctx) :
    (∀ task ∈ (ctx.resolved workspaceName).nodes, ∀ store ∈ storesOf task,
      Needs (ctx.resolved workspaceName).edges task.id store) ↔
      ∀ id store, ctx.NamesStore id store → Needs ctx.addStoreEdges.edges id store := by
  rw [forall_mem_resolved_iff sound (fun id task => ∀ store ∈ storesOf task,
    Needs (ctx.resolved workspaceName).edges id store) fun _ _ => Iff.rfl]
  simp only [needs_resolved, NamesStore]
  constructor
  · rintro every id store ⟨task, filed, names⟩
    exact every id task filed store names
  · intro every id task filed store names
    exact every id store ⟨task, filed, names⟩

theorem migration_waited_iff (sound : Sound ctx) :
    (∀ task ∈ (ctx.resolved workspaceName).nodes, ∀ store, task.migrates = some store →
      ∀ id ≠ task.id, Needs (ctx.resolved workspaceName).edges id store →
        Needs (ctx.resolved workspaceName).edges id task.id) ↔
      ∀ migration store, ctx.MigratesStore migration store → ∀ id ≠ migration,
        Needs ctx.addStoreEdges.edges id store → Needs ctx.addStoreEdges.edges id migration := by
  rw [forall_mem_resolved_iff sound (fun migration task => ∀ store, task.migrates = some store →
    ∀ id ≠ migration, Needs (ctx.resolved workspaceName).edges id store →
      Needs (ctx.resolved workspaceName).edges id migration) fun _ _ => Iff.rfl]
  simp only [needs_resolved, MigratesStore]
  constructor
  · rintro every migration store ⟨task, filed, migrates⟩
    exact every migration task filed store migrates
  · intro every migration task filed store migrates
    exact every migration store ⟨task, filed, migrates⟩

/-- Stores come first in the graph of a sound resolution exactly when the files hide no wait. -/
theorem Sound.storesFirst_iff (sound : Sound ctx)
    (unrefused : (ctx.resolved workspaceName).blockingWarnings = []) :
    StoresFirst (ctx.resolved workspaceName) ↔ StoresUnhidden ctx := by
  obtain ⟨free, acyclic⟩ := resolved_free unrefused
  constructor
  · intro first
    have waits := (task_waits_iff sound).mp first.task_waits
    have waited := (migration_waited_iff sound).mp first.migration_waited
    refine ⟨fun id store names => ?_, fun migration store migrates id other waiting => ?_⟩
    · rw [not_onlyOptional_iff]
      rcases (needs_store sound free names).mp (waits id store names) with needs | ⟨apart, -⟩
      · exact .inl needs
      · exact .inr apart
    · have needs : Needs ctx.addStoreEdges.edges id store := by
        rcases waiting with declared | names
        · exact (needs_store sound free migrates.names).mpr (.inl declared)
        · exact waits id store names
      rw [not_onlyOptional_iff]
      rcases (needs_migration sound free migrates other).mp
        (waited migration store migrates id other needs) with declared | ⟨apart, -⟩
      · exact .inl declared
      · exact .inr apart
  · intro unhidden
    apply storesFirst_of_waits acyclic
    · apply (task_waits_iff sound).mpr
      intro id store names
      apply (needs_store sound free names).mpr
      rcases not_onlyOptional_iff.mp (unhidden.store id store names) with needs | apart
      · exact .inl needs
      · exact .inr ⟨apart, names⟩
    · apply (migration_waited_iff sound).mpr
      intro migration store migrates id other needs
      have waiting : Needs ctx.edges id store ∨ ctx.NamesStore id store := by
        rcases (needs_store sound free migrates.names).mp needs with declared | ⟨-, names⟩
        · exact .inl declared
        · exact .inr names
      apply (needs_migration sound free migrates other).mpr
      rcases not_onlyOptional_iff.mp (unhidden.migration migration store migrates id other waiting)
        with declared | apart
      · exact .inl declared
      · exact .inr ⟨apart, needs⟩

end ResolveCtx

/-- Stores come first in a resolved graph without a blocking warning exactly when, among the
declared edges, none that is not needed to start stands alone between a task and its store, or
between what waits on a store and its migration. -/
theorem stores_first_iff {toLowercase : String → String} {workspaceName : String}
    {scanned : OrderedMap String ComponentConfig} {facts : OrderedMap String RepoFacts}
    (unrefused : (resolveUniverse toLowercase workspaceName scanned facts).blockingWarnings = []) :
    StoresFirst (resolveUniverse toLowercase workspaceName scanned facts) ↔
      StoresUnhidden (declaredCtx toLowercase scanned facts) :=
  (declaredCtx_spec toLowercase scanned facts).2.storesFirst_iff unrefused

/-- A database, its migration and an application; the migration declares how it waits. -/
def shopServices (wait : List (String × DependsOnEntry)) : List (String × ServiceConfig) :=
  [("api", { build := some none, dependsOn := [("db", {})] }),
    ("db", { image := some "postgres:16" }),
    ("migrate",
      { image := some "dbmate", command := ["up"], migrates := some "db", dependsOn := wait })]

def shopFiles (wait : List (String × DependsOnEntry)) : OrderedMap String ComponentConfig :=
  (∅ : OrderedMap String ComponentConfig).insert "shop" { services := .ofList (shopServices wait) }

/-- The files that declare nothing about how the migration waits start the store first. -/
theorem stores_first_shop :
    (resolveUniverse String.toLower "ws" (shopFiles []) ∅).blockingWarnings = [] ∧
      StoresFirst (resolveUniverse String.toLower "ws" (shopFiles []) ∅) := by
  have unrefused :
      (resolveUniverse String.toLower "ws" (shopFiles []) ∅).blockingWarnings = [] := by
    decide
  refine ⟨unrefused, (stores_first_iff unrefused).mpr (.of_needed ?_)⟩
  decide

/-- A migration that declares its store as not needed to start does not wait on it. -/
theorem optional_store_unwaited :
    ¬∀ (toLowercase : String → String) (workspaceName : String)
      (scanned : OrderedMap String ComponentConfig) (facts : OrderedMap String RepoFacts),
      (resolveUniverse toLowercase workspaceName scanned facts).blockingWarnings = [] →
        StoresFirst (resolveUniverse toLowercase workspaceName scanned facts) := by
  intro claim
  have first := claim String.toLower "ws" (shopFiles [("db", { required := false })]) ∅
    (by decide)
  have migrates : ∃ task ∈ (resolveUniverse String.toLower "ws"
      (shopFiles [("db", { required := false })]) ∅).nodes,
      task.id = "migrate.shop" ∧ "db.shop" ∈ ResolveCtx.storesOf task := by decide
  obtain ⟨task, member, named, names⟩ := migrates
  have waits := first.task_waits task member "db.shop" names
  rw [named] at waits
  revert waits
  decide

end Resolver
end Fghj
