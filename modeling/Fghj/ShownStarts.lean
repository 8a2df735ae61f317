import Fghj.Closures
import Fghj.ShownGraph

/-!
# Starts as they are drawn

With the seeds shown, whatever the start of a card brings up is on a card that the drawn edges lead
to. Seeds shown or hidden, whatever the edges drawn as needed lead to comes up, and these edges
close no loop: between the last nodes to start of two joined cards there is a path of needs.
-/

namespace Fghj

open Std

namespace GraphView

open Resolver (MigrationsImplied StoresFirst)
open Orchestrator (targetIds requirementsOf ClosedUnderNeeds ClosedUnderMigrations)

variable {graph : Graph} {showSeeds : Bool}

/-- How the cards and the edges between them relate to the start of a card. -/
structure ShowsStarts (graph : Graph) : Prop where
  /-- With the seeds shown, whatever comes up is on a card that the drawn edges lead to. -/
  drawn : ∀ start ∈ graph.nodes, ∀ targets,
    targetIds graph none (.node start.id) none = .ok targets →
      ∀ node ∈ graph.nodes, node.id ∈ targets →
        Relation.ReflTransGen (Linked (foldMigrations graph true).edges) start.home node.home
  /-- Whatever card the edges drawn as needed lead to comes up. -/
  started : ∀ showSeeds card targets, targetIds graph none (.node card) none = .ok targets →
    ∀ other, Relation.TransGen (Needs (foldMigrations graph showSeeds).edges) card other →
      other ∈ targets
  /-- No edges drawn as needed close a loop. -/
  acyclic : ∀ showSeeds, Acyclic (foldMigrations graph showSeeds).edges

/-- Joined nodes are on one card, or their cards are joined. -/
theorem reaches_of_needs (startable : graph.Startable) (plain : PlainIds graph)
    (implied : MigrationsImplied graph) {node dep : Node} (member : node ∈ graph.nodes)
    (filed : dep ∈ graph.nodes) (needs : Needs graph.edges node.id dep.id) :
    Relation.ReflTransGen (Linked (foldMigrations graph true).edges) node.home dep.home := by
  obtain ⟨edge, listed, -, source, target⟩ := needs
  by_cases same : node.home = dep.home
  · rw [same]
  · exact .single ((linked_foldMigrations startable plain implied).mpr ⟨same, edge, listed, node,
      member, dep, filed, source.symm, target.symm, .inl rfl, .inl rfl, rfl, rfl⟩)

theorem mem_targetIds {card : String} {targets : List String}
    (found : targetIds graph none (.node card) none = .ok targets) {id : String} :
    id ∈ targets ↔ id ∈ addMigrations graph.nodes graph.edges graph.nodes.length
      (requirementsOf card graph.edges ++ [card]) := by
  simp only [targetIds] at found
  split at found
  · obtain rfl := Except.ok.inj found
    exact Graph.withMigrations_mem
  · cases found

theorem closed_requirementsOf (edges : List Edge) (card : String) :
    ClosedUnderNeeds edges (requirementsOf card edges ++ [card]) := by
  have leads {id dep : String} (path : Relation.TransGen (Needs edges) card id)
      (needs : Needs edges id dep) : dep ∈ requirementsOf card edges ++ [card] := by
    by_cases own : dep = card
    · exact List.mem_append_right _ (List.mem_singleton.mpr own)
    · exact List.mem_append_left _ (Orchestrator.mem_requirementsOf.mpr ⟨own, path.tail needs⟩)
  intro id inside dep needs
  rcases List.mem_append.mp inside with required | own
  · exact leads (Orchestrator.mem_requirementsOf.mp required).2 needs
  · obtain rfl := List.mem_singleton.mp own
    by_cases same : dep = id
    · exact List.mem_append_right _ (List.mem_singleton.mpr same)
    · exact List.mem_append_left _ (Orchestrator.mem_requirementsOf.mpr ⟨same, .single needs⟩)

theorem drawn_of_started (startable : graph.Startable) (plain : PlainIds graph)
    (implied : MigrationsImplied graph) {start node : Node} (member : start ∈ graph.nodes)
    (filed : node ∈ graph.nodes)
    (inside : node.id ∈ addMigrations graph.nodes graph.edges graph.nodes.length
      (requirementsOf start.id graph.edges ++ [start.id])) :
    Relation.ReflTransGen (Linked (foldMigrations graph true).edges) start.home node.home := by
  classical
  -- the nodes on the cards that are led to are closed, so whatever comes up is among them
  let led := (graph.nodes.filter fun node => Relation.ReflTransGen
    (Linked (foldMigrations graph true).edges) start.home node.home).map Node.id
  have mem_led {node : Node} (member : node ∈ graph.nodes) : node.id ∈ led ↔
      Relation.ReflTransGen (Linked (foldMigrations graph true).edges) start.home node.home := by
    simp only [led, List.mem_map, List.mem_filter, decide_eq_true_eq]
    constructor
    · rintro ⟨other, ⟨listed, path⟩, same⟩
      rwa [List.inj_on_of_nodup_map startable.ids_nodup listed member same] at path
    · exact fun path => ⟨node, ⟨member, path⟩, rfl⟩
  have needs : ClosedUnderNeeds graph.edges led := by
    intro id listed dep needs
    obtain ⟨node, found, rfl⟩ := List.mem_map.mp listed
    have known := (List.mem_filter.mp found).1
    obtain ⟨other, also, rfl⟩ := List.mem_map.mp (startable.needs_known needs).2
    exact (mem_led also).mpr (((mem_led known).mp listed).trans
      (reaches_of_needs startable plain implied known also needs))
  have migrations : ClosedUnderMigrations graph.nodes led := by
    intro node known store listed migrates
    obtain ⟨target, also, rfl, stays⟩ := startable.store_stays node known store migrates
    have same : node.home = target.home := by
      rw [Node.home, Node.home, migrates, (storeless_of_stays startable also stays).1]
      rfl
    exact (mem_led known).mpr (same ▸ (mem_led also).mp listed)
  refine (mem_led filed).mp (Orchestrator.addMigrations_least ?_ needs migrations _ inside)
  have own : start.id ∈ led := (mem_led member).mpr .refl
  intro id listed
  rcases List.mem_append.mp listed with required | same
  · exact needs.of_leads own (Orchestrator.mem_requirementsOf.mp required).2
  · exact List.mem_singleton.mp same ▸ own

/-- An edge drawn as needed is an edge of the graph that is needed, between nodes on its cards. -/
theorem needs_foldMigrations (startable : graph.Startable) (plain : PlainIds graph)
    {source target : String} (needs : Needs (foldMigrations graph showSeeds).edges source target)
    (implied : MigrationsImplied graph) :
    source ≠ target ∧ ∃ one ∈ graph.nodes, ∃ other ∈ graph.nodes,
      Needs graph.edges one.id other.id ∧ one.home = source ∧ other.home = target := by
  obtain ⟨drawn, listed, needed, rfl, rfl⟩ := needs
  refine ⟨((linked_foldMigrations startable plain implied).mp ⟨drawn, listed, rfl, rfl⟩).1, ?_⟩
  obtain ⟨edge, member, rfl⟩ := mem_foldEdges listed
  obtain ⟨fromKnown, toKnown⟩ := startable.ends_known edge member
  obtain ⟨one, oneFiled, oneNamed⟩ := List.mem_map.mp fromKnown
  obtain ⟨other, otherFiled, otherNamed⟩ := List.mem_map.mp toKnown
  refine ⟨one, oneFiled, other, otherFiled, ⟨edge, member, needed, oneNamed.symm, otherNamed.symm⟩,
    ?_, ?_⟩
  · rw [← card_eq startable plain oneFiled, oneNamed]
  · rw [← card_eq startable plain otherFiled, otherNamed]

theorem home_cases {node : Node} {card : String} (home : node.home = card) :
    node.id = card ∨ node.migrates = some card := by
  cases migrates : node.migrates with
  | none => exact .inl (by simpa [Node.home, migrates] using home)
  | some store => exact .inr (by simpa [Node.home, migrates] using home)

theorem started_of_drawn (startable : graph.Startable) (plain : PlainIds graph)
    (implied : MigrationsImplied graph) (first : StoresFirst graph) {card other : String}
    {targets : List String} (found : targetIds graph none (.node card) none = .ok targets)
    (path : Relation.TransGen (Needs (foldMigrations graph showSeeds).edges) card other) :
    other ∈ targets := by
  have least : Orchestrator.LeastMigrated graph.nodes _ _ :=
    Orchestrator.leastMigrated (closed_requirementsOf graph.edges card)
  rw [mem_targetIds found]
  have step : ∀ {here next : String},
      here ∈ addMigrations graph.nodes graph.edges graph.nodes.length
        (requirementsOf card graph.edges ++ [card]) →
      Needs (foldMigrations graph showSeeds).edges here next →
      next ∈ addMigrations graph.nodes graph.edges graph.nodes.length
        (requirementsOf card graph.edges ++ [card]) := by
    intro here next inside needs
    obtain ⟨-, one, oneFiled, dep, depFiled, waits, oneHome, depHome⟩ :=
      needs_foldMigrations startable plain needs implied
    have oneInside : one.id ∈ addMigrations graph.nodes graph.edges graph.nodes.length
        (requirementsOf card graph.edges ++ [card]) := by
      rcases home_cases oneHome with rfl | migrates
      · exact inside
      · exact least.migrations one oneFiled here inside migrates
    have depInside := least.needs _ oneInside _ waits
    rcases home_cases depHome with rfl | migrates
    · exact depInside
    · -- the migration waits on its store
      exact least.needs _ depInside _
        (first.task_waits dep depFiled next (by simp [Resolver.ResolveCtx.storesOf, migrates]))
  have own : card ∈ addMigrations graph.nodes graph.edges graph.nodes.length
      (requirementsOf card graph.edges ++ [card]) :=
    least.kept (List.mem_append_right _ List.mem_cons_self)
  induction path with
  | single needs => exact step own needs
  | tail _ needs inside => exact step inside needs

/-- The last thing to start of a card: the migration of a store, and any other node itself. -/
def lastOf (graph : Graph) (card : String) : String :=
  ((folded graph.nodes).migrationOf[card]?.map Node.id).getD card

theorem lastOf_migration (startable : graph.Startable) (plain : PlainIds graph)
    (implied : MigrationsImplied graph) {node : Node} (member : node ∈ graph.nodes) {store : String}
    (migrates : node.migrates = some store) : lastOf graph store = node.id := by
  rw [lastOf, (getElem?_migrationOf startable plain implied).mpr ⟨member, migrates⟩]
  rfl

/-- A card is its own last, or its migration is, which needs it. -/
theorem lastOf_cases (startable : graph.Startable) (plain : PlainIds graph)
    (implied : MigrationsImplied graph) (card : String) : lastOf graph card = card ∨
      ∃ node ∈ graph.nodes, node.migrates = some card ∧ lastOf graph card = node.id := by
  cases lookup : (folded graph.nodes).migrationOf[card]? with
  | none => exact .inl (by rw [lastOf, lookup]; rfl)
  | some node =>
      obtain ⟨member, migrates⟩ := (getElem?_migrationOf startable plain implied).mp lookup
      exact .inr ⟨node, member, migrates, lastOf_migration startable plain implied member migrates⟩

/-- An edge drawn as needed is a path of needs between the last nodes of its cards. -/
theorem leads_lastOf (startable : graph.Startable) (plain : PlainIds graph)
    (implied : MigrationsImplied graph) (first : StoresFirst graph) {source target : String}
    (needs : Needs (foldMigrations graph showSeeds).edges source target) :
    Relation.TransGen (Needs graph.edges) (lastOf graph source) (lastOf graph target) := by
  obtain ⟨apart, one, oneFiled, other, otherFiled, waits, oneHome, otherHome⟩ :=
    needs_foldMigrations startable plain needs implied
  have down : Relation.ReflTransGen (Needs graph.edges) (lastOf graph source) one.id := by
    rcases home_cases oneHome with rfl | migrates
    · rcases lastOf_cases startable plain implied one.id with own | ⟨node, member, migrates, last⟩
      · rw [own]
      · rw [last]
        exact .single (first.task_waits node member one.id
          (by simp [Resolver.ResolveCtx.storesOf, migrates]))
    · rw [lastOf_migration startable plain implied oneFiled migrates]
  have across : Needs graph.edges one.id (lastOf graph target) := by
    rcases home_cases otherHome with rfl | migrates
    · rcases lastOf_cases startable plain implied other.id with own | ⟨node, member, migrates, last⟩
      · rwa [own]
      · rw [last]
        refine first.migration_waited node member other.id migrates one.id (fun same => ?_) waits
        -- one card has no edge to itself
        obtain rfl := List.inj_on_of_nodup_map startable.ids_nodup oneFiled member same
        exact apart (oneHome.symm.trans (by simp [Node.home, migrates]))
    · rwa [lastOf_migration startable plain implied otherFiled migrates]
  exact Relation.TransGen.tail' down across

theorem showsStarts (startable : graph.Startable) (plain : PlainIds graph)
    (implied : MigrationsImplied graph) (first : StoresFirst graph) : ShowsStarts graph where
  drawn := by
    intro start member targets found node filed inside
    exact drawn_of_started startable plain implied member filed ((mem_targetIds found).mp inside)
  started := fun _ _ _ found _ => started_of_drawn startable plain implied first found
  acyclic := by
    intro showSeeds
    have descends : WellFounded fun dep id => Relation.TransGen (Needs graph.edges) id dep :=
      (WellFounded.transGen startable.acyclic).mono fun dep id path =>
        Relation.transGen_swap.mp path
    exact (InvImage.wf (lastOf graph) descends).mono fun dep id needs =>
      leads_lastOf startable plain implied first needs

end GraphView

/-! ## The graph of a workspace -/

/-- The drawing of a graph that nothing refuses, and whose files hide no wait for a store, tells
what a start brings up. -/
theorem shows_starts {toLowercase : String → String} {workspaceName : String}
    {scanned : OrderedMap String ComponentConfig} {facts : OrderedMap String RepoFacts}
    (unrefused :
      (Resolver.resolveUniverse toLowercase workspaceName scanned facts).blockingWarnings = [])
    (plain : GraphView.PlainIds
      (Resolver.resolveUniverse toLowercase workspaceName scanned facts))
    (unhidden : Resolver.StoresUnhidden (Resolver.declaredCtx toLowercase scanned facts)) :
    GraphView.ShowsStarts (Resolver.resolveUniverse toLowercase workspaceName scanned facts) :=
  GraphView.showsStarts (Resolver.resolveUniverse_startable unrefused) plain
    (Resolver.migrationsImplied_resolveUniverse unrefused)
    (((Resolver.declaredCtx_spec toLowercase scanned facts).2.storesFirst_iff unrefused).mpr
      unhidden)

theorem shows_starts_shop :
    GraphView.ShowsStarts
      (Resolver.resolveUniverse String.toLower "ws" (Resolver.shopFiles []) ∅) :=
  shows_starts (by decide) (by decide) (.of_needed (by decide))

end Fghj
