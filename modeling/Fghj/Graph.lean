import Fghj.Library.Digraph
import Fghj.Library.Saturation
import Fghj.State
import Mathlib.Data.List.Dedup
import Mathlib.Data.String.Basic

/-!
# The resolved graph

The nodes a workspace's files declare and the edges between them, what a start of them reaches, and
the loops that refuse one. Only an edge that is needed to start orders, waits, closes a loop, and
passes on failures and restarts.
-/

namespace Fghj

open Std

/-- A service runs a build, a backing only an image, and a task is done when it exits. -/
inductive NodeKind where
  | service
  | backing
  | task
  deriving DecidableEq

/-- How a published port is named. -/
structure PortConfig where
  primary : Bool := false
  name : Option String := none
  hostPort : Option UInt16 := none
  wildcard : Bool := false
  deriving DecidableEq

/-- The clone a git build context builds from. -/
structure BuildSource where
  reference : Option String
  head : Option String
  dirty : Bool
  deriving DecidableEq

/-- What is mounted into a container. -/
inductive VolumeMount where
  | bind (host container : String) (readOnly : Bool := false)
  /-- A Docker volume with a derived name; a shared one belongs to no node. -/
  | named (name container : String) (readOnly shared : Bool := false)
  deriving DecidableEq

/-- One container the workspace's files declare. -/
structure Node where
  id : String
  kind : NodeKind
  localPath : Option String := none
  downloaded : Bool := true
  branch : Option String := none
  head : Option String := none
  dirty : Bool := false
  flows : List String := []
  /-- Present for a built node, with the clone it builds from if that is not its own repo. -/
  build : Option (Option BuildSource) := none
  ports : OrderedMap String PortConfig := ∅
  volumes : List VolumeMount := []
  additionalHosts : List String := []
  wildcardHosts : List String := []
  healthcheck : Bool := false
  runPolicy : Option String := none
  /-- The store this task migrates. -/
  migrates : Option String := none
  /-- The stores whose data this task seeds. -/
  seeds : List String := []

namespace Node

/-- The checkout a built node is built from. -/
def buildCheckout (node : Node) : Option ContainerSource :=
  node.build.map fun source =>
    match source with
    | some source => { branch := source.reference, head := source.head, dirty := source.dirty }
    | none => { branch := node.branch, head := node.head, dirty := node.dirty }

end Node

/-- One dependency of a node on another. -/
structure Edge where
  «from» : String
  «to» : String
  kind : String := "depends-on"
  required : Bool := false
  condition : Option String := none
  viaFlow : Option String := none
  flows : List String := []
  /-- Not written in any file: waiting on a store means waiting on its migration. -/
  implied : Bool := false
  deriving DecidableEq

namespace Edge

/-- The one kind of edge that orders a start. -/
def neededToStart (edge : Edge) : Bool := edge.kind == "depends-on" && edge.required

end Edge

inductive Severity where
  | blocking
  | advisory
  deriving DecidableEq

/-- A finding of the resolver. -/
structure Warning where
  severity : Severity
  message : String
  deriving DecidableEq

namespace Warning

def blocking (message : String) : Warning := { severity := .blocking, message }

def advisory (message : String) : Warning := { severity := .advisory, message }

def isBlocking (warning : Warning) : Bool := warning.severity == .blocking

end Warning

/-- Strings in ascending order. -/
def sortUnstable (strings : List String) : List String := strings.insertionSort (· ≤ ·)

@[simp]
theorem mem_sortUnstable {strings : List String} {string : String} :
    string ∈ sortUnstable strings ↔ string ∈ strings :=
  List.mem_insertionSort _

theorem sortUnstable_perm (strings : List String) : (sortUnstable strings).Perm strings :=
  List.perm_insertionSort _ strings

/-- The elements of a set, once each and in ascending order. -/
def intoIter (set : List String) : List String := (sortUnstable set).dedup

@[simp]
theorem mem_intoIter {set : List String} {string : String} :
    string ∈ intoIter set ↔ string ∈ set := by
  simp [intoIter]

theorem intoIter_nodup (set : List String) : (intoIter set).Nodup := List.nodup_dedup _

/-! ## Needs -/

/-- What a node cannot start without, once per edge. -/
def requirements (edges : List Edge) (id : String) : List String :=
  (edges.filter fun edge => edge.neededToStart && edge.from == id).map Edge.to

/-- The first node cannot start without the second. -/
def Needs (edges : List Edge) (id dep : String) : Prop :=
  ∃ edge ∈ edges, edge.neededToStart ∧ edge.from = id ∧ edge.to = dep

variable {edges : List Edge}

theorem mem_requirements {id dep : String} : dep ∈ requirements edges id ↔ Needs edges id dep := by
  simp only [requirements, Needs, List.mem_map, List.mem_filter, Bool.and_eq_true, beq_iff_eq]
  constructor
  · rintro ⟨edge, ⟨member, needed, source⟩, target⟩
    exact ⟨edge, member, needed, source, target⟩
  · rintro ⟨edge, member, needed, source, target⟩
    exact ⟨edge, ⟨member, needed, source⟩, target⟩

instance (edges : List Edge) (id dep : String) : Decidable (Needs edges id dep) :=
  decidable_of_iff (dep ∈ requirements edges id) mem_requirements

/-- Everything the given nodes cannot start without, and themselves. -/
def requiredClosure (edges : List Edge) (seeds : List String) : List String :=
  Digraph.search (requirements edges) (seeds.length + edges.length) seeds seeds.reverse

theorem requirements_subset (edges : List Edge) (id : String) :
    requirements edges id ⊆ edges.map Edge.to := by
  intro dep member
  obtain ⟨edge, listed, -, -, target⟩ := mem_requirements.mp member
  exact List.mem_map.mpr ⟨edge, listed, target⟩

/-- The closure holds its seeds, is closed under needs, and holds nothing else. -/
theorem requiredClosure_spec (edges : List Edge) (seeds : List String) :
    seeds ⊆ requiredClosure edges seeds ∧
      (∀ id ∈ requiredClosure edges seeds, ∀ dep, Needs edges id dep →
        dep ∈ requiredClosure edges seeds) ∧
      ∀ id ∈ requiredClosure edges seeds, id ∈ seeds ∨
        ∃ start ∈ seeds, Relation.TransGen (Needs edges) start id := by
  have enough : seeds.reverse.length + (Digraph.missing (edges.map Edge.to) seeds).length ≤
      seeds.length + edges.length := by
    have fits := Digraph.length_missing_le (edges.map Edge.to) seeds
    rw [List.length_map] at fits
    rw [List.length_reverse]
    omega
  obtain ⟨kept, closed, origin⟩ := Digraph.search_spec (requirements edges)
    (requirements_subset edges) enough fun id member => .inl (List.mem_reverse.mpr member)
  refine ⟨kept, fun id member dep needs => ?_, fun id member => ?_⟩
  · exact closed id (.inr member) (mem_requirements.mpr needs)
  · rcases origin id member with seed | ⟨start, queued, path⟩
    · exact .inl seed
    · refine .inr ⟨start, List.mem_reverse.mp queued, ?_⟩
      exact Relation.TransGen.mono (fun _ _ => mem_requirements.mp) _ _ path

/-- The loop over the needs comes to its end. -/
theorem requiredClosure_within (edges : List Edge) (seeds : List String) :
    Digraph.searchWithin (requirements edges) (seeds.length + edges.length) seeds seeds.reverse =
      some (requiredClosure edges seeds) := by
  apply Digraph.searchWithin_eq_some _ (requirements_subset edges)
  have fits := Digraph.length_missing_le (edges.map Edge.to) seeds
  rw [List.length_map] at fits
  rw [List.length_reverse]
  omega

/-! ## Migrations -/

/-- The migrations of stores in the set that are not in it yet. -/
def missingMigrations (nodes : List Node) (set : List String) : List String :=
  (nodes.filter fun node => node.migrates.any (· ∈ set) && node.id ∉ set).map Node.id

/-- Add the migration of every store in the set, and what it needs, until none is missing. -/
def addMigrations (nodes : List Node) (edges : List Edge) : Nat → List String → List String
  | 0, set => set
  | fuel + 1, set =>
      match missingMigrations nodes set with
      | [] => set
      | first :: rest =>
          addMigrations nodes edges fuel
            (set ++ (requiredClosure edges (first :: rest)).filter (· ∉ set))

variable {id : String}

theorem mem_missingMigrations {nodes : List Node} {set : List String} :
    id ∈ missingMigrations nodes set ↔
      ∃ node ∈ nodes, ∃ store ∈ set, node.migrates = some store ∧ node.id = id ∧ id ∉ set := by
  simp only [missingMigrations, List.mem_map, List.mem_filter, Bool.and_eq_true, Option.any_eq_true,
    decide_eq_true_eq]
  constructor
  · rintro ⟨node, ⟨member, ⟨store, migrates, inside⟩, outside⟩, rfl⟩
    exact ⟨node, member, store, inside, migrates, rfl, outside⟩
  · rintro ⟨node, member, store, inside, migrates, rfl, outside⟩
    exact ⟨node, ⟨member, ⟨store, migrates, inside⟩, outside⟩, rfl⟩

/-- The set with some more ids and everything these need. -/
def withRequired (edges : List Edge) (set missing : List String) : List String :=
  set ++ (requiredClosure edges missing).filter (· ∉ set)

theorem mem_withRequired {set missing : List String} :
    id ∈ withRequired edges set missing ↔ id ∈ set ∨ id ∈ requiredClosure edges missing := by
  simp only [withRequired, List.mem_append, List.mem_filter, decide_eq_true_eq]
  tauto

theorem withRequired_grows (edges : List Edge) (set missing : List String) :
    set ⊆ withRequired edges set missing ∧ missing ⊆ withRequired edges set missing :=
  ⟨fun _ member => mem_withRequired.mpr (.inl member),
    fun _ member => mem_withRequired.mpr (.inr ((requiredClosure_spec edges missing).1 member))⟩

theorem addMigrations_eq_saturate (nodes : List Node) (edges : List Edge) (fuel : Nat)
    (set : List String) :
    addMigrations nodes edges fuel set =
      Saturation.saturate (missingMigrations nodes) (withRequired edges) fuel set := by
  induction fuel generalizing set with
  | zero => rfl
  | succ fuel ih =>
      rw [addMigrations, Saturation.saturate]
      cases missingMigrations nodes set with
      | nil => rfl
      | cons first rest => exact ih _

theorem missingMigrations_lacked (nodes : List Node) (set : List String) :
    ∀ id ∈ missingMigrations nodes set, id ∈ nodes.map Node.id ∧ id ∉ set := by
  intro id missing
  obtain ⟨node, member, -, -, -, rfl, outside⟩ := mem_missingMigrations.mp missing
  exact ⟨List.mem_map_of_mem member, outside⟩

theorem length_missing_ids (nodes : List Node) (set : List String) :
    (Digraph.missing (nodes.map Node.id) set).length ≤ nodes.length := by
  have fits := Digraph.length_missing_le (nodes.map Node.id) set
  rwa [List.length_map] at fits

/-- The loop over the missing migrations comes to its end. -/
theorem addMigrations_within (nodes : List Node) (edges : List Edge) (set : List String) :
    Saturation.saturateWithin (missingMigrations nodes) (withRequired edges) nodes.length set =
      some (addMigrations nodes edges nodes.length set) := by
  rw [addMigrations_eq_saturate]
  exact Saturation.saturateWithin_eq_some (missingMigrations_lacked nodes)
    (fun set => withRequired_grows edges set _) (length_missing_ids nodes set)

/-- The set with its migrations: nothing is lost, every store in it has its migration in it, and
being closed under needs is kept. -/
theorem addMigrations_spec (nodes : List Node) (edges : List Edge) {fuel : Nat} {set : List String}
    (enough : (Digraph.missing (nodes.map Node.id) set).length ≤ fuel) :
    set ⊆ addMigrations nodes edges fuel set ∧
      (∀ node ∈ nodes, ∀ store ∈ addMigrations nodes edges fuel set, node.migrates = some store →
        node.id ∈ addMigrations nodes edges fuel set) ∧
      ((∀ id ∈ set, ∀ dep, Needs edges id dep → dep ∈ set) →
        ∀ id ∈ addMigrations nodes edges fuel set, ∀ dep, Needs edges id dep →
          dep ∈ addMigrations nodes edges fuel set) ∧
      ∀ id ∈ addMigrations nodes edges fuel set,
        id ∈ set ∨ id ∈ nodes.map Node.id ∨ ∃ other, Needs edges other id := by
  rw [addMigrations_eq_saturate]
  refine ⟨?_, fun node member store inside migrates => ?_, fun closed => ?_, ?_⟩
  · apply Saturation.saturate_invariant _ _ (fun later => set ⊆ later)
    · exact fun later kept _ => List.Subset.trans kept (withRequired_grows edges later _).1
    · exact List.Subset.refl _
  · by_contra outside
    have ends := Saturation.lacks_saturate (missingMigrations_lacked nodes)
      (fun set => withRequired_grows edges set _) enough
    have missing := mem_missingMigrations.mpr ⟨node, member, store, inside, migrates, rfl, outside⟩
    rw [ends] at missing
    cases missing
  · apply Saturation.saturate_invariant _ _ (fun later => ∀ id ∈ later, ∀ dep,
      Needs edges id dep → dep ∈ later) _ fuel closed
    intro later kept _ id inside dep needs
    apply mem_withRequired.mpr
    rcases mem_withRequired.mp inside with old | new
    · exact .inl (kept id old dep needs)
    · exact .inr ((requiredClosure_spec edges _).2.1 id new dep needs)
  · apply Saturation.saturate_invariant _ _ (fun later => ∀ id ∈ later,
      id ∈ set ∨ id ∈ nodes.map Node.id ∨ ∃ other, Needs edges other id) _ fuel
      fun id member => .inl member
    intro later kept _ id inside
    rcases mem_withRequired.mp inside with old | new
    · exact kept id old
    · rcases (requiredClosure_spec edges _).2.2 id new with missing | ⟨start, -, path⟩
      · exact .inr (.inl (missingMigrations_lacked nodes later id missing).1)
      · obtain ⟨other, -, last⟩ := Relation.TransGen.tail'_iff.mp path
        exact .inr (.inr ⟨other, last⟩)

/-! ## Cycles -/

/-- What a node needs, once each and in order. -/
def adjacency (edges : List Edge) (id : String) : List String := intoIter (requirements edges id)

/-- The loops of needs, each as the walk closed it. -/
def cycles (edges : List Edge) : List (List String) :=
  Digraph.loops (adjacency edges) (edges.map Edge.from ++ edges.map Edge.to).length
    (intoIter ((edges.filter Edge.neededToStart).map Edge.from))

/-- Rotations of one loop are the same cycle: keep the first. -/
def distinctCycles : List (List String) → List (List String) → List (List String)
  | _, [] => []
  | seen, cycle :: cycles =>
      if sortUnstable cycle ∈ seen then distinctCycles seen cycles
      else cycle :: distinctCycles (sortUnstable cycle :: seen) cycles

/-- A blocking warning for every cycle of needs. -/
def checkCycles (edges : List Edge) : List Warning :=
  (distinctCycles [] (cycles edges)).map fun cycle =>
    Warning.blocking ("dependency cycle: " ++ " -> ".intercalate cycle ++ " -> " ++
      cycle.headD "" ++ ". Each waits for the next to start, so none of them can")

/-- Needs lead nowhere forever. -/
def Acyclic (edges : List Edge) : Prop := WellFounded fun dep id => Needs edges id dep

/-- The ends of the edges bound the walk. -/
theorem adjacency_subset (edges : List Edge) (id : String) :
    adjacency edges id ⊆ edges.map Edge.from ++ edges.map Edge.to := by
  intro dep member
  rw [adjacency, mem_intoIter] at member
  exact List.mem_append_right _ (requirements_subset edges id member)

theorem roots_subset (edges : List Edge) :
    intoIter ((edges.filter Edge.neededToStart).map Edge.from) ⊆
      edges.map Edge.from ++ edges.map Edge.to := by
  intro id member
  obtain ⟨edge, listed, rfl⟩ := List.mem_map.mp (mem_intoIter.mp member)
  exact List.mem_append_left _ (List.mem_map.mpr ⟨edge, (List.mem_filter.mp listed).1, rfl⟩)

theorem acyclic_of_checkCycles (none : checkCycles edges = []) : Acyclic edges := by
  have closed : cycles edges = [] := by
    cases found : cycles edges with
    | nil => rfl
    | cons cycle rest => simp [checkCycles, found, distinctCycles] at none
  have covered : ∀ id, adjacency edges id ≠ [] →
      id ∈ intoIter ((edges.filter Edge.neededToStart).map Edge.from) := by
    intro id some
    obtain ⟨dep, member⟩ := List.exists_mem_of_ne_nil _ some
    rw [adjacency, mem_intoIter] at member
    obtain ⟨edge, listed, needed, rfl, -⟩ := mem_requirements.mp member
    exact mem_intoIter.mpr (List.mem_map.mpr ⟨edge, List.mem_filter.mpr ⟨listed, needed⟩, rfl⟩)
  have ends := Digraph.wellFounded_of_loops_nil (adjacency edges) (adjacency_subset edges)
    (roots_subset edges) covered (Nat.le_refl _) closed
  apply Subrelation.wf _ ends
  intro dep id needs
  exact mem_intoIter.mpr (mem_requirements.mpr needs)

theorem Acyclic.irrefl (acyclic : Acyclic edges) (loop : Relation.TransGen (Needs edges) id id) :
    False := by
  have ends : WellFounded (Relation.TransGen fun dep id => Needs edges id dep) :=
    WellFounded.transGen acyclic
  exact ends.irrefl.irrefl id (Relation.transGen_swap.mpr loop)

/-! ## The graph -/

/-- Everything the workspace's files declare, and what is wrong with it. -/
structure Graph where
  workspaceName : String
  nodes : List Node
  edges : List Edge
  flows : List String := []
  warnings : List Warning := []

namespace Graph

variable (graph : Graph)

/-- The node of an id, the last if several had it. -/
def node? (id : String) : Option Node := graph.nodes.reverse.find? fun node => node.id == id

/-- The ids and the migrations of any store among them. -/
def withMigrations (ids : List String) : List String :=
  let set := addMigrations graph.nodes graph.edges graph.nodes.length ids
  ids ++ (intoIter set).filter (· ∉ ids)

/-- The nodes a flow starts; a flow nobody declares is an error. -/
def startIds (flow : String) : Except String (List String) :=
  if flow ∈ graph.flows then
    .ok ((graph.nodes.filter fun node => flow ∈ node.flows).map Node.id)
  else
    .error ("no flow named '" ++ flow ++ "' — flows are written `\x7brepo\x7d/\x7bflow\x7d`; " ++
      "this workspace has: " ++
      if graph.flows.isEmpty then "none" else ", ".intercalate graph.flows)

/-- The warnings that refuse a start. -/
def blockingWarnings : List Warning := graph.warnings.filter Warning.isBlocking

/-- Every blocking warning in one error. -/
def refuseIfBlocked : Except String Unit :=
  let blocking := graph.blockingWarnings
  if blocking.isEmpty then .ok ()
  else
    .error ("refusing to start: the workspace has " ++ toString blocking.length ++
      " unresolved configuration " ++
      (if blocking.length = 1 then "problem" else "problems") ++ ":\n" ++
      "\n".intercalate (blocking.map fun warning => "  - " ++ warning.message))

/-- What the resolver promises of a graph it has no blocking warning about. -/
structure Startable : Prop where
  ids_nodup : (graph.nodes.map Node.id).Nodup
  ends_known : ∀ edge ∈ graph.edges,
    edge.from ∈ graph.nodes.map Node.id ∧ edge.to ∈ graph.nodes.map Node.id
  acyclic : Acyclic graph.edges
  /-- Whatever migrates or seeds a store is a task. -/
  store_task : ∀ node ∈ graph.nodes, node.migrates.isSome ∨ node.seeds ≠ [] → node.kind = .task
  /-- A migration runs on every start. -/
  migration_runs : ∀ node ∈ graph.nodes, node.migrates.isSome →
    node.seeds = [] ∧ node.runPolicy ≠ some "once"
  /-- What is migrated stays up. -/
  store_stays : ∀ node ∈ graph.nodes, ∀ store, node.migrates = some store →
    ∃ target ∈ graph.nodes, target.id = store ∧ target.kind ≠ .task
  /-- A flow starts what its nodes need, and the migrations of its stores. -/
  flow_needs : ∀ flow, ∀ node ∈ graph.nodes, flow ∈ node.flows → ∀ target ∈ graph.nodes,
    Needs graph.edges node.id target.id → flow ∈ target.flows
  flow_migrates : ∀ flow, ∀ node ∈ graph.nodes, flow ∈ node.flows → ∀ task ∈ graph.nodes,
    task.migrates = some node.id → flow ∈ task.flows

variable {graph}

theorem node?_eq_some {node : Node} (found : graph.node? id = some node) :
    node ∈ graph.nodes ∧ node.id = id := by
  have member := List.mem_of_find?_eq_some found
  have named := List.find?_some found
  exact ⟨List.mem_reverse.mp member, by simpa using named⟩

/-- Ids are unique, so looking up the id of a node finds the node. -/
theorem Startable.node?_id (startable : graph.Startable) {node : Node}
    (member : node ∈ graph.nodes) : graph.node? node.id = some node := by
  cases found : graph.node? node.id with
  | none =>
      have absent := List.find?_eq_none.mp found node (List.mem_reverse.mpr member)
      simp at absent
  | some other =>
      obtain ⟨listed, named⟩ := node?_eq_some found
      rw [List.inj_on_of_nodup_map startable.ids_nodup listed member named]

theorem Startable.exists_node (startable : graph.Startable) (known : id ∈ graph.nodes.map Node.id) :
    ∃ node ∈ graph.nodes, graph.node? id = some node := by
  obtain ⟨node, member, rfl⟩ := List.mem_map.mp known
  exact ⟨node, member, startable.node?_id member⟩

theorem Startable.needs_known (startable : graph.Startable) {id dep : String}
    (needs : Needs graph.edges id dep) :
    id ∈ graph.nodes.map Node.id ∧ dep ∈ graph.nodes.map Node.id := by
  obtain ⟨edge, member, -, rfl, rfl⟩ := needs
  exact startable.ends_known edge member

theorem withMigrations_mem {ids : List String} :
    id ∈ graph.withMigrations ids ↔
      id ∈ addMigrations graph.nodes graph.edges graph.nodes.length ids := by
  have kept := (addMigrations_spec graph.nodes graph.edges (length_missing_ids graph.nodes ids)).1
  simp only [withMigrations, List.mem_append, List.mem_filter, mem_intoIter, decide_eq_true_eq]
  constructor
  · rintro (given | ⟨added, -⟩)
    · exact kept given
    · exact added
  · intro member
    by_cases given : id ∈ ids
    · exact .inl given
    · exact .inr ⟨member, given⟩

/-- The ids with their migrations: nothing is lost, every store has its migration, and everything
added is a node. -/
theorem Startable.withMigrations_spec (startable : graph.Startable) (ids : List String) :
    ids ⊆ graph.withMigrations ids ∧
      (∀ node ∈ graph.nodes, ∀ store ∈ graph.withMigrations ids, node.migrates = some store →
        node.id ∈ graph.withMigrations ids) ∧
      (ids ⊆ graph.nodes.map Node.id → graph.withMigrations ids ⊆ graph.nodes.map Node.id) ∧
      (ids.Nodup → (graph.withMigrations ids).Nodup) := by
  obtain ⟨-, migrated, -, origin⟩ :=
    addMigrations_spec graph.nodes graph.edges (length_missing_ids graph.nodes ids)
  refine ⟨List.subset_append_left _ _, ?_, ?_, ?_⟩
  · intro node member store inside migrates
    exact withMigrations_mem.mpr (migrated node member store (withMigrations_mem.mp inside)
      migrates)
  · intro known id member
    rcases origin id (withMigrations_mem.mp member) with given | node | ⟨other, needs⟩
    · exact known given
    · exact node
    · exact (startable.needs_known needs).2
  · intro distinct
    apply List.Nodup.append distinct ((intoIter_nodup _).filter _)
    intro id given added
    exact of_decide_eq_true (List.mem_filter.mp added).2 given

end Graph
end Fghj
