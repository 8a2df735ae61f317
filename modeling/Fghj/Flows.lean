import Fghj.FlowMembers
import Mathlib.Order.Bounds.Basic

/-!
# What a flow starts

A flow starts its members with everything that is needed, migrates a store or is pulled along. The
resolver adds that in three loops; what they leave is the least closed set that holds the members,
whatever the order in which anything is held and however flows, includes and needs go round in
circles.
-/

namespace Fghj
namespace Resolver

open Std

namespace ResolveCtx

variable (ctx : ResolveCtx)

/-! ## Start sets -/

/-- Holding a node, the set holds what it needs; holding a store, its migration; and holding what
waits on a flow, the seeds of that flow. -/
structure StartClosed (set : Set String) : Prop where
  needs : ∀ id ∈ set, ∀ dep, Needs ctx.edges id dep → dep ∈ set
  migrations : ∀ node ∈ OrderedMap.listed ctx.nodes, ∀ store ∈ set, node.migrates = some store →
    node.id ∈ set
  seeds : ∀ pulled ∈ ctx.seedsPulled, pulled.1 ∈ set → pulled.2 ∈ set

/-- The seeds that are pulled and not in the set. -/
def missingSeeds (start : List String) : List String :=
  (ctx.seedsPulled.filter fun pulled => pulled.1 ∈ start && pulled.2 ∉ start).map Prod.snd

/-- The set with some seeds, what they need and the migrations of all. -/
def withSeeds (nodes : List Node) (start missing : List String) : List String :=
  addMigrations nodes ctx.edges nodes.length (withRequired ctx.edges start (intoIter missing))

theorem addPulledSeeds_eq_saturate (nodes : List Node) (fuel : Nat) (start : List String) :
    ctx.addPulledSeeds nodes fuel start =
      Saturation.saturate ctx.missingSeeds (ctx.withSeeds nodes) fuel start := by
  induction fuel generalizing start with
  | zero => rfl
  | succ fuel ih =>
      rw [addPulledSeeds, Saturation.saturate]
      cases missing : ctx.missingSeeds start with
      | nil =>
          rw [missingSeeds] at missing
          rw [missing]
      | cons first rest =>
          have same := missing
          rw [missingSeeds] at same
          rw [same]
          exact ih _

theorem mem_missingSeeds {start : List String} {seed : String} :
    seed ∈ ctx.missingSeeds start ↔
      ∃ pulled ∈ ctx.seedsPulled, pulled.1 ∈ start ∧ pulled.2 = seed ∧ seed ∉ start := by
  simp only [missingSeeds, List.mem_map, List.mem_filter, Bool.and_eq_true, decide_eq_true_eq]
  constructor
  · rintro ⟨pulled, ⟨listed, inside, outside⟩, rfl⟩
    exact ⟨pulled, listed, inside, rfl, outside⟩
  · rintro ⟨pulled, listed, inside, rfl, outside⟩
    exact ⟨pulled, ⟨listed, inside, outside⟩, rfl⟩

theorem lacked_seeds (start : List String) :
    ∀ id ∈ ctx.missingSeeds start, id ∈ ctx.seedsPulled.map Prod.snd ∧ id ∉ start := by
  intro id missing
  obtain ⟨pulled, listed, -, rfl, outside⟩ := ctx.mem_missingSeeds.mp missing
  exact ⟨List.mem_map_of_mem listed, outside⟩

theorem subset_addMigrations (nodes : List Node) (set : List String) :
    set ⊆ addMigrations nodes ctx.edges nodes.length set := by
  have enough := Digraph.length_missing_le (nodes.map Node.id) set
  rw [List.length_map] at enough
  exact (addMigrations_spec nodes ctx.edges enough).1

theorem grows_withSeeds (nodes : List Node) (start missing : List String) :
    start ⊆ ctx.withSeeds nodes start missing ∧ missing ⊆ ctx.withSeeds nodes start missing := by
  obtain ⟨kept, added⟩ := withRequired_grows ctx.edges start (intoIter missing)
  refine ⟨List.Subset.trans kept (ctx.subset_addMigrations nodes _), fun id member => ?_⟩
  exact ctx.subset_addMigrations nodes _ (added (mem_intoIter.mpr member))

variable {set : Set String}

theorem StartClosed.requiredClosure (closed : ctx.StartClosed set) {ids : List String}
    (inside : ∀ id ∈ ids, id ∈ set) : ∀ id ∈ Fghj.requiredClosure ctx.edges ids, id ∈ set := by
  intro id member
  rcases (requiredClosure_spec ctx.edges ids).2.2 id member with start | ⟨start, listed, path⟩
  · exact inside id start
  · have reached : ∀ last, Relation.TransGen (Needs ctx.edges) start last → last ∈ set := by
      intro last path
      induction path with
      | single needs => exact closed.needs _ (inside start listed) _ needs
      | tail _ needs member => exact closed.needs _ member _ needs
    exact reached id path

theorem StartClosed.withRequired (closed : ctx.StartClosed set) {ids missing : List String}
    (inside : ∀ id ∈ ids, id ∈ set) (added : ∀ id ∈ missing, id ∈ set) :
    ∀ id ∈ Fghj.withRequired ctx.edges ids missing, id ∈ set := by
  intro id member
  rcases mem_withRequired.mp member with old | new
  · exact inside id old
  · exact closed.requiredClosure ctx added id new

theorem StartClosed.addMigrations (closed : ctx.StartClosed set) {nodes : List Node}
    (lists : ctx.Lists nodes) {ids : List String} (inside : ∀ id ∈ ids, id ∈ set) (fuel : Nat) :
    ∀ id ∈ Fghj.addMigrations nodes ctx.edges fuel ids, id ∈ set := by
  rw [addMigrations_eq_saturate]
  apply Saturation.saturate_invariant _ _ (fun ids => ∀ id ∈ ids, id ∈ set) _ fuel inside
  intro ids inside _
  apply closed.withRequired ctx inside
  intro id missing
  obtain ⟨node, member, store, stored, migrates, rfl, -⟩ := mem_missingMigrations.mp missing
  exact closed.migrations node ((lists node).mp member) store (inside store stored) migrates

/-- A closed set that holds the members holds what a start of them brings up. -/
theorem StartClosed.startSet (closed : ctx.StartClosed set) {nodes : List Node}
    (lists : ctx.Lists nodes) {members : List String} (inside : ∀ id ∈ members, id ∈ set) :
    ∀ id ∈ ctx.startSetOf nodes members, id ∈ set := by
  rw [ResolveCtx.startSetOf, addPulledSeeds_eq_saturate]
  apply Saturation.saturate_invariant _ _ (fun ids => ∀ id ∈ ids, id ∈ set)
  · intro ids inside _
    apply closed.addMigrations ctx lists
    apply closed.withRequired ctx inside
    intro id missing
    obtain ⟨pulled, listed, waits, rfl, -⟩ := ctx.mem_missingSeeds.mp (mem_intoIter.mp missing)
    exact closed.seeds pulled listed (inside _ waits)
  · apply closed.addMigrations ctx lists
    apply closed.requiredClosure
    exact fun id member => inside id (mem_intoIter.mp member)

/-- A start of some members brings up the least closed set that holds them. -/
theorem isLeast_startSet {nodes : List Node} (lists : ctx.Lists nodes) (members : List String) :
    IsLeast { set | { id | id ∈ members } ⊆ set ∧ ctx.StartClosed set }
      { id | id ∈ ctx.startSetOf nodes members } := by
  constructor
  · constructor
    · intro id member
      have first := (requiredClosure_spec ctx.edges (intoIter members)).1 (mem_intoIter.mpr member)
      rw [Set.mem_ofPred_eq, startSetOf, addPulledSeeds_eq_saturate]
      apply Saturation.saturate_invariant _ _ (fun ids => id ∈ ids)
      · exact fun ids inside _ => (ctx.grows_withSeeds nodes ids _).1 inside
      · exact ctx.subset_addMigrations nodes _ first
    · obtain ⟨needs, migrations⟩ := closed_startSet lists members
      refine ⟨needs, migrations, fun pulled listed waits => ?_⟩
      by_contra outside
      have enough := Digraph.length_missing_le (ctx.seedsPulled.map Prod.snd)
        (Fghj.addMigrations nodes ctx.edges nodes.length
          (requiredClosure ctx.edges (intoIter members)))
      rw [List.length_map] at enough
      have ends := Saturation.lacks_saturate ctx.lacked_seeds
        (fun start => ctx.grows_withSeeds nodes start _) enough
      rw [← addPulledSeeds_eq_saturate, ← startSetOf] at ends
      have missing := ctx.mem_missingSeeds.mpr ⟨pulled, listed, waits, rfl, outside⟩
      rw [ends] at missing
      cases missing
  · rintro set ⟨inside, closed⟩
    exact closed.startSet ctx lists inside

/-! ## Pulled seeds -/

/-- Every pulled seed is a node. -/
def PulledKnown : Prop := ∀ pulled ∈ ctx.seedsPulled, pulled.2 ∈ ctx.nodes

section Pulled

variable {ctx} {next : ResolveCtx}

theorem PulledKnown.extend (known : ctx.PulledKnown) (later : Extends ctx next)
    (same : next.seedsPulled = ctx.seedsPulled) : next.PulledKnown := by
  intro pulled listed
  rw [same] at listed
  exact later.nodes _ (known pulled listed)

/-- Steps that pull nothing, one after the other, pull nothing. -/
theorem foldl_seedsPulled {α : Type} {step : ResolveCtx → α → ResolveCtx}
    (each : ∀ ctx entry, (step ctx entry).seedsPulled = ctx.seedsPulled) (entries : List α)
    (ctx : ResolveCtx) : (entries.foldl step ctx).seedsPulled = ctx.seedsPulled := by
  induction entries generalizing ctx with
  | nil => rfl
  | cons entry entries ih => rw [List.foldl_cons, ih, each]

theorem addRepoNodes_seedsPulled (ctx : ResolveCtx) (repo : String × ComponentConfig) :
    (ctx.addRepoNodes repo).seedsPulled = ctx.seedsPulled := by
  refine (@foldl_seedsPulled _ (addServiceNode repo.1) (fun _ _ => rfl) _ _).trans ?_
  split <;> rfl

theorem addIncludes_seedsPulled (toLowercase : String → String) (ctx : ResolveCtx)
    (repo : String × ComponentConfig) :
    (ctx.addIncludes toLowercase repo).seedsPulled = ctx.seedsPulled := by
  refine List.foldlRecOn (motive := fun acc : ResolveCtx × OrderedMap String String =>
    acc.1.seedsPulled = ctx.seedsPulled) _ _ rfl fun acc same entry _ => ?_
  rw [← same]
  simp only [addInclude]
  split <;> split <;> rfl

theorem markTasks_seedsPulled (ctx : ResolveCtx) (repo : String × ComponentConfig) :
    (ctx.markTasks repo).seedsPulled = ctx.seedsPulled := by
  apply foldl_seedsPulled
  intro ctx entry
  simp only [markTask]
  split <;> rfl

theorem PulledKnown.addRepoNodes (known : ctx.PulledKnown) (repo : String × ComponentConfig) :
    (ctx.addRepoNodes repo).PulledKnown :=
  known.extend (extends_addRepoNodes ctx repo) (addRepoNodes_seedsPulled ctx repo)

theorem PulledKnown.addIncludes (known : ctx.PulledKnown) (toLowercase : String → String)
    (repo : String × ComponentConfig) : (ctx.addIncludes toLowercase repo).PulledKnown :=
  known.extend (addIncludes_spec toLowercase ctx repo).1
    (addIncludes_seedsPulled toLowercase ctx repo)

theorem PulledKnown.markTasks (known : ctx.PulledKnown) (repo : String × ComponentConfig) :
    (ctx.markTasks repo).PulledKnown :=
  known.extend (extends_markTasks ctx repo) (markTasks_seedsPulled ctx repo)

theorem PulledKnown.addMember (known : ctx.PulledKnown) (source : String) (entry : DependsOnEntry)
    (via member : String) : (addMember source entry via ctx member).PulledKnown := by
  rw [ResolveCtx.addMember]
  split
  · rename_i seed
    split
    · intro pulled listed
      rcases List.mem_append.mp listed with old | new
      · exact known pulled old
      · rw [List.mem_singleton.mp new]
        rw [Option.any_eq_true] at seed
        obtain ⟨node, filed, -⟩ := seed
        exact ExtTreeMap.mem_iff_isSome_getElem?.mpr (Option.isSome_of_eq_some filed)
    · exact known
  · exact known

theorem PulledKnown.addForeign (known : ctx.PulledKnown) (localPath source key : String)
    (target : Target) (entry : DependsOnEntry) :
    (ctx.addForeign localPath source key target entry).PulledKnown := by
  simp only [ResolveCtx.addForeign]
  split
  · exact known
  have checked : (if entry.required then ctx
      else ctx.warn (checkRuntimeCondition source key entry.condition)).PulledKnown := by
    split <;> exact known
  split
  · exact checked
  · exact List.foldlRecOn _ _ checked fun ctx known member _ =>
      known.addMember source entry _ member

theorem PulledKnown.addDependency (known : ctx.PulledKnown) (repo : String × ComponentConfig)
    (source : String) (dependency : String × DependsOnEntry) :
    (addDependency repo source ctx dependency).PulledKnown := by
  simp only [ResolveCtx.addDependency]
  split
  · split
    · split <;> exact known
    split
    · exact known
    split
    · exact known.addForeign _ _ _ _ _
    · exact known
  · split
    · exact known.addForeign _ _ _ _ _
    · exact known

theorem PulledKnown.addDependencyEdges (known : ctx.PulledKnown)
    (repo : String × ComponentConfig) : (ctx.addDependencyEdges repo).PulledKnown :=
  List.foldlRecOn _ _ known fun _ known _ _ =>
    List.foldlRecOn _ _ known fun _ known dependency _ => known.addDependency repo _ dependency

theorem addStoreEdges_seedsPulled (ctx : ResolveCtx) :
    ctx.addStoreEdges.seedsPulled = ctx.seedsPulled := by
  rw [addStoreEdges_eq]
  refine List.foldlRecOn (motive := fun acc : ResolveCtx × OrderedMap String String =>
    acc.1.seedsPulled = ctx.seedsPulled) _ _ rfl fun acc same task _ => ?_
  have stores : ((storesOf task).foldl (addStoreEdge task.id) acc.1).seedsPulled =
      ctx.seedsPulled := by
    rw [foldl_seedsPulled, same]
    intro ctx store
    rw [addStoreEdge]
    split
    · rfl
    split
    · rfl
    split <;> rfl
  rw [addStoreTask]
  split
  · exact stores
  split <;> exact stores

theorem PulledKnown.addStoreEdges (known : ctx.PulledKnown) (sound : Sound ctx) :
    ctx.addStoreEdges.PulledKnown :=
  known.extend (extends_addStoreEdges sound) (addStoreEdges_seedsPulled ctx)

end Pulled

/-! ## Tagged nodes -/

/-- The nodes that carry the tag of a flow. -/
def tagged (flow : String) : Set String :=
  { id | ∃ node, ctx.nodes[id]? = some node ∧ flow ∈ node.flows }

/-- What the last phase relies on. -/
structure Ready : Prop where
  filed : ∀ (id : String) (node : Node), ctx.nodes[id]? = some node → node.id = id ∧ node.flows = []
  targets : ∀ edge ∈ ctx.edges, edge.to ∈ ctx.nodes
  pulled : ctx.PulledKnown
  declared : Declared ctx.scanned ctx
  valid : ∀ (repo : String) (component : ComponentConfig), ctx.scanned[repo]? = some component →
    ∀ flow ∈ component.flows, Name.whyInvalid flow = none

section Tagged

variable {ctx} (ready : ctx.Ready)

/-- A flow's tag tells the repo and the flow. -/
theorem flowTag_inj {repo other name otherName : String} (valid : Name.whyInvalid name = none)
    (otherValid : Name.whyInvalid otherName = none)
    (same : repo ++ "/" ++ name = other ++ "/" ++ otherName) : repo = other ∧ name = otherName := by
  have shape (repo name : String) : (repo ++ "/" ++ name).toList.reverse =
      name.toList.reverse ++ '/' :: repo.toList.reverse := by
    simp
  have absent {name : String} (valid : Name.whyInvalid name = none) :
      '/' ∉ name.toList.reverse := by
    rw [List.mem_reverse]
    exact Name.slash_not_mem valid
  have chars := congrArg (fun text => text.toList.reverse) same
  rw [shape, shape] at chars
  rw [Text.append_separator_inj (absent valid) (absent otherValid), List.reverse_inj,
    List.reverse_inj] at chars
  exact ⟨String.toList_inj.mp chars.2, String.toList_inj.mp chars.1⟩

include ready

theorem Ready.closed_nodes : ctx.StartClosed { id | id ∈ ctx.nodes } where
  needs := by
    rintro id - dep ⟨edge, listed, -, -, rfl⟩
    exact ready.targets edge listed
  migrations := by
    intro node listed store _ _
    rw [OrderedMap.mem_listed] at listed
    obtain ⟨id, filed⟩ := listed
    rw [(ready.filed id node filed).1]
    exact ExtTreeMap.mem_iff_isSome_getElem?.mpr (Option.isSome_of_eq_some filed)
  seeds := fun pulled listed _ => ready.pulled pulled listed

/-- A node carries the tag of a flow exactly if a start of the flow's members brings it up. -/
theorem Ready.mem_tagged_iff {repo name : String} {component : ComponentConfig}
    {entries : List String} (scans : ctx.scanned[repo]? = some component)
    (declares : component.flows[name]? = some entries) {id : String} :
    id ∈ ctx.resolveFlows.1.tagged (repo ++ "/" ++ name) ↔
      id ∈ ctx.startSet (ctx.expandFlow ctx.flowFuel 0 {} (repo, name)).out := by
  have filed {component : ComponentConfig} {name : String} {entries : List String}
      (declares : component.flows[name]? = some entries) : name ∈ component.flows :=
    ExtTreeMap.mem_iff_isSome_getElem?.mpr (Option.isSome_of_eq_some declares)
  have member (start : List String) : (repo ++ "/" ++ name, start) ∈ ctx.memberships ↔
      start = ctx.startSet (ctx.expandFlow ctx.flowFuel 0 {} (repo, name)).out := by
    simp only [memberships, expandedFlows, List.mem_map, List.mem_flatMap, Prod.exists,
      ExtTreeMap.mem_toList_iff_getElem?_eq_some]
    constructor
    · rintro ⟨tag, expanded, ⟨other, otherComponent, otherScans, otherName, otherEntries,
        otherDeclares, equal⟩, same⟩
      obtain ⟨rfl, rfl⟩ := Prod.mk.inj equal
      obtain ⟨tags, rfl⟩ := Prod.mk.inj same
      obtain ⟨rfl, rfl⟩ := flowTag_inj
        (ready.valid other otherComponent otherScans otherName (filed otherDeclares))
        (ready.valid repo component scans name (filed declares)) tags
      rfl
    · rintro rfl
      exact ⟨_, _, ⟨repo, component, scans, name, entries, declares, rfl⟩, rfl⟩
  simp only [tagged, Set.mem_ofPred_eq, resolveFlows_nodes, Option.map_eq_some_iff]
  constructor
  · rintro ⟨-, ⟨held, lookup, rfl⟩, carries⟩
    obtain ⟨start, listed, inside⟩ := (mem_inFlows_flows (ready.filed id held lookup).2).mp carries
    rwa [(member start).mp listed] at inside
  · intro inside
    have known : id ∈ ctx.nodes := ready.closed_nodes.startSet ctx (fun _ => Iff.rfl)
      (expandFlow_known ready.declared _ _ (by simp) _) id inside
    obtain ⟨held, lookup⟩ := Option.isSome_iff_exists.mp
      (ExtTreeMap.mem_iff_isSome_getElem?.mp known)
    exact ⟨_, ⟨held, lookup, rfl⟩, (mem_inFlows_flows (ready.filed id held lookup).2).mpr
      ⟨_, (member _).mpr rfl, inside⟩⟩

/-- The tagged nodes are the least closed set that holds what the flow names. -/
theorem Ready.isLeast_tagged {repo name : String} {component : ComponentConfig}
    {entries : List String} (scans : ctx.scanned[repo]? = some component)
    (declares : component.flows[name]? = some entries) :
    IsLeast { set | { id | ctx.FlowMember (repo, name) id } ⊆ set ∧ ctx.StartClosed set }
      (ctx.resolveFlows.1.tagged (repo ++ "/" ++ name)) := by
  have tags : ctx.resolveFlows.1.tagged (repo ++ "/" ++ name) =
      { id | id ∈ ctx.startSet (ctx.expandFlow ctx.flowFuel 0 {} (repo, name)).out } :=
    Set.ext fun id => ready.mem_tagged_iff scans declares
  have members : { id | ctx.FlowMember (repo, name) id } =
      { id | id ∈ (ctx.expandFlow ctx.flowFuel 0 {} (repo, name)).out } :=
    Set.ext fun id => ctx.mem_expandFlow.symm
  rw [tags, members]
  exact ctx.isLeast_startSet (fun _ => Iff.rfl) _

end Tagged

/-! ## Order and ends -/

/-- The other resolution holds the same, in whatever order it came to hold it. -/
structure SameParts (other : ResolveCtx) : Prop where
  scanned : ∀ repo : String, other.scanned[repo]? = ctx.scanned[repo]?
  includes : ∀ repo : String, other.includes[repo]? = ctx.includes[repo]?
  nodes : ∀ id : String, other.nodes[id]? = ctx.nodes[id]?
  edges : ∀ edge, edge ∈ other.edges ↔ edge ∈ ctx.edges
  pulled : ∀ pulled, pulled ∈ other.seedsPulled ↔ pulled ∈ ctx.seedsPulled

section Same

variable {ctx} {other : ResolveCtx}

theorem RepoMember.congr (scanned : other.scanned = ctx.scanned)
    (includes : other.includes = ctx.includes) (nodes : other.nodes = ctx.nodes) {repo id : String}
    (member : ctx.RepoMember repo id) : other.RepoMember repo id := by
  induction member with
  | stub absent known =>
      exact .stub (by simpa [isScanned, scanned] using absent) (by simpa [nodes] using known)
  | own scans filed downloaded path =>
      exact .own (by simpa [isScanned, scanned] using scans) (by simpa [nodes] using filed)
        downloaded path
  | included scans listed _ member =>
      exact .included (by simpa [isScanned, scanned] using scans)
        (by simpa [includedBy, includes] using listed) member

theorem meaning_congr (scanned : other.scanned = ctx.scanned)
    (includes : other.includes = ctx.includes) : other.meaning = ctx.meaning := by
  funext repo component entry
  simp only [meaning, aliasTarget, checkForeignFlow, scanned, includes]

theorem Names.congr (scanned : other.scanned = ctx.scanned)
    (includes : other.includes = ctx.includes) {flow : String × String} {meant : Meaning}
    (named : ctx.Names flow meant) : other.Names flow meant := by
  obtain ⟨component, entries, entry, scans, declares, member, means⟩ := named
  refine ⟨component, entries, entry, by rw [scanned, scans], declares, member, ?_⟩
  rw [meaning_congr scanned includes, means]

theorem FlowMember.congr (scanned : other.scanned = ctx.scanned)
    (includes : other.includes = ctx.includes) (nodes : other.nodes = ctx.nodes)
    {flow : String × String} {id : String} (member : ctx.FlowMember flow id) :
    other.FlowMember flow id := by
  induction member with
  | stub absent known =>
      exact .stub (by simpa [isScanned, scanned] using absent) (by simpa [nodes] using known)
  | service named => exact .service (named.congr scanned includes)
  | whole named member =>
      exact .whole (named.congr scanned includes) (member.congr scanned includes nodes)
  | flow named _ member => exact .flow (named.congr scanned includes) member

theorem SameParts.startClosed_iff (same : ctx.SameParts other) (set : Set String) :
    other.StartClosed set ↔ ctx.StartClosed set := by
  have nodes : other.nodes = ctx.nodes := ExtTreeMap.ext_getElem? same.nodes
  have needs (id dep : String) : Needs other.edges id dep ↔ Needs ctx.edges id dep := by
    simp only [Needs, same.edges]
  constructor
  · rintro ⟨needed, migrated, seeded⟩
    refine ⟨fun id member dep need => needed id member dep ((needs id dep).mpr need), ?_,
      fun pulled listed => seeded pulled ((same.pulled pulled).mpr listed)⟩
    rwa [nodes] at migrated
  · rintro ⟨needed, migrated, seeded⟩
    refine ⟨fun id member dep need => needed id member dep ((needs id dep).mp need), ?_,
      fun pulled listed => seeded pulled ((same.pulled pulled).mp listed)⟩
    rwa [nodes]

theorem SameParts.ready (same : ctx.SameParts other) (ready : ctx.Ready) : other.Ready := by
  have nodes : other.nodes = ctx.nodes := ExtTreeMap.ext_getElem? same.nodes
  have scanned : other.scanned = ctx.scanned := ExtTreeMap.ext_getElem? same.scanned
  constructor
  · rw [nodes]
    exact ready.filed
  · intro edge listed
    rw [nodes]
    exact ready.targets edge ((same.edges edge).mp listed)
  · intro pulled listed
    rw [nodes]
    exact ready.pulled pulled ((same.pulled pulled).mp listed)
  · refine ⟨rfl, ?_⟩
    rw [scanned, nodes]
    exact ready.declared.service_known
  · rw [scanned]
    exact ready.valid

/-- The tags do not depend on the order in which anything is held. -/
theorem SameParts.tagged_eq (same : ctx.SameParts other) (ready : ctx.Ready) {repo name : String}
    {component : ComponentConfig} {entries : List String}
    (scans : ctx.scanned[repo]? = some component)
    (declares : component.flows[name]? = some entries) :
    other.resolveFlows.1.tagged (repo ++ "/" ++ name) =
        ctx.resolveFlows.1.tagged (repo ++ "/" ++ name) ∧
      ∀ nodes members, nodes.Perm (OrderedMap.listed other.nodes) →
        (∀ id, id ∈ members ↔ ctx.FlowMember (repo, name) id) →
        { id | id ∈ other.startSetOf nodes members } =
          ctx.resolveFlows.1.tagged (repo ++ "/" ++ name) := by
  have nodes : other.nodes = ctx.nodes := ExtTreeMap.ext_getElem? same.nodes
  have scanned : other.scanned = ctx.scanned := ExtTreeMap.ext_getElem? same.scanned
  have includes : other.includes = ctx.includes := ExtTreeMap.ext_getElem? same.includes
  have here := ready.isLeast_tagged scans declares
  have there := (same.ready ready).isLeast_tagged (by rw [scanned, scans]) declares
  have members : { id | other.FlowMember (repo, name) id } =
      { id | ctx.FlowMember (repo, name) id } :=
    Set.ext fun id => ⟨.congr scanned.symm includes.symm nodes.symm, .congr scanned includes nodes⟩
  simp only [members, same.startClosed_iff] at there
  refine ⟨IsLeast.unique there here, fun nodes members listing named => ?_⟩
  have least := other.isLeast_startSet (fun node => listing.mem_iff) members
  simp only [named, same.startClosed_iff] at least
  exact IsLeast.unique least here

end Same

/-- The two searches and the three loops come to their ends by themselves. -/
structure SearchesEnd : Prop where
  repos : ∀ out repo, Traversal.traverseWithin ctx.repoPlan ctx.repoFuel 0 ([], out) repo =
    some (ctx.repoMembers ctx.repoFuel ([], out) repo)
  flows : ∀ flow, Traversal.traverseWithin ctx.flowPlan ctx.flowFuel 0 {} flow =
    some (ctx.expandFlow ctx.flowFuel 0 {} flow)
  needs : ∀ ids, Digraph.searchWithin (requirements ctx.edges) (ids.length + ctx.edges.length) ids
    ids.reverse = some (requiredClosure ctx.edges ids)
  migrations : ∀ set, Saturation.saturateWithin (missingMigrations (OrderedMap.listed ctx.nodes))
    (withRequired ctx.edges) (OrderedMap.listed ctx.nodes).length set =
      some (addMigrations (OrderedMap.listed ctx.nodes) ctx.edges
        (OrderedMap.listed ctx.nodes).length set)
  seeds : ∀ nodes start, Saturation.saturateWithin ctx.missingSeeds (ctx.withSeeds nodes)
    ctx.seedsPulled.length start = some (ctx.addPulledSeeds nodes ctx.seedsPulled.length start)

theorem searchesEnd : ctx.SearchesEnd where
  repos := by
    intro out repo
    have fuel := ctx.includers_length
    rw [ctx.repoMembers_eq_traverse ctx.repoFuel 0]
    apply Traversal.traverseWithin_eq_some fun repo => ctx.mem_includers
    have fits := Digraph.length_missing_le ctx.includers (ctx.repoPlan.seen ([], out))
    omega
  flows := by
    intro flow
    have fuel := ctx.namers_length
    rw [ctx.expandFlow_eq_traverse]
    apply Traversal.traverseWithin_eq_some fun flow => ctx.mem_namers_of_items
    have fits := Digraph.length_missing_le ctx.namers (ctx.flowPlan.seen {})
    omega
  needs := requiredClosure_within ctx.edges
  migrations := addMigrations_within _ ctx.edges
  seeds := by
    intro nodes start
    have enough := Digraph.length_missing_le (ctx.seedsPulled.map Prod.snd) start
    rw [List.length_map] at enough
    rw [addPulledSeeds_eq_saturate]
    exact Saturation.saturateWithin_eq_some ctx.lacked_seeds
      (fun start => ctx.grows_withSeeds nodes start _) enough

/-! ## Complaints -/

/-- What is wrong with the entries of a flow. -/
def flowComplaints (repo : String × ComponentConfig) (flow : String × List String) : List Warning :=
  (flow.2.filterMap (ctx.complaint repo.1 repo.2)).map fun why =>
    .blocking ("flow '" ++ (repo.1 ++ "/" ++ flow.1) ++ "' " ++ why)

/-- Every entry that names nothing is reported once, under its own flow. -/
theorem resolveFlows_warnings :
    ctx.resolveFlows.1.warnings = ctx.warnings ++
      ctx.scanned.toList.flatMap fun repo =>
        repo.2.flows.toList.flatMap (ctx.flowComplaints repo) := by
  have reported : ctx.resolveFlows.1.warnings = ctx.warnings ++
      ctx.expandedFlows.flatMap fun flow => flow.2.errors.map fun message =>
        Warning.blocking ("flow '" ++ flow.1 ++ "' " ++ message) := rfl
  rw [reported, expandedFlows, List.flatMap_assoc]
  congr 1
  apply List.flatMap_congr
  rintro ⟨repo, component⟩ scans
  rw [List.flatMap_map]
  apply List.flatMap_congr
  rintro ⟨name, entries⟩ declares
  rw [flowComplaints, ctx.expandFlow_errors (ExtTreeMap.mem_toList_iff_getElem?_eq_some.mp scans)
    (ExtTreeMap.mem_toList_iff_getElem?_eq_some.mp declares)]

/-- Every flow is resolved as it should be. -/
structure FlowsResolved : Prop where
  least : ∀ (repo name : String) (component : ComponentConfig) (entries : List String),
    ctx.scanned[repo]? = some component → component.flows[name]? = some entries →
      IsLeast { set | { id | ctx.FlowMember (repo, name) id } ⊆ set ∧ ctx.StartClosed set }
        (ctx.resolveFlows.1.tagged (repo ++ "/" ++ name))
  unordered : ∀ (other : ResolveCtx) (repo name : String) (component : ComponentConfig)
    (entries : List String), ctx.SameParts other → ctx.scanned[repo]? = some component →
      component.flows[name]? = some entries →
      other.resolveFlows.1.tagged (repo ++ "/" ++ name) =
          ctx.resolveFlows.1.tagged (repo ++ "/" ++ name) ∧
        -- The nodes come in any order too, and with them the members.
        ∀ nodes members, nodes.Perm (OrderedMap.listed other.nodes) →
          (∀ id, id ∈ members ↔ ctx.FlowMember (repo, name) id) →
          { id | id ∈ other.startSetOf nodes members } =
            ctx.resolveFlows.1.tagged (repo ++ "/" ++ name)
  ends : ctx.SearchesEnd
  reported : ctx.resolveFlows.1.warnings = ctx.warnings ++
    ctx.scanned.toList.flatMap fun repo => repo.2.flows.toList.flatMap (ctx.flowComplaints repo)

end ResolveCtx

section Universe

variable (toLowercase : String → String) (scanned : OrderedMap String ComponentConfig)
  (facts : OrderedMap String RepoFacts)

theorem pulledKnown_declaredCtx : (declaredCtx toLowercase scanned facts).PulledKnown := by
  simp only [declaredCtx]
  refine List.foldlRecOn (motive := ResolveCtx.PulledKnown) _ _ ?_ fun ctx known repo _ =>
    known.addDependencyEdges repo
  refine List.foldlRecOn (motive := ResolveCtx.PulledKnown) _ _ ?_ fun ctx known repo _ =>
    known.markTasks repo
  refine List.foldlRecOn (motive := ResolveCtx.PulledKnown) _ _ ?_ fun ctx known repo _ =>
    known.addIncludes toLowercase repo
  refine List.foldlRecOn (motive := ResolveCtx.PulledKnown) _ _ ?_ fun ctx known repo _ =>
    known.addRepoNodes repo
  intro pulled listed
  cases listed

variable {scanned}
  (valid : ∀ (repo : String) (component : ComponentConfig), scanned[repo]? = some component →
    ∀ flow ∈ component.flows, Name.whyInvalid flow = none)

include valid

theorem ready_declaredCtx : (declaredCtx toLowercase scanned facts).addStoreEdges.Ready := by
  obtain ⟨declared, sound⟩ := declaredCtx_spec toLowercase scanned facts
  have later := ResolveCtx.extends_addStoreEdges sound
  have all := sound.addStoreEdges
  have scans := later.scanned.trans declared.scanned_eq
  constructor
  · intro id node filed
    exact ⟨(all.node_sound id node filed).named, (all.node_sound id node filed).flows_unset⟩
  · exact fun edge listed => (all.ends_known edge listed).2
  · exact (pulledKnown_declaredCtx toLowercase scanned facts).addStoreEdges sound
  · rw [scans]
    exact later.declared declared
  · rw [scans]
    exact valid

/-- Whatever the files say, every flow starts the least closed set of what it names. -/
theorem flows_resolved : (declaredCtx toLowercase scanned facts).addStoreEdges.FlowsResolved := by
  have ready := ready_declaredCtx toLowercase facts valid
  constructor
  · exact fun repo name component entries scans declares => ready.isLeast_tagged scans declares
  · exact fun other repo name component entries same scans declares =>
      same.tagged_eq ready scans declares
  · exact ResolveCtx.searchesEnd _
  · exact ResolveCtx.resolveFlows_warnings _

end Universe

/-- Two repos that include each other, with flows that name each other. -/
def loopFiles : OrderedMap String ComponentConfig :=
  ((∅ : OrderedMap String ComponentConfig).insert "shop"
    { include_ := (∅ : OrderedMap String Include).insert "stock"
        { repo := "https://git.test/stock" }
      services := (∅ : OrderedMap String ServiceConfig).insert "web" { image := some "nginx" }
      flows := (∅ : OrderedMap String (List String)).insert "base"
        ["web", "stock/base", "nosuch"] })
  |>.insert "stock"
    { include_ := (∅ : OrderedMap String Include).insert "shop" { repo := "https://git.test/shop" }
      services := (∅ : OrderedMap String ServiceConfig).insert "db" { image := some "postgres" }
      flows := (∅ : OrderedMap String (List String)).insert "base" ["db", "shop/base"] }

theorem flows_resolved_loop : (declaredCtx id loopFiles ∅).addStoreEdges.FlowsResolved := by
  apply flows_resolved
  intro repo component found flow listed
  have only {entries : List String}
      (listed : flow ∈ (∅ : OrderedMap String (List String)).insert "base" entries) :
      flow = "base" := by
    rcases ExtTreeMap.mem_insert.mp listed with same | none
    · exact (Std.compare_eq_iff_eq.mp same).symm
    · simp at none
  have named : flow = "base" := by
    simp only [loopFiles, ExtTreeMap.getElem?_insert, Std.compare_eq_iff_eq] at found
    split at found
    · cases found
      exact only listed
    · split at found
      · cases found
        exact only listed
      · simp at found
  rw [named]
  decide +kernel

end Resolver
end Fghj
