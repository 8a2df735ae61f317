import Fghj.BringUpSpec
import Fghj.Flows
import Fghj.Universe

/-!
# No missing node

Every id that a resolved graph holds is the id of one of its nodes. A start takes all its ids from
there, so indexing the node map, and the containers of what it stops or has started, never fails.
-/

namespace Fghj

open Std (ExtTreeMap)

namespace Resolver
namespace ResolveCtx

/-! ## What pulls a seed -/

variable {ctx : ResolveCtx}

theorem mem_addForeign_seedsPulled {localPath source key : String} {target : Target}
    {entry : DependsOnEntry} {pulled : String × String}
    (listed : pulled ∈ (ctx.addForeign localPath source key target entry).seedsPulled) :
    pulled ∈ ctx.seedsPulled ∨ pulled.1 = source := by
  simp only [addForeign] at listed
  split at listed
  · exact .inl listed
  have checked : (if entry.required then ctx
      else ctx.warn (checkRuntimeCondition source key entry.condition)).seedsPulled =
        ctx.seedsPulled := by
    split <;> rfl
  split at listed
  · exact .inl (checked ▸ listed)
  · revert listed
    refine List.foldlRecOn (motive := fun next : ResolveCtx => pulled ∈ next.seedsPulled →
      pulled ∈ ctx.seedsPulled ∨ pulled.1 = source) _ _ (fun old => .inl (checked ▸ old)) ?_
    intro next before member _ listed
    rw [addMember] at listed
    split at listed
    · split at listed
      · rcases List.mem_append.mp listed with old | new
        · exact before old
        · exact .inr (congrArg Prod.fst (List.mem_singleton.mp new))
      · exact before listed
    · exact before listed

theorem mem_addDependency_seedsPulled {repo : String × ComponentConfig} {source : String}
    {declared : String × DependsOnEntry} {pulled : String × String}
    (listed : pulled ∈ (addDependency repo source ctx declared).seedsPulled) :
    pulled ∈ ctx.seedsPulled ∨ pulled.1 = source := by
  simp only [addDependency] at listed
  split at listed
  · split at listed
    · split at listed <;> exact .inl listed
    split at listed
    · exact .inl listed
    split at listed
    · exact mem_addForeign_seedsPulled listed
    · exact .inl listed
  · split at listed
    · exact mem_addForeign_seedsPulled listed
    · exact .inl listed

/-- Whatever pulls a seed is a node. -/
def PullersKnown (ctx : ResolveCtx) : Prop := ∀ pulled ∈ ctx.seedsPulled, pulled.1 ∈ ctx.nodes

theorem PullersKnown.addDependencyEdges {scanned : OrderedMap String ComponentConfig}
    (known : ctx.PullersKnown) (declared : Declared scanned ctx) {repo : String × ComponentConfig}
    (scans : repo ∈ scanned.toList) : (ctx.addDependencyEdges repo).PullersKnown := by
  have both : (ctx.addDependencyEdges repo).PullersKnown ∧
      Declared scanned (ctx.addDependencyEdges repo) := by
    refine List.foldlRecOn (motive := fun ctx : ResolveCtx => ctx.PullersKnown ∧
      Declared scanned ctx) _ _ ⟨known, declared⟩ fun ctx kept entry listed => ?_
    have service := declared.service_known repo scans
    refine List.foldlRecOn (motive := fun ctx : ResolveCtx => ctx.PullersKnown ∧
      Declared scanned ctx) _ _ kept fun ctx kept dependency _ => ?_
    have later := extends_addDependency repo (nodeId entry.1 repo.1) ctx dependency
    refine ⟨fun pulled pulls => ?_, later.declared kept.2⟩
    rcases mem_addDependency_seedsPulled pulls with old | same
    · exact later.nodes _ (kept.1 pulled old)
    · rw [same]
      exact later.nodes _ (kept.2.service_known repo scans entry.1
        (ExtTreeMap.mem_iff_isSome_getElem?.mpr (Option.isSome_of_eq_some
          (ExtTreeMap.mem_toList_iff_getElem?_eq_some.mp listed))))
  exact both.1

end ResolveCtx

theorem pullersKnown_declaredCtx (toLowercase : String → String)
    (scanned : OrderedMap String ComponentConfig) (facts : OrderedMap String RepoFacts) :
    (declaredCtx toLowercase scanned facts).PullersKnown := by
  simp only [declaredCtx]
  have nothing : ∀ {ctx : ResolveCtx}, ctx.seedsPulled = [] → ctx.PullersKnown := by
    intro ctx none pulled listed
    rw [none] at listed
    cases listed
  refine (List.foldlRecOn (motive := fun ctx : ResolveCtx => ctx.PullersKnown ∧
    ResolveCtx.Declared scanned ctx) _ _ ⟨nothing ?_, ?_⟩ fun ctx kept repo scans =>
      ⟨kept.1.addDependencyEdges kept.2 scans,
        (ResolveCtx.extends_addDependencyEdges ctx repo).declared kept.2⟩).1
  · rw [ResolveCtx.foldl_seedsPulled ResolveCtx.markTasks_seedsPulled,
      ResolveCtx.foldl_seedsPulled (ResolveCtx.addIncludes_seedsPulled toLowercase),
      ResolveCtx.foldl_seedsPulled ResolveCtx.addRepoNodes_seedsPulled]
  · refine List.foldlRecOn (motive := ResolveCtx.Declared scanned) _ _ ?_ fun ctx declared repo _ =>
      (ResolveCtx.extends_markTasks ctx repo).declared declared
    refine List.foldlRecOn (motive := ResolveCtx.Declared scanned) _ _
      (ResolveCtx.declared_addRepoNodes rfl) fun ctx declared repo _ =>
        (ResolveCtx.addIncludes_spec toLowercase ctx repo).1.declared declared

/-! ## The closed graph -/

/-- Every id that a graph, and the seeds pulled for it, hold is the id of one of its nodes. -/
structure ClosedGraph (graph : Graph) (seedsPulled : List (String × String)) : Prop where
  ends : ∀ edge ∈ graph.edges,
    edge.from ∈ graph.nodes.map Node.id ∧ edge.to ∈ graph.nodes.map Node.id
  stores : ∀ node ∈ graph.nodes, ∀ store ∈ ResolveCtx.storesOf node,
    store ∈ graph.nodes.map Node.id
  pulled : ∀ pulled ∈ seedsPulled,
    pulled.1 ∈ graph.nodes.map Node.id ∧ pulled.2 ∈ graph.nodes.map Node.id

/-- Whatever the files say, their graph is closed. -/
theorem closedGraph_resolveUniverse (toLowercase : String → String) (workspaceName : String)
    (scanned : OrderedMap String ComponentConfig) (facts : OrderedMap String RepoFacts) :
    ClosedGraph (resolveUniverse toLowercase workspaceName scanned facts)
      (declaredCtx toLowercase scanned facts).addStoreEdges.resolveFlows.1.seedsPulled := by
  have sound := (declaredCtx_spec toLowercase scanned facts).2
  refine ⟨fun edge listed => ?_, fun node member store names => ?_, fun pulled listed => ?_⟩
  · obtain ⟨plain, member, source, target⟩ := ResolveCtx.resolveFlows_edges listed
    obtain ⟨fromKnown, toKnown⟩ := sound.addStoreEdges.ends_known plain member
    rw [ResolveCtx.addStoreEdges_nodes sound] at fromKnown toKnown
    exact ⟨source ▸ ResolveCtx.known_resolved sound fromKnown,
      target ▸ ResolveCtx.known_resolved sound toKnown⟩
  · obtain ⟨id, held, filed, rfl⟩ := (ResolveCtx.mem_resolved_nodes sound).mp member
    exact ResolveCtx.known_resolved sound ((sound.node_sound id held filed).stores_known
      store names)
  · have declared : pulled ∈ (declaredCtx toLowercase scanned facts).seedsPulled := by
      rw [← ResolveCtx.addStoreEdges_seedsPulled]
      exact listed
    exact ⟨ResolveCtx.known_resolved sound
        (pullersKnown_declaredCtx toLowercase scanned facts pulled declared),
      ResolveCtx.known_resolved sound
        (pulledKnown_declaredCtx toLowercase scanned facts pulled declared)⟩

end Resolver

namespace Orchestrator

open Converge (keyed keyed_iff keyed_of_containers)

/-! ## Indexing -/

section Indexed

variable (graph : Graph) (world : World) (restart : Option String)

/-- One node of the run, with the node map indexed: none is a panic. -/
def indexNode (up : BroughtUp) (id : String) : Option BroughtUp :=
  (graph.node? id).map fun _ => bringUpNode graph world restart up id

/-- Stop one container outside the flow, with the containers indexed. -/
def indexStop (up : BroughtUp) (id : String) : Option BroughtUp :=
  (up.state.containers[id]?).map fun _ => stopNode world up id

/-- Bring up what a spec asks for, with everything indexed. -/
def indexBringUp (spec : EnvSpec) (prior : Option EnvState) :
    Option (Except EnvCreateError BroughtUp) :=
  match targetIds graph restart spec prior with
  | .error message => some (.error { message })
  | .ok targets =>
      match world.ensureNetwork with
      | .error message => some (.error { message })
      | .ok () =>
          match world.ensureSidecar with
          | .error message => some (.error { message })
          | .ok sidecarIp =>
              ((outsideOf graph spec targets (runState graph prior sidecarIp)).foldlM
                (indexStop world) (planned graph spec prior targets sidecarIp)).bind fun up =>
                  ((topologicalStartOrder targets graph.edges).foldlM
                    (indexNode graph world restart) up).map .ok

/-- Start one node, with the containers of what came up indexed. -/
def indexRestart (id : String) (prior : EnvState) : Option (Except String Restarted) :=
  (indexBringUp graph world (some id) (.node id) (some prior)).bind fun
    | .error failure => some (.error failure.message)
    | .ok up =>
        ((up.started.filter (· != id)).mapM fun other => up.state.containers[other]?).bind
          fun others =>
            (if id ∈ up.started then (up.state.containers[id]?).map .ok
            else some (.error (up.outcomes.error.getD (id ++ " was not started")))).map
              fun node => .ok { node, others }

end Indexed

section Safe

variable {graph : Graph} {world : World} {restart : Option String} {up : BroughtUp}

/-- Stopping a container keeps every container. -/
theorem mem_containers_stopNode {id other : String} (held : other ∈ up.state.containers) :
    other ∈ (stopNode world up id).state.containers := by
  rw [stopNode]
  split
  · exact held
  · exact ExtTreeMap.mem_insert.mpr (.inr held)

/-- Where what is to be stopped has containers, no stop misses one. -/
theorem foldlM_indexStop (world : World) (up : BroughtUp) {ids : List String}
    (held : ∀ id ∈ ids, id ∈ up.state.containers) :
    ids.foldlM (indexStop world) up = some (Execution.run (stopNode world) up ids) := by
  refine Execution.foldlM_eq_some_run _ (fun up => ∀ id ∈ ids, id ∈ up.state.containers) (· ∈ ids)
    ?_ ?_ held fun _ member => member
  · exact fun up id held _ other member => mem_containers_stopNode (held other member)
  · intro up id held member
    obtain ⟨container, found⟩ :=
      Option.isSome_iff_exists.mp (ExtTreeMap.mem_iff_isSome_getElem?.mp (held id member))
    rw [indexStop, found, Option.map_some]

/-- Where all ids are nodes', no step misses its node. -/
theorem foldlM_indexNode (startable : graph.Startable) {ids : List String}
    (known : ids ⊆ graph.nodes.map Node.id) :
    ids.foldlM (indexNode graph world restart) up = some (runNodes graph world restart up ids) := by
  refine Execution.foldlM_eq_some_run _ (fun _ => True) (· ∈ graph.nodes.map Node.id)
    (fun _ _ _ _ => trivial) (fun up id _ member => ?_) trivial known
  obtain ⟨node, -, found⟩ := startable.exists_node member
  rw [indexNode, found, Option.map_some]

/-- What a switch to a flow stops has a container under its id. -/
theorem mem_containers_of_stopOrder {state : EnvState} (ids : keyed state) {keep : List String}
    {id : String} (stopped : id ∈ stopOrder graph keep state) : id ∈ state.containers := by
  obtain ⟨container, ⟨key, found⟩, -, -, rfl⟩ := mem_stopOrder.mp stopped
  rw [(keyed_iff _).mp ids key container found]
  exact ExtTreeMap.mem_iff_isSome_getElem?.mpr (Option.isSome_of_eq_some found)

theorem mem_containers_of_outside {prior : Option EnvState} (ids : keyed (prior.getD {}))
    {spec : EnvSpec} {targets : List String} {sidecarIp id : String}
    (outside : id ∈ outsideOf graph spec targets (runState graph prior sidecarIp)) :
    id ∈ (prior.getD {}).containers := by
  cases spec with
  | node node => cases outside
  | flow flow =>
      have kept : keyed (runState graph prior sidecarIp) := keyed_of_containers ids rfl
      exact mem_containers_of_stopOrder kept outside

/-- Bringing up a graph that may be started never misses what it indexes. -/
theorem indexBringUp_eq (startable : graph.Startable) (world : World) (restart : Option String)
    (spec : EnvSpec) (prior : Option EnvState) (ids : keyed (prior.getD {})) :
    indexBringUp graph world restart spec prior =
      some (bringUp graph world restart spec prior) := by
  unfold indexBringUp bringUp
  cases chosen : targetIds graph restart spec prior with
  | error message => rfl
  | ok targets =>
      cases network : world.ensureNetwork with
      | error message => rfl
      | ok made =>
          cases sidecar : world.ensureSidecar with
          | error message => rfl
          | ok sidecarIp =>
              have known := (targetIds_spec startable chosen).2.1
              have order : topologicalStartOrder targets graph.edges ⊆ graph.nodes.map Node.id :=
                fun id member => known ((topologicalStartOrder_perm targets
                  graph.edges).subset member)
              have held : ∀ id ∈ outsideOf graph spec targets (runState graph prior sidecarIp),
                  id ∈ (planned graph spec prior targets sidecarIp).state.containers :=
                fun id outside => mem_containers_of_outside ids outside
              have stops := foldlM_indexStop world _ held
              simp only [stops, Option.bind_some, foldlM_indexNode startable order,
                Option.map_some]
              rfl

/-! ## What came up -/

/-- Everything a run has started has a container. -/
def StartedHeld (up : BroughtUp) : Prop := ∀ id ∈ up.started, id ∈ up.state.containers

theorem CameUp.startedHeld {after : BroughtUp} {id : String} {action : PendingAction}
    {info : ContainerInfo} (held : StartedHeld up) (cameUp : CameUp up after id action info)
    (named : info.nodeId = id) : StartedHeld after := by
  intro other started
  rw [cameUp.started_eq] at started
  rw [cameUp.state_eq]
  rcases List.mem_append.mp started with before | now
  · exact ExtTreeMap.mem_insert.mpr (.inr (held other before))
  · rw [List.mem_singleton.mp now, ← named]
    exact ExtTreeMap.mem_insert_self

theorem StartedHeld.bringUpNode (held : StartedHeld up) (ids : keyed up.state) (id : String) :
    StartedHeld (bringUpNode graph world restart up id) := by
  cases found : graph.node? id with
  | none => simpa [Orchestrator.bringUpNode, found] using held
  | some node =>
      obtain ⟨-, rfl⟩ := Graph.node?_eq_some found
      rcases bringUpNode_cases found with ⟨-, same⟩ | ⟨cause, -, same⟩ |
        ⟨action, message, -, gaveUp⟩ | ⟨existing, info, decided, restarted, cameUp, -⟩ |
        ⟨info, -, started, cameUp, -⟩
      · rw [same]
        exact held
      · rw [same]
        exact held
      · intro other started
        rw [gaveUp.started_eq] at started
        rw [gaveUp.state_eq]
        exact held other started
      · refine cameUp.startedHeld held ?_
        obtain ⟨inspected, -, rfl⟩ := restartInPlace_ok restarted
        rw [(restartedInfo_keeps existing inspected).1]
        exact (keyed_iff up.state).mp ids node.id existing (verdict_eq_restart decided).2.2.2.2.2
      · exact cameUp.startedHeld held (World.started_ok started).1

theorem stopNode_started (world : World) (up : BroughtUp) (id : String) :
    (stopNode world up id).started = up.started := by
  rw [stopNode]
  split <;> rfl

theorem startedHeld_bringUp {spec : EnvSpec} (prior : Option EnvState) (ids : keyed (prior.getD {}))
    (came : bringUp graph world restart spec prior = .ok up) : StartedHeld up := by
  obtain ⟨targets, sidecarIp, -, rfl⟩ := bringUp_ok came
  have ready := (prepared_spec graph world ids spec targets sidecarIp).1
  have none : (prepared graph world spec prior targets sidecarIp).started = [] := by
    refine Execution.run_always (stopNode world) (fun up => up.started = []) ?_ rfl _
    intro up id empty
    rw [stopNode_started, empty]
  refine (Execution.run_always _ (fun up => keyed up.state ∧ StartedHeld up) ?_ ⟨ready, ?_⟩ _).2
  · intro up id kept
    exact ⟨(bringUpNode_frame graph world restart kept.1 id).1, kept.2.bringUpNode kept.1 id⟩
  · intro id started
    rw [none] at started
    cases started

theorem mapM_containers (state : EnvState) (ids : List String)
    (held : ∀ id ∈ ids, id ∈ state.containers) :
    ids.mapM (fun id => state.containers[id]?) =
      some (ids.filterMap fun id => state.containers[id]?) := by
  induction ids with
  | nil => rfl
  | cons id ids ih =>
      obtain ⟨container, found⟩ := Option.isSome_iff_exists.mp
        (ExtTreeMap.mem_iff_isSome_getElem?.mp (held id List.mem_cons_self))
      rw [List.mapM_cons, found, ih fun other member => held other (List.mem_cons_of_mem _ member),
        List.filterMap_cons, found]
      rfl

/-- A start of one node never misses the container of what came up. -/
theorem indexRestart_eq (startable : graph.Startable) (world : World) (id : String)
    {prior : EnvState} (ids : keyed prior) :
    indexRestart graph world id prior = some (restartNode graph world id prior) := by
  rw [indexRestart, restartNode, indexBringUp_eq startable world (some id) (.node id)
    (some prior) ids, Option.bind_some]
  cases came : bringUp graph world (some id) (.node id) (some prior) with
  | error failure => rfl
  | ok up =>
      have held := startedHeld_bringUp (some prior) ids came
      have others := mapM_containers up.state (up.started.filter (· != id))
        fun other member => held other (List.mem_filter.mp member).1
      simp only [others, Option.bind_some]
      by_cases started : id ∈ up.started
      · obtain ⟨container, found⟩ :=
          Option.isSome_iff_exists.mp (ExtTreeMap.mem_iff_isSome_getElem?.mp (held id started))
        simp only [if_pos started, found, Option.map_some, Option.elim_some]
      · simp only [if_neg started, Option.map_some]

/-- What a start indexes is there, whatever it is asked for and whatever ran before. A state keeps
its containers under their own ids, as every state of a workspace does. -/
structure Indexed (graph : Graph) : Prop where
  targets : ∀ (restart : Option String) (spec : EnvSpec) (prior : Option EnvState)
    (targets : List String), targetIds graph restart spec prior = .ok targets →
      targets ⊆ graph.nodes.map Node.id ∧
        topologicalStartOrder targets graph.edges ⊆ graph.nodes.map Node.id ∧
        (topologicalStartOrder targets graph.edges).Nodup
  stops : ∀ (keep : List String) (state : EnvState), keyed state →
    ∀ id ∈ stopOrder graph keep state, id ∈ state.containers
  bringUp : ∀ (world : World) (restart : Option String) (spec : EnvSpec) (prior : Option EnvState),
    keyed (prior.getD {}) →
      indexBringUp graph world restart spec prior = some (bringUp graph world restart spec prior)
  restart : ∀ (world : World) (id : String) (prior : EnvState), keyed prior →
    indexRestart graph world id prior = some (restartNode graph world id prior)

/-- A graph that may be started is started without a missing index. -/
theorem indexed_of_startable (startable : graph.Startable) : Indexed graph where
  targets := by
    intro restart spec prior targets chosen
    obtain ⟨distinct, known, -⟩ := targetIds_spec startable chosen
    have permuted := topologicalStartOrder_perm targets graph.edges
    exact ⟨known, fun id member => known (permuted.subset member), permuted.nodup_iff.mpr distinct⟩
  stops := fun _ _ ids _ stopped => mem_containers_of_stopOrder ids stopped
  bringUp := indexBringUp_eq startable
  restart := fun world id _ ids => indexRestart_eq startable world id ids

end Safe

/-- For all files, the graph is closed, and if nothing refuses it no start indexes what is not
there. -/
theorem closed_and_indexed (toLowercase : String → String) (workspaceName : String)
    (scanned : OrderedMap String ComponentConfig)
    (facts : OrderedMap String RepoFacts) :
    Resolver.ClosedGraph (Resolver.resolveUniverse toLowercase workspaceName scanned facts)
        (Resolver.declaredCtx toLowercase scanned facts).addStoreEdges.resolveFlows.1.seedsPulled ∧
      ((Resolver.resolveUniverse toLowercase workspaceName scanned facts).blockingWarnings = [] →
        Indexed (Resolver.resolveUniverse toLowercase workspaceName scanned facts)) :=
  ⟨Resolver.closedGraph_resolveUniverse toLowercase workspaceName scanned facts,
    fun unrefused => indexed_of_startable (Resolver.resolveUniverse_startable unrefused)⟩

end Orchestrator
end Fghj
