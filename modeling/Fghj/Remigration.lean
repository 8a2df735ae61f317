import Fghj.FlowSwitch

/-!
# Migrating a recreated store

A store that a run recreates starts empty or old. Its migration is among the run's targets, comes
after the store and before whatever needs it, and has its turn with the store known to be recreated,
so that neither a clean exit nor being current lets the run pass it over.
-/

namespace Fghj
namespace Orchestrator

open Std Converge

/-- The run started or restarted the node, or recorded that it could not. -/
def Answered (up : BroughtUp) (id : String) : Prop :=
  (up.view id).started ∨ (up.view id).failed.isSome ∨ (up.view id).blocked.isSome

/-- The record from before the run carries an action in flight. -/
def Busy (prior : Option EnvState) (id : String) : Prop :=
  (priorRecord prior id).any fun container => container.pendingAction.isSome

/-- The node is alive, and something it needs failed or was blocked. -/
def LeftAlive (graph : Graph) (world : World) (up : BroughtUp) (id : String) : Prop :=
  world.alive id ∧ ∃ dep, Needs graph.edges id dep ∧
    ((up.view dep).failed.isSome ∨ (up.view dep).blocked.isSome)

section Turn

variable {graph : Graph} {world : World} {restart : Option String} {up : BroughtUp} {task : Node}
  {store : String}

/-- Whatever a run recreated, it brought back. -/
theorem recreated_subset_bounced (graph : Graph) (world : World) (restart : Option String)
    {up : BroughtUp} (initial : up.recreated ⊆ up.bounced) (ids : List String) :
    (runNodes graph world restart up ids).recreated ⊆
      (runNodes graph world restart up ids).bounced := by
  apply Execution.run_always (bringUpNode graph world restart)
    (fun up => up.recreated ⊆ up.bounced) _ initial
  intro up id inside
  cases found : graph.node? id with
  | none => simpa [bringUpNode, found] using inside
  | some node =>
      obtain ⟨-, rfl⟩ := Graph.node?_eq_some found
      rcases bringUpNode_cases found with ⟨-, same⟩ | ⟨cause, -, same⟩ |
        ⟨action, message, -, gaveUp⟩ | ⟨existing, info, -, -, -, recreated, bounced⟩ |
        ⟨info, -, -, -, recreated, bounced⟩
      · rw [same]
        exact inside
      · rw [same]
        exact inside
      · rw [gaveUp.recreated_eq, gaveUp.bounced_eq]
        exact inside
      · rw [recreated, bounced]
        exact List.subset_cons_of_subset _ inside
      · rw [recreated, bounced]
        split
        · exact inside
        · exact List.cons_subset_cons _ inside

/-- The migration of a recreated store is passed over only when another action is under way on
it. -/
theorem passedOver_of_recreated (startable : graph.Startable) (member : task ∈ graph.nodes)
    (migrates : task.migrates = some store) (recreated : store ∈ up.recreated)
    (passed : PassedOver world restart up task) : leftToAnother restart up task := by
  obtain ⟨unseeding, always⟩ := startable.migration_runs task member (by simp [migrates])
  obtain ⟨-, left | done | seeded⟩ := passed
  · exact left
  · have fresh : storeRecreated up task = true := by simp [storeRecreated, migrates, recreated]
    rw [doneTask] at done
    split at done
    · simp [fresh] at done
    · simp [taskAlreadyDone, always] at done
  · simp [doneSeed, unseeding] at seeded

/-- The turn of a migration whose store was recreated before it. -/
theorem bringUpNode_migration (world : World) (restart : Option String)
    (startable : graph.Startable) (member : task ∈ graph.nodes)
    (migrates : task.migrates = some store) (needs : Needs graph.edges task.id store)
    (recreated : store ∈ up.recreated) (bounced : store ∈ up.bounced)
    (untouched : Untouched up task.id) :
    leftToAnother restart up task ∨
      (world.alive task.id ∧ (up.outcomes.blockedBy task.id).isSome) ∨
      Answered (bringUpNode graph world restart up task.id) task.id := by
  rcases bringUpNode_view (startable.node?_id member) untouched with ⟨decided, -⟩ |
    ⟨cause, -, same⟩ | ⟨message, -, same⟩ | ⟨-, started, -⟩
  · rcases verdict_eq_leave decided with passed | ⟨-, alone, -⟩ | blocked
    · exact .inl (passedOver_of_recreated startable member migrates recreated passed)
    · have joins : (bouncedRequirement graph task up.bounced).isSome :=
        bouncedRequirement_isSome.mpr ⟨store, needs, bounced⟩
      rw [alone] at joins
      cases joins
    · exact .inr (.inl blocked)
  · exact .inr (.inr (.inr (.inr (by rw [same]; rfl))))
  · exact .inr (.inr (.inr (.inl (by rw [same]; rfl))))
  · exact .inr (.inr (.inl started))

end Turn

/-- A run that recreates a store has its migration among its targets. If the migration needs the
store, it comes after it, and the run starts or restarts it or records why not, unless another
action is under way on it or it is alive and something it needs failed. Whatever needs the migration
and is started comes after it. -/
theorem recreated_store_migrated {graph : Graph} (startable : graph.Startable) {world : World}
    {restart : Option String} {spec : EnvSpec} {prior : Option EnvState}
    (ids : keyed (prior.getD {})) {up : BroughtUp}
    (ran : bringUp graph world restart spec prior = .ok up) (task : Node)
    (member : task ∈ graph.nodes) {store : String} (migrates : task.migrates = some store)
    (recreated : store ∈ up.recreated) :
    ∃ targets, targetIds graph restart spec prior = .ok targets ∧ task.id ∈ targets ∧
      (Needs graph.edges task.id store →
        Before (topologicalStartOrder targets graph.edges) store task.id ∧
        (Answered up task.id ∨ Busy prior task.id ∨ LeftAlive graph world up task.id)) ∧
      ∀ id, Needs graph.edges id task.id → (up.view id).attempted →
        Before (topologicalStartOrder targets graph.edges) task.id id := by
  obtain ⟨targets, sidecarIp, chosen, rfl⟩ := bringUp_ok ran
  obtain ⟨distinct, known, migrated⟩ := targetIds_spec startable chosen
  have fresh := fresh_prepared graph world ids spec targets sidecarIp
  set start := prepared graph world spec prior targets sidecarIp with start_eq
  have perm := topologicalStartOrder_perm targets graph.edges
  have distinctOrder := perm.nodup_iff.mpr distinct
  have frame := (runNodes_frame graph world restart fresh.ids
    (topologicalStartOrder targets graph.edges)).2.2
  have storeTarget : store ∈ targets := by
    by_contra outside
    have same := frame store fun listed => outside (perm.mem_iff.mp listed)
    have absent := congrArg NodeView.recreated same
    simp [BroughtUp.view, fresh.recreated_eq, recreated] at absent
  have taskTarget := migrated task member store storeTarget migrates
  refine ⟨targets, chosen, taskTarget, ?_, ?_⟩
  · intro needs
    obtain ⟨front, back, split⟩ := List.append_of_mem (perm.mem_iff.mpr taskTarget)
    have earlier : store ∈ front := mem_front_of_needs startable.acyclic split needs storeTarget
    refine ⟨before_of_mem_front split earlier, ?_⟩
    obtain ⟨before, here, stays⟩ := runNodes_turn graph world restart fresh.ids
      (split ▸ distinctOrder)
    rw [← split] at here stays
    have recreatedThen : store ∈ (runNodes graph world restart start front).recreated := by
      have same := congrArg NodeView.recreated (stays store earlier)
      simpa [BroughtUp.view, recreated] using same.symm
    have bouncedThen := recreated_subset_bounced graph world restart
      (by simp [fresh.recreated_eq]) front recreatedThen
    have untouched := fresh.untouched_turn world restart (split ▸ distinctOrder) taskTarget
    rcases bringUpNode_migration world restart startable member migrates needs recreatedThen
      bouncedThen untouched with left | ⟨alive, blocked⟩ | answered
    · have prepared_view := (prepared_spec graph world ids spec targets sidecarIp).2.2 task.id
        taskTarget
      have record : (runNodes graph world restart start front).state.containers[task.id]? =
          priorRecord prior task.id :=
        congrArg NodeView.record (before.trans prepared_view)
      rw [leftToAnother, record, Bool.and_eq_true] at left
      exact .inr (.inl left.2)
    · obtain ⟨cause, blocked⟩ := Option.isSome_iff_exists.mp blocked
      obtain ⟨dep, listed, blame⟩ := StartOutcomes.blockedBy_eq_some blocked
      rw [(runNodes_frame graph world restart fresh.ids front).2.1, fresh.outcomes_eq] at listed
      obtain ⟨requires, -, among⟩ := StartOutcomes.mem_new_requirements.mp listed
      have first : dep ∈ front := mem_front_of_needs startable.acyclic split requires among
      refine .inr (.inr ⟨alive, dep, requires, ?_⟩)
      rw [stays dep first]
      by_contra fine
      rw [not_or, Option.not_isSome_iff_eq_none, Option.not_isSome_iff_eq_none] at fine
      rw [StartOutcomes.cause_eq_none.mpr fine] at blame
      cases blame
    · rw [Answered, here]
      exact .inl answered
  · intro id needs attempted
    have listed : id ∈ topologicalStartOrder targets graph.edges := by
      by_contra outside
      have same := congrArg NodeView.attempted (frame id outside)
      rw [attempted] at same
      exact absurd (fresh.quiet id) (by simpa [BroughtUp.view] using same.symm)
    exact before_of_needs startable.acyclic needs (perm.mem_iff.mp listed) taskTarget

/-- The migration of the database, which also needs the cache. -/
def migrateTask : Node where
  id := "migrate.shop"
  kind := .task
  flows := ["shop/dev"]
  runPolicy := some "on_start"
  migrates := some "db.shop"

/-- A database with its migration, and a cache. -/
def storeGraph : Graph where
  workspaceName := "shop"
  nodes :=
    [{ id := "cache.shop", kind := .backing, flows := ["shop/dev"] },
     { id := "db.shop", kind := .backing, flows := ["shop/dev"] }, migrateTask]
  edges :=
    [{ «from» := "migrate.shop", «to» := "cache.shop", required := true },
     { «from» := "migrate.shop", «to» := "db.shop", required := true }]
  flows := ["shop/dev"]

theorem storeGraph_startable : storeGraph.Startable where
  ids_nodup := by decide
  ends_known := by decide
  acyclic := acyclic_of_checkCycles (by decide)
  store_task := by decide
  migration_runs := by decide
  store_stays := by simp [storeGraph, migrateTask]
  flow_needs := by
    intro flow node member inFlow target member' needs
    simp only [storeGraph, List.mem_cons, List.not_mem_nil, or_false] at member member'
    rcases member with rfl | rfl | rfl <;> rcases member' with rfl | rfl | rfl <;> exact inFlow
  flow_migrates := by
    intro flow node member inFlow task member' migrates
    simp only [storeGraph, List.mem_cons, List.not_mem_nil, or_false] at member member'
    rcases member with rfl | rfl | rfl <;> rcases member' with rfl | rfl | rfl <;> exact inFlow

/-- The migration is still running, the database is gone, and the cache cannot be started. -/
def cacheBroken : World :=
  { quietWorld with
    inspectStatus := fun id =>
      if id = "migrate.shop" then .ok (some { status := "running" }) else .ok none
    start := fun id =>
      { run := if id = "cache.shop" then .error "port is already allocated" else .ok ()
        inspected := .ok (some { status := "running" }) } }

/-- The running migration is recorded. -/
def migratingState : EnvState where
  containers := (∅ : OrderedMap String ContainerInfo).insert "migrate.shop"
    { nodeId := "migrate.shop"
      desired := { containerName := "fghj-shop-default-migrate-shop", terminating := true }
      observed := { status := "running" } }

/-- The first start of the database and its migration. -/
theorem recreated_store_migrated_first :
    ∃ up, bringUp storeGraph quietWorld none (.flow "shop/dev") none = .ok up ∧
      "db.shop" ∈ up.recreated ∧
      (Answered up "migrate.shop" ∨ Busy none "migrate.shop" ∨
        LeftAlive storeGraph quietWorld up "migrate.shop") := by
  have recreates : (bringUp storeGraph quietWorld none (.flow "shop/dev") none).toOption.map
      (fun up => decide ("db.shop" ∈ up.recreated)) = some true := by decide
  cases ran : bringUp storeGraph quietWorld none (.flow "shop/dev") none with
  | error failure => simp [ran, Except.toOption] at recreates
  | ok up =>
      have recreated : "db.shop" ∈ up.recreated := by
        simpa [ran, Except.toOption] using recreates
      obtain ⟨targets, -, -, answered, -⟩ := recreated_store_migrated storeGraph_startable
        (by decide) ran migrateTask (by simp [storeGraph]) rfl recreated
      exact ⟨up, rfl, recreated, (answered (by decide)).2⟩

/-- A migration that is still running when its store is recreated is left as it is once something
else it needs fails. -/
theorem recreated_store_left_unmigrated :
    ¬∀ (graph : Graph) (world : World) (restart : Option String) (spec : EnvSpec)
      (prior : Option EnvState) (up : BroughtUp) (task : Node) (store : String),
      graph.Startable → keyed (prior.getD {}) → bringUp graph world restart spec prior = .ok up →
      task ∈ graph.nodes → task.migrates = some store → store ∈ up.recreated →
      ∃ targets, targetIds graph restart spec prior = .ok targets ∧ task.id ∈ targets ∧
        Before (topologicalStartOrder targets graph.edges) store task.id ∧
        (Answered up task.id ∨ Busy prior task.id) ∧
        ∀ id, Needs graph.edges id task.id → (up.view id).attempted →
          Before (topologicalStartOrder targets graph.edges) task.id id := by
  intro claim
  have result : (bringUp storeGraph cacheBroken none (.flow "shop/dev")
      (some migratingState)).toOption.map (fun up =>
        (decide ("db.shop" ∈ up.recreated), (up.view "migrate.shop").started,
          (up.view "migrate.shop").failed.isSome, (up.view "migrate.shop").blocked.isSome)) =
      some (true, false, false, false) := by decide
  cases ran : bringUp storeGraph cacheBroken none (.flow "shop/dev") (some migratingState) with
  | error failure => simp [ran, Except.toOption] at result
  | ok up =>
      simp only [ran, Except.toOption, Option.map_some, Option.some.injEq, Prod.mk.injEq,
        decide_eq_true_eq] at result
      obtain ⟨recreated, unstarted, unfailed, unblocked⟩ := result
      obtain ⟨targets, -, -, -, answered | busy, -⟩ := claim storeGraph cacheBroken none
        (.flow "shop/dev") (some migratingState) up migrateTask "db.shop" storeGraph_startable
        (by decide) ran (by simp [storeGraph]) rfl recreated
      · simp [Answered, migrateTask, unstarted, unfailed, unblocked] at answered
      · revert busy
        unfold Busy
        decide

end Orchestrator
end Fghj
