import Fghj.Blame
import Mathlib.Data.List.Induction

/-!
# Switching to a flow

A switch that succeeds leaves the flow's nodes alive or started, each with the configuration its
files have now, except for one kind: a node whose configuration drifted and whose requirement came
back in the same run is restarted in place, and keeps the configuration it had.
-/

namespace Fghj
namespace Orchestrator

open Std Converge

section Switch

variable (graph : Graph) (world : World) (prior : Option EnvState)

/-- What the environment before the run records of a node. -/
def priorRecord (id : String) : Option ContainerInfo := (prior.getD {}).containers[id]?

/-- The node is alive and recorded with the configuration its files have now, as far as they can be
read. -/
def upToDate (node : Node) : Bool :=
  world.alive node.id && (priorRecord prior node.id).any fun container =>
    match world.resolveNodeSpec node.id with
    | .ok spec => world.specHash node spec == container.desired.configHash
    | .error _ => true

/-- The nodes a switch without failures takes down and brings back: services that are not up to
date, and running containers that need one of these. -/
inductive Bounces (targets : List String) : String → Prop where
  | stale {node : Node} (member : node ∈ graph.nodes) (inside : node.id ∈ targets)
      (stays : node.kind ≠ .task) (stale : upToDate world prior node = false) :
      Bounces targets node.id
  | joins {node : Node} {dep : String} (member : node ∈ graph.nodes) (inside : node.id ∈ targets)
      (due : taskAlreadyDone node (priorRecord prior node.id) = false)
      (unseeded : doneSeed world node = false) (alive : world.alive node.id)
      (recorded : (priorRecord prior node.id).isSome) (needs : Needs graph.edges node.id dep)
      (below : Bounces targets dep) : Bounces targets node.id

/-- A node with another configuration than recorded, running, below which something bounces. -/
def DriftedBelowBounce (targets : List String) (node : Node) : Prop :=
  world.alive node.id ∧ (∃ container spec, priorRecord prior node.id = some container ∧
      world.resolveNodeSpec node.id = .ok spec ∧
      world.specHash node spec ≠ container.desired.configHash) ∧
    ∃ dep, Needs graph.edges node.id dep ∧ Bounces graph world prior targets dep

/-- The node is recorded with the configuration its files have now, and was alive when it was
skipped or was started in the run. -/
def BroughtUpToDate (up : BroughtUp) (node : Node) : Prop :=
  ∀ spec, world.resolveNodeSpec node.id = .ok spec →
    (∃ container, up.state.containers[node.id]? = some container ∧
      container.desired.configHash = world.specHash node spec) ∧
    (node.id ∉ up.started → world.alive node.id)

/-- No container outside the targets that was recorded running is left running, unless Docker still
says so after its stop. -/
def OthersStopped (targets : List String) (up : BroughtUp) : Prop :=
  ∀ id container, priorRecord prior id = some container → container.observed.status = "running" →
    id ∉ targets → ∃ left, up.state.containers[id]? = some left ∧
      (left.observed.status = "running" →
        ∃ status, world.stopped id = .ok (some status) ∧ status.status = "running")

end Switch

section Turn

variable {graph : Graph} {world : World} {prior : Option EnvState} {up : BroughtUp} {node : Node}

/-- A top-up skips exactly the nodes that are up to date. -/
theorem topUpMaySkip_eq (record : up.state.containers[node.id]? = priorRecord prior node.id) :
    topUpMaySkip (world.alive node.id) up.state.containers[node.id]?
      (freshHash world none up node) = upToDate world prior node := by
  rw [topUpMaySkip, freshHash, upToDate, record]
  cases alive : world.alive node.id with
  | false => simp
  | true =>
      cases found : priorRecord prior node.id with
      | none => simp
      | some container =>
          cases world.resolveNodeSpec node.id <;> simp

/-- A service is never passed over by a top-up. -/
theorem not_passedOver_of_ne_task (startable : graph.Startable) (member : node ∈ graph.nodes)
    (stays : node.kind ≠ .task) : ¬PassedOver world none up node := by
  rintro ⟨-, left | done | seeded⟩
  · simp [leftToAnother] at left
  · simp [doneTask, taskAlreadyDone, stays] at done
  · have empty : node.seeds = [] := by
      by_contra some
      exact stays (startable.store_task node member (.inr some))
    simp [doneSeed, empty] at seeded

theorem bouncedRequirement_isSome {bounced : List String} :
    (bouncedRequirement graph node bounced).isSome ↔
      ∃ dep, Needs graph.edges node.id dep ∧ dep ∈ bounced := by
  simp only [bouncedRequirement, List.find?_isSome, decide_eq_true_eq, mem_requirements]

/-- The run brought back something the node needs. -/
def BelowBounced (graph : Graph) (up : BroughtUp) (node : Node) : Prop :=
  ∃ dep, Needs graph.edges node.id dep ∧ dep ∈ up.bounced

/-- What the turn of a node in a run without failures comes to. -/
inductive Turned (graph : Graph) (world : World) (prior : Option EnvState) (up after : BroughtUp)
    (node : Node) : Prop where
  | left
      (reason : PassedOver world none up node ∨
        ¬BelowBounced graph up node ∧ upToDate world prior node)
      (same : after.view node.id = up.view node.id)
  | rejoined {existing info : ContainerInfo} (due : ¬PassedOver world none up node)
      (alive : world.alive node.id) (below : BelowBounced graph up node)
      (recorded : priorRecord prior node.id = some existing)
      (record : (after.view node.id).record = some info)
      (kept : info.desired.configHash = existing.desired.configHash)
      (bounced : (after.view node.id).bounced) (started : (after.view node.id).started)
  | recreated {spec : NodeSpec} {info : ContainerInfo} (due : ¬PassedOver world none up node)
      (stale : ¬(¬BelowBounced graph up node ∧ upToDate world prior node))
      (alone : ¬(world.alive node.id ∧ (priorRecord prior node.id).isSome ∧
        BelowBounced graph up node))
      (resolved : world.resolveNodeSpec node.id = .ok spec)
      (record : (after.view node.id).record = some info)
      (hash : info.desired.configHash = world.specHash node spec)
      (bounced : (after.view node.id).bounced ↔ node.kind ≠ .task)
      (started : (after.view node.id).started)

/-- The turn of an unblocked node that does not fail. -/
theorem turned (startable : graph.Startable) (member : node ∈ graph.nodes)
    (ids : keyed up.state) (record : up.state.containers[node.id]? = priorRecord prior node.id)
    (untouched : Untouched up node.id) (free : up.outcomes.blockedBy node.id = none)
    (clean : ((bringUpNode graph world none up node.id).view node.id).failed = none) :
    Turned graph world prior up (bringUpNode graph world none up node.id) node := by
  have found := startable.node?_id member
  have current : Current graph world none up node ↔
      ¬BelowBounced graph up node ∧ upToDate world prior node := by
    rw [Current, topUpMaySkip_eq record, BelowBounced, ← bouncedRequirement_isSome]
    simp
  have rejoins : ∀ existing, Rejoins graph world none up node existing ↔
      world.alive node.id ∧ BelowBounced graph up node ∧
        priorRecord prior node.id = some existing := by
    intro existing
    rw [Rejoins, record, BelowBounced, bouncedRequirement_isSome]
    simp
  rcases bringUpNode_cases found with ⟨decided, same⟩ | ⟨cause, decided, same⟩ |
    ⟨action, message, -, gaveUp⟩ | ⟨existing, info, decided, restarted, cameUp, -, bounced⟩ |
    ⟨info, decided, started, cameUp, -, bounced⟩
  · rcases verdict_eq_leave decided with passed | skipped | ⟨-, blocked⟩
    · exact .left (.inl passed) (by rw [same])
    · exact .left (.inr (current.mp skipped)) (by rw [same])
    · simp [free] at blocked
  · rw [(verdict_eq_block decided).2] at free
    cases free
  · simp [BroughtUp.view, gaveUp.outcomes_eq, StartOutcomes.fail] at clean
  · obtain ⟨-, due, joins⟩ := verdict_eq_restart decided
    obtain ⟨alive, below, recorded⟩ := (rejoins existing).mp joins
    obtain ⟨inspected, -, rfl⟩ := restartInPlace_ok restarted
    have kept := restartedInfo_keeps existing inspected
    have named := (keyed_iff up.state).mp ids node.id existing joins.2.2.2
    refine .rejoined due alive below recorded ?_ kept.2.1 ?_ ?_
    · simp [BroughtUp.view, cameUp.state_eq, kept.1, named]
    · simp [BroughtUp.view, bounced]
    · simp [BroughtUp.view, cameUp.started_eq]
  · obtain ⟨-, due, stale, alone⟩ := verdict_eq_start decided
    obtain ⟨named, spec, resolved, hash⟩ := World.started_ok started
    refine .recreated due (fun skipped => stale (current.mpr skipped)) ?_ resolved ?_ hash ?_ ?_
    · rintro ⟨alive, recorded, below⟩
      obtain ⟨existing, recorded⟩ := Option.isSome_iff_exists.mp recorded
      exact alone existing ((rejoins existing).mpr ⟨alive, below, recorded⟩)
    · simp [BroughtUp.view, cameUp.state_eq, named]
    · have quiet : node.id ∉ up.bounced := by
        simpa [BroughtUp.view] using congrArg NodeView.bounced untouched
      simp only [BroughtUp.view, bounced]
      split
      · rename_i task
        simp [task, quiet]
      · rename_i stays
        simp [stays]
    · simp [BroughtUp.view, cameUp.started_eq]

end Turn

/-! ## What bounces -/

section Bounce

variable {graph : Graph} {world : World} {prior : Option EnvState} {targets : List String}
  {node : Node}

/-- A node bounces for the reasons of its own node. -/
theorem bounces_cases (startable : graph.Startable) (member : node ∈ graph.nodes)
    (bounces : Bounces graph world prior targets node.id) :
    node.id ∈ targets ∧
      ((node.kind ≠ .task ∧ upToDate world prior node = false) ∨
        (taskAlreadyDone node (priorRecord prior node.id) = false ∧
          doneSeed world node = false ∧ world.alive node.id ∧
          (priorRecord prior node.id).isSome ∧
          ∃ dep, Needs graph.edges node.id dep ∧ Bounces graph world prior targets dep)) := by
  generalize named : node.id = id at bounces
  cases bounces with
  | stale member' inside stays stale =>
      obtain rfl := List.inj_on_of_nodup_map startable.ids_nodup member member' named
      exact ⟨inside, .inl ⟨stays, stale⟩⟩
  | joins member' inside due unseeded alive recorded needs below =>
      obtain rfl := List.inj_on_of_nodup_map startable.ids_nodup member member' named
      exact ⟨inside, .inr ⟨due, unseeded, alive, recorded, _, needs, below⟩⟩

/-- If the run brought back exactly what bounces below a node, the node's turn brings it back
exactly when it bounces. -/
theorem Turned.bounced_iff {up after : BroughtUp} (startable : graph.Startable)
    (member : node ∈ graph.nodes) (inside : node.id ∈ targets)
    (record : up.state.containers[node.id]? = priorRecord prior node.id)
    (untouched : Untouched up node.id)
    (below : BelowBounced graph up node ↔
      ∃ dep, Needs graph.edges node.id dep ∧ Bounces graph world prior targets dep)
    (turned : Turned graph world prior up after node) :
    (after.view node.id).bounced ↔ Bounces graph world prior targets node.id := by
  have passed : PassedOver world none up node ↔
      taskAlreadyDone node (priorRecord prior node.id) ∨ doneSeed world node := by
    simp [PassedOver, leftToAnother, doneTask, record]
  have quiet : (up.view node.id).bounced = false := congrArg NodeView.bounced untouched
  have recorded_of : upToDate world prior node = true →
      world.alive node.id ∧ (priorRecord prior node.id).isSome := by
    intro current
    simp only [upToDate, Bool.and_eq_true] at current
    refine ⟨current.1, ?_⟩
    cases found : priorRecord prior node.id with
    | none => simp [found] at current
    | some container => rfl
  cases turned with
  | left reason same =>
      rw [same, quiet]
      refine ⟨fun absent => (Bool.false_ne_true absent).elim, fun bounces => ?_⟩
      obtain ⟨-, ⟨stays, stale⟩ | ⟨due, unseeded, -, -, joins⟩⟩ :=
        bounces_cases startable member bounces
      · rcases reason with skipped | ⟨-, current⟩
        · exact (not_passedOver_of_ne_task startable member stays skipped).elim
        · rw [stale] at current
          cases current
      · rcases reason with skipped | ⟨alone, -⟩
        · simp [passed, due, unseeded] at skipped
        · exact (alone (below.mpr joins)).elim
  | rejoined due alive joins recorded record' kept bounced started =>
      refine ⟨fun _ => ?_, fun _ => bounced⟩
      obtain ⟨dep, needs, bounces⟩ := below.mp joins
      rw [passed, not_or, Bool.not_eq_true, Bool.not_eq_true] at due
      exact .joins member inside due.1 due.2 alive (by simp [recorded]) needs bounces
  | recreated due stale alone resolved record' hash bounced started =>
      rw [bounced]
      constructor
      · intro stays
        by_cases current : upToDate world prior node = true
        · have joins : BelowBounced graph up node := by
            by_contra none
            exact stale ⟨none, current⟩
          obtain ⟨alive, recorded⟩ := recorded_of current
          exact (alone ⟨alive, recorded, joins⟩).elim
        · exact .stale member inside stays (by simpa using current)
      · intro bounces task
        obtain ⟨-, ⟨stays, -⟩ | ⟨-, -, alive, recorded, joins⟩⟩ :=
          bounces_cases startable member bounces
        · exact stays task
        · exact alone ⟨alive, recorded, below.mpr joins⟩

end Bounce

/-! ## The whole switch -/

/-- A run over distinct targets of a graph that can be started, in which nothing failed. -/
structure Succeeds (graph : Graph) (world : World) (prior : Option EnvState)
    (targets : List String) (up : BroughtUp) : Prop where
  startable : graph.Startable
  distinct : targets.Nodup
  known : targets ⊆ graph.nodes.map Node.id
  fresh : Fresh graph targets up
  records : ∀ id ∈ targets, up.state.containers[id]? = priorRecord prior id
  clean : ∀ id : String, (runTargets graph world none up targets).outcomes.failed[id]? = none

namespace Succeeds

variable {graph : Graph} {world : World} {prior : Option EnvState} {targets : List String}
  {up : BroughtUp} (succeeds : Succeeds graph world prior targets up)

include succeeds

theorem order_nodup : (topologicalStartOrder targets graph.edges).Nodup :=
  (topologicalStartOrder_perm targets graph.edges).nodup_iff.mpr succeeds.distinct

/-- Nothing was blocked either. -/
theorem unblocked (id : String) :
    (runTargets graph world none up targets).outcomes.blocked[id]? = none := by
  have blamed := runNodes_blamed graph world none succeeds.fresh succeeds.order_nodup
    fun id member => (topologicalStartOrder_perm targets graph.edges).mem_iff.mp member
  cases down : (runTargets graph world none up targets).outcomes.blocked[id]? with
  | none => rfl
  | some cause =>
      have failed := (blamed.rooted id cause down).1
      have clean := succeeds.clean cause
      rw [runTargets] at clean
      rw [clean] at failed
      cases failed

variable {front back : List String} {id : String}

/-- Every turn finds its node, with the record from before the run, and goes through. -/
theorem turn (split : topologicalStartOrder targets graph.edges = front ++ id :: back) :
    ∃ node ∈ graph.nodes, node.id = id ∧ id ∈ targets ∧
      (runNodes graph world none up front).state.containers[id]? = priorRecord prior id ∧
      Untouched (runNodes graph world none up front) id ∧
      Turned graph world prior (runNodes graph world none up front)
        (bringUpNode graph world none (runNodes graph world none up front) id) node := by
  have inside : id ∈ targets :=
    (topologicalStartOrder_perm targets graph.edges).mem_iff.mp (by rw [split]; simp)
  obtain ⟨node, member, found⟩ := succeeds.startable.exists_node (succeeds.known inside)
  obtain ⟨-, rfl⟩ := Graph.node?_eq_some found
  obtain ⟨before, here, earlier⟩ := runNodes_turn graph world none succeeds.fresh.ids
    (split ▸ succeeds.order_nodup)
  obtain ⟨kept, requires, -⟩ := runNodes_frame graph world none succeeds.fresh.ids front
  have record : (runNodes graph world none up front).state.containers[node.id]? =
      priorRecord prior node.id :=
    (congrArg NodeView.record before).trans (succeeds.records node.id inside)
  have untouched : Untouched (runNodes graph world none up front) node.id :=
    succeeds.fresh.untouched_turn world none (split ▸ succeeds.order_nodup) inside
  -- what the node needs had its turn, and neither failed nor was blocked
  have free : (runNodes graph world none up front).outcomes.blockedBy node.id = none := by
    apply StartOutcomes.blockedBy_eq_none.mpr
    intro dep listed
    rw [requires, succeeds.fresh.outcomes_eq] at listed
    obtain ⟨needs, -, among⟩ := StartOutcomes.mem_new_requirements.mp listed
    have first : dep ∈ front := mem_front_of_needs succeeds.startable.acyclic split needs among
    have final := earlier dep first
    rw [← split] at final
    apply StartOutcomes.cause_eq_none.mpr
    exact ⟨(congrArg NodeView.failed final).symm.trans (succeeds.clean dep),
      (congrArg NodeView.blocked final).symm.trans (succeeds.unblocked dep)⟩
  have clean : ((bringUpNode graph world none (runNodes graph world none up front) node.id).view
      node.id).failed = none := by
    rw [← here, ← split]
    exact succeeds.clean node.id
  exact ⟨node, member, rfl, inside, record, untouched,
    turned succeeds.startable member kept record untouched free clean⟩

theorem mem_front_of_bounced (front : List String) {other : String}
    (bounced : other ∈ (runNodes graph world none up front).bounced) : other ∈ front := by
  by_contra outside
  have same := (runNodes_frame graph world none succeeds.fresh.ids front).2.2 other outside
  have absent := congrArg NodeView.bounced same
  simp [BroughtUp.view, succeeds.fresh.bounced_eq, bounced] at absent

/-- If what bounces among the nodes before a turn was brought back, the run brought back something
below the node exactly when something below it bounces. -/
theorem belowBounced_iff (split : topologicalStartOrder targets graph.edges = front ++ id :: back)
    (earlier : ∀ other ∈ front, other ∈ (runNodes graph world none up front).bounced ↔
      Bounces graph world prior targets other) {node : Node} (named : node.id = id) :
    BelowBounced graph (runNodes graph world none up front) node ↔
      ∃ dep, Needs graph.edges node.id dep ∧ Bounces graph world prior targets dep := by
  constructor
  · rintro ⟨dep, needs, bounced⟩
    exact ⟨dep, needs, (earlier dep (succeeds.mem_front_of_bounced front bounced)).mp bounced⟩
  · rintro ⟨dep, needs, bounces⟩
    have among : dep ∈ targets := by
      cases bounces with
      | stale _ inside => exact inside
      | joins _ inside => exact inside
    have first : dep ∈ front :=
      mem_front_of_needs succeeds.startable.acyclic split (named ▸ needs) among
    exact ⟨dep, needs, (earlier dep first).mpr bounces⟩

/-- What the run brought back among the nodes that had their turn is what bounces. -/
theorem bounced_iff (split : topologicalStartOrder targets graph.edges = front ++ back) :
    ∀ other ∈ front, other ∈ (runNodes graph world none up front).bounced ↔
      Bounces graph world prior targets other := by
  induction front using List.reverseRecOn generalizing back with
  | nil => simp
  | append_singleton front id ih =>
      have here : topologicalStartOrder targets graph.edges = front ++ id :: back := by
        rw [split, List.append_assoc, List.singleton_append]
      have earlier := ih here
      obtain ⟨node, member, rfl, inside, record, untouched, turned⟩ := succeeds.turn here
      obtain ⟨kept, -, -⟩ := runNodes_frame graph world none succeeds.fresh.ids front
      obtain ⟨-, -, frame⟩ := bringUpNode_frame graph world none kept node.id
      intro other found
      rw [runNodes, Execution.run_append, Execution.run_cons, Execution.run_nil]
      by_cases same : other = node.id
      · subst same
        have below := succeeds.belowBounced_iff here earlier rfl
        have iff := turned.bounced_iff succeeds.startable member inside record untouched below
        rwa [BroughtUp.view, decide_eq_true_eq] at iff
      · have old : other ∈ front := by simpa [same] using found
        have unchanged := congrArg NodeView.bounced (frame other same)
        simp only [BroughtUp.view, decide_eq_decide] at unchanged
        rw [unchanged]
        exact earlier other old

/-- A service of a run without failures ends up to date, unless it drifted and something below it
bounced. -/
theorem upToDate_iff {node : Node} (member : node ∈ graph.nodes) (inside : node.id ∈ targets)
    (stays : node.kind ≠ .task) :
    BroughtUpToDate world (runTargets graph world none up targets) node ↔
      ¬DriftedBelowBounce graph world prior targets node := by
  have listed := (topologicalStartOrder_perm targets graph.edges).mem_iff.mpr inside
  obtain ⟨front, back, split⟩ := List.append_of_mem listed
  obtain ⟨node', member', named, -, record, -, turned⟩ := succeeds.turn split
  obtain rfl := List.inj_on_of_nodup_map succeeds.startable.ids_nodup member' member named
  have final := (runNodes_turn graph world none succeeds.fresh.ids
    (split ▸ succeeds.order_nodup)).2.1
  rw [← split] at final
  have earlier : topologicalStartOrder targets graph.edges = front ++ (node'.id :: back) := split
  have below := succeeds.belowBounced_iff split (succeeds.bounced_iff earlier) rfl
  have recorded : (runTargets graph world none up targets).state.containers[node'.id]? =
      ((bringUpNode graph world none (runNodes graph world none up front) node'.id).view
        node'.id).record := congrArg NodeView.record final
  have started : node'.id ∈ (runTargets graph world none up targets).started ↔
      ((bringUpNode graph world none (runNodes graph world none up front) node'.id).view
        node'.id).started := by
    rw [← final]
    simp [BroughtUp.view, runTargets]
  cases turned with
  | left reason same =>
      obtain ⟨alone, current⟩ := reason.resolve_left
        (not_passedOver_of_ne_task succeeds.startable member stays)
      rw [same] at recorded
      have recorded := recorded.trans record
      rw [upToDate, Bool.and_eq_true] at current
      constructor
      · rintro - ⟨-, -, bounces⟩
        exact alone (below.mpr bounces)
      · intro _ spec resolved
        refine ⟨?_, fun _ => current.1⟩
        obtain ⟨container, found, hash⟩ := (Option.any_eq_true _ _).mp current.2
        rw [resolved] at hash
        exact ⟨container, recorded.trans found, (by simpa using hash : _ = _).symm⟩
  | rejoined due alive joins prior_eq record' kept bounced started' =>
      rw [record'] at recorded
      constructor
      · rintro current ⟨-, ⟨container, spec, found, resolved, drifted⟩, -⟩
        obtain ⟨⟨container', found', hash⟩, -⟩ := current spec resolved
        rw [recorded, Option.some.injEq] at found'
        rw [prior_eq, Option.some.injEq] at found
        subst found' found
        exact drifted (hash.symm.trans kept)
      · intro steady spec resolved
        refine ⟨⟨_, recorded, ?_⟩, fun unstarted => (unstarted (started.mpr started')).elim⟩
        by_contra drifted
        refine steady ⟨alive, ⟨_, spec, prior_eq, resolved, fun hash => ?_⟩, below.mp joins⟩
        exact drifted (kept.trans hash.symm)
  | recreated due stale alone resolved record' hash bounced started' =>
      rw [record'] at recorded
      constructor
      · rintro - ⟨alive, ⟨container, spec, found, -⟩, bounces⟩
        exact alone ⟨alive, by simp [found], below.mpr bounces⟩
      · intro _ spec resolved'
        refine ⟨⟨_, recorded, ?_⟩, fun unstarted => (unstarted (started.mpr started')).elim⟩
        rw [resolved, Except.ok.injEq] at resolved'
        rw [hash, resolved']

end Succeeds

section Stops

variable {world : World} {up : BroughtUp} {id : String}

theorem stopNode_self {container : ContainerInfo}
    (found : up.state.containers[id]? = some container) :
    (stopNode world up id).state.containers[id]? =
      some (stopContainer container (world.stopped id)) := by
  simp [stopNode, found, reportDone]

/-- Stopping a list of nodes leaves each of them with the status Docker gave after its stop. -/
theorem runStops_stopped (world : World) (ids : keyed up.state) {outside : List String}
    (recorded : ∃ container, up.state.containers[id]? = some container ∧
      (id ∈ outside ∨ container.observed.status = stoppedStatus (world.stopped id))) :
    ∃ left, (Execution.run (stopNode world) up outside).state.containers[id]? = some left ∧
      left.observed.status = stoppedStatus (world.stopped id) := by
  induction outside generalizing up with
  | nil =>
      obtain ⟨container, found, stopped⟩ := recorded
      exact ⟨container, found, stopped.resolve_left List.not_mem_nil⟩
  | cons first outside ih =>
      obtain ⟨container, found, stopped⟩ := recorded
      obtain ⟨kept, -, frame⟩ := stopNode_frame world ids first
      rw [Execution.run_cons]
      apply ih kept
      by_cases same : id = first
      · subst same
        exact ⟨_, stopNode_self found, .inr rfl⟩
      · refine ⟨container, (congrArg NodeView.record (frame id same)).trans found, ?_⟩
        simpa [same] using stopped

end Stops

/-- A switch to a flow stops what was running outside it, unless Docker says otherwise. -/
theorem othersStopped {graph : Graph} {world : World} {prior : Option EnvState}
    (ids : keyed (prior.getD {})) (flow : String) (targets : List String) (sidecarIp : String) :
    OthersStopped world prior targets
      (runTargets graph world none
        (prepared graph world (.flow flow) prior targets sidecarIp) targets) := by
  intro id container recorded running outside
  have known : keyed (planned graph (.flow flow) prior targets sidecarIp).state :=
    keyed_of_containers ids rfl
  have named : container.nodeId = id := (keyed_iff _).mp ids id container recorded
  have listed : id ∈ outsideOf graph (.flow flow) targets (runState graph prior sidecarIp) :=
    mem_stopOrder.mpr ⟨container, ⟨id, recorded⟩, running, by rwa [named], named⟩
  obtain ⟨left, found, status⟩ := runStops_stopped world known ⟨container, recorded, .inl listed⟩
  have kept := (prepared_spec graph world ids (.flow flow) targets sidecarIp).1
  have elsewhere : id ∉ topologicalStartOrder targets graph.edges := fun member =>
    outside ((topologicalStartOrder_perm targets graph.edges).mem_iff.mp member)
  have same := (runNodes_frame graph world none kept _).2.2 id elsewhere
  refine ⟨left, (congrArg NodeView.record same).trans found, fun still => ?_⟩
  rw [status] at still
  cases answer : world.stopped id with
  | error message => simp [answer, stoppedStatus] at still
  | ok reading =>
      cases reading with
      | none => simp [answer, stoppedStatus] at still
      | some status' => exact ⟨status', rfl, by simpa [answer, stoppedStatus] using still⟩

/-- A switch to a flow that succeeds leaves every service of the flow up to date and nothing outside
it running exactly when no service drifted that needs something the switch brought back. -/
theorem switch_up_to_date_iff {graph : Graph} (startable : graph.Startable) {world : World}
    {prior : Option EnvState} (ids : keyed (prior.getD {})) {flow : String} {state : EnvState}
    (switched : ensureRunning graph world (.flow flow) prior = .ok state) :
    ∃ up targets, bringUp graph world none (.flow flow) prior = .ok up ∧ up.state = state ∧
      graph.startIds flow = .ok targets ∧
      (((∀ node ∈ graph.nodes, node.id ∈ targets → node.kind ≠ .task →
            BroughtUpToDate world up node) ∧
          OthersStopped world prior targets up) ↔
        ∀ node ∈ graph.nodes, node.id ∈ targets → node.kind ≠ .task →
          ¬DriftedBelowBounce graph world prior targets node) := by
  unfold ensureRunning at switched
  split at switched
  · cases switched
  · rename_i up ran
    split at switched
    · rename_i quiet
      cases switched
      obtain ⟨targets, sidecarIp, chosen, rfl⟩ := bringUp_ok ran
      obtain ⟨distinct, known, -⟩ := targetIds_spec startable chosen
      have fresh := fresh_prepared graph world ids (.flow flow) targets sidecarIp
      have succeeds : Succeeds graph world prior targets
          (prepared graph world (.flow flow) prior targets sidecarIp) := by
        refine ⟨startable, distinct, known, fresh, ?_, ?_⟩
        · intro id inside
          have view := (prepared_spec graph world ids (.flow flow) targets sidecarIp).2.2 id inside
          exact congrArg NodeView.record view
        · have blamed := runNodes_blamed graph world none fresh
            ((topologicalStartOrder_perm targets graph.edges).nodup_iff.mpr distinct)
            fun id member => (topologicalStartOrder_perm targets graph.edges).mem_iff.mp member
          intro id
          by_contra failed
          have reported := blamed.listed.1.mpr ⟨id, Option.isSome_iff_ne_none.mpr failed⟩
          rw [quiet] at reported
          cases reported
      refine ⟨_, targets, ran, rfl, chosen, ?_⟩
      constructor
      · rintro ⟨current, -⟩ node member inside stays
        exact (succeeds.upToDate_iff member inside stays).mp (current node member inside stays)
      · intro steady
        refine ⟨fun node member inside stays => ?_, othersStopped ids flow targets sidecarIp⟩
        exact (succeeds.upToDate_iff member inside stays).mpr (steady node member inside stays)
    · cases switched

/-- A service on a database, in one flow. -/
def flowGraph : Graph where
  workspaceName := "shop"
  nodes :=
    [{ id := "db.shop", kind := .backing, flows := ["shop/dev"] },
     { id := "web.shop", kind := .service, flows := ["shop/dev"] }]
  edges := [{ «from» := "web.shop", «to» := "db.shop", required := true }]
  flows := ["shop/dev"]

theorem flowGraph_startable : flowGraph.Startable where
  ids_nodup := by decide
  ends_known := by decide
  acyclic := acyclic_of_checkCycles (by decide)
  store_task := by decide
  migration_runs := by decide
  store_stays := by simp [flowGraph]
  flow_needs := by
    intro flow node member inFlow target member' needs
    simp only [flowGraph, List.mem_cons, List.not_mem_nil, or_false] at member member'
    rcases member with rfl | rfl <;> rcases member' with rfl | rfl <;> exact inFlow
  flow_migrates := by simp [flowGraph]

/-- Everything the files know runs. -/
def runningWorld : World :=
  { quietWorld with inspectStatus := fun _ => .ok (some { status := "running" }) }

/-- The database as its files have it, the service with an older configuration, and the worker of
another flow. -/
def threeRunning : EnvState where
  containers := ["db.shop", "web.shop", "mail.shop"].foldl (fun containers id =>
    containers.insert id
      { nodeId := id
        desired :=
          { running := true, containerName := "fghj-shop-default-" ++ id
            configHash := if id = "db.shop" then id else "old" }
        observed := { status := "running" } }) ∅

/-- A switch that keeps the database, recreates the service and stops the worker. -/
theorem switch_with_prior :
    ∃ up targets,
      bringUp flowGraph runningWorld none (.flow "shop/dev") (some threeRunning) = .ok up ∧
      flowGraph.startIds "shop/dev" = .ok targets ∧
      (∀ node ∈ flowGraph.nodes, node.id ∈ targets → node.kind ≠ .task →
        BroughtUpToDate runningWorld up node) ∧
      OthersStopped runningWorld (some threeRunning) targets up := by
  have switched : ∃ state,
      ensureRunning flowGraph runningWorld (.flow "shop/dev") (some threeRunning) = .ok state := by
    cases outcome : ensureRunning flowGraph runningWorld (.flow "shop/dev") (some threeRunning) with
    | ok state => exact ⟨state, rfl⟩
    | error failure =>
        have fine : (ensureRunning flowGraph runningWorld (.flow "shop/dev")
            (some threeRunning)).isOk = true := by decide
        rw [outcome] at fine
        cases fine
  obtain ⟨state, switched⟩ := switched
  obtain ⟨up, targets, ran, -, chosen, exact⟩ :=
    switch_up_to_date_iff flowGraph_startable (by decide) switched
  refine ⟨up, targets, ran, chosen, exact.mpr ?_⟩
  have kept (id : String) (same : id = "db.shop") :
      ¬Bounces flowGraph runningWorld (some threeRunning) targets id := by
    intro bounces
    cases bounces with
    | stale member inside stays stale =>
        simp only [flowGraph, List.mem_cons, List.not_mem_nil, or_false] at member
        rcases member with rfl | rfl
        · exact absurd stale (by decide)
        · exact absurd same (by decide)
    | joins member inside due unseeded alive recorded needs below =>
        obtain ⟨edge, listed, -, source, -⟩ := needs
        obtain rfl := List.mem_singleton.mp listed
        exact absurd (source.trans same) (by decide)
  rintro node - - - ⟨-, -, dep, ⟨edge, listed, -, -, rfl⟩, bounces⟩
  obtain rfl := List.mem_singleton.mp listed
  exact kept _ rfl bounces

/-- The service runs and its database does not. -/
def databaseDown : World :=
  { quietWorld with
    inspectStatus := fun id =>
      if id = "web.shop" then .ok (some { status := "running" }) else .ok none }

/-- The service is recorded with an older configuration. -/
def driftedState : EnvState where
  containers := (∅ : OrderedMap String ContainerInfo).insert "web.shop"
    { nodeId := "web.shop"
      desired :=
        { running := true, containerName := "fghj-shop-default-web-shop", configHash := "old" }
      observed := { status := "running" } }

/-- A drifted service whose database was down is restarted in place, and keeps the older
configuration. -/
theorem switch_leaves_drifted_service :
    ¬∀ (graph : Graph) (world : World) (prior : Option EnvState) (flow : String) (up : BroughtUp)
      (targets : List String), graph.Startable → keyed (prior.getD {}) →
      bringUp graph world none (.flow flow) prior = .ok up →
      ensureRunning graph world (.flow flow) prior = .ok up.state →
      graph.startIds flow = .ok targets →
      (∀ node ∈ graph.nodes, node.id ∈ targets → node.kind ≠ .task →
        BroughtUpToDate world up node) ∧ OthersStopped world prior targets up := by
  intro claim
  have hash : (bringUp flowGraph databaseDown none (.flow "shop/dev")
      (some driftedState)).toOption.map (fun up =>
        (up.outcomes.error, (up.state.containers["web.shop"]?).map (·.desired.configHash))) =
      some (none, some "old") := by decide
  cases ran : bringUp flowGraph databaseDown none (.flow "shop/dev") (some driftedState) with
  | error failure => simp [ran, Except.toOption] at hash
  | ok up =>
      simp only [ran, Except.toOption, Option.map_some, Option.some.injEq, Prod.mk.injEq] at hash
      have current := (claim flowGraph databaseDown (some driftedState) "shop/dev" up
        ["db.shop", "web.shop"] flowGraph_startable (by decide) ran
        (by simp [ensureRunning, ran, hash.1]) rfl).1
        { id := "web.shop", kind := .service, flows := ["shop/dev"] } (by simp [flowGraph])
        (by decide) (by decide) _ rfl
      obtain ⟨⟨container, found, fresh⟩, -⟩ := current
      rw [found] at hash
      simp [fresh, databaseDown, quietWorld] at hash

end Orchestrator
end Fghj
