import Fghj.BringUp
import Fghj.ConvergeBooks

/-!
# What a run does with its nodes

One case analysis says everything a verdict can lead to. From it follow the frame of a run (a node
changes nothing but itself), what the targets are, and that what is recorded of a node is decided
when its turn comes and stays.
-/

namespace Fghj
namespace Orchestrator

open Std Converge

/-! ## Verdicts -/

section Verdict

variable (graph : Graph) (world : World) (restart : Option String) (up : BroughtUp) (node : Node)

/-- The node is passed over before Docker is asked about it. -/
def PassedOver : Prop :=
  restart ≠ some node.id ∧
    (leftToAnother restart up node ∨ doneTask restart up node ∨ doneSeed world node)

/-- The node is alive, recorded and current, and nothing it needs came back. -/
def Current : Prop :=
  restart ≠ some node.id ∧ bouncedRequirement graph node up.bounced = none ∧
    topUpMaySkip (world.alive node.id) up.state.containers[node.id]?
      (freshHash world restart up node)

/-- A running container whose requirement came back. -/
def Rejoins (existing : ContainerInfo) : Prop :=
  restart ≠ some node.id ∧ world.alive node.id ∧
    (bouncedRequirement graph node up.bounced).isSome ∧
    up.state.containers[node.id]? = some existing

/-- Every verdict, with what led to it. -/
theorem verdict_cases :
    (PassedOver world restart up node ∧ verdict graph world restart up node = .leave) ∨
    (¬PassedOver world restart up node ∧ Current graph world restart up node ∧
      verdict graph world restart up node = .leave) ∨
    (¬PassedOver world restart up node ∧ ¬Current graph world restart up node ∧
      ∃ cause, up.outcomes.blockedBy node.id = some cause ∧
        verdict graph world restart up node =
          if world.alive node.id then .leave else .block cause) ∨
    (¬PassedOver world restart up node ∧ ¬Current graph world restart up node ∧
      up.outcomes.blockedBy node.id = none ∧ ∃ existing,
        Rejoins graph world restart up node existing ∧
        verdict graph world restart up node = .restart existing) ∨
    (¬PassedOver world restart up node ∧ ¬Current graph world restart up node ∧
      up.outcomes.blockedBy node.id = none ∧
      (∀ existing, ¬Rejoins graph world restart up node existing) ∧
        verdict graph world restart up node = .start) := by
  by_cases passed : PassedOver world restart up node
  · refine .inl ⟨passed, ?_⟩
    obtain ⟨free, reason⟩ := passed
    have skips : (!(restart == some node.id) && (leftToAnother restart up node ||
        doneTask restart up node || doneSeed world node)) = true := by
      simpa [free, or_assoc] using reason
    simp [verdict, skips]
  · right
    have stays : (!(restart == some node.id) && (leftToAnother restart up node ||
        doneTask restart up node || doneSeed world node)) = false := by
      simpa [PassedOver, and_assoc] using passed
    by_cases current : Current graph world restart up node
    · refine .inl ⟨passed, current, ?_⟩
      obtain ⟨free, alone, skips⟩ := current
      simp [verdict, stays, free, alone, skips]
    · right
      have acts : (!(restart == some node.id) &&
          (bouncedRequirement graph node up.bounced).isNone &&
          topUpMaySkip (world.alive node.id) up.state.containers[node.id]?
            (freshHash world restart up node)) = false := by
        simpa [Current, and_assoc] using current
      cases blocked : up.outcomes.blockedBy node.id with
      | some cause =>
          refine .inl ⟨passed, current, cause, rfl, ?_⟩
          simp [verdict, stays, acts, blocked]
      | none =>
          right
          cases found : up.state.containers[node.id]? with
          | none =>
              rw [found] at acts
              refine .inr ⟨passed, current, rfl, ?_, ?_⟩
              · rintro existing ⟨-, -, -, recorded⟩
                rw [found] at recorded
                cases recorded
              · simp [verdict, stays, acts, blocked, found]
          | some existing =>
              rw [found] at acts
              by_cases rejoins : Rejoins graph world restart up node existing
              · refine .inl ⟨passed, current, rfl, existing, rejoins, ?_⟩
                obtain ⟨free, alive, back, -⟩ := rejoins
                have here : (world.alive node.id && !(restart == some node.id) &&
                    (bouncedRequirement graph node up.bounced).isSome) = true := by
                  simp [free, alive, back]
                simp [verdict, stays, acts, blocked, found, here]
              · refine .inr ⟨passed, current, rfl, ?_, ?_⟩
                · intro other others
                  have same := others.2.2.2
                  rw [found, Option.some.injEq] at same
                  exact rejoins (same ▸ others)
                · have away : (world.alive node.id && !(restart == some node.id) &&
                      (bouncedRequirement graph node up.bounced).isSome) = false := by
                    rw [Bool.eq_false_iff]
                    intro here
                    simp only [Bool.and_eq_true, Bool.not_eq_true', beq_eq_false_iff_ne] at here
                    exact rejoins ⟨here.1.2, here.1.1, here.2, found⟩
                  simp [verdict, stays, acts, blocked, found, away]

variable {graph world restart up node}

theorem verdict_eq_leave (decided : verdict graph world restart up node = .leave) :
    PassedOver world restart up node ∨ Current graph world restart up node ∨
      world.alive node.id ∧ (up.outcomes.blockedBy node.id).isSome := by
  rcases verdict_cases graph world restart up node with
    ⟨passed, -⟩ | ⟨-, current, -⟩ | ⟨-, -, cause, blocked, equal⟩ | ⟨-, -, -, _, -, equal⟩ |
    ⟨-, -, -, -, equal⟩
  · exact .inl passed
  · exact .inr (.inl current)
  · rw [decided] at equal
    split at equal
    · rename_i alive
      exact .inr (.inr ⟨alive, by simp [blocked]⟩)
    · cases equal
  · cases decided.symm.trans equal
  · cases decided.symm.trans equal

theorem verdict_eq_block {cause : String}
    (decided : verdict graph world restart up node = .block cause) :
    world.alive node.id = false ∧ up.outcomes.blockedBy node.id = some cause := by
  rcases verdict_cases graph world restart up node with
    ⟨-, equal⟩ | ⟨-, -, equal⟩ | ⟨-, -, cause', blocked, equal⟩ | ⟨-, -, -, _, -, equal⟩ |
    ⟨-, -, -, -, equal⟩
  · cases decided.symm.trans equal
  · cases decided.symm.trans equal
  · rw [decided] at equal
    split at equal
    · cases equal
    · rename_i dead
      cases equal
      exact ⟨by simpa using dead, blocked⟩
  · cases decided.symm.trans equal
  · cases decided.symm.trans equal

theorem verdict_eq_restart {existing : ContainerInfo}
    (decided : verdict graph world restart up node = .restart existing) :
    up.outcomes.blockedBy node.id = none ∧ ¬PassedOver world restart up node ∧
      Rejoins graph world restart up node existing := by
  rcases verdict_cases graph world restart up node with
    ⟨-, equal⟩ | ⟨-, -, equal⟩ | ⟨-, -, cause', -, equal⟩ | ⟨due, -, free, _, rejoins, equal⟩ |
    ⟨-, -, -, -, equal⟩
  · cases decided.symm.trans equal
  · cases decided.symm.trans equal
  · rw [decided] at equal
    split at equal <;> cases equal
  · cases decided.symm.trans equal
    exact ⟨free, due, rejoins⟩
  · cases decided.symm.trans equal

theorem verdict_eq_start (decided : verdict graph world restart up node = .start) :
    up.outcomes.blockedBy node.id = none ∧ ¬PassedOver world restart up node ∧
      ¬Current graph world restart up node ∧
      ∀ existing, ¬Rejoins graph world restart up node existing := by
  rcases verdict_cases graph world restart up node with
    ⟨-, equal⟩ | ⟨-, -, equal⟩ | ⟨-, -, cause', -, equal⟩ | ⟨-, -, -, _, -, equal⟩ |
    ⟨due, stale, free, alone, -⟩
  · cases decided.symm.trans equal
  · cases decided.symm.trans equal
  · rw [decided] at equal
    split at equal <;> cases equal
  · cases decided.symm.trans equal
  · exact ⟨free, due, stale, alone⟩

end Verdict

/-! ## One node -/

/-- The run worked on a node and gave up on it. -/
structure GaveUp (up after : BroughtUp) (id : String) (action : PendingAction) (message : String) :
    Prop where
  state_eq : after.state = up.state
  outcomes_eq : after.outcomes = up.outcomes.fail id message
  recreated_eq : after.recreated = up.recreated
  bounced_eq : after.bounced = up.bounced
  started_eq : after.started = up.started
  reports_eq : after.reports = up.reports ++ [.working id (some action), .working id none]

/-- The run worked on a node and it came up. -/
structure CameUp (up after : BroughtUp) (id : String) (action : PendingAction)
    (info : ContainerInfo) : Prop where
  state_eq : after.state =
    { up.state with containers := up.state.containers.insert info.nodeId info }
  outcomes_eq : after.outcomes = up.outcomes
  started_eq : after.started = up.started ++ [id]
  reports_eq : after.reports = up.reports ++ [.working id (some action), .done
    { network := up.state.network, sidecarContainerName := up.state.sidecarContainerName
      sidecarIp := up.state.sidecarIp, info }]

/-- The record of a started node, with whether its seed was noted. -/
def World.recordStart (world : World) (node : Node) (info : ContainerInfo) : ContainerInfo :=
  if node.seeds.isEmpty then info
  else { info with observed := { info.observed with seeded := some (world.recordSeeded node.id) } }

section Step

variable {graph : Graph} {world : World} {restart : Option String} {up : BroughtUp} {node : Node}

/-- The start a run makes of a node. -/
def World.started (world : World) (up : BroughtUp) (node : Node) : Except String ContainerInfo :=
  startNode world.specHash (world.resolveNodeSpec node.id) (world.start node.id) node
    ((up.state.containers[node.id]?).any fun container => container.desired.debugWait)

theorem restartNodeInPlace_cases (world : World) (up : BroughtUp) (node : Node)
    (existing : ContainerInfo) :
    (∃ message, restartInPlace (world.start node.id) existing = .error message ∧
      GaveUp up (restartNodeInPlace world up node existing) node.id .restarting message) ∨
    (∃ info, restartInPlace (world.start node.id) existing = .ok info ∧
      CameUp up (restartNodeInPlace world up node existing) node.id .restarting info ∧
      (restartNodeInPlace world up node existing).recreated = up.recreated ∧
      (restartNodeInPlace world up node existing).bounced = node.id :: up.bounced) := by
  unfold restartNodeInPlace
  cases restarted : restartInPlace (world.start node.id) existing with
  | error message =>
      exact .inl ⟨message, rfl, rfl, rfl, rfl, rfl, rfl, by simp [giveUp, working]⟩
  | ok info =>
      exact .inr ⟨info, rfl, ⟨rfl, rfl, rfl, by simp [reportDone, working]⟩, rfl, rfl⟩

theorem startNodeOfRun_cases (world : World) (up : BroughtUp) (node : Node) :
    (∃ message, world.started up node = .error message ∧
      GaveUp up (startNodeOfRun world up node) node.id .starting message) ∨
    (∃ info, world.started up node = .ok info ∧
      CameUp up (startNodeOfRun world up node) node.id .starting (world.recordStart node info) ∧
      (startNodeOfRun world up node).recreated =
        (if node.kind = .task then up.recreated else node.id :: up.recreated) ∧
      (startNodeOfRun world up node).bounced =
        (if node.kind = .task then up.bounced else node.id :: up.bounced)) := by
  unfold startNodeOfRun World.started
  cases started : startNode world.specHash (world.resolveNodeSpec node.id) (world.start node.id)
      node ((up.state.containers[node.id]?).any fun container => container.desired.debugWait) with
  | error message =>
      simp only [started]
      exact .inl ⟨message, rfl, rfl, rfl, rfl, rfl, rfl, by simp [giveUp, working]⟩
  | ok info =>
      simp only [started, World.recordStart]
      refine .inr ⟨info, rfl, ?_⟩
      split
      · exact ⟨⟨rfl, rfl, rfl, by simp [reportDone, working]⟩, rfl, rfl⟩
      · exact ⟨⟨rfl, rfl, rfl, by simp [reportDone, working]⟩, rfl, rfl⟩

/-- Everything a run can do with a node. -/
theorem bringUpNode_cases (found : graph.node? node.id = some node) :
    (verdict graph world restart up node = .leave ∧
      bringUpNode graph world restart up node.id = up) ∨
    (∃ cause, verdict graph world restart up node = .block cause ∧
      bringUpNode graph world restart up node.id =
        { up with outcomes := up.outcomes.block node.id cause }) ∨
    (∃ action message,
      ((∃ existing, verdict graph world restart up node = .restart existing ∧
          action = .restarting) ∨
        (verdict graph world restart up node = .start ∧ action = .starting)) ∧
      GaveUp up (bringUpNode graph world restart up node.id) node.id action message) ∨
    (∃ existing info, verdict graph world restart up node = .restart existing ∧
      restartInPlace (world.start node.id) existing = .ok info ∧
      CameUp up (bringUpNode graph world restart up node.id) node.id .restarting info ∧
      (bringUpNode graph world restart up node.id).recreated = up.recreated ∧
      (bringUpNode graph world restart up node.id).bounced = node.id :: up.bounced) ∨
    (∃ info, verdict graph world restart up node = .start ∧ world.started up node = .ok info ∧
      CameUp up (bringUpNode graph world restart up node.id) node.id .starting
        (world.recordStart node info) ∧
      (bringUpNode graph world restart up node.id).recreated =
        (if node.kind = .task then up.recreated else node.id :: up.recreated) ∧
      (bringUpNode graph world restart up node.id).bounced =
        (if node.kind = .task then up.bounced else node.id :: up.bounced)) := by
  simp only [bringUpNode, found]
  cases decided : verdict graph world restart up node with
  | leave => exact .inl ⟨rfl, rfl⟩
  | block cause => exact .inr (.inl ⟨cause, rfl, rfl⟩)
  | restart existing =>
      rcases restartNodeInPlace_cases world up node existing with
        ⟨message, -, gaveUp⟩ | ⟨info, restarted, cameUp, recreated, bounced⟩
      · exact .inr (.inr (.inl ⟨.restarting, message, .inl ⟨existing, rfl, rfl⟩, gaveUp⟩))
      · exact .inr (.inr (.inr (.inl ⟨existing, info, rfl, restarted, cameUp, recreated,
          bounced⟩)))
  | start =>
      rcases startNodeOfRun_cases world up node with
        ⟨message, -, gaveUp⟩ | ⟨info, started, cameUp, recreated, bounced⟩
      · exact .inr (.inr (.inl ⟨.starting, message, .inr ⟨rfl, rfl⟩, gaveUp⟩))
      · exact .inr (.inr (.inr (.inr ⟨info, rfl, started, cameUp, recreated, bounced⟩)))

end Step

/-! ## What a run holds of a node -/

/-- The report says that the node is about to be started or restarted. -/
def announces (id : String) : RunProgress → Bool
  | .working named (some .starting) => named == id
  | .working named (some .restarting) => named == id
  | _ => false

theorem announces_of_ne {id other : String} (different : other ≠ id)
    (action : Option PendingAction) : announces other (.working id action) = false := by
  rcases action with _ | action
  · rfl
  · cases action <;> simp [announces, different.symm]

@[simp]
theorem announces_done (id : String) (done : NodeDone) : announces id (.done done) = false := rfl

/-- Everything a run holds of one node. -/
structure NodeView where
  record : Option ContainerInfo
  failed : Option String := none
  blocked : Option String := none
  recreated : Bool := false
  bounced : Bool := false
  started : Bool := false
  /-- The run started or restarted the node, whatever came of it. -/
  attempted : Bool := false

def BroughtUp.view (up : BroughtUp) (id : String) : NodeView where
  record := up.state.containers[id]?
  failed := up.outcomes.failed[id]?
  blocked := up.outcomes.blocked[id]?
  recreated := decide (id ∈ up.recreated)
  bounced := decide (id ∈ up.bounced)
  started := decide (id ∈ up.started)
  attempted := up.reports.any (announces id)

section View

variable {up after : BroughtUp} {id other : String} {action : PendingAction} {info : ContainerInfo}

theorem GaveUp.view_of_ne {message : String} (gaveUp : GaveUp up after id action message)
    (different : other ≠ id) : after.view other = up.view other := by
  simp [BroughtUp.view, gaveUp.state_eq, gaveUp.outcomes_eq, gaveUp.recreated_eq,
    gaveUp.bounced_eq, gaveUp.started_eq, gaveUp.reports_eq, StartOutcomes.fail, different.symm,
    announces_of_ne different]

theorem CameUp.view_of_ne (cameUp : CameUp up after id action info) (named : info.nodeId = id)
    (recreated : other ∈ after.recreated ↔ other ∈ up.recreated)
    (bounced : other ∈ after.bounced ↔ other ∈ up.bounced) (different : other ≠ id) :
    after.view other = up.view other := by
  simp [BroughtUp.view, cameUp.state_eq, cameUp.outcomes_eq, cameUp.started_eq,
    cameUp.reports_eq, recreated, bounced, named, different, different.symm,
    announces_of_ne different]

end View

variable {up : BroughtUp}

section Run

variable {graph : Graph} {world : World} {restart : Option String}

/-- A started node is recorded under its id, with the hash of what its files resolve to. -/
theorem World.started_ok {node : Node} {info : ContainerInfo}
    (started : world.started up node = .ok info) :
    (world.recordStart node info).nodeId = node.id ∧ ∃ spec,
      world.resolveNodeSpec node.id = .ok spec ∧
      (world.recordStart node info).desired.configHash = world.specHash node spec := by
  obtain ⟨spec, inspected, resolved, -, rfl, -⟩ := startNode_ok started
  rw [World.recordStart]
  split
  · exact ⟨rfl, spec, resolved, rfl⟩
  · exact ⟨rfl, spec, resolved, rfl⟩

/-- A node keeps every record under its id, and changes what is held of itself only. -/
theorem bringUpNode_frame (graph : Graph) (world : World) (restart : Option String)
    (ids : keyed up.state) (id : String) :
    keyed (bringUpNode graph world restart up id).state ∧
      (bringUpNode graph world restart up id).outcomes.requirements = up.outcomes.requirements ∧
      ∀ other, other ≠ id → (bringUpNode graph world restart up id).view other = up.view other := by
  cases found : graph.node? id with
  | none => simp [bringUpNode, found, ids]
  | some node =>
      obtain ⟨-, rfl⟩ := Graph.node?_eq_some found
      rcases bringUpNode_cases found with ⟨-, same⟩ | ⟨cause, -, same⟩ |
        ⟨action, message, -, gaveUp⟩ |
        ⟨existing, info, decided, restarted, cameUp, recreated, bounced⟩ |
        ⟨info, -, started, cameUp, recreated, bounced⟩
      · rw [same]
        exact ⟨ids, rfl, fun _ _ => rfl⟩
      · rw [same]
        refine ⟨ids, rfl, fun other different => ?_⟩
        simp [BroughtUp.view, StartOutcomes.block, different.symm]
      · refine ⟨by rw [gaveUp.state_eq]; exact ids, by rw [gaveUp.outcomes_eq]; rfl, ?_⟩
        intro other different
        exact gaveUp.view_of_ne different
      · have named : info.nodeId = node.id := by
          obtain ⟨inspected, -, rfl⟩ := restartInPlace_ok restarted
          rw [(restartedInfo_keeps existing inspected).1]
          exact (keyed_iff up.state).mp ids node.id existing (verdict_eq_restart decided).2.2.2.2.2
        refine ⟨?_, by rw [cameUp.outcomes_eq], fun other different => ?_⟩
        · rw [cameUp.state_eq]
          exact keyed_insert ids rfl
        · exact cameUp.view_of_ne named (by rw [recreated]) (by simp [bounced, different]) different
      · have named := (World.started_ok started).1
        refine ⟨?_, by rw [cameUp.outcomes_eq], fun other different => ?_⟩
        · rw [cameUp.state_eq]
          exact keyed_insert ids rfl
        · apply cameUp.view_of_ne named _ _ different
          · rw [recreated]
            split <;> simp [different]
          · rw [bounced]
            split <;> simp [different]

/-- The run over a list of nodes. -/
abbrev runNodes (graph : Graph) (world : World) (restart : Option String) (up : BroughtUp)
    (ids : List String) : BroughtUp :=
  Execution.run (bringUpNode graph world restart) up ids

/-- A run keeps every record under its id, and changes what is held of its nodes only. -/
theorem runNodes_frame (graph : Graph) (world : World) (restart : Option String)
    (ids : keyed up.state) (nodes : List String) :
    keyed (runNodes graph world restart up nodes).state ∧
      (runNodes graph world restart up nodes).outcomes.requirements = up.outcomes.requirements ∧
      ∀ other, other ∉ nodes →
        (runNodes graph world restart up nodes).view other = up.view other := by
  induction nodes generalizing up with
  | nil => exact ⟨ids, rfl, fun _ _ => rfl⟩
  | cons id nodes ih =>
      obtain ⟨kept, needs, frame⟩ := bringUpNode_frame graph world restart ids id
      obtain ⟨later, laterNeeds, laterFrame⟩ := ih kept
      refine ⟨later, laterNeeds.trans needs, fun other outside => ?_⟩
      rw [List.mem_cons, not_or] at outside
      exact (laterFrame other outside.2).trans (frame other outside.1)

/-- What a run holds of a node before its turn, from its turn on, and of the nodes before it. -/
theorem runNodes_turn (graph : Graph) (world : World) (restart : Option String)
    (ids : keyed up.state) {front back : List String} {id : String}
    (distinct : (front ++ id :: back).Nodup) :
    (runNodes graph world restart up front).view id = up.view id ∧
      (runNodes graph world restart up (front ++ id :: back)).view id =
        (bringUpNode graph world restart (runNodes graph world restart up front) id).view id ∧
      ∀ other ∈ front, (runNodes graph world restart up (front ++ id :: back)).view other =
        (runNodes graph world restart up front).view other := by
  obtain ⟨-, rest, apart⟩ := List.nodup_append.mp distinct
  obtain ⟨outside, -⟩ := List.nodup_cons.mp rest
  obtain ⟨kept, -, before⟩ := runNodes_frame graph world restart ids front
  obtain ⟨keptTurn, -, turn⟩ := bringUpNode_frame graph world restart kept id
  obtain ⟨-, -, after⟩ := runNodes_frame graph world restart keptTurn back
  have whole : runNodes graph world restart up (front ++ id :: back) =
      runNodes graph world restart
        (bringUpNode graph world restart (runNodes graph world restart up front) id) back := by
    rw [runNodes, Execution.run_append, Execution.run_cons]
  rw [whole]
  refine ⟨before id fun member => apart id member id List.mem_cons_self rfl, after id outside, ?_⟩
  intro other member
  have different : other ≠ id := fun same => apart other member id List.mem_cons_self same
  have later : other ∉ back := fun found =>
    apart other member other (List.mem_cons_of_mem _ found) rfl
  exact (after other later).trans (turn other different)

end Run

/-! ## Targets -/

theorem targetIds_spec {graph : Graph} (startable : graph.Startable) {restart : Option String}
    {spec : EnvSpec} {prior : Option EnvState} {targets : List String}
    (chosen : targetIds graph restart spec prior = .ok targets) :
    targets.Nodup ∧ targets ⊆ graph.nodes.map Node.id ∧
      ∀ task ∈ graph.nodes, ∀ store ∈ targets, task.migrates = some store → task.id ∈ targets := by
  cases spec with
  | flow flow =>
      simp only [targetIds, Graph.startIds] at chosen
      split at chosen
      · cases chosen
        refine ⟨?_, ?_, ?_⟩
        · exact startable.ids_nodup.sublist (List.filter_sublist.map Node.id)
        · exact List.map_subset _ (List.filter_subset_self _)
        · intro task member store inside migrates
          obtain ⟨node, listed, rfl⟩ := List.mem_map.mp inside
          obtain ⟨listed, inFlow⟩ := List.mem_filter.mp listed
          refine List.mem_map.mpr ⟨task, List.mem_filter.mpr ⟨member, ?_⟩, rfl⟩
          simpa using startable.flow_migrates flow node listed (by simpa using inFlow) task member
            migrates
      · cases chosen
  | node id =>
      simp only [targetIds] at chosen
      split at chosen
      · rename_i present
        have known : id ∈ graph.nodes.map Node.id := by
          obtain ⟨node, member, named⟩ := List.any_eq_true.mp present
          exact List.mem_map.mpr ⟨node, member, by simpa using named⟩
        cases chosen
        obtain ⟨distinctNeeds, needs⟩ := requirementsOf_spec id graph.edges
        obtain ⟨distinctDependents, dependents⟩ := dependentsOf_spec id graph.edges
        have up : (requirementsOf id graph.edges ++ [id]).Nodup ∧
            requirementsOf id graph.edges ++ [id] ⊆ graph.nodes.map Node.id := by
          refine ⟨?_, ?_⟩
          · apply List.Nodup.append distinctNeeds (List.nodup_singleton id)
            intro other member here
            exact (needs other member).1 (List.mem_singleton.mp here)
          · apply List.append_subset.mpr
            refine ⟨fun other member => ?_, by simpa using known⟩
            obtain ⟨before, -, last⟩ := Relation.TransGen.tail'_iff.mp (needs other member).2
            exact (startable.needs_known last).2
        split
        · rename_i forced prior
          obtain ⟨-, migrated, inside, apart⟩ :=
            startable.withMigrations_spec (restartTargets graph id prior)
          refine ⟨apart ?_, inside ?_, migrated⟩
          · apply List.Nodup.append up.1 (distinctDependents.filter _)
            intro other needed dependent
            obtain ⟨away, path⟩ := dependents other (List.mem_filter.mp dependent).1
            rcases List.mem_append.mp needed with required | here
            · exact startable.acyclic.irrefl ((needs other required).2.trans path)
            · exact away (List.mem_singleton.mp here)
          · apply List.append_subset.mpr
            refine ⟨up.2, fun other member => ?_⟩
            obtain ⟨-, path⟩ := dependents other (List.mem_filter.mp member).1
            obtain ⟨after, first, -⟩ := Relation.TransGen.head'_iff.mp path
            exact (startable.needs_known first).1
        · obtain ⟨-, migrated, inside, apart⟩ :=
            startable.withMigrations_spec (requirementsOf id graph.edges ++ [id])
          exact ⟨apart up.1, inside up.2, migrated⟩
      · cases chosen

/-! ## Before the first node -/

section Prepared

variable {graph : Graph} {world : World}

/-- Stopping a node keeps every record under its id, and changes what is held of itself only. -/
theorem stopNode_frame (world : World) (ids : keyed up.state) (id : String) :
    keyed (stopNode world up id).state ∧
      ((stopNode world up id).outcomes = up.outcomes ∧
        (stopNode world up id).recreated = up.recreated ∧
        (stopNode world up id).bounced = up.bounced) ∧
      ∀ other, other ≠ id → (stopNode world up id).view other = up.view other := by
  unfold stopNode
  cases found : up.state.containers[id]? with
  | none => exact ⟨ids, ⟨rfl, rfl, rfl⟩, fun _ _ => rfl⟩
  | some container =>
      refine ⟨?_, ⟨rfl, rfl, rfl⟩, fun other different => ?_⟩
      · exact keyed_insert ids ((keyed_iff up.state).mp ids id container found)
      · simp [BroughtUp.view, reportDone, working, different.symm, announces_of_ne different]

theorem runStops_frame (world : World) (ids : keyed up.state) (outside : List String) :
    keyed (Execution.run (stopNode world) up outside).state ∧
      ((Execution.run (stopNode world) up outside).outcomes = up.outcomes ∧
        (Execution.run (stopNode world) up outside).recreated = up.recreated ∧
        (Execution.run (stopNode world) up outside).bounced = up.bounced) ∧
      ∀ other, other ∉ outside →
        (Execution.run (stopNode world) up outside).view other = up.view other := by
  induction outside generalizing up with
  | nil => exact ⟨ids, ⟨rfl, rfl, rfl⟩, fun _ _ => rfl⟩
  | cons id outside ih =>
      obtain ⟨kept, ⟨outcomes, recreated, bounced⟩, frame⟩ := stopNode_frame world ids id
      obtain ⟨later, ⟨outcomes', recreated', bounced'⟩, laterFrame⟩ := ih kept
      refine ⟨later, ⟨outcomes'.trans outcomes, recreated'.trans recreated,
        bounced'.trans bounced⟩, fun other elsewhere => ?_⟩
      rw [List.mem_cons, not_or] at elsewhere
      exact (laterFrame other elsewhere.2).trans (frame other elsewhere.1)

theorem mem_stopOrder {keep : List String} {state : EnvState} {id : String} :
    id ∈ stopOrder graph keep state ↔
      ∃ container, (∃ key : String, state.containers[key]? = some container) ∧
        container.observed.status = "running" ∧ container.nodeId ∉ keep ∧
        container.nodeId = id := by
  simp only [stopOrder, List.mem_reverse, (topologicalStartOrder_perm _ graph.edges).mem_iff,
    List.mem_map, List.mem_filter, OrderedMap.mem_listed, Bool.and_eq_true, beq_iff_eq,
    decide_eq_true_eq]
  constructor
  · rintro ⟨container, ⟨listed, up, outside⟩, rfl⟩
    exact ⟨container, listed, up, outside, rfl⟩
  · rintro ⟨container, listed, up, outside, rfl⟩
    exact ⟨container, ⟨listed, up, outside⟩, rfl⟩

/-- Stops announce no start. -/
theorem runStops_quiet (world : World) {id : String} (quiet : up.reports.any (announces id) = false)
    (outside : List String) :
    (Execution.run (stopNode world) up outside).reports.any (announces id) = false := by
  apply Execution.run_always (stopNode world) (fun up => up.reports.any (announces id) = false)
  · intro up stopped quiet
    unfold stopNode
    split
    · exact quiet
    · simp only [reportDone, working, List.any_append, quiet]
      simp [announces]
  · exact quiet

/-- Before the first node, the run holds of every target its record and nothing else. -/
theorem prepared_spec (graph : Graph) (world : World) {prior : Option EnvState}
    (ids : keyed (prior.getD {})) (spec : EnvSpec)
    (targets : List String) (sidecarIp : String) :
    keyed (prepared graph world spec prior targets sidecarIp).state ∧
      ((prepared graph world spec prior targets sidecarIp).outcomes = .new targets graph.edges ∧
        (prepared graph world spec prior targets sidecarIp).recreated = [] ∧
        (prepared graph world spec prior targets sidecarIp).bounced = []) ∧
      ∀ id ∈ targets, (prepared graph world spec prior targets sidecarIp).view id =
        { record := (prior.getD {}).containers[id]? } := by
  have outside : ∀ id ∈ targets,
      id ∉ outsideOf graph spec targets (runState graph prior sidecarIp) := by
    intro id inside
    cases spec with
    | flow flow =>
        intro stopped
        obtain ⟨container, -, -, away, rfl⟩ := mem_stopOrder.mp stopped
        exact away inside
    | node node => exact List.not_mem_nil
  have known : keyed (planned graph spec prior targets sidecarIp).state :=
    keyed_of_containers ids rfl
  obtain ⟨kept, same, frame⟩ := runStops_frame world known
    (outsideOf graph spec targets (runState graph prior sidecarIp))
  refine ⟨kept, same, fun id inside => (frame id (outside id inside)).trans ?_⟩
  simp [BroughtUp.view, planned, runState, StartOutcomes.new, announces]

end Prepared

/-- A run that got as far as its nodes works through its targets in start order. -/
theorem bringUp_ok {graph : Graph} {world : World} {restart : Option String} {spec : EnvSpec}
    {prior : Option EnvState} (came : bringUp graph world restart spec prior = .ok up) :
    ∃ targets sidecarIp, targetIds graph restart spec prior = .ok targets ∧
      up = runNodes graph world restart (prepared graph world spec prior targets sidecarIp)
        (topologicalStartOrder targets graph.edges) := by
  unfold bringUp at came
  split at came
  · cases came
  · rename_i targets chosen
    split at came
    · cases came
    · split at came
      · cases came
      · rename_i sidecarIp _
        cases came
        exact ⟨targets, sidecarIp, chosen, rfl⟩

end Orchestrator
end Fghj
