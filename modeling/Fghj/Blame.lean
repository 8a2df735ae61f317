import Fghj.BringUpSpec

/-!
# Failures of a run

Nothing starts on top of a failure, and every node a failure keeps down names that failure. The
outcomes of a run are recorded in start order, so what a node needs has its outcome before the
node's turn comes, and keeps it.
-/

namespace Fghj
namespace Orchestrator

open Std Converge

/-! ## Before the first node -/

/-- Nothing was recorded of the node yet. -/
def Untouched (up : BroughtUp) (id : String) : Prop :=
  up.view id = { record := up.state.containers[id]? }

/-- A run that has not worked on a target yet. -/
structure Fresh (graph : Graph) (targets : List String) (up : BroughtUp) : Prop where
  ids : keyed up.state
  outcomes_eq : up.outcomes = .new targets graph.edges
  recreated_eq : up.recreated = []
  bounced_eq : up.bounced = []
  quiet : ∀ id, up.reports.any (announces id) = false
  untouched : ∀ id ∈ targets, Untouched up id

theorem fresh_prepared (graph : Graph) (world : World) {prior : Option EnvState}
    (ids : keyed (prior.getD {})) (spec : EnvSpec) (targets : List String) (sidecarIp : String) :
    Fresh graph targets (prepared graph world spec prior targets sidecarIp) := by
  obtain ⟨kept, ⟨outcomes, recreated, bounced⟩, views⟩ :=
    prepared_spec graph world ids spec targets sidecarIp
  refine ⟨kept, outcomes, recreated, bounced, fun id => runStops_quiet world rfl _,
    fun id inside => ?_⟩
  have record := congrArg NodeView.record (views id inside)
  rw [Untouched, views id inside]
  exact congrArg (fun record => ({ record } : NodeView)) record.symm

section Run

variable {graph : Graph} {world : World} {restart : Option String} {targets : List String}
  {up : BroughtUp}

/-- In a run over distinct nodes, nothing is recorded of a node before its turn. -/
theorem along_untouched (graph : Graph) (world : World) (restart : Option String)
    (ids : keyed up.state) {nodes : List String} (distinct : nodes.Nodup)
    (untouched : ∀ id ∈ nodes, Untouched up id) :
    Execution.Along (bringUpNode graph world restart)
      (fun up id => keyed up.state ∧ Untouched up id) up nodes := by
  induction nodes generalizing up with
  | nil => trivial
  | cons id nodes ih =>
      obtain ⟨outside, distinct⟩ := List.nodup_cons.mp distinct
      obtain ⟨kept, -, frame⟩ := bringUpNode_frame graph world restart ids id
      refine ⟨⟨ids, untouched id List.mem_cons_self⟩, ih kept distinct fun other member => ?_⟩
      have different : other ≠ id := fun same => outside (same ▸ member)
      have view := frame other different
      have record := congrArg NodeView.record view
      rw [Untouched, view, untouched other (List.mem_cons_of_mem _ member)]
      exact congrArg (fun record => ({ record } : NodeView)) record.symm

/-- A target is untouched when its turn comes. -/
theorem Fresh.untouched_turn (fresh : Fresh graph targets up) (world : World)
    (restart : Option String) {front back : List String} {id : String}
    (distinct : (front ++ id :: back).Nodup) (inside : id ∈ targets) :
    Untouched (runNodes graph world restart up front) id := by
  have before := (runNodes_turn graph world restart fresh.ids distinct).1
  rw [Untouched, before, fresh.untouched id inside]
  exact congrArg (fun record => ({ record } : NodeView)) (congrArg NodeView.record before).symm

/-! ## Blame -/

/-- A chain of needs among the targets from a node to a failure, through blocked nodes only. -/
inductive Blames (edges : List Edge) (targets : List String) (blocked : OrderedMap String String) :
    String → String → Prop where
  | direct {id cause : String} (needs : Needs edges id cause) (inside : id ∈ targets)
      (among : cause ∈ targets) : Blames edges targets blocked id cause
  | through {id dep cause : String} (needs : Needs edges id dep) (inside : id ∈ targets)
      (among : dep ∈ targets) (down : blocked[dep]? = some cause)
      (chain : Blames edges targets blocked dep cause) : Blames edges targets blocked id cause

theorem Blames.mono {edges : List Edge} {blocked later : OrderedMap String String}
    (grows : ∀ (id cause : String), blocked[id]? = some cause → later[id]? = some cause)
    {id cause : String} (blames : Blames edges targets blocked id cause) :
    Blames edges targets later id cause := by
  induction blames with
  | direct needs inside among => exact .direct needs inside among
  | through needs inside among down _ ih => exact .through needs inside among (grows _ _ down) ih

/-- No node both failed and was blocked, and every blocked node has a chain to its failure. -/
structure Blamed (edges : List Edge) (targets : List String) (outcomes : StartOutcomes) : Prop where
  apart : ∀ id : String, outcomes.failed[id]?.isSome → outcomes.blocked[id]? = none
  rooted : ∀ id cause : String, outcomes.blocked[id]? = some cause →
    outcomes.failed[cause]?.isSome ∧ Blames edges targets outcomes.blocked id cause

variable {edges : List Edge} {outcomes : StartOutcomes}

theorem Blamed.fail {id : String} (blamed : Blamed edges targets outcomes)
    (free : outcomes.blocked[id]? = none) (message : String) :
    Blamed edges targets (outcomes.fail id message) := by
  constructor
  · intro other failed
    by_cases same : id = other
    · exact same ▸ free
    · apply blamed.apart
      simpa [StartOutcomes.fail, same] using failed
  · intro other cause down
    obtain ⟨failed, chain⟩ := blamed.rooted other cause down
    refine ⟨?_, chain⟩
    by_cases same : id = cause
    · simp [StartOutcomes.fail, same]
    · simpa [StartOutcomes.fail, same] using failed

theorem Blamed.block {id cause : String} (blamed : Blamed edges targets outcomes)
    (requires : outcomes.requirements = (StartOutcomes.new targets edges).requirements)
    (clean : outcomes.failed[id]? = none) (free : outcomes.blocked[id]? = none)
    (decided : outcomes.blockedBy id = some cause) :
    Blamed edges targets (outcomes.block id cause) := by
  have grows : ∀ (other by' : String), outcomes.blocked[other]? = some by' →
      (outcomes.block id cause).blocked[other]? = some by' := by
    intro other by' down
    have different : id ≠ other := by
      rintro rfl
      rw [free] at down
      cases down
    simpa [StartOutcomes.block, different] using down
  constructor
  · intro other failed
    have different : id ≠ other := by
      rintro rfl
      have failed : outcomes.failed[id]?.isSome := failed
      rw [clean] at failed
      cases failed
    simpa [StartOutcomes.block, different] using blamed.apart other failed
  · intro other by' down
    by_cases same : id = other
    · subst same
      obtain rfl : cause = by' := by simpa [StartOutcomes.block] using down
      obtain ⟨dep, listed, blame⟩ := StartOutcomes.blockedBy_eq_some decided
      rw [requires] at listed
      obtain ⟨needs, inside, among⟩ := StartOutcomes.mem_new_requirements.mp listed
      rw [StartOutcomes.cause] at blame
      split at blame
      · rename_i failed
        cases blame
        exact ⟨by simpa [StartOutcomes.block] using failed, .direct needs inside among⟩
      · obtain ⟨failed, chain⟩ := blamed.rooted dep cause blame
        exact ⟨failed, .through needs inside among (grows dep cause blame) (chain.mono grows)⟩
    · have old : outcomes.blocked[other]? = some by' := by
        simpa [StartOutcomes.block, same] using down
      obtain ⟨failed, chain⟩ := blamed.rooted other by' old
      exact ⟨failed, chain.mono grows⟩

/-- One node of a run keeps the blame exact. -/
theorem bringUpNode_blamed (graph : Graph) (world : World) (restart : Option String) {id : String}
    (blamed : Blamed graph.edges targets up.outcomes)
    (requires : up.outcomes.requirements = (StartOutcomes.new targets graph.edges).requirements)
    (untouched : Untouched up id) :
    Blamed graph.edges targets (bringUpNode graph world restart up id).outcomes := by
  have clean : up.outcomes.failed[id]? = none := congrArg NodeView.failed untouched
  have free : up.outcomes.blocked[id]? = none := congrArg NodeView.blocked untouched
  cases found : graph.node? id with
  | none => simpa [bringUpNode, found] using blamed
  | some node =>
      obtain ⟨-, rfl⟩ := Graph.node?_eq_some found
      rcases bringUpNode_cases found with ⟨-, same⟩ | ⟨cause, decided, same⟩ |
        ⟨action, message, -, gaveUp⟩ | ⟨existing, info, -, -, cameUp, -⟩ | ⟨info, -, -, cameUp, -⟩
      · rw [same]
        exact blamed
      · rw [same]
        exact blamed.block requires clean free (verdict_eq_block decided).2
      · rw [gaveUp.outcomes_eq]
        exact blamed.fail free message
      · rw [cameUp.outcomes_eq]
        exact blamed
      · rw [cameUp.outcomes_eq]
        exact blamed

/-- The blame is exact after every run over distinct nodes. -/
theorem runNodes_blamed (graph : Graph) (world : World) (restart : Option String)
    (fresh : Fresh graph targets up) {nodes : List String} (distinct : nodes.Nodup)
    (inside : nodes ⊆ targets) :
    Blamed graph.edges targets (runNodes graph world restart up nodes).outcomes := by
  have initial : Blamed graph.edges targets up.outcomes ∧
      up.outcomes.requirements = (StartOutcomes.new targets graph.edges).requirements := by
    rw [fresh.outcomes_eq]
    exact ⟨⟨by simp [StartOutcomes.new], by simp [StartOutcomes.new]⟩, rfl⟩
  have along := along_untouched graph world restart fresh.ids distinct fun id member =>
    fresh.untouched id (inside member)
  have invariant := Execution.run_invariant (bringUpNode graph world restart)
    (fun up id => keyed up.state ∧ Untouched up id)
    (fun up => Blamed graph.edges targets up.outcomes ∧
      up.outcomes.requirements = (StartOutcomes.new targets graph.edges).requirements)
    (fun up id kept turn =>
      ⟨bringUpNode_blamed graph world restart kept.1 kept.2 turn.2,
        (bringUpNode_frame graph world restart turn.1 id).2.1.trans kept.2⟩)
    initial along
  exact invariant.1

/-! ## One turn -/

/-- What a node's turn can record of it. -/
theorem bringUpNode_view {node : Node} (found : graph.node? node.id = some node)
    (untouched : Untouched up node.id) :
    (verdict graph world restart up node = .leave ∧
      (bringUpNode graph world restart up node.id).view node.id = up.view node.id) ∨
    (∃ cause, verdict graph world restart up node = .block cause ∧
      (bringUpNode graph world restart up node.id).view node.id =
        { up.view node.id with blocked := some cause }) ∨
    (∃ message, up.outcomes.blockedBy node.id = none ∧
      (bringUpNode graph world restart up node.id).view node.id =
        { up.view node.id with failed := some message, attempted := true }) ∨
    (up.outcomes.blockedBy node.id = none ∧
      ((bringUpNode graph world restart up node.id).view node.id).started = true ∧
      ((bringUpNode graph world restart up node.id).view node.id).attempted = true ∧
      ((bringUpNode graph world restart up node.id).view node.id).failed = none ∧
      ((bringUpNode graph world restart up node.id).view node.id).blocked = none) := by
  have clean : up.outcomes.failed[node.id]? = none := congrArg NodeView.failed untouched
  have free : up.outcomes.blocked[node.id]? = none := congrArg NodeView.blocked untouched
  rcases bringUpNode_cases found with ⟨decided, same⟩ | ⟨cause, decided, same⟩ |
    ⟨action, message, acts, gaveUp⟩ | ⟨existing, info, decided, -, cameUp, -⟩ |
    ⟨info, decided, -, cameUp, -⟩
  · exact .inl ⟨decided, by rw [same]⟩
  · refine .inr (.inl ⟨cause, decided, ?_⟩)
    rw [same]
    simp [BroughtUp.view, StartOutcomes.block]
  · refine .inr (.inr (.inl ⟨message, ?_, ?_⟩))
    · rcases acts with ⟨existing, decided, -⟩ | ⟨decided, -⟩
      · exact (verdict_eq_restart decided).1
      · exact (verdict_eq_start decided).1
    · have announced : announces node.id (.working node.id (some action)) = true := by
        rcases acts with ⟨-, -, rfl⟩ | ⟨-, rfl⟩ <;> simp [announces]
      simp [BroughtUp.view, gaveUp.state_eq, gaveUp.outcomes_eq, gaveUp.recreated_eq,
        gaveUp.bounced_eq, gaveUp.started_eq, gaveUp.reports_eq, StartOutcomes.fail, announced]
  · refine .inr (.inr (.inr ⟨(verdict_eq_restart decided).1, ?_⟩))
    simp [BroughtUp.view, cameUp.outcomes_eq, cameUp.started_eq, cameUp.reports_eq, clean, free,
      announces]
  · refine .inr (.inr (.inr ⟨(verdict_eq_start decided).1, ?_⟩))
    simp [BroughtUp.view, cameUp.outcomes_eq, cameUp.started_eq, cameUp.reports_eq, clean, free,
      announces]

/-! ## The whole run -/

/-- The run over the targets in start order. -/
def runTargets (graph : Graph) (world : World) (restart : Option String) (up : BroughtUp)
    (targets : List String) : BroughtUp :=
  runNodes graph world restart up (topologicalStartOrder targets graph.edges)

/-- One failure as the error names it. -/
structure FailureEntry where
  id : String
  error : String
  victims : List String

def FailureEntry.render (entry : FailureEntry) : String :=
  if entry.victims.isEmpty then entry.id ++ ": " ++ entry.error
  else
    entry.id ++ ": " ++ entry.error ++ " (blocked: " ++ ", ".intercalate entry.victims ++ ")"

/-- The error names every failed node once, and every blocked node once, under its cause. -/
def Listed (outcomes : StartOutcomes) : Prop :=
  (outcomes.error.isSome ↔ ∃ id : String, outcomes.failed[id]?.isSome) ∧
    ∀ message, outcomes.error = some message → ∃ entries : List FailureEntry,
      message = "\n".intercalate (entries.map FailureEntry.render) ∧
      (entries.map FailureEntry.id).Nodup ∧
      (∀ id error : String, outcomes.failed[id]? = some error ↔
        ∃ entry ∈ entries, entry.id = id ∧ entry.error = error) ∧
      (entries.flatMap FailureEntry.victims).Nodup ∧
      ∀ id cause : String, outcomes.blocked[id]? = some cause ↔
        ∃ entry ∈ entries, entry.id = cause ∧ id ∈ entry.victims

theorem mem_victims {id cause : String} :
    id ∈ outcomes.victims cause ↔ outcomes.blocked[id]? = some cause := by
  simp only [StartOutcomes.victims, List.mem_map, List.mem_filter, beq_iff_eq]
  constructor
  · rintro ⟨⟨other, by'⟩, ⟨listed, rfl⟩, rfl⟩
    exact ExtTreeMap.mem_toList_iff_getElem?_eq_some.mp listed
  · intro down
    exact ⟨(id, cause), ⟨ExtTreeMap.mem_toList_iff_getElem?_eq_some.mpr down, rfl⟩, rfl⟩

/-- When every blocked node names a failed one, the error lists them all. -/
theorem Blamed.listed (blamed : Blamed edges targets outcomes) : Listed outcomes := by
  have empty : outcomes.failed.isEmpty = false ↔ ∃ id : String, outcomes.failed[id]?.isSome := by
    rw [ExtTreeMap.isEmpty_eq_false_iff]
    constructor
    · intro some
      by_contra none
      apply some
      apply ExtTreeMap.ext_getElem?
      intro id
      have absent : ¬outcomes.failed[id]?.isSome := fun failed => none ⟨id, failed⟩
      simpa using absent
    · rintro ⟨id, failed⟩ none
      simp [none] at failed
  refine ⟨?_, ?_⟩
  · rw [← empty, StartOutcomes.error]
    split
    · rename_i none
      simp [none]
    · rename_i some
      simp [some]
  · intro message reported
    rw [StartOutcomes.error] at reported
    split at reported
    · cases reported
    · cases reported
      let entries := outcomes.failed.toList.map fun entry : String × String =>
        ({ id := entry.1, error := entry.2, victims := outcomes.victims entry.1 } : FailureEntry)
      have member : ∀ entry : FailureEntry, entry ∈ entries ↔
          outcomes.failed[entry.id]? = some entry.error ∧
            entry.victims = outcomes.victims entry.id := by
        rintro ⟨id, error, victims⟩
        simp only [entries, List.mem_map, FailureEntry.mk.injEq, Prod.exists]
        constructor
        · rintro ⟨_, _, listed, rfl, rfl, rfl⟩
          exact ⟨ExtTreeMap.mem_toList_iff_getElem?_eq_some.mp listed, rfl⟩
        · rintro ⟨failed, rfl⟩
          exact ⟨id, error, ExtTreeMap.mem_toList_iff_getElem?_eq_some.mpr failed, rfl, rfl, rfl⟩
      have distinct : (entries.map FailureEntry.id).Nodup := by
        rw [List.map_map]
        exact OrderedMap.nodup_fst_toList outcomes.failed
      refine ⟨entries, ?_, distinct, ?_, ?_, ?_⟩
      · rw [List.map_map]
        rfl
      · intro id error
        constructor
        · intro failed
          exact ⟨⟨id, error, outcomes.victims id⟩, (member _).mpr ⟨failed, rfl⟩, rfl, rfl⟩
        · rintro ⟨entry, listed, rfl, rfl⟩
          exact ((member entry).mp listed).1
      · apply List.nodup_flatMap.mpr
        refine ⟨fun entry listed => ?_, ?_⟩
        · rw [((member entry).mp listed).2]
          exact (OrderedMap.nodup_fst_toList outcomes.blocked).sublist
            (List.filter_sublist.map Prod.fst)
        · -- a node blocked by two failures would have two causes
          apply (List.pairwise_map.mp distinct).imp_of_mem
          intro first second firstListed secondListed different id inFirst inSecond
          rw [((member first).mp firstListed).2, mem_victims] at inFirst
          rw [((member second).mp secondListed).2, mem_victims] at inSecond
          exact different (Option.some.inj (inFirst.symm.trans inSecond))
      · intro id cause
        constructor
        · intro down
          obtain ⟨error, failed⟩ := Option.isSome_iff_exists.mp (blamed.rooted id cause down).1
          exact ⟨⟨cause, error, outcomes.victims cause⟩, (member _).mpr ⟨failed, rfl⟩, rfl,
            mem_victims.mpr down⟩
        · rintro ⟨entry, listed, rfl, inside⟩
          rw [((member entry).mp listed).2, mem_victims] at inside
          exact inside

/-- The node is skipped as a task or a seed that is done. -/
def SkippedAsDone (world : World) (restart : Option String) (up : BroughtUp) (node : Node) : Prop :=
  restart ≠ some node.id ∧ (doneTask restart up node ∨ doneSeed world node)

/-- What holds of every run: nothing starts on top of a failure, every blocked node blames a
failure, and every node that is down, not done and not excused has an outcome, which the error
lists. -/
structure BlameExact (graph : Graph) (world : World) (restart : Option String)
    (targets : List String) (up : BroughtUp) (excused : BroughtUp → Node → Prop) : Prop where
  clear_start : ∀ front id back,
    topologicalStartOrder targets graph.edges = front ++ id :: back →
    ((runTargets graph world restart up targets).view id).attempted →
    ∀ dep ∈ targets, Needs graph.edges id dep → dep ∈ front ∧
      ((runTargets graph world restart up targets).view dep).failed = none ∧
      ((runTargets graph world restart up targets).view dep).blocked = none
  root_blame : ∀ id cause : String,
    (runTargets graph world restart up targets).outcomes.blocked[id]? = some cause →
    (runTargets graph world restart up targets).outcomes.failed[cause]?.isSome ∧
      (runTargets graph world restart up targets).outcomes.blocked[cause]? = none ∧
      Blames graph.edges targets (runTargets graph world restart up targets).outcomes.blocked id
        cause
  accounted : ∀ front back, ∀ node ∈ graph.nodes,
    topologicalStartOrder targets graph.edges = front ++ node.id :: back →
    world.alive node.id = false →
    ¬SkippedAsDone world restart (runNodes graph world restart up front) node →
    ¬excused (runNodes graph world restart up front) node →
    ((runTargets graph world restart up targets).view node.id).started ∨
      ((runTargets graph world restart up targets).view node.id).failed.isSome ∨
      ((runTargets graph world restart up targets).view node.id).blocked.isSome
  listed : Listed (runTargets graph world restart up targets).outcomes

/-- A restart leaves a node alone that another action is under way on. -/
def LeftToAnother (restart : Option String) (up : BroughtUp) (node : Node) : Prop :=
  restart ≠ some node.id ∧ leftToAnother restart up node

/-- Every run over any targets keeps its failures apart and its blame exact. -/
theorem blame_exact (startable : graph.Startable) (distinct : targets.Nodup)
    (known : targets ⊆ graph.nodes.map Node.id) (fresh : Fresh graph targets up) (world : World)
    (restart : Option String) :
    BlameExact graph world restart targets up (LeftToAnother restart) := by
  have perm := topologicalStartOrder_perm targets graph.edges
  have distinctOrder := perm.nodup_iff.mpr distinct
  have blamed := runNodes_blamed graph world restart fresh distinctOrder
    fun id member => perm.mem_iff.mp member
  -- a turn, with the node it is of and everything the run held of it before
  have turn : ∀ front id back, topologicalStartOrder targets graph.edges = front ++ id :: back →
      ∃ node ∈ graph.nodes, node.id = id ∧ graph.node? id = some node ∧
        Untouched (runNodes graph world restart up front) id := by
    intro front id back split
    have inside : id ∈ targets := perm.mem_iff.mp (by rw [split]; simp)
    obtain ⟨node, member, found⟩ := startable.exists_node (known inside)
    exact ⟨node, member, (Graph.node?_eq_some found).2, found,
      fresh.untouched_turn world restart (split ▸ distinctOrder) inside⟩
  have requires : ∀ front,
      (runNodes graph world restart up front).outcomes.requirements =
        (StartOutcomes.new targets graph.edges).requirements := by
    intro front
    rw [(runNodes_frame graph world restart fresh.ids front).2.1, fresh.outcomes_eq]
  refine ⟨?_, ?_, ?_, blamed.listed⟩
  · intro front id back split attempted dep among needs
    obtain ⟨node, -, rfl, found, untouched⟩ := turn front id back split
    obtain ⟨-, here, earlier⟩ := runNodes_turn graph world restart fresh.ids (split ▸ distinctOrder)
    have first : dep ∈ front := mem_front_of_needs startable.acyclic split needs among
    have free : (runNodes graph world restart up front).outcomes.blockedBy node.id = none := by
      rw [runTargets, split, here] at attempted
      have quiet : ((runNodes graph world restart up front).view node.id).attempted = false :=
        congrArg NodeView.attempted untouched
      rcases bringUpNode_view found untouched with ⟨-, same⟩ | ⟨cause, -, same⟩ |
        ⟨message, free, -⟩ | ⟨free, -⟩
      · rw [same, quiet] at attempted
        cases attempted
      · rw [same] at attempted
        exact absurd attempted (by simp [quiet])
      · exact free
      · exact free
    refine ⟨first, ?_⟩
    rw [runTargets, split, earlier dep first]
    apply StartOutcomes.cause_eq_none.mp
    apply StartOutcomes.blockedBy_eq_none.mp free
    rw [requires front]
    have inside : node.id ∈ targets := perm.mem_iff.mp (by rw [split]; simp)
    exact StartOutcomes.mem_new_requirements.mpr ⟨needs, inside, among⟩
  · intro id cause down
    obtain ⟨failed, chain⟩ := blamed.rooted id cause down
    exact ⟨failed, blamed.apart cause failed, chain⟩
  · intro front back node member split dead awake unexcused
    obtain ⟨other, -, -, found, untouched⟩ := turn front node.id back split
    rw [startable.node?_id member] at found
    have here := (runNodes_turn graph world restart fresh.ids (split ▸ distinctOrder)).2.1
    rw [runTargets, split, here]
    rcases bringUpNode_view (startable.node?_id member) untouched with ⟨decided, -⟩ |
      ⟨cause, -, same⟩ | ⟨message, -, same⟩ | ⟨-, started, -⟩
    · rcases verdict_eq_leave decided with ⟨unforced, left | done⟩ | ⟨-, -, skips⟩ | ⟨alive, -⟩
      · exact (unexcused ⟨unforced, left⟩).elim
      · exact (awake ⟨unforced, done⟩).elim
      · simp [topUpMaySkip, dead] at skips
      · rw [dead] at alive
        cases alive
    · exact .inr (.inr (by rw [same]; rfl))
    · exact .inr (.inl (by rw [same]; rfl))
    · exact .inl started

end Run

/-- A service on a database. -/
def shopGraph : Graph where
  workspaceName := "shop"
  nodes := [{ id := "db.shop", kind := .backing }, { id := "web.shop", kind := .service }]
  edges := [{ «from» := "web.shop", «to» := "db.shop", required := true }]

theorem shopGraph_startable : shopGraph.Startable where
  ids_nodup := by decide
  ends_known := by decide
  acyclic := acyclic_of_checkCycles (by decide)
  store_task := by decide
  migration_runs := by decide
  store_stays := by simp [shopGraph]
  flow_needs := by simp [shopGraph]
  flow_migrates := by simp [shopGraph]

/-- Docker and the files while nothing runs. -/
def quietWorld : World where
  ensureSidecar := .ok "172.20.0.2"
  resolveNodeSpec id := .ok
    { containerName := "fghj-shop-default-" ++ id, domain := id ++ ".shop.fghj.internal"
      rawDomain := id ++ ".shop.fghj.raw.internal", portList := [] }
  specHash node _ := node.id
  inspectStatus _ := .ok none
  start _ := { inspected := .ok (some { status := "running" }) }

/-- The database is being stopped. -/
def stoppingState : EnvState where
  containers := (∅ : OrderedMap String ContainerInfo).insert "db.shop"
    { nodeId := "db.shop", desired := { containerName := "fghj-shop-default-db-shop" }
      observed := { status := "exited" }, pendingAction := some .stopping }

/-- A run over the shop that has not begun. -/
def stoppingRun : BroughtUp where
  state := stoppingState
  outcomes := .new ["db.shop", "web.shop"] shopGraph.edges

theorem stoppingRun_fresh : Fresh shopGraph ["db.shop", "web.shop"] stoppingRun where
  ids := by decide
  outcomes_eq := rfl
  recreated_eq := rfl
  bounced_eq := rfl
  quiet _ := rfl
  untouched := by
    intro id inside
    simp [Untouched, BroughtUp.view, stoppingRun, StartOutcomes.new]

/-- The database does not start. -/
def brokenWorld : World :=
  { quietWorld with
    start := fun id =>
      if id = "db.shop" then { run := .error "port 5432 is taken", inspected := .ok none }
      else quietWorld.start id }

theorem blame_exact_shop :
    (runTargets shopGraph brokenWorld none stoppingRun ["db.shop", "web.shop"]).outcomes.error =
        some "db.shop: port 5432 is taken (blocked: web.shop)" ∧
      BlameExact shopGraph brokenWorld none ["db.shop", "web.shop"] stoppingRun
        (LeftToAnother none) :=
  ⟨by decide, blame_exact shopGraph_startable (by decide) (by decide) stoppingRun_fresh _ _⟩

/-- A restart of the service passes over the database that is being stopped: it is down, and has no
outcome. -/
theorem restart_leaves_stopping_node :
    ¬∀ (graph : Graph) (targets : List String) (up : BroughtUp) (world : World)
      (restart : Option String), graph.Startable → targets.Nodup →
      targets ⊆ graph.nodes.map Node.id → Fresh graph targets up →
      BlameExact graph world restart targets up fun _ _ => False := by
  intro exact
  have outcome := (exact shopGraph ["db.shop", "web.shop"] stoppingRun quietWorld (some "web.shop")
    shopGraph_startable (by decide) (by decide) stoppingRun_fresh).accounted [] ["web.shop"]
    { id := "db.shop", kind := .backing } (by simp [shopGraph]) (by decide) rfl
    (by simp [SkippedAsDone]; decide) id
  revert outcome
  decide

end Orchestrator
end Fghj
