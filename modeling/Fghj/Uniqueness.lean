import Fghj.Naming
import Fghj.Resolver

/-!
# Derived names that must stay apart

The resolver checks that the names derived from node ids are as distinct as the ids: every routed
domain of a workspace has one claimant, and no two ids are flattened to the same container name.
Volumes are not checked, and neither are names across workspaces.
-/

namespace Fghj

open Std Orchestrator

/-- The values of each key, in the order of the entries. -/
def grouped {β : Type} (entries : List (String × β)) : OrderedMap String (List β) :=
  entries.foldl (fun groups entry =>
    groups.insert entry.1 ((groups[entry.1]?).getD [] ++ [entry.2])) ∅

theorem grouped_get {β : Type} (entries : List (String × β)) (key : String) :
    ((grouped entries)[key]?).getD [] =
      (entries.filter fun entry => entry.1 = key).map Prod.snd := by
  have every : ∀ groups : OrderedMap String (List β),
      ((entries.foldl (fun groups entry =>
        groups.insert entry.1 ((groups[entry.1]?).getD [] ++ [entry.2])) groups)[key]?).getD [] =
      (groups[key]?).getD [] ++ (entries.filter fun entry => entry.1 = key).map Prod.snd := by
    induction entries with
    | nil => simp
    | cons entry entries ih =>
        intro groups
        rw [List.foldl_cons, ih]
        by_cases same : entry.1 = key
        · subst same
          simp
        · simp [same]
  rw [grouped, every]
  simp

/-- Keys of which no group has two values are distinct. -/
theorem nodup_of_grouped {β : Type} {entries : List (String × β)}
    (single : ∀ entry ∈ (grouped entries).toList, entry.2.length ≤ 1) :
    (entries.map Prod.fst).Nodup := by
  rw [List.nodup_iff_count_le_one]
  intro key
  have size : (((grouped entries)[key]?).getD []).length = (entries.map Prod.fst).count key := by
    rw [grouped_get, List.length_map, List.count, List.countP_map, List.countP_eq_length_filter]
    simp only [Function.comp_def, beq_eq_decide]
  cases found : (grouped entries)[key]? with
  | none =>
      rw [found] at size
      simp only [Option.getD_none, List.length_nil] at size
      omega
  | some values =>
      rw [found, Option.getD_some] at size
      have short := single (key, values) (ExtTreeMap.mem_toList_iff_getElem?_eq_some.mpr found)
      simp only at short
      omega

namespace Resolver

/-- Why a node wants a name. -/
inductive NameClaim where
  | domain
  | namedPort
  | additionalHost
  | wildcardHost
  deriving DecidableEq

def NameClaim.describe : NameClaim → String
  | .domain => "its own domain"
  | .namedPort => "a named port"
  | .additionalHost => "additional_hosts"
  | .wildcardHost => "wildcard additional_hosts"

/-- The names a node claims; a stub only owns its domain once it is pulled. -/
def nameClaims (workspaceName : String) (node : Node) : List (String × String × NameClaim) :=
  if !node.downloaded && node.kind == .service then []
  else
    let domain := deriveDomain node.id workspaceName .http
    (domain, node.id, .domain) ::
      (node.ports.toList.filterMap fun entry => entry.2.name.map fun name =>
        (name ++ "." ++ domain, node.id, .namedPort)) ++
      (node.additionalHosts.map fun host => (host, node.id, .additionalHost)) ++
      node.wildcardHosts.map fun suffix => (suffix, node.id, .wildcardHost)

/-- A blocking warning for every name that is claimed more than once. -/
def checkDomains (workspaceName : String) (nodes : List Node) : List Warning :=
  ((grouped (nodes.flatMap (nameClaims workspaceName))).toList.filter fun entry =>
    entry.2.length > 1).map fun entry =>
      let who := ", ".intercalate (entry.2.map fun claim =>
        claim.1 ++ " (" ++ claim.2.describe ++ ")")
      Warning.blocking ("'" ++ entry.1 ++ "' is claimed by more than one node (" ++ who ++
        "); only one will receive its traffic, and which one is unspecified")

/-- A blocking warning for every container name that more than one id is flattened to. -/
def checkContainerNames (nodes : List Node) : List Warning :=
  ((grouped (nodes.map fun node => (sanitizeLabel node.id, node.id))).toList.filter fun entry =>
    entry.2.length > 1).map fun entry =>
      Warning.blocking ("node ids " ++ ", ".intercalate entry.2 ++
        " all reduce to the container name suffix '" ++ entry.1 ++
        "' (dots and hyphens both become '-'); only the first to start will get a container")

def checkDerivedNameCollisions (workspaceName : String) (nodes : List Node) : List Warning :=
  checkDomains workspaceName nodes ++ checkContainerNames nodes

/-- The graph of a workspace's files, with what is wrong with its derived names. -/
def resolveWorkspace (toLowercase : String → String) (workspaceName : String)
    (scanned : OrderedMap String ComponentConfig) (facts : OrderedMap String RepoFacts) : Graph :=
  let (ctx, flows) := (declaredCtx toLowercase scanned facts).addStoreEdges.resolveFlows
  let nodes := OrderedMap.listed ctx.nodes
  { workspaceName
    nodes
    edges := ctx.edges
    flows
    warnings := ctx.warnings ++ checkDerivedNameCollisions workspaceName nodes ++
      checkCycles ctx.edges }

/-- Ids that pass the check are flattened to distinct labels. -/
theorem nodup_labels_of_checkContainerNames {nodes : List Node}
    (passes : checkContainerNames nodes = []) :
    (nodes.map fun node => sanitizeLabel node.id).Nodup := by
  rw [checkContainerNames, List.map_eq_nil_iff, List.filter_eq_nil_iff] at passes
  have labels : ((nodes.map fun node => (sanitizeLabel node.id, node.id)).map Prod.fst).Nodup :=
    nodup_of_grouped fun entry listed => by simpa using passes entry listed
  rwa [List.map_map] at labels

/-- Names that pass the check are claimed once. -/
theorem nodup_names_of_checkDomains {workspaceName : String} {nodes : List Node}
    (passes : checkDomains workspaceName nodes = []) :
    ((nodes.flatMap (nameClaims workspaceName)).map Prod.fst).Nodup := by
  rw [checkDomains, List.map_eq_nil_iff, List.filter_eq_nil_iff] at passes
  exact nodup_of_grouped fun entry listed => by simpa using passes entry listed

/-- A graph some workspace resolves to, with nothing that blocks a start. -/
def Accepted (toLowercase : String → String) (graph : Graph) : Prop :=
  (∃ scanned facts, graph = resolveWorkspace toLowercase graph.workspaceName scanned facts) ∧
    graph.blockingWarnings = []

/-- The names of an accepted graph pass both checks. -/
theorem Accepted.names_pass {toLowercase : String → String} {graph : Graph}
    (accepted : Accepted toLowercase graph) :
    checkDomains graph.workspaceName graph.nodes = [] ∧ checkContainerNames graph.nodes = [] := by
  obtain ⟨⟨scanned, facts, resolved⟩, unblocked⟩ := accepted
  have all : ∀ warning ∈ checkDerivedNameCollisions graph.workspaceName graph.nodes,
      warning ∈ graph.blockingWarnings := by
    intro warning listed
    apply List.mem_filter.mpr
    constructor
    · rw [resolved] at listed ⊢
      exact List.mem_append_left _ (List.mem_append_right _ listed)
    · rcases List.mem_append.mp listed with ofDomain | ofContainer
      · obtain ⟨entry, -, rfl⟩ := List.mem_map.mp ofDomain
        rfl
      · obtain ⟨entry, -, rfl⟩ := List.mem_map.mp ofContainer
        rfl
  rw [unblocked] at all
  exact List.append_eq_nil_iff.mp
    (List.eq_nil_iff_forall_not_mem.mpr fun warning listed => List.not_mem_nil (all warning listed))

theorem Accepted.pair {toLowercase : String → String} {graph other : Graph}
    (accepted : Accepted toLowercase graph) (others : Accepted toLowercase other) :
    ∀ member ∈ [graph, other], Accepted toLowercase member := by
  intro member listed
  rcases List.mem_cons.mp listed with rfl | last
  · exact accepted
  · rwa [List.mem_singleton.mp last]

end Resolver
end Fghj
