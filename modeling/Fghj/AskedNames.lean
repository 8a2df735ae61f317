import Fghj.Collisions
import Fghj.RawNet
import Fghj.Routing

/-!
# Names as they are asked for

The domains of a node are derived from its id as it is written, and are asked for in lower case.
-/

namespace Fghj

open Std (ExtTreeMap)
open Orchestrator

namespace Dns

/-- The name a DNS query is answered for. -/
def asked (qname : String) : String := String.ofList (Text.toAsciiLowercase qname.toList)

end Dns

namespace Proxy

/-- A `Host` header as a route name: no port, no trailing dot, lower case. -/
def hostName (host : String) : String :=
  let name :=
    match Text.rsplitOnce ':' host.toList with
    | some (name, port) => if !port.isEmpty && port.all Char.isDigit then name else host.toList
    | none => host.toList
  String.ofList (Text.toAsciiLowercase (name.reverse.dropWhile (· == '.')).reverse)

end Proxy

namespace Query

/-- The raw endpoints of the running containers; ports that are not published are dropped. -/
def rawEndpoints (states : States) : List RawNet.RawEndpoint :=
  (runningContainers states).map fun container =>
    { rawDomain := container.desired.rawDomain
      ports := container.observed.ports.filterMap fun _ hostPort => hostPort }

end Query

/-! ## Lower case -/

/-- No ASCII letter of a text is upper case. -/
def LowerCase (text : String) : Prop := ∀ char ∈ text.toList, char.isUpper = false

instance (text : String) : Decidable (LowerCase text) :=
  List.decidableBAll (fun char : Char => char.isUpper = false) text.toList

namespace Dns

theorem asked_eq_self_iff {name : String} : asked name = name ↔ LowerCase name := by
  rw [LowerCase, ← Text.toAsciiLowercase_eq_self_iff, asked, ← String.toList_inj,
    String.toList_ofList]

theorem lowerCase_sanitizeLabel (text : String) : LowerCase (sanitizeLabel text) := by
  intro char member
  have same := lowercase_of_mem_sanitizeLabel member
  rw [← Text.toLower_eq_self_iff]
  unfold lowercase at same
  split at same
  · rename_i kelvin
    rw [kelvin] at same
    cases same
  · split at same
    · cases same
    · exact List.head_eq_of_cons_eq same

theorem lowerCase_suffix (zone : DomainZone) : LowerCase zone.suffix := by
  cases zone <;> decide

/-- A derived domain is lower case exactly when the id it is derived from is. -/
theorem lowerCase_deriveDomain {nodeId workspaceName : String} {zone : DomainZone} :
    LowerCase (deriveDomain nodeId workspaceName zone) ↔ LowerCase nodeId := by
  have label := lowerCase_sanitizeLabel workspaceName
  have suffix := lowerCase_suffix zone
  constructor
  · intro lower char member
    apply lower
    simp only [deriveDomain, String.toList_append, List.append_assoc]
    exact List.mem_append_left _ member
  · intro lower char member
    simp only [deriveDomain, String.toList_append, List.mem_append] at member
    rcases member with (((inId | dot) | inLabel) | dot) | inSuffix
    · exact lower char inId
    · rw [List.mem_singleton.mp dot]
      rfl
    · exact label char inLabel
    · rw [List.mem_singleton.mp dot]
      rfl
    · exact suffix char inSuffix

theorem asked_deriveDomain (nodeId workspaceName : String) (zone : DomainZone) :
    asked (deriveDomain nodeId workspaceName zone) =
      deriveDomain (asked nodeId) workspaceName zone := by
  have label := Text.toAsciiLowercase_eq_self_iff.mpr (lowerCase_sanitizeLabel workspaceName)
  have suffix := Text.toAsciiLowercase_eq_self_iff.mpr (lowerCase_suffix zone)
  rw [← String.toList_inj]
  simp only [Text.toAsciiLowercase] at label suffix
  simp only [asked, deriveDomain, String.toList_append, String.toList_ofList, Text.toAsciiLowercase,
    List.map_append, label, suffix]
  rfl

theorem labelWords_asked (text : String) : labelWords (asked text) = labelWords text := by
  have each (char : Char) : lowercase char.toLower = lowercase char := by
    by_cases upper : char.isUpper
    · have ascii : char ≠ '\u212A' ∧ char ≠ '\u0130' := by
        constructor <;> rintro rfl <;> cases upper
      have small : char.toLower.isUpper = false := by
        unfold Char.toLower Char.isUpper
        grind
      have letter := Text.isLower_toLower upper
      have other : char.toLower ≠ '\u212A' ∧ char.toLower ≠ '\u0130' := by
        constructor <;> intro same <;> rw [same] at letter <;> cases letter
      simp [lowercase, ascii, other, Text.toLower_eq_self_iff.mpr small]
    · rw [Text.toLower_eq_self_iff.mpr (by simpa using upper)]
  rw [labelWords, asked, String.toList_ofList, Text.toAsciiLowercase, List.flatMap_map,
    List.flatMap_congr fun char _ => each char, labelWords]

end Dns

/-- A derived domain has no port and no trailing dot that a proxy would take off. -/
theorem Proxy.hostName_deriveDomain (nodeId workspaceName : String) :
    hostName (deriveDomain nodeId workspaceName .http) =
      Dns.asked (deriveDomain nodeId workspaceName .http) := by
  obtain ⟨front, last⟩ : ∃ front, (deriveDomain nodeId workspaceName .http).toList =
      front ++ ['l'] := by
    refine ⟨(nodeId ++ "." ++ sanitizeLabel workspaceName ++ ".fghj.interna").toList, ?_⟩
    simp [deriveDomain, DomainZone.suffix]
  have untrimmed : (((front ++ ['l']).reverse.dropWhile (· == '.')).reverse) = front ++ ['l'] := by
    simp
  have whole : (match Text.rsplitOnce ':' (front ++ ['l']) with
      | some (name, port) =>
          if !port.isEmpty && port.all Char.isDigit then name else front ++ ['l']
      | none => front ++ ['l']) = front ++ ['l'] := by
    split
    · rename_i name port split
      -- what follows the last colon ends as the domain does, so it is no number
      have parts := Text.eq_of_rsplitOnce split
      rw [if_neg]
      intro number
      have ends : (front ++ ['l']).getLast? = (':' :: port).getLast? := by
        rw [parts, List.getLast?_append_of_ne_nil _ (List.cons_ne_nil _ _)]
      rw [List.getLast?_append_of_ne_nil _ (List.cons_ne_nil _ _)] at ends
      cases port with
      | nil => cases ends
      | cons first rest =>
          have listed : 'l' ∈ first :: rest := by
            apply List.mem_of_getLast?
            rw [List.getLast?_cons_cons] at ends
            exact ends.symm
          simp only [Bool.and_eq_true, List.all_eq_true] at number
          exact absurd (number.2 'l' listed) (by decide)
    · rfl
  rw [hostName, Dns.asked, last]
  simp only [whole, untrimmed]

/-! ## What runs of a graph -/

/-- The container is one a start of the node made: its names are derived from the node's id, and its
routes lead to the ports that are published. -/
structure StartedAs (graph : Graph) (node : Node) (container : ContainerInfo) : Prop where
  listed : node ∈ graph.nodes
  /-- A stub has nothing to start. -/
  pulled : node.downloaded ∨ node.kind ≠ .service
  nodeId : container.nodeId = node.id
  rawDomain : container.desired.rawDomain = deriveDomain node.id graph.workspaceName .raw
  routes : ∃ hostPorts : OrderedMap String (Option UInt16),
    (∀ port : String, ((hostPorts[port]?).join).isSome =
      ((container.observed.ports[port]?).join).isSome) ∧
    container.desired.routes =
      (nodeRoutes node (deriveDomain node.id graph.workspaceName .http) hostPorts).1

/-- Every container of the environment was started as a node of the graph. -/
def RunsFrom (graph : Graph) (env : EnvState) : Prop :=
  ∀ (id : String) (container : ContainerInfo), env.containers[id]? = some container →
    container.nodeId = id ∧ ∃ node, StartedAs graph node container

/-- The states with one workspace in them. -/
def alone (workspace : String) (env : EnvState) : States :=
  (∅ : States).insert workspace { env := some env }

/-- The node's primary port is published. -/
def PrimaryPublished (node : Node) (container : ContainerInfo) : Prop :=
  ∃ (port : String) (config : PortConfig), node.ports[port]? = some config ∧ config.primary ∧
    ((container.observed.ports[port]?).join).isSome

namespace Query

section Alone

variable {workspace : String} {env : EnvState}

theorem scan_alone :
    scan (alone workspace env) = [(workspace, OrderedMap.listed env.containers)] := by
  rw [scan, alone, OrderedMap.toList_insert_empty]
  rfl

theorem runningContainers_alone : runningContainers (alone workspace env) =
    (OrderedMap.listed env.containers).filter isRunning := by
  rw [runningContainers, alone, OrderedMap.listed, OrderedMap.toList_insert_empty]
  simp [containersOf]

theorem mem_running_alone {container : ContainerInfo} :
    container ∈ runningContainers (alone workspace env) ↔
      (∃ id : String, env.containers[id]? = some container) ∧ isRunning container := by
  rw [runningContainers_alone, List.mem_filter, OrderedMap.mem_listed]

/-- Containers that are filed under their ids come in the order of their ids. -/
theorem running_ordered
    (filed : ∀ (id : String) (container : ContainerInfo), env.containers[id]? = some container →
      container.nodeId = id) :
    (runningContainers (alone workspace env)).Pairwise fun container other =>
      container.nodeId < other.nodeId := by
  rw [runningContainers_alone]
  refine List.Pairwise.filter _ (List.pairwise_map.mpr ?_)
  refine List.Pairwise.imp_of_mem ?_ (ExtTreeMap.ordered_keys_toList)
  intro entry other member listed below
  rw [filed _ _ (ExtTreeMap.mem_toList_iff_getElem?_eq_some.mp member),
    filed _ _ (ExtTreeMap.mem_toList_iff_getElem?_eq_some.mp listed)]
  exact compare_lt_iff_lt.mp below

theorem findRoute_alone (accepts : PortRoute → Bool) :
    findRoute (scan (alone workspace env)) accepts =
      (runningContainers (alone workspace env)).findSome? fun container =>
        (container.desired.routes.find? accepts).map (targetOf workspace container) := by
  rw [findRoute, scan_alone, runningContainers_alone, List.findSome?_cons, List.findSome?_nil]
  split
  · rename_i found
    exact found.symm
  · rename_i missing
    exact missing.symm

/-- A lookup finds the container of the least id that has a route it accepts. -/
theorem findRoute_least
    (filed : ∀ (id : String) (container : ContainerInfo), env.containers[id]? = some container →
      container.nodeId = id) {accepts : PortRoute → Bool} {target : RouteTarget}
    (found : findRoute (scan (alone workspace env)) accepts = some target) :
    ∃ first ∈ runningContainers (alone workspace env), target.nodeId = first.nodeId ∧
      target.workspace = workspace ∧ (∃ route ∈ first.desired.routes, accepts route) ∧
      ∀ other ∈ runningContainers (alone workspace env),
        (∃ route ∈ other.desired.routes, accepts route) → first.nodeId ≤ other.nodeId := by
  have ordered := @running_ordered workspace env filed
  rw [findRoute_alone, List.findSome?_eq_some_iff] at found
  obtain ⟨front, first, back, split, hit, missed⟩ := found
  obtain ⟨route, accepted, rfl⟩ := Option.map_eq_some_iff.mp hit
  refine ⟨first, by rw [split]; simp, rfl, rfl,
    ⟨route, List.mem_of_find?_eq_some accepted, List.find?_some accepted⟩, ?_⟩
  rintro other running ⟨wanted, declared, accepts_it⟩
  rw [split, List.pairwise_append, List.pairwise_cons] at ordered
  rw [split, List.mem_append, List.mem_cons] at running
  rcases running with early | rfl | late
  · have none := missed other early
    rw [Option.map_eq_none_iff, List.find?_eq_none] at none
    exact absurd accepts_it (none wanted declared)
  · exact le_refl _
  · exact le_of_lt (ordered.2.1.1 other late)

theorem findRoute_eq_none {accepts : PortRoute → Bool}
    (missing : findRoute (scan (alone workspace env)) accepts = none) :
    ∀ container ∈ runningContainers (alone workspace env), ∀ route ∈ container.desired.routes,
      ¬accepts route := by
  rw [findRoute_alone, List.findSome?_eq_none_iff] at missing
  intro container running route declared
  have none := missing container running
  rw [Option.map_eq_none_iff, List.find?_eq_none] at none
  exact none route declared

end Alone

end Query

/-! ## Whose a domain is -/

section Claims

open Resolver

variable {graph : Graph} {toLowercase : String → String}

/-- The domain of every route of a node is one of the names it claims. -/
theorem claimed_of_mem_nodeRoutes {node : Node} (pulled : node.downloaded ∨ node.kind ≠ .service)
    {workspaceName : String} {hostPorts : OrderedMap String (Option UInt16)} {route : PortRoute}
    (member : route ∈ (nodeRoutes node (deriveDomain node.id workspaceName .http) hostPorts).1) :
    ∃ claim ∈ nameClaims workspaceName node, claim.1 = route.domain ∧ claim.2.1 = node.id := by
  have started : (!node.downloaded && node.kind == .service) = false := by
    rcases pulled with downloaded | other
    · simp [downloaded]
    · simp [other]
  have ofPort : ∀ route ∈ node.ports.toList.flatMap (fun entry =>
      portRoutes (deriveDomain node.id workspaceName .http) hostPorts entry.1 entry.2),
      ∃ claim ∈ nameClaims workspaceName node, claim.1 = route.domain ∧ claim.2.1 = node.id := by
    intro route listed
    obtain ⟨⟨port, config⟩, declared, inside⟩ := List.mem_flatMap.mp listed
    unfold portRoutes at inside
    split at inside
    · cases inside
    · rcases List.mem_append.mp inside with primary | byName
      · split at primary
        · rw [List.mem_singleton.mp primary]
          exact ⟨(deriveDomain node.id workspaceName .http, node.id, .domain),
            by simp [nameClaims, started], rfl, rfl⟩
        · cases primary
      · split at byName
        · rename_i name named
          rw [List.mem_singleton.mp byName]
          refine ⟨(name ++ "." ++ deriveDomain node.id workspaceName .http, node.id, .namedPort),
            ?_, rfl, rfl⟩
          simp only [nameClaims, started, Bool.false_eq_true, if_false]
          refine List.mem_append_left _ (List.mem_append_left _ (List.mem_cons_of_mem _ ?_))
          have name_eq : config.name = some name := named
          exact List.mem_filterMap.mpr ⟨(port, config), declared, by simp [name_eq]⟩
        · cases byName
  rcases Query.nodeRoutes_cases node (deriveDomain node.id workspaceName .http) hostPorts with
    bare | ⟨primary, full⟩
  · rw [bare] at member
    exact ofPort route member
  · rw [full] at member
    rcases List.mem_append.mp member with ofPorts | ofHosts
    · exact ofPort route ofPorts
    · rcases List.mem_append.mp ofHosts with additional | wild
      · obtain ⟨host, listed, rfl⟩ := List.mem_map.mp additional
        refine ⟨(host, node.id, .additionalHost), ?_, rfl, rfl⟩
        simp [nameClaims, started, listed]
      · obtain ⟨host, listed, rfl⟩ := List.mem_map.mp wild
        refine ⟨(host, node.id, .wildcardHost), ?_, rfl, rfl⟩
        simp [nameClaims, started, listed]

/-- Two nodes of an accepted graph do not claim one name. -/
theorem Resolver.Accepted.eq_of_claim_eq (accepted : Accepted toLowercase graph) {node other : Node}
    (member : node ∈ graph.nodes) (listed : other ∈ graph.nodes)
    {claim rival : String × String × NameClaim}
    (first : claim ∈ nameClaims graph.workspaceName node)
    (second : rival ∈ nameClaims graph.workspaceName other) (same : claim.1 = rival.1) :
    claim = rival := by
  have names := nodup_names_of_checkDomains accepted.names_pass.1
  exact List.inj_on_of_nodup_map names (List.mem_flatMap.mpr ⟨node, member, first⟩)
    (List.mem_flatMap.mpr ⟨other, listed, second⟩) same

/-- A route to a node's own domain is that node's. -/
theorem StartedAs.eq_of_domain (accepted : Accepted toLowercase graph) {node other : Node}
    {container rival : ContainerInfo} (started : StartedAs graph node container)
    (others : StartedAs graph other rival) {route : PortRoute}
    (member : route ∈ rival.desired.routes)
    (same : route.domain = deriveDomain node.id graph.workspaceName .http) :
    rival.nodeId = container.nodeId := by
  obtain ⟨hostPorts, -, routes⟩ := others.routes
  rw [routes] at member
  obtain ⟨claim, claims, name, owner⟩ := claimed_of_mem_nodeRoutes others.pulled member
  have own : (deriveDomain node.id graph.workspaceName .http, node.id, NameClaim.domain) ∈
      nameClaims graph.workspaceName node := by
    rcases started.pulled with downloaded | kind
    · simp [nameClaims, downloaded]
    · simp [nameClaims, kind]
  have equal := accepted.eq_of_claim_eq others.listed started.listed claims own (name.trans same)
  rw [started.nodeId, others.nodeId, ← owner, equal]

/-- A node whose primary port is published has a route to its own domain. -/
theorem StartedAs.own_route {node : Node} {container : ContainerInfo}
    (started : StartedAs graph node container) (published : PrimaryPublished node container) :
    ∃ route ∈ container.desired.routes,
      route.domain = deriveDomain node.id graph.workspaceName .http := by
  obtain ⟨port, config, declared, primary, bound⟩ := published
  obtain ⟨hostPorts, same, routes⟩ := started.routes
  rw [← same, Option.isSome_iff_exists] at bound
  obtain ⟨hostPort, bound⟩ := bound
  let route : PortRoute :=
    { domain := deriveDomain node.id graph.workspaceName .http, hostPort
      wildcard := config.wildcard, containerPort := port
      https := Dns.certEligible (deriveDomain node.id graph.workspaceName .http) true }
  have member : route ∈ node.ports.toList.flatMap fun entry =>
      portRoutes (deriveDomain node.id graph.workspaceName .http) hostPorts entry.1 entry.2 := by
    refine List.mem_flatMap.mpr
      ⟨(port, config), ExtTreeMap.mem_toList_iff_getElem?_eq_some.mpr declared, ?_⟩
    simp only [portRoutes, bound, primary, if_true]
    exact List.mem_append_left _ (List.mem_singleton.mpr rfl)
  refine ⟨route, ?_, rfl⟩
  rw [routes]
  rcases Query.nodeRoutes_cases node (deriveDomain node.id graph.workspaceName .http) hostPorts with
    bare | ⟨first, full⟩
  · rw [bare]
    exact member
  · rw [full]
    exact List.mem_append_left _ member

end Claims

/-! ## Reached by name -/

section Reached

open Resolver Query

/-- Looking up the node's domain as a DNS query or a `Host` header has it finds the node, and
looking up its raw domain as a DNS query has it gives the address the node was assigned, whatever
was assigned before and is taken. -/
def Reached (hash : String → Nat) (graph : Graph) (workspace : String) (env : EnvState)
    (node : Node) : Prop :=
  let domain := deriveDomain node.id graph.workspaceName .http
  let rawDomain := deriveDomain node.id graph.workspaceName .raw
  (∀ host ∈ [Dns.asked domain, Proxy.hostName domain], ∃ target,
    resolveRoute (alone workspace env) host = some target ∧ target.workspace = workspace ∧
      target.nodeId = node.id) ∧
  ∀ (previous : OrderedMap String Nat) (taken : List RawNet.Addr), ∃ ip : Nat,
    (RawNet.assign hash (rawEndpoints (alone workspace env)) previous taken)[rawDomain]? = some ip ∧
      RawNet.lookup hash (RawNet.assign hash (rawEndpoints (alone workspace env)) previous taken)
        (Dns.asked rawDomain) = ip

/-- The node's domain has an exact route, or no running container of a smaller id has a wildcard
above it. -/
def Unshadowed (graph : Graph) (env : EnvState) (node : Node) (container : ContainerInfo) : Prop :=
  (∃ route ∈ container.desired.routes,
    isExact (deriveDomain node.id graph.workspaceName .http) route) ∨
  ∀ (id : String) (rival : ContainerInfo), env.containers[id]? = some rival → isRunning rival →
    id < node.id → ∀ route ∈ rival.desired.routes,
      ¬isWild (deriveDomain node.id graph.workspaceName .http) route

variable {graph : Graph} {toLowercase : String → String} {hash : String → Nat} {workspace : String}
  {env : EnvState} {node : Node} {container : ContainerInfo}

theorem RunsFrom.filed (runs : RunsFrom graph env) (id : String) (container : ContainerInfo)
    (found : env.containers[id]? = some container) : container.nodeId = id :=
  (runs id container found).1

/-- The domain as it is written leads to the node exactly when no other node's wildcard comes
first. -/
theorem resolveRoute_domain_iff (accepted : Accepted toLowercase graph) (runs : RunsFrom graph env)
    (found : env.containers[node.id]? = some container) (started : StartedAs graph node container)
    (running : isRunning container) (published : PrimaryPublished node container) :
    (∃ target, resolveRoute (alone workspace env) (deriveDomain node.id graph.workspaceName .http) =
      some target ∧ target.workspace = workspace ∧ target.nodeId = node.id) ↔
      Unshadowed graph env node container := by
  have here : container ∈ runningContainers (alone workspace env) :=
    mem_running_alone.mpr ⟨⟨node.id, found⟩, running⟩
  rw [resolveRoute, resolveIn]
  cases exact : findRoute (scan (alone workspace env))
      (isExact (deriveDomain node.id graph.workspaceName .http)) with
  | some target =>
      obtain ⟨first, listed, name, place, ⟨route, declared, matched⟩, -⟩ :=
        findRoute_least runs.filed exact
      obtain ⟨⟨id, filed⟩, -⟩ := mem_running_alone.mp listed
      obtain ⟨other, others⟩ := (runs id first filed).2
      have domain : route.domain = deriveDomain node.id graph.workspaceName .http := by
        simp only [isExact, Bool.and_eq_true, beq_iff_eq] at matched
        exact matched.2
      have own := started.eq_of_domain accepted others declared domain
      have same : first = container := by
        rw [← runs.filed id first filed, own, started.nodeId, found, Option.some.injEq] at filed
        exact filed.symm
      constructor
      · intro _
        exact .inl ⟨route, same ▸ declared, matched⟩
      · intro _
        exact ⟨target, rfl, place, by rw [name, own, started.nodeId]⟩
  | none =>
      have inexact := findRoute_eq_none exact
      have wild : ∃ route ∈ container.desired.routes,
          isWild (deriveDomain node.id graph.workspaceName .http) route := by
        obtain ⟨route, declared, domain⟩ := started.own_route published
        refine ⟨route, declared, ?_⟩
        have wildcard := inexact container here route declared
        simp only [isExact, domain, beq_self_eq_true, Bool.and_true, Bool.not_eq_true',
          Bool.not_eq_false] at wildcard
        simp [isWild, matchesSuffix, domain, wildcard]
      have exact_free : ¬∃ route ∈ container.desired.routes,
          isExact (deriveDomain node.id graph.workspaceName .http) route := by
        rintro ⟨route, declared, matched⟩
        exact inexact container here route declared matched
      cases wildly : findRoute (scan (alone workspace env))
          (isWild (deriveDomain node.id graph.workspaceName .http)) with
      | none =>
          obtain ⟨route, declared, matched⟩ := wild
          exact absurd matched (findRoute_eq_none wildly container here route declared)
      | some target =>
          obtain ⟨first, listed, name, place, matches_first, least⟩ :=
            findRoute_least runs.filed wildly
          constructor
          · rintro ⟨_, same, -, own⟩
            cases same
            refine .inr fun id rival filed up smaller route declared matched => ?_
            have bound := least rival (mem_running_alone.mpr ⟨⟨id, filed⟩, up⟩)
              ⟨route, declared, matched⟩
            rw [← name, own, runs.filed id rival filed] at bound
            exact absurd smaller (not_lt_of_ge bound)
          · intro unshadowed
            refine ⟨target, rfl, place, ?_⟩
            have clear := unshadowed.resolve_left exact_free
            have bound := least container here wild
            rw [started.nodeId] at bound
            rw [name]
            refine le_antisymm bound (le_of_not_gt fun smaller => ?_)
            obtain ⟨⟨id, filed⟩, up⟩ := mem_running_alone.mp listed
            obtain ⟨route, declared, matched⟩ := matches_first
            rw [runs.filed id first filed] at smaller
            exact clear id first filed up smaller route declared matched

theorem deriveDomain_inj {id other workspaceName : String} {zone : DomainZone}
    (same : deriveDomain id workspaceName zone = deriveDomain other workspaceName zone) :
    id = other := by
  rw [← String.toList_inj] at same ⊢
  simp only [deriveDomain, String.toList_append, List.append_assoc] at same
  exact List.append_cancel_right same

/-- A raw endpoint is that of a node, under the node's own raw name. -/
theorem RunsFrom.endpoint (runs : RunsFrom graph env) {endpoint : RawNet.RawEndpoint}
    (member : endpoint ∈ rawEndpoints (alone workspace env)) :
    ∃ other ∈ graph.nodes, endpoint.rawDomain = deriveDomain other.id graph.workspaceName .raw := by
  obtain ⟨container, running, rfl⟩ := List.mem_map.mp member
  obtain ⟨⟨id, filed⟩, -⟩ := mem_running_alone.mp running
  obtain ⟨other, others⟩ := (runs id container filed).2
  exact ⟨other, others.listed, others.rawDomain⟩

theorem RunsFrom.nodup_rawDomains (runs : RunsFrom graph env) :
    ((rawEndpoints (alone workspace env)).map RawNet.RawEndpoint.rawDomain).Nodup := by
  rw [rawEndpoints, List.map_map]
  refine List.pairwise_map.mpr ?_
  refine List.Pairwise.imp_of_mem ?_ (running_ordered runs.filed)
  intro first second early late smaller same
  obtain ⟨⟨id, filed⟩, -⟩ := mem_running_alone.mp early
  obtain ⟨⟨other_id, other_filed⟩, -⟩ := mem_running_alone.mp late
  obtain ⟨node, started⟩ := (runs id first filed).2
  obtain ⟨other, others⟩ := (runs other_id second other_filed).2
  have equal : first.desired.rawDomain = second.desired.rawDomain := same
  rw [started.rawDomain, others.rawDomain] at equal
  rw [started.nodeId, others.nodeId, deriveDomain_inj equal] at smaller
  exact absurd smaller (lt_irrefl _)

/-- The raw name is looked up under the address of its node, whatever was assigned before, exactly
when it is lower case. -/
theorem lookup_asked_iff (accepted : Accepted toLowercase graph) (runs : RunsFrom graph env)
    (found : env.containers[node.id]? = some container) (started : StartedAs graph node container)
    (running : isRunning container) :
    (∀ (previous : OrderedMap String Nat) (taken : List RawNet.Addr), ∃ ip : Nat,
      (RawNet.assign hash (rawEndpoints (alone workspace env)) previous taken)[deriveDomain node.id
        graph.workspaceName .raw]? = some ip ∧
      RawNet.lookup hash (RawNet.assign hash (rawEndpoints (alone workspace env)) previous taken)
        (Dns.asked (deriveDomain node.id graph.workspaceName .raw)) = ip) ↔
      LowerCase node.id := by
  have distinct := @RunsFrom.nodup_rawDomains graph workspace env runs
  obtain ⟨endpoint, member, name⟩ : ∃ endpoint ∈ rawEndpoints (alone workspace env),
      endpoint.rawDomain = deriveDomain node.id graph.workspaceName .raw :=
    ⟨_, List.mem_map_of_mem (mem_running_alone.mpr ⟨⟨node.id, found⟩, running⟩), started.rawDomain⟩
  rw [← name]
  constructor
  · intro reached
    by_contra upper
    have unlike : Dns.asked endpoint.rawDomain ≠ endpoint.rawDomain := by
      rw [ne_eq, Dns.asked_eq_self_iff, name, Dns.lowerCase_deriveDomain]
      exact upper
    -- an address that is not where the lower case name hashes to
    obtain ⟨elsewhere, apart⟩ : ∃ ip, ip ≠ RawNet.virtualIpFor hash
      (Dns.asked endpoint.rawDomain) := ⟨_, Nat.succ_ne_self _⟩
    obtain ⟨ip, assigned, looked⟩ := reached (RawNet.onlyAt endpoint.rawDomain elsewhere) []
    have kept : (RawNet.assign hash (rawEndpoints (alone workspace env))
        (RawNet.onlyAt endpoint.rawDomain elsewhere) [])[endpoint.rawDomain]? = some elsewhere := by
      refine RawNet.assign_sticky distinct member (by simp [RawNet.onlyAt]) ?_
      intro port _
      refine ⟨List.not_mem_nil, fun other _ known smaller => ?_⟩
      simp only [RawNet.onlyAt, ExtTreeMap.contains_insert, ExtTreeMap.contains_empty,
        Bool.or_false, beq_iff_eq, Std.compare_eq_iff_eq] at known
      exact absurd smaller (known ▸ lt_irrefl _)
    rw [kept, Option.some.injEq] at assigned
    have unknown : (RawNet.assign hash (rawEndpoints (alone workspace env))
        (RawNet.onlyAt endpoint.rawDomain elsewhere) [])[Dns.asked endpoint.rawDomain]? = none := by
      refine RawNet.assign_dropped fun other listed same => unlike ?_
      obtain ⟨rival, inside, rival_name⟩ := runs.endpoint listed
      rw [rival_name, name, Dns.asked_deriveDomain] at same
      have id := deriveDomain_inj same
      have label : sanitizeLabel rival.id = sanitizeLabel node.id := by
        rw [sanitizeLabel_eq_iff, id, Dns.labelWords_asked]
      have one := accepted.eq_of_label_eq inside started.listed label
      rw [name, Dns.asked_deriveDomain, ← id, one]
    rw [RawNet.lookup, unknown, Option.getD_none] at looked
    exact apart (assigned.trans looked.symm)
  · intro lower previous taken
    have same : Dns.asked endpoint.rawDomain = endpoint.rawDomain := by
      rw [Dns.asked_eq_self_iff, name, Dns.lowerCase_deriveDomain]
      exact lower
    obtain ⟨ip, entry⟩ := @RawNet.exists_placed hash _ previous taken endpoint member
    have assigned := RawNet.assign_of_placed distinct entry
    exact ⟨ip, assigned, by rw [same, RawNet.lookup, assigned, Option.getD_some]⟩

end Reached

/-! ## A store front -/

/-- The container of a running node whose ports are bound to these host ports. -/
def runningAs (graph : Graph) (node : Node) (hostPorts : OrderedMap String (Option UInt16)) :
    ContainerInfo where
  nodeId := node.id
  desired :=
    { running := true
      rawDomain := deriveDomain node.id graph.workspaceName .raw
      routes := (nodeRoutes node (deriveDomain node.id graph.workspaceName .http) hostPorts).1 }
  observed := { status := "running", ports := hostPorts }

def onlyRunning (graph : Graph) (node : Node) (hostPorts : OrderedMap String (Option UInt16)) :
    EnvState where
  containers := (∅ : OrderedMap String ContainerInfo).insert node.id
    (runningAs graph node hostPorts)

section OnlyRunning

variable {graph : Graph} {node : Node} {hostPorts : OrderedMap String (Option UInt16)}

theorem startedAs_runningAs (listed : node ∈ graph.nodes) (downloaded : node.downloaded) :
    StartedAs graph node (runningAs graph node hostPorts) :=
  ⟨listed, .inl downloaded, rfl, rfl, hostPorts, fun _ => rfl, rfl⟩

theorem eq_of_onlyRunning {id : String} {container : ContainerInfo}
    (found : (onlyRunning graph node hostPorts).containers[id]? = some container) :
    id = node.id ∧ container = runningAs graph node hostPorts := by
  simp only [onlyRunning, ExtTreeMap.getElem?_insert, ExtTreeMap.getElem?_empty] at found
  split at found
  · rename_i same
    rw [Std.compare_eq_iff_eq] at same
    cases found
    exact ⟨same.symm, rfl⟩
  · cases found

theorem runsFrom_onlyRunning (listed : node ∈ graph.nodes) (downloaded : node.downloaded) :
    RunsFrom graph (onlyRunning graph node hostPorts) := by
  intro id container found
  obtain ⟨rfl, rfl⟩ := eq_of_onlyRunning found
  exact ⟨rfl, node, startedAs_runningAs listed downloaded⟩

end OnlyRunning

/-- A market of one repo, in a folder of this name, that has a store front. -/
def storeFront (folder : String) : Graph :=
  Resolver.resolveWorkspace id "market"
    ((∅ : OrderedMap String ComponentConfig).insert folder
      { services := (∅ : OrderedMap String ServiceConfig).insert "web"
          { image := some "nginx"
            ports := (∅ : OrderedMap String PortConfig).insert "80" { primary := true } } })
    ∅

def storePorts : OrderedMap String (Option UInt16) :=
  (∅ : OrderedMap String (Option UInt16)).insert "80" (some 40001)

/-- The numbers the raw names of the store front hash to. -/
def storeHash (name : String) : Nat :=
  if name = "web.Shop.market.fghj.raw.internal" then 0x4826b345 else 0x557ccd4

theorem published_runningAs {graph : Graph} {node : Node} {config : PortConfig}
    (declared : node.ports["80"]? = some config) (primary : config.primary) :
    PrimaryPublished node (runningAs graph node storePorts) :=
  ⟨"80", config, declared, primary, by simp [runningAs, storePorts]⟩

end Fghj
