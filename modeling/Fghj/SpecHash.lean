import Fghj.Library.Listing
import Fghj.NodeSpecs

/-!
# What a configuration hash covers

The hash of a node is taken over a hand-kept part of what a start reads. What a start asks Docker
for and writes down afterwards is told by the hash and by the fields it leaves out: the names of the
ports, the hosts, the kind, and the branch.
-/

namespace Fghj

open Std (ExtTreeMap)

namespace Orchestrator

/-! ## The hash -/

/-- One bit of dirt: clean to dirty shows, further edits do not. -/
structure SourceState where
  head : Option String
  dirty : Bool
  deriving DecidableEq

/-- What the hash is taken over. -/
structure DesiredSpec where
  image : String
  command : List String
  env : List String
  ports : List (String × Option UInt16)
  binds : List String
  restart : String
  stopSignal : Option String
  stopGracePeriod : UInt64
  user : Option String
  workingDir : Option String
  labels : OrderedMap String String
  capAdd : List String
  capDrop : List String
  privileged : Bool
  extraHosts : List String
  healthcheck : Option Healthcheck
  platform : Option String
  build : Option NodeBuild
  source : Option SourceState
  deriving DecidableEq

def desiredSpec (config : NodeConfig) (spec : ContainerSpec) : DesiredSpec where
  image := spec.image
  command := config.command
  env := spec.env
  ports := spec.portList
  binds := spec.binds
  restart := config.restart
  stopSignal := config.stopSignal
  stopGracePeriod := config.stopGracePeriod
  user := config.user
  workingDir := config.workingDir
  labels := config.labels
  capAdd := config.capAdd
  capDrop := config.capDrop
  privileged := config.privileged
  extraHosts := config.extraHosts
  healthcheck := config.healthcheck
  platform := config.platform
  build := config.build
  source := config.node.buildCheckout.map fun checkout => ⟨checkout.head, checkout.dirty⟩

section Hash

/- The digest of what is hashed, encoded. -/
variable (digest : DesiredSpec → String)

def specHash (config : NodeConfig) (spec : ContainerSpec) : String :=
  digest (desiredSpec config spec)

/-- How a container's recorded hash compares with its node now. -/
def configDrift (recorded : String) (config : Option NodeConfig)
    (resolve : NodeConfig → Except String ContainerSpec) : SyncStatus :=
  match config with
  | none => .orphaned
  | some config =>
      match resolve config with
      | .error _ => .unknown
      | .ok spec => if specHash digest config spec = recorded then .synced else .drifted

/-- A container counts as synced exactly if its node resolves to the hash it has. -/
theorem configDrift_eq_synced_iff {recorded : String} {config : NodeConfig}
    {resolve : NodeConfig → Except String ContainerSpec} :
    configDrift digest recorded (some config) resolve = .synced ↔
      ∃ spec, resolve config = .ok spec ∧ specHash digest config spec = recorded := by
  cases resolved : resolve config with
  | error message => simp [configDrift, resolved]
  | ok spec => simp [configDrift, resolved]

/-! ## The start -/

/-- What a container is created from. -/
structure RunOpts where
  name : String
  network : String
  aliases : List String
  env : List String
  dns : List String
  ports : List (String × Option UInt16)
  image : String
  command : List String
  project : String
  serviceName : String
  binds : List String
  restartPolicy : String
  stopSignal : Option String
  stopGracePeriod : UInt64
  user : Option String
  workingDir : Option String
  labels : OrderedMap String String
  capAdd : List String
  capDrop : List String
  privileged : Bool
  extraHosts : List String
  healthcheck : Option Healthcheck
  platform : Option String
  deriving DecidableEq

/-- The author's labels, with the hash and what the container is built from. -/
def stampedLabels (config : NodeConfig) (configHash : String) : OrderedMap String String :=
  let labels := config.labels.insert "fghj.config_hash" configHash
  match config.node.buildCheckout with
  | none => labels
  | some checkout =>
      let labels :=
        match checkout.branch with
        | some branch => labels.insert "fghj.source_branch" branch
        | none => labels
      let labels :=
        match checkout.head with
        | some head => labels.insert "fghj.source_head" head
        | none => labels
      labels.insert "fghj.source_dirty" (if checkout.dirty then "true" else "false")

/-- A debugged start waits for its debugger, and is not checked meanwhile. -/
def debugWaitOverrides (config : NodeConfig) (spec : ContainerSpec) (debugWait : Bool) :
    List String × Option Healthcheck :=
  if debugWait then (spec.env ++ ["FGHJ_DEBUG_WAIT=1"], none) else (spec.env, config.healthcheck)

/-- What a start asks Docker to run. -/
def runOpts (config : NodeConfig) (spec : ContainerSpec) (network : String)
    (sidecarIp : Option String) (debugWait : Bool) : RunOpts :=
  let overrides := debugWaitOverrides config spec debugWait
  { name := spec.containerName
    network
    aliases := spec.aliases
    env := overrides.1
    dns := (sidecarIp.map fun ip => [ip, "127.0.0.11"]).getD []
    ports := spec.portList
    image := spec.image
    command := config.command
    project := network
    serviceName := config.id
    binds := spec.binds
    restartPolicy := config.restart
    stopSignal := config.stopSignal
    stopGracePeriod := config.stopGracePeriod
    user := config.user
    workingDir := config.workingDir
    labels := stampedLabels config (specHash digest config spec)
    capAdd := config.capAdd
    capDrop := config.capDrop
    privileged := config.privileged
    extraHosts := config.extraHosts
    healthcheck := overrides.2
    platform := config.platform }

/-- The record of a node that started. -/
def recordedInfo (config : NodeConfig) (spec : ContainerSpec) (debugWait : Bool)
    (inspected : Option ContainerStatus) : ContainerInfo :=
  startedInfo config.node spec.toNodeSpec (specHash digest config spec) debugWait inspected

/-- A start of either asks for the same container and, for the same answer of Docker, writes down
the same routes, additional hosts, status port and task flag. -/
structure SameStart (config other : NodeConfig) (spec later : ContainerSpec) : Prop where
  container : ∀ network sidecarIp debugWait,
    runOpts digest config spec network sidecarIp debugWait =
      runOpts digest other later network sidecarIp debugWait
  routes : ∀ debugWait inspected,
    (recordedInfo digest config spec debugWait inspected).desired.routes =
      (recordedInfo digest other later debugWait inspected).desired.routes
  additionalHosts : ∀ debugWait inspected,
    (recordedInfo digest config spec debugWait inspected).desired.additionalHosts =
      (recordedInfo digest other later debugWait inspected).desired.additionalHosts
  statusPort : ∀ debugWait inspected,
    (recordedInfo digest config spec debugWait inspected).desired.statusPort =
      (recordedInfo digest other later debugWait inspected).desired.statusPort
  terminating : ∀ debugWait inspected,
    (recordedInfo digest config spec debugWait inspected).desired.terminating =
      (recordedInfo digest other later debugWait inspected).desired.terminating

end Hash

/-! ## What the hash leaves out -/

/-- A declared port that has a domain. -/
structure NamedPort where
  port : String
  primary : Bool
  name : Option String
  wildcard : Bool
  deriving DecidableEq

/-- The declared ports that have a domain, in order. -/
def namedPorts (ports : OrderedMap String PortConfig) : List NamedPort :=
  (ports.toList.filter fun entry => entry.2.primary || entry.2.name.isSome).map fun entry =>
    ⟨entry.1, entry.2.primary, entry.2.name, entry.2.wildcard⟩

/-- The branch a container is labelled with. -/
def branchLabel (config : NodeConfig) : Option String :=
  (config.node.buildCheckout.bind (·.branch)).or config.labels["fghj.source_branch"]?

/-- Two nodes that agree in what a start reads and the hash leaves out. -/
structure SameUnhashed (config other : NodeConfig) : Prop where
  named : namedPorts config.ports = namedPorts other.ports
  /-- Hosts are routed to the primary port. -/
  hosts : (∃ named ∈ namedPorts config.ports, named.primary) →
    config.additionalHosts = other.additionalHosts ∧ config.wildcardHosts = other.wildcardHosts
  /-- Without a primary port the first declared one shows the status. -/
  first : (∀ named ∈ namedPorts config.ports, ¬named.primary) →
    config.ports.toList.head?.map Prod.fst = other.ports.toList.head?.map Prod.fst
  task : config.kind = .task ↔ other.kind = .task
  branch : branchLabel config = branchLabel other

/-! ## Labels -/

theorem getElem?_stampedLabels_branch (config : NodeConfig) (configHash : String) :
    (stampedLabels config configHash)["fghj.source_branch"]? = branchLabel config := by
  unfold stampedLabels branchLabel
  cases config.node.buildCheckout with
  | none => simp
  | some checkout =>
      obtain ⟨branch, head, dirty⟩ := checkout
      cases branch <;> cases head <;>
        simp only [ExtTreeMap.getElem?_insert, Std.compare_eq_iff_eq, String.reduceEq, reduceIte,
          Option.bind_some, Option.none_or, Option.some_or]

/-- Apart from the branch, the labels are told by what is hashed. -/
theorem getElem?_stampedLabels_of_ne {config other : NodeConfig}
    (labels : config.labels = other.labels)
    (source : (config.node.buildCheckout.map fun checkout =>
      SourceState.mk checkout.head checkout.dirty) =
      other.node.buildCheckout.map fun checkout => ⟨checkout.head, checkout.dirty⟩)
    (configHash : String) {key : String} (elsewhere : key ≠ "fghj.source_branch") :
    (stampedLabels config configHash)[key]? = (stampedLabels other configHash)[key]? := by
  have distinct : ¬"fghj.source_branch" = key := fun same => elsewhere same.symm
  unfold stampedLabels
  rw [labels]
  cases mine : config.node.buildCheckout with
  | none =>
      rw [mine, Option.map_none, eq_comm, Option.map_eq_none_iff] at source
      rw [source]
  | some checkout =>
      rw [mine, Option.map_some] at source
      obtain ⟨also, theirs, same⟩ := Option.map_eq_some_iff.mp source.symm
      obtain ⟨head, dirty⟩ := SourceState.mk.inj same
      rw [theirs]
      simp only [head, dirty]
      cases checkout.branch <;> cases also.branch <;> cases checkout.head <;> simp [distinct]

/-- Where what is hashed agrees, the labels agree exactly if the branches do. -/
theorem stampedLabels_eq_iff {config other : NodeConfig} (labels : config.labels = other.labels)
    (source : (config.node.buildCheckout.map fun checkout =>
      SourceState.mk checkout.head checkout.dirty) =
      other.node.buildCheckout.map fun checkout => ⟨checkout.head, checkout.dirty⟩)
    (configHash : String) : stampedLabels config configHash = stampedLabels other configHash ↔
      branchLabel config = branchLabel other := by
  constructor
  · intro same
    rw [← getElem?_stampedLabels_branch config configHash, same, getElem?_stampedLabels_branch]
  · intro branch
    refine ExtTreeMap.ext_getElem? fun key => ?_
    by_cases here : key = "fghj.source_branch"
    · rw [here, getElem?_stampedLabels_branch, getElem?_stampedLabels_branch, branch]
    · exact getElem?_stampedLabels_of_ne labels source configHash here

/-! ## Ports and their routes -/

section Routes

variable (domain : String)

/-- The routes of one port that has a domain. -/
def NamedPort.routes (hostPorts : OrderedMap String (Option UInt16)) (named : NamedPort) :
    List PortRoute :=
  portRoutes domain hostPorts named.port
    { primary := named.primary, name := named.name, wildcard := named.wildcard }

/-- A port without a domain has no route. -/
theorem flatMap_portRoutes (hostPorts : OrderedMap String (Option UInt16))
    (ports : OrderedMap String PortConfig) :
    (ports.toList.flatMap fun entry => portRoutes domain hostPorts entry.1 entry.2) =
      (namedPorts ports).flatMap (NamedPort.routes domain hostPorts) := by
  rw [namedPorts, List.flatMap_map]
  induction ports.toList with
  | nil => rfl
  | cons entry entries ih =>
      rw [List.flatMap_cons, List.filter_cons, ih]
      by_cases named : (entry.2.primary || entry.2.name.isSome) = true
      · rw [if_pos named, List.flatMap_cons]
        rfl
      · rw [if_neg named]
        simp only [Bool.or_eq_true, not_or, Bool.not_eq_true, Option.isSome_eq_false_iff,
          Option.isNone_iff_eq_none] at named
        rw [portRoutes, named.1, named.2]
        split <;> rfl

theorem find?_primary (ports : OrderedMap String PortConfig) :
    (ports.toList.find? fun entry => entry.2.primary).map Prod.fst =
      ((namedPorts ports).find? (·.primary)).map (·.port) := by
  rw [namedPorts, List.find?_map, List.find?_filter, Option.map_map]
  congr 2
  funext entry
  cases primary : entry.2.primary <;> simp [primary]

theorem nodup_namedPorts (ports : OrderedMap String PortConfig) :
    ((namedPorts ports).map (·.port)).Nodup := by
  rw [namedPorts, List.map_map]
  exact (OrderedMap.nodup_fst_toList ports).sublist (List.filter_sublist.map Prod.fst)

theorem below_ne (name : String) : name ++ "." ++ domain ≠ domain := by
  intro same
  have lengths := congrArg String.length same
  simp only [String.length_append] at lengths
  have dot : ".".length = 1 := rfl
  omega

variable {domain} {hostPorts : OrderedMap String (Option UInt16)}

theorem containerPort_of_mem_routes {named : NamedPort} {route : PortRoute}
    (member : route ∈ named.routes domain hostPorts) : route.containerPort = named.port := by
  simp only [NamedPort.routes, portRoutes] at member
  split at member
  · cases member
  · rcases List.mem_append.mp member with primary | name
    · split at primary
      · rw [List.mem_singleton.mp primary]
      · cases primary
    · split at name
      · rw [List.mem_singleton.mp name]
      · cases name

/-- The route of the domain itself is a primary port's. -/
theorem primary_of_mem_routes {named : NamedPort} {route : PortRoute}
    (member : route ∈ named.routes domain hostPorts) (own : route.domain = domain) :
    named.primary := by
  simp only [NamedPort.routes, portRoutes] at member
  split at member
  · cases member
  · rcases List.mem_append.mp member with primary | name
    · split at primary
      · assumption
      · cases primary
    · split at name
      · rw [List.mem_singleton.mp name] at own
        exact (below_ne domain _ own).elim
      · cases name

/-- Ports with the same routes are one. -/
theorem eq_of_routes_eq (named other : NamedPort)
    (same : named.routes domain hostPorts = other.routes domain hostPorts)
    (solid : named.routes domain hostPorts ≠ []) : named = other := by
  obtain ⟨route, member⟩ := List.exists_mem_of_ne_nil _ solid
  have ports : named.port = other.port := by
    rw [← containerPort_of_mem_routes member, containerPort_of_mem_routes (same ▸ member)]
  obtain ⟨port, primary, name, wildcard⟩ := named
  obtain ⟨also, alsoPrimary, alsoName, alsoWildcard⟩ := other
  subst ports
  simp only [NamedPort.routes, portRoutes] at same solid
  split at solid
  · exact (solid rfl).elim
  · rename_i host found
    simp only [found] at same
    have apart := fun name => below_ne domain name
    have alsoApart := fun name => (below_ne domain name).symm
    cases primary <;> cases alsoPrimary <;> cases name <;> cases alsoName <;>
      simp_all [String.append_left_inj]

/-! ## Everything published -/

/-- Every port of the list is bound to a host port. -/
def Published (hostPorts : OrderedMap String (Option UInt16)) (named : List NamedPort) : Prop :=
  ∀ port ∈ named, (hostPorts[port.port]?).join.isSome ∧ (port.primary || port.name.isSome)

theorem routes_ne_nil (domain : String) {named : List NamedPort}
    (published : Published hostPorts named)
    {port : NamedPort} (member : port ∈ named) : port.routes domain hostPorts ≠ [] := by
  obtain ⟨bound, domains⟩ := published port member
  obtain ⟨host, found⟩ := Option.isSome_iff_exists.mp bound
  simp only [NamedPort.routes, portRoutes, found]
  cases primary : port.primary with
  | true => simp
  | false =>
      rw [primary, Bool.false_or] at domains
      obtain ⟨name, given⟩ := Option.isSome_iff_exists.mp domains
      simp [given]

/-- A primary port that is bound has the domain's route. -/
theorem exists_own_route (domain : String) {port : NamedPort}
    (bound : (hostPorts[port.port]?).join.isSome)
    (primary : port.primary) : ∃ route ∈ port.routes domain hostPorts, route.domain = domain := by
  obtain ⟨host, found⟩ := Option.isSome_iff_exists.mp bound
  simp only [NamedPort.routes, portRoutes, found, primary, if_true]
  exact ⟨_, List.mem_append_left _ (List.mem_singleton_self _), rfl⟩

/-- One route for each primary port and one for each name. -/
theorem length_flatMap_routes (domain : String) {named : List NamedPort}
    (published : Published hostPorts named) :
    (named.flatMap (NamedPort.routes domain hostPorts)).length =
      named.countP (·.primary) + (named.filterMap (·.name)).length := by
  induction named with
  | nil => rfl
  | cons port named ih =>
      obtain ⟨host, found⟩ := Option.isSome_iff_exists.mp (published port List.mem_cons_self).1
      rw [List.flatMap_cons, List.length_append,
        ih fun other member => published other (List.mem_cons_of_mem _ member), List.countP_cons,
        List.filterMap_cons]
      have own : (port.routes domain hostPorts).length =
          (if port.primary then 1 else 0) + port.name.toList.length := by
        simp only [NamedPort.routes, portRoutes, found]
        cases port.primary <;> cases port.name <;> rfl
      rw [own]
      cases port.name <;> simp <;> omega

section Compared

variable {named others : List NamedPort} {hosts otherHosts : List PortRoute} {route : PortRoute}

/-- The route of the domain itself comes from a primary port of the same container port. -/
theorem exists_primary_of_find?
    (found : (named.flatMap (NamedPort.routes domain hostPorts)).find? (·.domain == domain) =
      some route) : ∃ port ∈ named, port.primary ∧ port.port = route.containerPort := by
  obtain ⟨port, listed, member⟩ := List.mem_flatMap.mp (List.mem_of_find?_eq_some found)
  have own : route.domain = domain := by simpa using List.find?_some found
  exact ⟨port, listed, primary_of_mem_routes member own, (containerPort_of_mem_routes member).symm⟩

/-- Hosts routed to the first primary port cannot stand for another primary port. -/
theorem countP_primary_le (published : Published hostPorts named)
    (alsoPublished : Published hostPorts others) (distinct : (others.map (·.port)).Nodup)
    (names : (named.filterMap (·.name)).length = (others.filterMap (·.name)).length)
    (found : (named.flatMap (NamedPort.routes domain hostPorts)).find? (·.domain == domain) =
      some route)
    (alsoFound : (others.flatMap (NamedPort.routes domain hostPorts)).find? (·.domain == domain) =
      some route)
    (shared : ∀ host ∈ hosts, host.containerPort = route.containerPort)
    (same : named.flatMap (NamedPort.routes domain hostPorts) ++ hosts =
      others.flatMap (NamedPort.routes domain hostPorts) ++ otherHosts) :
    others.countP (·.primary) ≤ named.countP (·.primary) := by
  by_contra more
  have lengths := length_flatMap_routes domain published
  have alsoLengths := length_flatMap_routes domain alsoPublished
  obtain ⟨port, listed, primary, -⟩ := exists_primary_of_find? found
  have some_ : 0 < named.countP (·.primary) := List.countP_pos_iff.mpr ⟨port, listed, primary⟩
  rcases List.append_eq_append_iff.mp same with ⟨between, rest, front⟩ | ⟨between, rest, -⟩
  · -- the last of the others' routes is one of the hosts, so its port is the first primary one
    have long : between ≠ [] := by
      rintro rfl
      rw [List.append_nil] at rest
      rw [rest, lengths] at alsoLengths
      omega
    rcases List.eq_nil_or_concat others with rfl | ⟨init, last, rfl⟩
    · simp at more
    · rw [List.concat_eq_append] at *
      have solid := routes_ne_nil domain alsoPublished (List.mem_append_right _
        (List.mem_singleton_self last))
      have final := List.getLast?_eq_some_getLast long
      generalize between.getLast long = host at final
      have inside : host ∈ last.routes domain hostPorts := by
        have ends := congrArg List.getLast? rest
        rw [List.flatMap_append, List.flatMap_singleton, List.getLast?_append_of_ne_nil _ solid,
          List.getLast?_append_of_ne_nil _ long, final] at ends
        exact List.mem_of_getLast? ends
      have port : last.port = route.containerPort := by
        rw [← containerPort_of_mem_routes inside]
        exact shared host (front ▸ List.mem_append_left _ (List.mem_of_getLast? final))
      have none_ : init.countP (·.primary) = 0 := by
        rw [List.countP_eq_zero]
        intro other before also
        -- its route would be the first of the domain, and two ports would have one key
        obtain ⟨own, routed, domains⟩ := exists_own_route domain
          (alsoPublished other (List.mem_append_left _ before)).1 also
        have some_ : ((init.flatMap (NamedPort.routes domain hostPorts)).find?
            (·.domain == domain)).isSome := List.find?_isSome.mpr
          ⟨own, List.mem_flatMap.mpr ⟨other, before, routed⟩, by simp [domains]⟩
        obtain ⟨first, earlier⟩ := Option.isSome_iff_exists.mp some_
        rw [List.flatMap_append, List.find?_append, earlier, Option.some_or, Option.some_inj]
          at alsoFound
        obtain ⟨twin, twinListed, -, twinPort⟩ := exists_primary_of_find? earlier
        rw [List.map_append, List.nodup_append] at distinct
        refine distinct.2.2 _ (List.mem_map.mpr ⟨twin, twinListed, rfl⟩) _
          (List.mem_singleton_self _) ?_
        rw [twinPort, alsoFound]
        exact port.symm
      rw [List.countP_append, none_, List.countP_singleton] at more
      split at more <;> omega
  · have length := congrArg List.length rest
    rw [List.length_append] at length
    omega

/-- Where everything is published, the routes of the ports are told apart from those of the
hosts. -/
theorem named_of_routes (published : Published hostPorts named)
    (alsoPublished : Published hostPorts others) (distinct : (named.map (·.port)).Nodup)
    (alsoDistinct : (others.map (·.port)).Nodup)
    (names : (named.filterMap (·.name)).length = (others.filterMap (·.name)).length)
    (found : (named.flatMap (NamedPort.routes domain hostPorts)).find? (·.domain == domain) =
      some route)
    (alsoFound : (others.flatMap (NamedPort.routes domain hostPorts)).find? (·.domain == domain) =
      some route)
    (shared : ∀ host ∈ hosts ++ otherHosts, host.containerPort = route.containerPort)
    (same : named.flatMap (NamedPort.routes domain hostPorts) ++ hosts =
      others.flatMap (NamedPort.routes domain hostPorts) ++ otherHosts) :
    named = others ∧ hosts = otherHosts := by
  have primaries : named.countP (·.primary) = others.countP (·.primary) := by
    apply Nat.le_antisymm
    · exact countP_primary_le alsoPublished published distinct names.symm alsoFound found
        (fun host member => shared host (List.mem_append_right _ member)) same.symm
    · exact countP_primary_le published alsoPublished alsoDistinct names found alsoFound
        (fun host member => shared host (List.mem_append_left _ member)) same
  have lengths : (named.flatMap (NamedPort.routes domain hostPorts)).length =
      (others.flatMap (NamedPort.routes domain hostPorts)).length := by
    rw [length_flatMap_routes domain published, length_flatMap_routes domain alsoPublished,
      primaries, names]
  obtain ⟨ports, rest⟩ := List.append_inj same lengths
  exact ⟨Listing.eq_of_flatMap_eq (fun _ _ => containerPort_of_mem_routes) eq_of_routes_eq
    (fun _ => routes_ne_nil _ published) (fun _ => routes_ne_nil _ alsoPublished) distinct
      alsoDistinct
    ports, rest⟩

end Compared

/-! ## The record -/

/-- The routes of a node's ports. -/
def ownRoutes (domain : String) (hostPorts : OrderedMap String (Option UInt16)) (node : Node) :
    List PortRoute :=
  (namedPorts node.ports).flatMap (NamedPort.routes domain hostPorts)

theorem nodeRoutes_of_none {node : Node}
    (absent : (ownRoutes domain hostPorts node).find? (·.domain == domain) = none) :
    nodeRoutes node domain hostPorts = (ownRoutes domain hostPorts node, []) := by
  rw [ownRoutes] at absent
  rw [nodeRoutes, flatMap_portRoutes, ownRoutes]
  simp only [absent]

theorem nodeRoutes_of_some {node : Node} {primary : PortRoute}
    (found : (ownRoutes domain hostPorts node).find? (·.domain == domain) = some primary) :
    nodeRoutes node domain hostPorts =
      (ownRoutes domain hostPorts node ++ hostRoutes node primary, node.additionalHosts) := by
  rw [ownRoutes] at found
  rw [nodeRoutes, flatMap_portRoutes, ownRoutes]
  simp only [found]

/-- The domain's own route is the first of the domain among all of a node. -/
theorem find?_nodeRoutes (node : Node) :
    (nodeRoutes node domain hostPorts).1.find? (·.domain == domain) =
      (ownRoutes domain hostPorts node).find? (·.domain == domain) := by
  cases found : (ownRoutes domain hostPorts node).find? (·.domain == domain) with
  | none => rw [nodeRoutes_of_none found, found]
  | some primary =>
      rw [nodeRoutes_of_some found, List.find?_append, found, Option.some_or]

theorem containerPort_of_mem_hostRoutes {node : Node} {primary host : PortRoute}
    (member : host ∈ hostRoutes node primary) : host.containerPort = primary.containerPort := by
  simp only [hostRoutes, List.mem_append, List.mem_map] at member
  rcases member with ⟨_, -, rfl⟩ | ⟨_, -, rfl⟩ <;> rfl

/-- The routes of the hosts tell the wildcard ones where the others are known. -/
theorem wildcardHosts_of_hostRoutes {node other : Node} {primary : PortRoute}
    (hosts : node.additionalHosts = other.additionalHosts)
    (same : hostRoutes node primary = hostRoutes other primary) :
    node.wildcardHosts = other.wildcardHosts := by
  simp only [hostRoutes, hosts, List.append_cancel_left_eq] at same
  refine List.map_injective_iff.mpr (fun first second equal => ?_) same
  exact (PortRoute.mk.inj equal).1

end Routes

/-- The host port bound to each published port, as a start reads it. -/
def boundPorts (portList : List (String × Option UInt16)) (inspected : Option ContainerStatus) :
    OrderedMap String (Option UInt16) :=
  portList.foldl (fun ports entry =>
    ports.insert entry.1 (inspected.bind fun status => status.hostPort entry.1)) ∅

/-- A reading in which every port of a list is bound. -/
def allBound (portList : List (String × Option UInt16)) : ContainerStatus where
  status := "running"
  hostPorts := portList.foldl (fun ports entry => ports.insert
    (if entry.1.toList.contains '/' then entry.1 else entry.1 ++ "/tcp") 1) ∅

theorem hostPort_allBound {portList : List (String × Option UInt16)} {port : String}
    (member : port ∈ portList.map Prod.fst) : (allBound portList).hostPort port = some 1 := by
  obtain ⟨entry, listed, rfl⟩ := List.mem_map.mp member
  have found := OrderedMap.getElem?_foldl_insert_of_mem
    (fun entry : String × Option UInt16 =>
      if entry.1.toList.contains '/' then entry.1 else entry.1 ++ "/tcp")
    (fun _ => (1 : UInt16)) (List.mem_map.mpr ⟨entry, listed, rfl⟩) ∅
  rw [ContainerStatus.hostPort]
  by_cases slash : entry.1.toList.contains '/' = true
  · rw [if_pos slash] at found ⊢
    exact found
  · rw [if_neg slash] at found ⊢
    exact found

/-- All declared ports are published. -/
theorem published_allBound (ports : OrderedMap String PortConfig) (debug : Option UInt16) :
    Published (boundPorts (PortKeys.portList ports debug)
      (some (allBound (PortKeys.portList ports debug)))) (namedPorts ports) := by
  intro named member
  rw [namedPorts, List.mem_map] at member
  obtain ⟨entry, kept, rfl⟩ := member
  obtain ⟨listed, domains⟩ := List.mem_filter.mp kept
  have member : entry.1 ∈ (PortKeys.portList ports debug).map Prod.fst := by
    have declared : (entry.1, entry.2.hostPort) ∈ PortKeys.portList ports debug := by
      have front : (entry.1, entry.2.hostPort) ∈
          ports.toList.map fun entry => (entry.1, entry.2.hostPort) :=
        List.mem_map.mpr ⟨entry, listed, rfl⟩
      unfold PortKeys.portList
      cases debug with
      | none => exact front
      | some number =>
          simp only
          split
          · exact front
          · exact List.mem_append_left _ front
    exact List.mem_map.mpr ⟨_, declared, rfl⟩
  have found := OrderedMap.getElem?_foldl_insert_of_mem Prod.fst
    (fun port => (some (allBound (PortKeys.portList ports debug))).bind fun status =>
      status.hostPort port) member ∅
  refine ⟨?_, domains⟩
  rw [boundPorts, found, Option.bind_some, hostPort_allBound member]
  rfl

/-! ## Compared by the hash -/

/-- Two resolutions of one node with equal hashes. -/
structure HashedAlike (config other : NodeConfig) (spec later : ContainerSpec) : Prop where
  id : config.id = other.id
  containerName : spec.containerName = later.containerName
  domain : spec.domain = later.domain
  rawDomain : spec.rawDomain = later.rawDomain
  desired : desiredSpec config spec = desiredSpec other later
  ports : spec.portList = PortKeys.portList config.ports config.debug
  laterPorts : later.portList = PortKeys.portList other.ports other.debug
  aliases : spec.aliases = resolveAliases config spec.rawDomain
  laterAliases : later.aliases = resolveAliases other later.rawDomain

section Compare

variable {digest : DesiredSpec → String} {config other : NodeConfig} {spec later : ContainerSpec}

theorem resolveAliases_eq (config : NodeConfig) (rawDomain : String) :
    resolveAliases config rawDomain =
      rawDomain :: ((namedPorts config.ports).filterMap (·.name)).map (· ++ "." ++ rawDomain) := by
  rw [resolveAliases, namedPorts, List.filterMap_map, List.filterMap_filter]
  congr 3
  funext entry
  cases name : entry.2.name <;> simp [name]

/-- What Docker is asked for differs in the aliases and the branch's label alone. -/
theorem HashedAlike.runOpts_eq_iff (alike : HashedAlike config other spec later) (network : String)
    (sidecarIp : Option String) (debugWait : Bool) :
    runOpts digest config spec network sidecarIp debugWait =
        runOpts digest other later network sidecarIp debugWait ↔
      spec.aliases = later.aliases ∧ branchLabel config = branchLabel other := by
  have desired := alike.desired
  simp only [desiredSpec, DesiredSpec.mk.injEq] at desired
  obtain ⟨image, command, env, ports, binds, restart, stopSignal, stopGracePeriod, user, workingDir,
    labels, capAdd, capDrop, privileged, extraHosts, healthcheck, platform, build,
      source⟩ := desired
  have hashes : specHash digest config spec = specHash digest other later := by
    rw [specHash, specHash, alike.desired]
  rw [← stampedLabels_eq_iff labels source (specHash digest other later)]
  have overrides : debugWaitOverrides config spec debugWait =
      debugWaitOverrides other later debugWait := by
    rw [debugWaitOverrides, debugWaitOverrides, env, healthcheck]
  simp only [runOpts, RunOpts.mk.injEq, overrides, hashes, image, command, ports, binds, restart,
    stopSignal, stopGracePeriod, user, workingDir, capAdd, capDrop, privileged, extraHosts,
      platform,
    alike.id, alike.containerName, true_and, and_true]

theorem statusPort_eq (config : NodeConfig) : statusPort config.node =
    (((namedPorts config.ports).find? (·.primary)).map (·.port)).or
      (config.ports.toList.head?.map Prod.fst) := by
  rw [← find?_primary]
  rfl

/-- What the start of two nodes that agree writes down. -/
theorem SameUnhashed.nodeRoutes_eq (same : SameUnhashed config other) (domain : String)
    (hostPorts : OrderedMap String (Option UInt16)) :
    nodeRoutes config.node domain hostPorts = nodeRoutes other.node domain hostPorts := by
  have ports : ownRoutes domain hostPorts config.node = ownRoutes domain hostPorts other.node :=
    congrArg (List.flatMap (NamedPort.routes domain hostPorts)) same.named
  cases found : (ownRoutes domain hostPorts config.node).find? (·.domain == domain) with
  | none => rw [nodeRoutes_of_none found, nodeRoutes_of_none (ports ▸ found), ports]
  | some primary =>
      obtain ⟨port, listed, isPrimary, -⟩ := exists_primary_of_find? found
      obtain ⟨additional, wildcard⟩ := same.hosts ⟨port, listed, isPrimary⟩
      have hosts : hostRoutes config.node primary = hostRoutes other.node primary := by
        rw [hostRoutes, hostRoutes,
          show config.node.additionalHosts = other.node.additionalHosts from additional,
          show config.node.wildcardHosts = other.node.wildcardHosts from wildcard]
      rw [nodeRoutes_of_some found, nodeRoutes_of_some (ports ▸ found), ports, hosts,
        show config.node.additionalHosts = other.node.additionalHosts from additional]

theorem SameUnhashed.statusPort_eq (same : SameUnhashed config other) :
    statusPort config.node = statusPort other.node := by
  rw [Orchestrator.statusPort_eq, Orchestrator.statusPort_eq, ← same.named]
  cases found : (namedPorts config.ports).find? (·.primary) with
  | some port => rfl
  | none => exact same.first fun named member => List.find?_eq_none.mp found named member

/-- Nodes that agree in what the hash leaves out are started the same way. -/
theorem HashedAlike.sameStart (alike : HashedAlike config other spec later)
    (same : SameUnhashed config other) : SameStart digest config other spec later := by
  have routes : ∀ inspected,
      nodeRoutes config.node spec.domain (boundPorts spec.portList inspected) =
        nodeRoutes other.node later.domain (boundPorts later.portList inspected) := by
    intro inspected
    have ports : spec.portList = later.portList := (DesiredSpec.mk.inj alike.desired).2.2.2.1
    rw [same.nodeRoutes_eq, alike.domain, ports]
  refine ⟨fun network sidecarIp debugWait => ?_, fun debugWait inspected => ?_,
    fun debugWait inspected => ?_, fun debugWait inspected => same.statusPort_eq,
    fun debugWait inspected => ?_⟩
  · refine (alike.runOpts_eq_iff network sidecarIp debugWait).mpr ⟨?_, same.branch⟩
    rw [alike.aliases, alike.laterAliases, resolveAliases_eq, resolveAliases_eq, same.named,
      alike.rawDomain]
  · exact congrArg Prod.fst (routes inspected)
  · exact congrArg Prod.snd (routes inspected)
  · have task : (config.kind == .task) = (other.kind == .task) := by
      rw [Bool.eq_iff_iff, beq_iff_eq, beq_iff_eq]
      exact same.task
    exact task

theorem names_of_aliases {rawDomain : String}
    (same : resolveAliases config rawDomain = resolveAliases other rawDomain) :
    (namedPorts config.ports).filterMap (·.name) = (namedPorts other.ports).filterMap (·.name) := by
  rw [resolveAliases_eq, resolveAliases_eq] at same
  refine List.map_injective_iff.mpr (fun first second equal => ?_) (List.cons.inj same).2
  rwa [String.append_left_inj, String.append_left_inj] at equal

/-- Nodes whose starts write down the same routes have the same ports and hosts. -/
theorem HashedAlike.routed (alike : HashedAlike config other spec later)
    (same : SameStart digest config other spec later) :
    namedPorts config.ports = namedPorts other.ports ∧
      ((∃ named ∈ namedPorts config.ports, named.primary) →
        config.additionalHosts = other.additionalHosts ∧
          config.wildcardHosts = other.wildcardHosts) := by
  have aliases := ((alike.runOpts_eq_iff "" none false).mp (same.container "" none false)).1
  rw [alike.aliases, alike.laterAliases, alike.rawDomain] at aliases
  have names := congrArg List.length (names_of_aliases aliases)
  have ports : spec.portList = later.portList := (DesiredSpec.mk.inj alike.desired).2.2.2.1
  have published := published_allBound config.ports config.debug
  have alsoPublished := published_allBound other.ports other.debug
  rw [← alike.ports] at published
  rw [← alike.laterPorts, ← ports] at alsoPublished
  have routes := same.routes false (some (allBound spec.portList))
  have hosts := same.additionalHosts false (some (allBound spec.portList))
  change (nodeRoutes config.node spec.domain (boundPorts spec.portList _)).1 =
    (nodeRoutes other.node later.domain (boundPorts later.portList _)).1 at routes
  change (nodeRoutes config.node spec.domain (boundPorts spec.portList _)).2 =
    (nodeRoutes other.node later.domain (boundPorts later.portList _)).2 at hosts
  rw [← alike.domain, ← ports] at routes hosts
  have first := congrArg (List.find? (·.domain == spec.domain)) routes
  rw [find?_nodeRoutes, find?_nodeRoutes] at first
  cases found : (ownRoutes spec.domain (boundPorts spec.portList (some (allBound spec.portList)))
      config.node).find? (·.domain == spec.domain) with
  | none =>
      rw [found, eq_comm] at first
      rw [nodeRoutes_of_none found, nodeRoutes_of_none first] at routes
      refine ⟨Listing.eq_of_flatMap_eq (fun _ _ => containerPort_of_mem_routes) eq_of_routes_eq
        (fun _ => routes_ne_nil _ published) (fun _ => routes_ne_nil _ alsoPublished)
        (nodup_namedPorts _) (nodup_namedPorts _) routes, ?_⟩
      rintro ⟨named, listed, primary⟩
      obtain ⟨route, routed, own⟩ := exists_own_route spec.domain (published named listed).1 primary
      have none_ := List.find?_eq_none.mp found route (List.mem_flatMap.mpr ⟨named, listed, routed⟩)
      simp [own] at none_
  | some primary =>
      rw [found, eq_comm] at first
      rw [nodeRoutes_of_some found, nodeRoutes_of_some first] at routes hosts
      obtain ⟨named, rest⟩ := named_of_routes published alsoPublished (nodup_namedPorts _)
        (nodup_namedPorts _) names found first (fun host member => by
          rcases List.mem_append.mp member with mine | theirs
          · exact containerPort_of_mem_hostRoutes mine
          · exact containerPort_of_mem_hostRoutes theirs) routes
      exact ⟨named, fun _ => ⟨hosts, wildcardHosts_of_hostRoutes hosts rest⟩⟩

/-- Nodes that are started the same way agree in what the hash leaves out. -/
theorem HashedAlike.sameUnhashed (alike : HashedAlike config other spec later)
    (same : SameStart digest config other spec later) : SameUnhashed config other := by
  obtain ⟨named, hosts⟩ := alike.routed same
  refine ⟨named, hosts, fun plain => ?_, ?_,
    ((alike.runOpts_eq_iff "" none false).mp (same.container "" none false)).2⟩
  · have status : statusPort config.node = statusPort other.node := same.statusPort false none
    have none_ : (namedPorts config.ports).find? (·.primary) = none := List.find?_eq_none.mpr plain
    rw [statusPort_eq, statusPort_eq, ← named, none_] at status
    exact status
  · have task : (config.kind == .task) = (other.kind == .task) := same.terminating false none
    rw [← beq_iff_eq, ← beq_iff_eq (a := other.kind), task]

/-- Of two resolutions of a node with equal hashes, either start asks Docker for the same container
and writes down the same if and only if the nodes agree in what the hash leaves out. -/
theorem same_start_iff {files laterFiles : HostFiles} {graph laterGraph : Graph}
    (resolved : resolveNodeSpec files graph config = .ok spec)
    (again : resolveNodeSpec laterFiles laterGraph other = .ok later)
    (id : config.id = other.id) (workspace : graph.workspaceName = laterGraph.workspaceName)
    (injective : digest (desiredSpec config spec) = digest (desiredSpec other later) →
      desiredSpec config spec = desiredSpec other later)
    (hashed : specHash digest config spec = specHash digest other later) :
    SameStart digest config other spec later ↔ SameUnhashed config other := by
  obtain ⟨name, domain, rawDomain, ports, aliases⟩ := resolveNodeSpec_ok resolved
  obtain ⟨laterName, laterDomain, laterRawDomain, laterPorts, laterAliases⟩ :=
    resolveNodeSpec_ok again
  have alike : HashedAlike config other spec later :=
    { id
      containerName := by rw [name, laterName, id, workspace]
      domain := by rw [domain, laterDomain, id, workspace]
      rawDomain := by rw [rawDomain, laterRawDomain, id, workspace]
      desired := injective hashed
      ports
      laterPorts
      aliases
      laterAliases }
  exact ⟨alike.sameUnhashed, alike.sameStart⟩

end Compare

/-- A host with nothing but its directories. -/
def bareHost : HostFiles where
  workspace := "/shop"
  certsDir := "/var/fghj/certs"

def webGraph : Graph where
  workspaceName := "shop"
  nodes := []
  edges := []

/-- A published image at a domain of its own. -/
def webConfig : NodeConfig where
  id := "web.app"
  kind := .service
  image := some "nginx:1"
  localPath := some "app"
  ports := (∅ : OrderedMap String PortConfig).insert "80" { primary := true }

/-- What it resolves to. -/
def webSpec : ContainerSpec where
  containerName := "fghj-shop-default-web-app"
  domain := "web.app.shop.fghj.internal"
  rawDomain := "web.app.shop.fghj.raw.internal"
  portList := [("80", none)]
  aliases := ["web.app.shop.fghj.raw.internal"]
  image := "nginx:1"
  binds := ["/var/fghj/certs:/etc/fghj/certs:ro"]
  env := []

/-- The digest of what is hashed for it. -/
def webDigest (_ : DesiredSpec) : String :=
  "42e087251f2e4fba9af23734de0b73374627357ef2c916aa07ca1ebb98bef113"

/-- A commit in the repo that declares a published image changes nothing. -/
theorem same_start_after_commit :
    SameStart webDigest webConfig { webConfig with head := some "b5e1c02" } webSpec webSpec := by
  have resolved : resolveNodeSpec bareHost webGraph webConfig = .ok webSpec := by decide
  have again : resolveNodeSpec bareHost webGraph { webConfig with head := some "b5e1c02" } =
      .ok webSpec := by decide
  exact (same_start_iff resolved again rfl rfl (fun _ => rfl) rfl).mpr
    ⟨rfl, fun _ => ⟨rfl, rfl⟩, fun _ => rfl, Iff.rfl, rfl⟩

/-- An additional host written into the file later is not hashed, so it is never routed. -/
theorem later_host_not_applied :
    resolveNodeSpec bareHost webGraph webConfig = .ok webSpec ∧
      resolveNodeSpec bareHost webGraph { webConfig with additionalHosts := ["web.test"] } =
        .ok webSpec ∧
      ¬∃ digest, specHash digest webConfig webSpec =
          specHash digest { webConfig with additionalHosts := ["web.test"] } webSpec →
        SameStart digest webConfig { webConfig with additionalHosts := ["web.test"] }
          webSpec webSpec := by
  refine ⟨by decide, by decide, ?_⟩
  rintro ⟨digest, claim⟩
  have hosts := (claim rfl).additionalHosts false (some (allBound webSpec.portList))
  change (nodeRoutes webConfig.node webSpec.domain (boundPorts webSpec.portList _)).2 =
    (nodeRoutes { webConfig.node with additionalHosts := ["web.test"] } webSpec.domain
      (boundPorts webSpec.portList _)).2 at hosts
  exact absurd hosts (by decide)

end Orchestrator
end Fghj
