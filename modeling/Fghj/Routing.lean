import Fghj.Library.Listing
import Fghj.Library.Text
import Fghj.Naming
import Fghj.StartNode

/-!
# Routed names

The names the proxy answers for are read off the running containers of all workspaces: an exact
domain wins over a wildcard, and of several matches the first one of the scan is taken. The domains
that are exact are told apart by the resolver's check of them; nested wildcards are not.
-/

namespace Fghj

open Std Orchestrator

/-- Every wired workspace by its name. -/
abbrev States := OrderedMap String WorkspaceState

namespace Query

/-- The containers of a workspace, in the order of their ids. -/
def containersOf (state : WorkspaceState) : List ContainerInfo :=
  match state.env with
  | none => []
  | some run => OrderedMap.listed run.containers

/-- Docker last reported the container as running. -/
def isRunning (container : ContainerInfo) : Bool := container.observed.status == "running"

/-- Every running container of every workspace. -/
def runningContainers (states : States) : List ContainerInfo :=
  (OrderedMap.listed states).flatMap fun state => (containersOf state).filter isRunning

/-- The host port Docker publishes the route's container port on, or the recorded one. -/
def liveHostPort (container : ContainerInfo) (route : PortRoute) : UInt16 :=
  ((container.observed.ports[route.containerPort]?).join).getD route.hostPort

/-- The node a routed name belongs to, and where it listens on the host. -/
structure RouteTarget where
  workspace : String
  nodeId : String
  port : UInt16
  deriving DecidableEq

def targetOf (workspace : String) (container : ContainerInfo) (route : PortRoute) : RouteTarget :=
  { workspace, nodeId := container.nodeId, port := liveHostPort container route }

/-- The workspaces and their containers in the order a lookup goes through them. -/
abbrev Scan := List (String × List ContainerInfo)

def scan (states : States) : Scan := states.toList.map fun entry => (entry.1, containersOf entry.2)

/-- The first route of a running container that is accepted. -/
def findRoute (scan : Scan) (accepts : PortRoute → Bool) : Option RouteTarget :=
  scan.findSome? fun entry =>
    (entry.2.filter isRunning).findSome? fun container =>
      (container.desired.routes.find? accepts).map (targetOf entry.1 container)

/-- The host is the suffix or a name under it. -/
def matchesSuffix (host suffix : String) : Bool := host == suffix || host.endsWith ("." ++ suffix)

def isExact (host : String) (route : PortRoute) : Bool := !route.wildcard && route.domain == host

def isWild (host : String) (route : PortRoute) : Bool :=
  route.wildcard && matchesSuffix host route.domain

/-- The target of a host in a scan: exact domains first, then wildcards. -/
def resolveIn (scan : Scan) (host : String) : Option RouteTarget :=
  (findRoute scan (isExact host)).or (findRoute scan (isWild host))

def resolveRoute (states : States) (host : String) : Option RouteTarget :=
  resolveIn (scan states) host

/-- The domains of the running wildcard routes, for the DNS server. -/
def wildcardSuffixes (states : States) : List String :=
  Listing.sortDedup <| (runningContainers states).flatMap fun container =>
    (container.desired.routes.filter PortRoute.wildcard).map PortRoute.domain

/-- The additional hosts of the running containers, for the hosts file. -/
def extractHosts (states : States) : List String :=
  Listing.sortDedup <| (runningContainers states).flatMap fun container =>
    container.desired.additionalHosts

/-! ## Dotted suffixes -/

/-- The host is a name under the domain. -/
def Under (host domain : String) : Prop := '.' :: domain.toList <:+ host.toList

theorem matchesSuffix_iff (host suffix : String) :
    matchesSuffix host suffix ↔ host = suffix ∨ Under host suffix := by
  simp [matchesSuffix, Under, Text.endsWith_iff]

theorem Under.length_lt {host domain : String} (under : Under host domain) :
    domain.length < host.length := by
  have shorter := under.length_le
  simp only [List.length_cons, String.length_toList] at shorter
  omega

/-- Of two suffixes of a host, the longer one is a name under the shorter one. -/
theorem under_of_matches {host domain other : String} (first : matchesSuffix host domain)
    (second : matchesSuffix host other) (shorter : domain.length ≤ other.length) :
    domain = other ∨ Under other domain := by
  rw [matchesSuffix_iff] at first second
  have suffix : other.toList <:+ host.toList := by
    rcases second with rfl | under
    · exact List.suffix_rfl
    · exact (List.suffix_cons _ _).trans under
  rcases first with rfl | under
  · left
    apply String.toList_inj.mp
    exact (suffix.eq_of_length_le shorter).symm
  · by_cases same : domain.length = other.length
    · left
      apply String.toList_inj.mp
      have domainSuffix := (List.suffix_cons '.' domain.toList).trans under
      exact (List.suffix_of_suffix_length_le domainSuffix suffix shorter).eq_of_length same
    · right
      apply List.suffix_of_suffix_length_le under suffix
      simp only [List.length_cons, String.length_toList]
      omega

/-! ## The routes a scan offers -/

/-- The routes of a container with their targets. -/
def offers (workspace : String) (container : ContainerInfo) : List (PortRoute × RouteTarget) :=
  container.desired.routes.map fun route => (route, targetOf workspace container route)

/-- The routes of the running containers with their targets, in the order of the scan. -/
def served (scan : Scan) : List (PortRoute × RouteTarget) :=
  scan.flatMap fun entry => (entry.2.filter isRunning).flatMap (offers entry.1)

theorem findRoute_eq (scan : Scan) (accepts : PortRoute → Bool) :
    findRoute scan accepts = ((served scan).find? fun offer => accepts offer.1).map Prod.snd := by
  have found (workspace : String) (container : ContainerInfo) :
      ((offers workspace container).find? fun offer => accepts offer.1).map Prod.snd =
        (container.desired.routes.find? accepts).map (targetOf workspace container) := by
    rw [offers, List.find?_map, Option.map_map]
    rfl
  simp only [findRoute, served, List.find?_flatMap, List.map_findSome?, Function.comp_def, found]

/-- What a scan finds is the first exact offer, or else the first wildcard. -/
theorem resolveIn_eq (scan : Scan) (host : String) :
    resolveIn scan host =
      (((served scan).find? fun offer => isExact host offer.1).or
        ((served scan).find? fun offer => isWild host offer.1)).map Prod.snd := by
  rw [resolveIn, findRoute_eq, findRoute_eq]
  cases (served scan).find? fun offer => isExact host offer.1 <;> rfl

/-! ## Scans in another order -/

def withRoutes (container : ContainerInfo) (routes : List PortRoute) : ContainerInfo :=
  { container with desired := { container.desired with routes } }

/-- The same container with its routes in another order. -/
def Shuffled (container other : ContainerInfo) : Prop :=
  ∃ routes, container.desired.routes.Perm routes ∧ other = withRoutes container routes

/-- The same workspace with its containers, and their routes, in another order. -/
def Rearranged (entry other : String × List ContainerInfo) : Prop :=
  entry.1 = other.1 ∧ Listing.Reorders Shuffled entry.2 other.2

/-- The same workspaces, containers and routes, each of them in another order. -/
def Reordered : Scan → Scan → Prop := Listing.Reorders Rearranged

theorem shuffled_refl (container : ContainerInfo) : Shuffled container container :=
  ⟨container.desired.routes, List.Perm.refl _, rfl⟩

theorem rearranged_refl (entry : String × List ContainerInfo) : Rearranged entry entry :=
  ⟨rfl, entry.2, List.Perm.refl _, List.forall₂_same.mpr fun container _ => shuffled_refl container⟩

/-- A container that does not run offers nothing. -/
theorem flatMap_offers (workspace : String) (containers : List ContainerInfo) :
    (containers.filter isRunning).flatMap (offers workspace) =
      containers.flatMap fun container =>
        if isRunning container then offers workspace container else [] := by
  induction containers with
  | nil => rfl
  | cons container containers ih =>
      by_cases running : isRunning container
      · simp [running, ih]
      · simp [running, ih]

theorem Reordered.served_perm {scan other : Scan} (reordered : Reordered scan other) :
    (served scan).Perm (served other) := by
  apply reordered.flatMap_perm
  rintro ⟨workspace, containers⟩ ⟨_, others⟩ ⟨rfl, moved⟩
  rw [flatMap_offers, flatMap_offers]
  apply moved.flatMap_perm
  rintro container _ ⟨routes, permuted, rfl⟩
  have same : isRunning (withRoutes container routes) = isRunning container := rfl
  rw [same]
  split
  · exact permuted.map _
  · exact List.Perm.refl _

/-- Every offer can be put first. -/
theorem exists_reordered_front {scan : Scan} {offer : PortRoute × RouteTarget}
    (member : offer ∈ served scan) :
    ∃ other, Reordered scan other ∧ (served other).head? = some offer := by
  obtain ⟨⟨workspace, containers⟩, listed, inside⟩ := List.mem_flatMap.mp member
  obtain ⟨container, held, routed⟩ := List.mem_flatMap.mp inside
  obtain ⟨present, running⟩ := List.mem_filter.mp held
  obtain ⟨route, declared, rfl⟩ := List.mem_map.mp routed
  obtain ⟨before, after, routes_eq⟩ := List.append_of_mem declared
  have shuffled : Shuffled container (withRoutes container (route :: (before ++ after))) := by
    refine ⟨_, ?_, rfl⟩
    rw [routes_eq]
    exact List.perm_middle
  obtain ⟨others, moved⟩ := Listing.Reorders.front shuffled_refl present shuffled
  obtain ⟨entries, reordered⟩ := Listing.Reorders.front rearranged_refl listed
    (show Rearranged _ (workspace, _ :: others) from ⟨rfl, moved⟩)
  refine ⟨_, reordered, ?_⟩
  have same : isRunning (withRoutes container (route :: (before ++ after))) = true := running
  simp only [served, List.flatMap_cons, List.filter_cons_of_pos same]
  rfl

/-! ## Which route a name goes to -/

/-- No two routes of running containers have the same domain. -/
def DistinctDomains (states : States) : Prop :=
  ((served (scan states)).map fun offer => offer.1.domain).Nodup

/-- Every name goes to the route that claims it, or to the longest wildcard above it, in whatever
order the routes are scanned. -/
structure RoutesRight (states : States) : Prop where
  own : ∀ offer ∈ served (scan states), resolveRoute states offer.1.domain = some offer.2
  other : ∀ host, (∀ offer ∈ served (scan states), offer.1.domain ≠ host) →
    ∀ target, resolveRoute states host = some target →
      ∃ offer ∈ served (scan states), offer.2 = target ∧ offer.1.wildcard ∧
        Under host offer.1.domain ∧
        ∀ rival ∈ served (scan states), rival.1.wildcard → Under host rival.1.domain →
          rival.1.domain.length ≤ offer.1.domain.length
  order : ∀ reordered, Reordered (scan states) reordered →
    ∀ host, resolveIn reordered host = resolveRoute states host

/-- A running wildcard under another one leads to the same target. -/
def NestedAgree (states : States) : Prop :=
  ∀ offer ∈ served (scan states), ∀ rival ∈ served (scan states),
    offer.1.wildcard → rival.1.wildcard → Under offer.1.domain rival.1.domain → offer.2 = rival.2

variable {host : String}

section Distinct

variable {states : States}

theorem eq_of_domain_eq (distinct : DistinctDomains states) {offer rival : PortRoute × RouteTarget}
    (member : offer ∈ served (scan states)) (listed : rival ∈ served (scan states))
    (same : offer.1.domain = rival.1.domain) : offer = rival :=
  List.inj_on_of_nodup_map distinct member listed same

/-- All wildcards a host matches lead to the same target. -/
theorem wild_agree (distinct : DistinctDomains states) (nested : NestedAgree states)
    {offer rival : PortRoute × RouteTarget} (member : offer ∈ served (scan states))
    (listed : rival ∈ served (scan states)) (first : isWild host offer.1)
    (second : isWild host rival.1) : offer.2 = rival.2 := by
  simp only [isWild, Bool.and_eq_true] at first second
  rcases Nat.le_total offer.1.domain.length rival.1.domain.length with shorter | longer
  · rcases under_of_matches first.2 second.2 shorter with same | under
    · rw [eq_of_domain_eq distinct member listed same]
    · exact (nested rival listed offer member second.1 first.1 under).symm
  · rcases under_of_matches second.2 first.2 longer with same | under
    · rw [eq_of_domain_eq distinct listed member same]
    · exact nested offer member rival listed first.1 second.1 under

theorem exact_agree (distinct : DistinctDomains states) {offer rival : PortRoute × RouteTarget}
    (member : offer ∈ served (scan states)) (listed : rival ∈ served (scan states))
    (first : isExact host offer.1) (second : isExact host rival.1) : offer.2 = rival.2 := by
  simp only [isExact, Bool.and_eq_true, beq_iff_eq] at first second
  rw [eq_of_domain_eq distinct member listed (first.2.trans second.2.symm)]

theorem resolve_own (distinct : DistinctDomains states) (nested : NestedAgree states)
    {offer : PortRoute × RouteTarget} (member : offer ∈ served (scan states)) :
    resolveRoute states offer.1.domain = some offer.2 := by
  rw [resolveRoute, resolveIn_eq]
  cases found : (served (scan states)).find? fun rival => isExact offer.1.domain rival.1 with
  | some rival =>
      have accepted := List.find?_some found
      simp only [isExact, Bool.and_eq_true, beq_iff_eq] at accepted
      have same := eq_of_domain_eq distinct (List.mem_of_find?_eq_some found) member accepted.2
      simp [same]
  | none =>
      have wild : isWild offer.1.domain offer.1 := by
        have inexact := List.find?_eq_none.mp found offer member
        simpa [isExact, isWild, matchesSuffix] using inexact
      cases first : (served (scan states)).find? fun rival => isWild offer.1.domain rival.1 with
      | none => exact (List.find?_eq_none.mp first offer member wild).elim
      | some rival =>
          have accepted := List.find?_some first
          have target := wild_agree distinct nested (List.mem_of_find?_eq_some first) member
            accepted wild
          simp [target]

/-- A host that is no route's domain goes to a wildcard above it. -/
theorem resolve_other {scan : Scan} (unclaimed : ∀ offer ∈ served scan, offer.1.domain ≠ host)
    {target : RouteTarget} (resolved : resolveIn scan host = some target) :
    ∃ offer ∈ served scan, offer.2 = target ∧ isWild host offer.1 ∧
      Under host offer.1.domain := by
  have inexact : ((served scan).find? fun offer => isExact host offer.1) = none := by
    rw [List.find?_eq_none]
    intro offer member accepted
    simp only [isExact, Bool.and_eq_true, beq_iff_eq] at accepted
    exact unclaimed offer member accepted.2
  rw [resolveIn_eq, inexact, Option.none_or] at resolved
  obtain ⟨offer, first, rfl⟩ := Option.map_eq_some_iff.mp resolved
  have member := List.mem_of_find?_eq_some first
  have wild := List.find?_some first
  refine ⟨offer, member, rfl, wild, ?_⟩
  simp only [isWild, Bool.and_eq_true] at wild
  rcases (matchesSuffix_iff _ _).mp wild.2 with same | under
  · exact (unclaimed offer member same.symm).elim
  · exact under

/-- Among the wildcards above a host there is one with the longest domain. -/
theorem exists_longest {offer : PortRoute × RouteTarget} (member : offer ∈ served (scan states))
    (wild : offer.1.wildcard) (under : Under host offer.1.domain) :
    ∃ longest ∈ served (scan states), longest.1.wildcard ∧ Under host longest.1.domain ∧
      ∀ rival ∈ served (scan states), rival.1.wildcard → Under host rival.1.domain →
        rival.1.domain.length ≤ longest.1.domain.length := by
  induction room : host.length - offer.1.domain.length using Nat.strong_induction_on
    generalizing offer with
  | _ room ih =>
      by_cases most : ∀ rival ∈ served (scan states), rival.1.wildcard →
          Under host rival.1.domain → rival.1.domain.length ≤ offer.1.domain.length
      · exact ⟨offer, member, wild, under, most⟩
      · push Not at most
        obtain ⟨rival, listed, rivalWild, above, longer⟩ := most
        have below := above.length_lt
        exact ih (host.length - rival.1.domain.length) (by omega) listed rivalWild above rfl

theorem resolve_order (distinct : DistinctDomains states) (nested : NestedAgree states)
    {reordered : Scan} (moved : Reordered (scan states) reordered) (host : String) :
    resolveIn reordered host = resolveRoute states host := by
  have permuted := moved.served_perm
  rw [resolveRoute, resolveIn, resolveIn, findRoute_eq, findRoute_eq, findRoute_eq, findRoute_eq]
  rw [Listing.find?_perm permuted fun offer member rival listed first second =>
      exact_agree distinct member listed first second,
    Listing.find?_perm permuted fun offer member rival listed first second =>
      wild_agree distinct nested member listed first second]

/-- Distinct domains route right exactly when nested wildcards lead to one target. -/
theorem routes_right_iff (states : States) (distinct : DistinctDomains states) :
    RoutesRight states ↔ NestedAgree states := by
  constructor
  · intro right offer member rival listed wild rivalWild under
    obtain ⟨other, moved, first⟩ := exists_reordered_front listed
    have inexact : ((served other).find? fun entry => isExact offer.1.domain entry.1) = none := by
      rw [List.find?_eq_none]
      intro entry present accepted
      simp only [isExact, Bool.and_eq_true, Bool.not_eq_true', beq_iff_eq] at accepted
      have same := eq_of_domain_eq distinct (moved.served_perm.mem_iff.mpr present) member
        accepted.2
      rw [same, wild] at accepted
      cases accepted.1
    have accepted : isWild offer.1.domain rival.1 := by
      rw [isWild, rivalWild, Bool.true_and]
      exact (matchesSuffix_iff _ _).mpr (.inr under)
    have astray : resolveIn other offer.1.domain = some rival.2 := by
      obtain ⟨rest, served_eq⟩ := List.head?_eq_some_iff.mp first
      rw [resolveIn_eq, inexact, served_eq]
      simp [accepted]
    rw [right.order other moved, right.own offer member] at astray
    exact Option.some.inj astray
  · intro nested
    refine ⟨fun offer member => resolve_own distinct nested member, ?_,
      fun other moved => resolve_order distinct nested moved⟩
    intro host unclaimed target resolved
    obtain ⟨offer, member, rfl, wild, under⟩ := resolve_other unclaimed resolved
    have wildcard : offer.1.wildcard := by
      simp only [isWild, Bool.and_eq_true] at wild
      exact wild.1
    obtain ⟨longest, listed, longestWild, above, most⟩ := exists_longest member wildcard under
    refine ⟨longest, listed, ?_, longestWild, above, most⟩
    have accepted : isWild host longest.1 := by
      rw [isWild, longestWild, Bool.true_and]
      exact (matchesSuffix_iff _ _).mpr (.inr above)
    exact wild_agree distinct nested listed member accepted wild

end Distinct

instance (host domain : String) : Decidable (Under host domain) :=
  inferInstanceAs (Decidable (_ <:+ _))

instance (states : States) : Decidable (DistinctDomains states) :=
  inferInstanceAs (Decidable (List.Nodup _))

instance (states : States) : Decidable (NestedAgree states) :=
  inferInstanceAs (Decidable (∀ offer ∈ served (scan states), ∀ rival ∈ served (scan states),
    offer.1.wildcard → rival.1.wildcard → Under offer.1.domain rival.1.domain → offer.2 = rival.2))

/-- A shop front that answers for all its subdomains. -/
def webNode (ports : List (String × PortConfig)) : Node where
  id := "web.shop"
  kind := .service
  ports := ExtTreeMap.ofList ports
  additionalHosts := ["shop.local"]

/-- The workspace in which the shop front runs, its ports bound to these host ports. -/
def webStates (ports : List (String × PortConfig)) (bound : List (String × Option UInt16)) :
    States :=
  let hostPorts : OrderedMap String (Option UInt16) := ExtTreeMap.ofList bound
  let routes := nodeRoutes (webNode ports) (deriveDomain "web.shop" "Shop" .http) hostPorts
  let web : ContainerInfo :=
    { nodeId := "web.shop"
      desired := { running := true, routes := routes.1, additionalHosts := routes.2 }
      observed := { status := "running", ports := hostPorts } }
  let env : EnvState := { containers := ExtTreeMap.ofList [("web.shop", web)] }
  (∅ : States).insert "Shop" { env := some env }

/-- Pages and interface on one port. -/
def sharedWeb : States :=
  webStates [("3000", { primary := true, name := some "api", wildcard := true })]
    [("3000", some 40001)]

/-- Pages and interface on a port each. -/
def splitWeb : States :=
  webStates
    [("3000", { primary := true, wildcard := true }),
      ("8080", { name := some "api", wildcard := true })]
    [("3000", some 40001), ("8080", some 40002)]

theorem routes_right_sharedWeb : DistinctDomains sharedWeb ∧ RoutesRight sharedWeb := by
  have distinct : DistinctDomains sharedWeb := by decide
  have nested : NestedAgree sharedWeb := by decide
  exact ⟨distinct, (routes_right_iff sharedWeb distinct).mpr nested⟩

/-- The interface's own name goes to the port of the pages. -/
theorem interface_goes_astray : ¬∀ states, DistinctDomains states → RoutesRight states := by
  intro claim
  have own := (claim splitWeb (by decide)).own
  have listed : ∃ offer ∈ served (scan splitWeb),
      resolveRoute splitWeb offer.1.domain ≠ some offer.2 := by decide +kernel
  obtain ⟨offer, member, astray⟩ := listed
  exact astray (own offer member)

/-! ## Published names -/

/-- The routes and additional hosts of the container are those a start of a node wrote. -/
def Built (container : ContainerInfo) : Prop :=
  ∃ (node : Node) (workspaceName : String) (hostPorts : OrderedMap String (Option UInt16)),
    (container.desired.routes, container.desired.additionalHosts) =
      nodeRoutes node (deriveDomain node.id workspaceName .http) hostPorts

def AllBuilt (states : States) : Prop :=
  ∀ state ∈ OrderedMap.listed states, ∀ container ∈ containersOf state, Built container

theorem inZone_of_suffix {domain : String} (zone : ".fghj.internal".toList <:+ domain.toList) :
    Dns.inZone domain := by
  have ends := (Text.endsWith_iff domain ".fghj.internal").mpr zone
  simp [Dns.inZone, ends]

theorem deriveDomain_suffix (nodeId workspaceName : String) :
    ".fghj.internal".toList <:+ (deriveDomain nodeId workspaceName .http).toList := by
  refine ⟨(nodeId ++ "." ++ sanitizeLabel workspaceName).toList, ?_⟩
  rw [← String.toList_append, deriveDomain, DomainZone.suffix]
  simp

/-- The domains of a node's ports are in fghj's own zone. -/
theorem inZone_of_mem_portRoutes {nodeId workspaceName : String}
    {hostPorts : OrderedMap String (Option UInt16)} {port : String} {config : PortConfig}
    {route : PortRoute}
    (member : route ∈ portRoutes (deriveDomain nodeId workspaceName .http) hostPorts
      port config) :
    Dns.inZone route.domain := by
  have zone := deriveDomain_suffix nodeId workspaceName
  have named (name : String) :
      Dns.inZone (name ++ "." ++ deriveDomain nodeId workspaceName .http) := by
    apply inZone_of_suffix
    rw [String.toList_append]
    exact zone.trans (List.suffix_append _ _)
  unfold portRoutes at member
  split at member
  · cases member
  · rcases List.mem_append.mp member with primary | byName
    · split at primary
      · obtain rfl := List.mem_singleton.mp primary
        exact inZone_of_suffix zone
      · cases primary
    · split at byName
      · obtain rfl := List.mem_singleton.mp byName
        exact named _
      · cases byName

section NodeRoutes

variable {node : Node} {workspaceName : String} {hostPorts : OrderedMap String (Option UInt16)}

/-- The routes of the ports, and those of the additional hosts if there is a primary one. -/
theorem nodeRoutes_cases (node : Node) (domain : String)
    (hostPorts : OrderedMap String (Option UInt16)) :
    let ports := node.ports.toList.flatMap fun entry =>
      portRoutes domain hostPorts entry.1 entry.2
    nodeRoutes node domain hostPorts = (ports, []) ∨ ∃ primary,
      nodeRoutes node domain hostPorts =
        (ports ++ hostRoutes node primary, node.additionalHosts) := by
  simp only [nodeRoutes]
  split
  · exact .inl rfl
  · exact .inr ⟨_, rfl⟩

/-- An exact route of a node is in fghj's own zone or one of its additional hosts. -/
theorem nodeRoutes_exact {routes : List PortRoute} {hosts : List String}
    (built : (routes, hosts) = nodeRoutes node (deriveDomain node.id workspaceName .http) hostPorts)
    {route : PortRoute} (member : route ∈ routes) (narrow : route.wildcard = false) :
    Dns.inZone route.domain ∨ route.domain ∈ hosts := by
  have ports : ∀ route ∈ node.ports.toList.flatMap (fun entry =>
      portRoutes (deriveDomain node.id workspaceName .http) hostPorts entry.1 entry.2),
      Dns.inZone route.domain := by
    intro route listed
    obtain ⟨entry, -, inside⟩ := List.mem_flatMap.mp listed
    exact inZone_of_mem_portRoutes inside
  rcases nodeRoutes_cases node (deriveDomain node.id workspaceName .http) hostPorts with
    bare | ⟨primary, full⟩
  · cases built.trans bare
    exact .inl (ports route member)
  · cases built.trans full
    rcases List.mem_append.mp member with ofPort | ofHost
    · exact .inl (ports route ofPort)
    · rcases List.mem_append.mp ofHost with additional | wild
      · obtain ⟨host, listed, rfl⟩ := List.mem_map.mp additional
        exact .inr listed
      · obtain ⟨host, -, rfl⟩ := List.mem_map.mp wild
        cases narrow

/-- Every additional host that is written down has an exact route. -/
theorem nodeRoutes_additional {routes : List PortRoute} {hosts : List String}
    (built : (routes, hosts) = nodeRoutes node (deriveDomain node.id workspaceName .http) hostPorts)
    (member : host ∈ hosts) : ∃ route ∈ routes, isExact host route := by
  rcases nodeRoutes_cases node (deriveDomain node.id workspaceName .http) hostPorts with
    bare | ⟨primary, full⟩
  · cases built.trans bare
    cases member
  · cases built.trans full
    refine ⟨_, List.mem_append_right _ (List.mem_append_left _ (List.mem_map_of_mem member)), ?_⟩
    simp [isExact]

end NodeRoutes

/-- What is served are the routes of the running containers. -/
theorem exists_served_iff (states : States) (accepts : PortRoute → Prop) :
    (∃ offer ∈ served (scan states), accepts offer.1) ↔
      ∃ container ∈ runningContainers states, ∃ route ∈ container.desired.routes,
        accepts route := by
  simp only [served, scan, offers, runningContainers, OrderedMap.listed, List.mem_flatMap,
    List.mem_map]
  constructor
  · rintro ⟨_, ⟨_, ⟨entry, listed, rfl⟩, container, running, route, member, rfl⟩, accepted⟩
    exact ⟨container, ⟨entry.2, ⟨entry, listed, rfl⟩, running⟩, route, member, accepted⟩
  · rintro ⟨container, ⟨_, ⟨entry, listed, rfl⟩, running⟩, route, member, accepted⟩
    exact ⟨_, ⟨_, ⟨entry, listed, rfl⟩, container, running, route, member, rfl⟩, accepted⟩

/-- A host is routed exactly when a route of a running container matches it. -/
theorem resolveRoute_isSome_iff (states : States) (host : String) :
    (resolveRoute states host).isSome ↔
      ∃ container ∈ runningContainers states, ∃ route ∈ container.desired.routes,
        isExact host route ∨ isWild host route := by
  rw [← exists_served_iff states fun route => isExact host route ∨ isWild host route,
    resolveRoute, resolveIn_eq, Option.isSome_map, Option.isSome_or, Bool.or_eq_true,
    List.find?_isSome, List.find?_isSome]
  constructor
  · rintro (⟨offer, member, accepted⟩ | ⟨offer, member, accepted⟩)
    · exact ⟨offer, member, .inl accepted⟩
    · exact ⟨offer, member, .inr accepted⟩
  · rintro ⟨offer, member, accepted | accepted⟩
    · exact .inl ⟨offer, member, accepted⟩
    · exact .inr ⟨offer, member, accepted⟩

theorem mem_wildcardSuffixes (states : States) (suffix : String) :
    suffix ∈ wildcardSuffixes states ↔ ∃ container ∈ runningContainers states,
      ∃ route ∈ container.desired.routes, route.wildcard ∧ route.domain = suffix := by
  simp [wildcardSuffixes, and_assoc]

theorem mem_extractHosts (states : States) (host : String) :
    host ∈ extractHosts states ↔ ∃ container ∈ runningContainers states,
      host ∈ container.desired.additionalHosts := by
  simp [extractHosts]

theorem AllBuilt.running {states : States} (built : AllBuilt states) {container : ContainerInfo}
    (member : container ∈ runningContainers states) : Built container := by
  obtain ⟨state, listed, inside⟩ := List.mem_flatMap.mp member
  exact built state listed container (List.mem_of_mem_filter inside)

/-- Every routed name is resolved on the host, and every name published there is routed. -/
theorem published_iff_routed (states : States) (built : AllBuilt states) :
    (∀ host, (resolveRoute states host).isSome →
      Dns.inZone host ∨ (∃ suffix ∈ wildcardSuffixes states, matchesSuffix host suffix) ∨
        host ∈ extractHosts states) ∧
    (∀ host ∈ extractHosts states, (resolveRoute states host).isSome) ∧
    ∀ suffix ∈ wildcardSuffixes states, (resolveRoute states suffix).isSome := by
  refine ⟨fun host resolved => ?_, fun host published => ?_, fun suffix published => ?_⟩
  · obtain ⟨container, running, route, member, narrow | wild⟩ :=
      (resolveRoute_isSome_iff states host).mp resolved
    · simp only [isExact, Bool.and_eq_true, Bool.not_eq_true', beq_iff_eq] at narrow
      obtain ⟨node, workspaceName, hostPorts, made⟩ := built.running running
      rcases nodeRoutes_exact made member narrow.1 with zone | additional
      · exact .inl (narrow.2 ▸ zone)
      · refine .inr (.inr ((mem_extractHosts states host).mpr ⟨container, running, ?_⟩))
        exact narrow.2 ▸ additional
    · simp only [isWild, Bool.and_eq_true] at wild
      refine .inr (.inl ⟨route.domain, ?_, wild.2⟩)
      exact (mem_wildcardSuffixes states _).mpr ⟨container, running, route, member, wild.1, rfl⟩
  · obtain ⟨container, running, additional⟩ := (mem_extractHosts states host).mp published
    obtain ⟨node, workspaceName, hostPorts, made⟩ := built.running running
    obtain ⟨route, member, narrow⟩ := nodeRoutes_additional made additional
    exact (resolveRoute_isSome_iff states host).mpr
      ⟨container, running, route, member, .inl narrow⟩
  · obtain ⟨container, running, route, member, wild, rfl⟩ :=
      (mem_wildcardSuffixes states suffix).mp published
    refine (resolveRoute_isSome_iff states _).mpr ⟨container, running, route, member, .inr ?_⟩
    simp [isWild, wild, matchesSuffix]

theorem allBuilt_webStates (ports : List (String × PortConfig))
    (bound : List (String × Option UInt16)) : AllBuilt (webStates ports bound) := by
  intro state listed container inside
  obtain ⟨key, found⟩ := (OrderedMap.mem_listed _ _).mp listed
  simp only [webStates, ExtTreeMap.getElem?_insert] at found
  split at found
  · cases found
    obtain ⟨id, held⟩ := (OrderedMap.mem_listed _ _).mp inside
    simp only [ExtTreeMap.ofList_singleton, ExtTreeMap.getElem?_insert] at held
    split at held
    · cases held
      exact ⟨webNode ports, "Shop", ExtTreeMap.ofList bound, rfl⟩
    · simp at held
  · simp at found

theorem published_splitWeb :
    AllBuilt splitWeb ∧ "shop.local" ∈ extractHosts splitWeb ∧
      (resolveRoute splitWeb "shop.local").isSome := by
  have built : AllBuilt splitWeb := allBuilt_webStates _ _
  have listed : "shop.local" ∈ extractHosts splitWeb := by decide
  exact ⟨built, listed, (published_iff_routed splitWeb built).2.1 _ listed⟩

end Query
end Fghj
