import Fghj.PortKeys
import Fghj.Routing
import Fghj.Uniqueness

/-!
# Claims and routes

Before anything runs, the resolver counts who claims a name; a start builds its routes from the same
ports and hosts, as far as Docker published them. Every route uses up a claim of its own node, so
names that are claimed once are routed once, and a name that two nodes record is claimed by both.
-/

namespace Fghj

open Std Orchestrator Resolver Query

namespace RouteClaims

/-- A stub has nothing to start. -/
def startable (node : Node) : Bool := node.downloaded || node.kind != .service

/-- Some start of the node wrote the record. -/
def Recorded (workspaceName : String) (node : Node) (info : ContainerInfo) : Prop :=
  ∃ specHash spec answers debugWait, spec.domain = deriveDomain node.id workspaceName .http ∧
    startNode specHash (.ok spec) answers node debugWait = .ok info

/-- The routes of the nodes that were started. -/
def routesOf (info : Node → Option ContainerInfo) (nodes : List Node) : List PortRoute :=
  (nodes.filter startable).flatMap fun node =>
    ((info node).map fun record => record.desired.routes).getD []

/-- The workspace's containers, as a lookup goes through them. -/
def scanOf (workspaceName : String) (info : Node → Option ContainerInfo) (nodes : List Node) :
    Scan :=
  [(workspaceName, (nodes.filter startable).filterMap info)]

/-- The text holds the part. -/
def Mentions (text part : String) : Prop := part.toList <:+: text.toList

/-! ## The claims of one node -/

section Node

variable {workspaceName : String} {node : Node}

theorem Recorded.routes {info : ContainerInfo} (recorded : Recorded workspaceName node info) :
    ∃ hostPorts, info.desired.routes =
      (nodeRoutes node (deriveDomain node.id workspaceName .http) hostPorts).1 := by
  obtain ⟨specHash, spec, answers, debugWait, domain, started⟩ := recorded
  obtain ⟨resolved, inspected, same, -, rfl, -⟩ := startNode_ok started
  cases same
  rw [← domain]
  exact ⟨_, rfl⟩

/-- The names of a port that has one. -/
def portNames (domain : String) (config : PortConfig) : List String :=
  (config.name.map fun name => name ++ "." ++ domain).toList

theorem portRoutes_sublist (domain : String) (hostPorts : OrderedMap String (Option UInt16))
    (port : String) (config : PortConfig) :
    ((portRoutes domain hostPorts port config).map PortRoute.domain).Sublist
      ((if config.primary then [domain] else []) ++ portNames domain config) := by
  unfold portRoutes
  split
  · exact List.nil_sublist _
  · rw [List.map_append]
    refine List.Sublist.append ?_ ?_
    · split <;> exact List.Sublist.refl _
    · cases named : config.name with
      | none => exact List.nil_sublist _
      | some name =>
          rw [portNames, named]
          exact List.Sublist.refl _

/-- What a node's routes draw on: its own domain for each primary port, its named ports and its
additional hosts. -/
def sources (domain : String) (node : Node) : List String :=
  List.replicate (node.ports.toList.filter fun entry => entry.2.primary).length domain ++
    node.ports.toList.flatMap (fun entry => portNames domain entry.2) ++
    (node.additionalHosts ++ node.wildcardHosts)

theorem flatMap_primary (domain : String) (ports : List (String × PortConfig)) :
    ports.flatMap (fun entry => if entry.2.primary then [domain] else []) =
      List.replicate (ports.filter fun entry => entry.2.primary).length domain := by
  induction ports with
  | nil => rfl
  | cons entry ports ih =>
      by_cases primary : entry.2.primary
      · simp [primary, ih, List.replicate_succ]
      · simp [primary, ih]

theorem nodeRoutes_subperm (domain : String) (hostPorts : OrderedMap String (Option UInt16)) :
    ((nodeRoutes node domain hostPorts).1.map PortRoute.domain).Subperm (sources domain node) := by
  have ports : ((node.ports.toList.flatMap fun entry =>
      portRoutes domain hostPorts entry.1 entry.2).map PortRoute.domain).Subperm
        (List.replicate (node.ports.toList.filter fun entry => entry.2.primary).length domain ++
          node.ports.toList.flatMap fun entry => portNames domain entry.2) := by
    rw [List.map_flatMap, ← flatMap_primary]
    refine (List.Sublist.flatMap_right _ fun entry _ =>
      portRoutes_sublist domain hostPorts entry.1 entry.2).subperm.trans ?_
    exact (List.flatMap_append_perm _ _ _).symm.subperm
  rcases nodeRoutes_cases node domain hostPorts with bare | ⟨primary, full⟩
  · rw [bare]
    exact ports.trans (List.sublist_append_left _ _).subperm
  · rw [full, List.map_append]
    have hosts : (hostRoutes node primary).map PortRoute.domain =
        node.additionalHosts ++ node.wildcardHosts := by
      simp [hostRoutes, Function.comp_def]
    rw [hosts]
    exact ports.append (List.Subperm.refl _)

theorem names_eq (started : startable node) :
    (nameClaims workspaceName node).map Prod.fst =
      deriveDomain node.id workspaceName .http ::
        (node.ports.toList.flatMap (fun entry =>
          portNames (deriveDomain node.id workspaceName .http) entry.2) ++
            (node.additionalHosts ++ node.wildcardHosts)) := by
  have pulled : ¬(!node.downloaded && node.kind == .service) = true := by
    simp only [startable, Bool.or_eq_true, bne_iff_ne] at started
    simp only [Bool.and_eq_true, Bool.not_eq_true', beq_iff_eq, not_and]
    intro absent
    exact started.resolve_left (by simp [absent])
  have named : ∀ ports : List (String × PortConfig),
      (ports.filterMap fun entry => entry.2.name.map fun name =>
        (name ++ "." ++ deriveDomain node.id workspaceName .http, node.id,
          NameClaim.namedPort)).map Prod.fst =
      ports.flatMap fun entry =>
        portNames (deriveDomain node.id workspaceName .http) entry.2 := by
    intro ports
    induction ports with
    | nil => rfl
    | cons entry ports ih =>
        rw [List.flatMap_cons, ← ih, portNames]
        cases name : entry.2.name <;> simp [name]
  rw [nameClaims, if_neg pulled]
  simp only [List.map_cons, List.map_append, named, List.map_map, Function.comp_def, List.map_id',
    List.cons_append, List.append_assoc]

/-- With one primary port at most, no claim is used up twice. -/
theorem Recorded.subperm {info : ContainerInfo} (recorded : Recorded workspaceName node info)
    (started : startable node)
    (single : (node.ports.toList.filter fun entry => entry.2.primary).length ≤ 1) :
    (info.desired.routes.map PortRoute.domain).Subperm
      ((nameClaims workspaceName node).map Prod.fst) := by
  obtain ⟨hostPorts, routes⟩ := recorded.routes
  rw [routes, names_eq started]
  refine (nodeRoutes_subperm _ hostPorts).trans ?_
  rw [sources, List.append_assoc]
  exact ((List.replicate_sublist_replicate _).mpr single).subperm.append (List.Subperm.refl _)

theorem owner_of_claim {name id : String} {claim : NameClaim}
    (listed : (name, id, claim) ∈ nameClaims workspaceName node) : id = node.id := by
  unfold nameClaims at listed
  split at listed
  · cases listed
  · simp only [List.mem_append, List.mem_cons, List.mem_filterMap, List.mem_map] at listed
    rcases listed with ((same | ⟨entry, -, named⟩) | ⟨host, -, same⟩) | ⟨suffix, -, same⟩
    · cases same
      rfl
    · obtain ⟨name, -, same⟩ := Option.map_eq_some_iff.mp named
      cases same
      rfl
    · cases same
      rfl
    · cases same
      rfl

/-- A recorded name is one the node claims. -/
theorem Recorded.claimed {info : ContainerInfo} (recorded : Recorded workspaceName node info)
    (started : startable node) {route : PortRoute} (member : route ∈ info.desired.routes) :
    ∃ claim, (route.domain, node.id, claim) ∈ nameClaims workspaceName node := by
  obtain ⟨hostPorts, routes⟩ := recorded.routes
  have source : route.domain ∈ sources (deriveDomain node.id workspaceName .http) node :=
    (nodeRoutes_subperm _ hostPorts).subset (List.mem_map_of_mem (routes ▸ member))
  have name : route.domain ∈ (nameClaims workspaceName node).map Prod.fst := by
    rw [names_eq started]
    rw [sources, List.append_assoc, List.mem_append] at source
    rcases source with own | other
    · rw [List.eq_of_mem_replicate own]
      exact List.mem_cons_self
    · exact List.mem_cons_of_mem _ other
  obtain ⟨⟨domain, id, claim⟩, listed, same⟩ := List.mem_map.mp name
  cases same
  exact ⟨claim, owner_of_claim listed ▸ listed⟩

end Node

/-! ## The claims of all nodes -/

theorem Mentions.front {text part : String} (held : Mentions text part) (after : String) :
    Mentions (text ++ after) part := by
  rw [Mentions, String.toList_append]
  exact held.trans (List.prefix_append _ _).isInfix

theorem Mentions.back {text part : String} (held : Mentions text part) (before : String) :
    Mentions (before ++ text) part := by
  rw [Mentions, String.toList_append]
  exact held.trans (List.suffix_append _ _).isInfix

section Nodes

variable {workspaceName : String} {nodes : List Node} {info : Node → Option ContainerInfo}

/-- Nothing blocks a start because of ports or names. -/
structure Passes (workspaceName : String) (nodes : List Node) : Prop where
  ports : ∀ node ∈ nodes, ∀ warning ∈ PortKeys.checkPortConfig node.id node.ports,
    warning.isBlocking = false
  names : ∀ warning ∈ checkDerivedNameCollisions workspaceName nodes, warning.isBlocking = false

theorem checkDomains_isBlocking {warning : Warning}
    (member : warning ∈ checkDomains workspaceName nodes) : warning.isBlocking = true := by
  obtain ⟨entry, -, rfl⟩ := List.mem_map.mp member
  rfl

theorem Passes.nodup (passes : Passes workspaceName nodes) :
    ((nodes.flatMap (nameClaims workspaceName)).map Prod.fst).Nodup := by
  apply nodup_names_of_checkDomains
  rw [List.eq_nil_iff_forall_not_mem]
  intro warning member
  have calm := passes.names warning (List.mem_append_left _ member)
  rw [checkDomains_isBlocking member] at calm
  cases calm

/-- All recorded routes together use up no claim twice. -/
theorem routes_subperm (recorded : ∀ node ∈ nodes, startable node → ∀ record ∈ info node,
      Recorded workspaceName node record)
    (ports : ∀ node ∈ nodes, ∀ warning ∈ PortKeys.checkPortConfig node.id node.ports,
      warning.isBlocking = false) :
    ((routesOf info nodes).map PortRoute.domain).Subperm
      ((nodes.flatMap (nameClaims workspaceName)).map Prod.fst) := by
  rw [routesOf, List.map_flatMap, List.map_flatMap]
  refine List.Subperm.trans (Listing.subperm_flatMap fun node listed => ?_)
    (List.filter_sublist.flatMap _).subperm
  obtain ⟨member, started⟩ := List.mem_filter.mp listed
  cases held : info node with
  | none => exact List.nil_subperm
  | some record =>
      exact (recorded node member started record held).subperm started
        ((PortKeys.accepted_iff _ _).mp (ports node member))

theorem served_scanOf : ((served (scanOf workspaceName info nodes)).map
    fun offer => offer.1.domain).Sublist ((routesOf info nodes).map PortRoute.domain) := by
  have whole : routesOf info nodes =
      ((nodes.filter startable).filterMap info).flatMap fun record => record.desired.routes := by
    rw [routesOf]
    induction nodes.filter startable with
    | nil => rfl
    | cons node rest ih =>
        cases held : info node with
        | none => simp [held, ih]
        | some record => simp [held, ih]
  rw [whole, scanOf, served, List.flatMap_singleton, List.map_flatMap, List.map_flatMap]
  simp only [offers, List.map_map, Function.comp_def]
  exact List.filter_sublist.flatMap _

/-- A host has one exact route at most among routes of distinct domains. -/
theorem exact_le_one {scan : Scan}
    (distinct : ((served scan).map fun offer => offer.1.domain).Nodup)
    (host : String) : ((served scan).filter fun offer => isExact host offer.1).length ≤ 1 := by
  have matching := (List.filter_sublist (p := fun offer => isExact host offer.1)
    (l := served scan)).map fun offer => offer.1.domain
  have same : ((served scan).filter fun offer => isExact host offer.1).map
      (fun offer => offer.1.domain) = List.replicate
        ((served scan).filter fun offer => isExact host offer.1).length host := by
    rw [List.eq_replicate_iff]
    refine ⟨List.length_map _, fun domain member => ?_⟩
    obtain ⟨offer, listed, rfl⟩ := List.mem_map.mp member
    have accepted := List.of_mem_filter listed
    simp only [isExact, Bool.and_eq_true, beq_iff_eq] at accepted
    exact accepted.2
  have once := distinct.sublist matching
  rwa [same, List.nodup_replicate] at once

/-- A name that two nodes claim is named by a warning, with both of them. -/
theorem warning_of_claims {node other : Node} (member : node ∈ nodes) (listed : other ∈ nodes)
    (apart : node.id ≠ other.id) {name : String} {claim rival : NameClaim}
    (own : (name, node.id, claim) ∈ nameClaims workspaceName node)
    (others : (name, other.id, rival) ∈ nameClaims workspaceName other) :
    ∃ warning ∈ checkDerivedNameCollisions workspaceName nodes, warning.isBlocking = true ∧
      Mentions warning.message ("'" ++ name ++ "'") ∧
      Mentions warning.message (node.id ++ " (" ++ claim.describe ++ ")") ∧
      Mentions warning.message (other.id ++ " (" ++ rival.describe ++ ")") := by
  have held := grouped_get (nodes.flatMap (nameClaims workspaceName)) name
  have first : (node.id, claim) ∈
      ((grouped (nodes.flatMap (nameClaims workspaceName)))[name]?).getD [] := by
    rw [held]
    exact List.mem_map.mpr ⟨_, List.mem_filter.mpr
      ⟨List.mem_flatMap.mpr ⟨node, member, own⟩, decide_eq_true rfl⟩, rfl⟩
  have second : (other.id, rival) ∈
      ((grouped (nodes.flatMap (nameClaims workspaceName)))[name]?).getD [] := by
    rw [held]
    exact List.mem_map.mpr ⟨_, List.mem_filter.mpr
      ⟨List.mem_flatMap.mpr ⟨other, listed, others⟩, decide_eq_true rfl⟩, rfl⟩
  cases found : (grouped (nodes.flatMap (nameClaims workspaceName)))[name]? with
  | none =>
      rw [found] at first
      cases first
  | some values =>
      rw [found, Option.getD_some] at first second
      have many : 1 < values.length := by
        match values with
        | [] => cases first
        | [value] =>
            exact absurd (congrArg Prod.fst ((List.mem_singleton.mp first).trans
              (List.mem_singleton.mp second).symm)) apart
        | _ :: _ :: _ => exact Nat.succ_lt_succ (Nat.succ_pos _)
      have named (entry : String × NameClaim) (inside : entry ∈ values) :
          Mentions (", ".intercalate (values.map fun claim =>
            claim.1 ++ " (" ++ claim.2.describe ++ ")"))
            (entry.1 ++ " (" ++ entry.2.describe ++ ")") := by
        rw [Mentions, String.toList_intercalate, List.map_map]
        refine Text.infix_intercalate ?_ _
        exact List.mem_map.mpr ⟨entry, inside, rfl⟩
      refine ⟨_, List.mem_append_left _ (List.mem_map.mpr ⟨(name, values), List.mem_filter.mpr
        ⟨ExtTreeMap.mem_toList_iff_getElem?_eq_some.mpr found, decide_eq_true many⟩, rfl⟩), rfl,
        ?_, ?_, ?_⟩
      · have opening : Mentions ("'" ++ name ++ "' is claimed by more than one node (")
            ("'" ++ name ++ "'") := ⟨[], " is claimed by more than one node (".toList, by simp⟩
        exact (opening.front _).front _
      · exact ((named _ first).back _).front _
      · exact ((named _ second).back _).front _

/-- Where nothing blocks a start, the domains of all recorded routes are distinct and no host has
two exact routes; a domain that two nodes record is named by a blocking warning, with both. -/
theorem routes_apart (recorded : ∀ node ∈ nodes, startable node → ∀ record ∈ info node,
      Recorded workspaceName node record) :
    (Passes workspaceName nodes →
      ((routesOf info nodes).map PortRoute.domain).Nodup ∧
        ∀ host, ((served (scanOf workspaceName info nodes)).filter fun offer =>
          isExact host offer.1).length ≤ 1) ∧
    ∀ node ∈ nodes, ∀ other ∈ nodes, node.id ≠ other.id → startable node → startable other →
      ∀ record ∈ info node, ∀ rival ∈ info other, ∀ route ∈ record.desired.routes,
        ∀ twin ∈ rival.desired.routes, route.domain = twin.domain →
          ∃ warning ∈ checkDerivedNameCollisions workspaceName nodes, warning.isBlocking = true ∧
            Mentions warning.message ("'" ++ route.domain ++ "'") ∧
            (∃ claim : NameClaim,
              Mentions warning.message (node.id ++ " (" ++ claim.describe ++ ")")) ∧
            ∃ claim : NameClaim,
              Mentions warning.message (other.id ++ " (" ++ claim.describe ++ ")") := by
  constructor
  · intro passes
    have distinct : ((routesOf info nodes).map PortRoute.domain).Nodup := by
      obtain ⟨used, perm, sublist⟩ := routes_subperm recorded passes.ports
      exact perm.nodup_iff.mp (passes.nodup.sublist sublist)
    exact ⟨distinct, exact_le_one (distinct.sublist served_scanOf)⟩
  · intro node member other listed apart started otherStarted record held rival rivalHeld route
      inside twin twinInside same
    obtain ⟨claim, own⟩ := (recorded node member started record held).claimed started inside
    obtain ⟨claimed, others⟩ :=
      (recorded other listed otherStarted rival rivalHeld).claimed otherStarted twinInside
    rw [← same] at others
    obtain ⟨warning, raised, blocking, named, first, second⟩ :=
      warning_of_claims member listed apart own others
    exact ⟨warning, raised, blocking, named, ⟨claim, first⟩, ⟨claimed, second⟩⟩

end Nodes

/-- A shop front with a named port. -/
def web (additionalHosts : List String) : Node where
  id := "web.shop"
  kind := .service
  ports :=
    (∅ : OrderedMap String PortConfig).insert "3000" { primary := true, name := some "pages" }
  additionalHosts

/-- What it calls. -/
def api (additionalHosts : List String) : Node where
  id := "api.shop"
  kind := .service
  ports := (∅ : OrderedMap String PortConfig).insert "8080" { primary := true }
  additionalHosts

/-- What a start writes down when Docker publishes both ports. -/
def published (node : Node) : Option ContainerInfo :=
  match startNode (fun _ _ => "")
      (.ok
        { containerName := ""
          domain := deriveDomain node.id "Shop" .http
          rawDomain := ""
          portList := [("3000", none), ("8080", none)] })
      { inspected := .ok (some
          { status := "running"
            hostPorts := ((∅ : OrderedMap String UInt16).insert "3000/tcp" 40001).insert
              "8080/tcp" 40002 }) }
      node false with
  | .ok record => some record
  | .error _ => none

theorem recorded_published {node : Node} {record : ContainerInfo}
    (held : record ∈ published node) : Recorded "Shop" node record := by
  unfold published at held
  split at held
  · rename_i started
    cases held
    exact ⟨_, _, _, _, rfl, started⟩
  · cases held

theorem passes_apart : Passes "Shop" [web ["shop.local"], api []] where
  ports := by decide
  names := by decide

theorem exists_route (node : Node) (domain : String)
    (found : (published node).any fun record =>
      record.desired.routes.any fun route => route.domain == domain) :
    ∃ record ∈ published node, ∃ route ∈ record.desired.routes, route.domain = domain := by
  cases held : published node with
  | none =>
      rw [held] at found
      cases found
  | some record =>
      rw [held, Option.any_some] at found
      obtain ⟨route, member, same⟩ := List.any_eq_true.mp found
      exact ⟨record, rfl, route, member, beq_iff_eq.mp same⟩

/-- With the shop's own host on one of them, all four routes are distinct; with it on both, a
warning names it. -/
theorem routes_apart_shop :
    ((routesOf published [web ["shop.local"], api []]).map PortRoute.domain).Nodup ∧
      (routesOf published [web ["shop.local"], api []]).length = 4 ∧
      ∃ warning ∈ checkDerivedNameCollisions "Shop" [web ["shop.local"], api ["shop.local"]],
        warning.isBlocking = true ∧ Mentions warning.message "'shop.local'" := by
  have recorded (nodes : List Node) : ∀ node ∈ nodes, startable node → ∀ record ∈ published node,
      Recorded "Shop" node record := fun _ _ _ _ held => recorded_published held
  refine ⟨((routes_apart (recorded _)).1 passes_apart).1, by decide, ?_⟩
  obtain ⟨record, held, route, inside, domain⟩ :=
    exists_route (web ["shop.local"]) "shop.local" (by decide)
  obtain ⟨rival, rivalHeld, twin, twinInside, same⟩ :=
    exists_route (api ["shop.local"]) "shop.local" (by decide)
  obtain ⟨warning, raised, blocking, named, -⟩ :=
    (routes_apart (recorded [web ["shop.local"], api ["shop.local"]])).2 _ List.mem_cons_self _
      (List.mem_cons_of_mem _ List.mem_cons_self) (by decide) rfl rfl record held rival rivalHeld
      route inside twin twinInside (domain.trans same.symm)
  rw [domain] at named
  exact ⟨warning, raised, blocking, named⟩

end RouteClaims
end Fghj
