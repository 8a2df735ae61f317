import Fghj.Routing
import Fghj.TaskDone

/-!
# Names inside the network

The sidecar of a workspace routes names for its containers by a table of every container's routes,
the stopped ones included; the proxy on the host looks at the running ones alone. Both take the
first match of one listing, exact domains before wildcards, each of its own share of it, so they
agree on a host exactly when no stopped container stands in front of the running one.
-/

namespace Fghj
namespace Sidecar

open Std Query Converge Orchestrator

/-- One line of the route table. -/
structure RouteFileEntry where
  lookup : String
  wildcard : Bool
  connectHost : String
  connectPort : UInt16
  nodeId : String
  deriving DecidableEq

/-- The number of a container port, without its protocol. -/
def portNumber (route : PortRoute) : Option UInt16 :=
  Text.parseU16 (route.containerPort.toList.takeWhile (· ≠ '/'))

/-- The line of a route, if its container port is a number. -/
def routeFileEntry (container : ContainerInfo) (route : PortRoute) : Option RouteFileEntry :=
  (portNumber route).map fun connectPort =>
    { lookup := route.domain
      wildcard := route.wildcard
      connectHost := container.desired.rawDomain
      connectPort
      nodeId := container.nodeId }

/-- The route table of all containers, running or not. -/
def routeFileEntries (containers : List ContainerInfo) : List RouteFileEntry :=
  containers.flatMap fun container =>
    container.desired.routes.filterMap (routeFileEntry container)

/-- The line the sidecar routes a host by: exact lookups win. -/
def resolve (entries : List RouteFileEntry) (host : String) : Option RouteFileEntry :=
  (entries.find? fun entry => !entry.wildcard && entry.lookup == host).or
    (entries.find? fun entry =>
      entry.wildcard && (host == entry.lookup || host.endsWith ("." ++ entry.lookup)))

/-! ## One listing for both -/

/-- Every route with the container that declares it. -/
def declared (containers : List ContainerInfo) : List (ContainerInfo × PortRoute) :=
  containers.flatMap fun container => container.desired.routes.map fun route => (container, route)

/-- The declared routes that match a host, exact domains before wildcards. -/
def matching (containers : List ContainerInfo) (host : String) : List (ContainerInfo × PortRoute) :=
  ((declared containers).filter fun entry => isExact host entry.2) ++
    (declared containers).filter fun entry => isWild host entry.2

/-- The running container and its route that a host goes to from outside. -/
def fromOutside (run : EnvState) (host : String) : Option (ContainerInfo × PortRoute) :=
  (matching (OrderedMap.listed run.containers) host).find? fun entry => isRunning entry.1

/-- The states with one workspace alone. -/
def alone (workspace : String) (run : EnvState) : States :=
  (∅ : States).insert workspace { env := some run }

theorem served_alone (workspace : String) (run : EnvState) :
    served (scan (alone workspace run)) =
      ((declared (OrderedMap.listed run.containers)).filter fun entry => isRunning entry.1).map
        fun entry => (entry.2, targetOf workspace entry.1 entry.2) := by
  have scanned : scan (alone workspace run) = [(workspace, OrderedMap.listed run.containers)] := rfl
  rw [scanned, served, List.flatMap_singleton, flatMap_offers, declared, List.filter_flatMap,
    List.map_flatMap]
  apply List.flatMap_congr
  intro container _
  by_cases running : isRunning container
  · simp [running, offers, List.filter_map, Function.comp_def]
  · simp [running, List.filter_map, Function.comp_def]

/-- The proxy on the host takes the first running match. -/
theorem resolveRoute_alone (workspace : String) (run : EnvState) (host : String) :
    resolveRoute (alone workspace run) host =
      (fromOutside run host).map fun entry => targetOf workspace entry.1 entry.2 := by
  have first (accepts : PortRoute → Bool) :
      ((served (scan (alone workspace run))).find? fun offer => accepts offer.1).map Prod.snd =
        (((declared (OrderedMap.listed run.containers)).filter fun entry => accepts entry.2).find?
          fun entry => isRunning entry.1).map fun entry => targetOf workspace entry.1 entry.2 := by
    rw [served_alone, List.find?_map, List.find?_filter, List.find?_filter, Option.map_map]
    simp only [Function.comp_def, and_comm]
  rw [resolveRoute, resolveIn, findRoute_eq, findRoute_eq, first, first, fromOutside, matching,
    List.find?_append, Option.map_or]

/-- The route table line by line. -/
theorem routeFileEntries_eq (containers : List ContainerInfo) :
    routeFileEntries containers =
      (declared containers).filterMap fun entry => routeFileEntry entry.1 entry.2 := by
  simp only [routeFileEntries, declared, List.filterMap_flatMap, List.filterMap_map,
    Function.comp_def]

/-- The sidecar takes the first match with a number for its port. -/
theorem resolve_eq (containers : List ContainerInfo) (host : String) :
    resolve (routeFileEntries containers) host =
      (matching containers host).findSome? fun entry => routeFileEntry entry.1 entry.2 := by
  have first (accepts : RouteFileEntry → Bool) (chosen : PortRoute → Bool)
      (same : ∀ container route line, routeFileEntry container route = some line →
        accepts line = chosen route) :
      (routeFileEntries containers).find? accepts =
        ((declared containers).filter fun entry => chosen entry.2).findSome? fun entry =>
          routeFileEntry entry.1 entry.2 := by
    rw [← List.head?_filter, routeFileEntries_eq, List.filter_filterMap, ← List.head?_filterMap,
      List.filterMap_filter]
    congr 2
    funext entry
    cases written : routeFileEntry entry.1 entry.2 with
    | none => simp
    | some line => simp [Option.filter, same entry.1 entry.2 line written]
  rw [resolve, matching, List.findSome?_append]
  congr 1
  · apply first
    rintro container route line written
    obtain ⟨port, -, rfl⟩ := Option.map_eq_some_iff.mp written
    rfl
  · apply first
    rintro container route line written
    obtain ⟨port, -, rfl⟩ := Option.map_eq_some_iff.mp written
    rfl

/-! ## Agreement -/

/-- Where the proxy sends a host the sidecar sends it too, and where the sidecar sends a host to a
running node the proxy sends it to that node. -/
structure Agree (workspace : String) (run : EnvState) (host : String) : Prop where
  inside : ∀ container route, fromOutside run host = some (container, route) →
    ∃ line, resolve (routeFileEntries (OrderedMap.listed run.containers)) host = some line ∧
      line.nodeId = container.nodeId ∧ portNumber route = some line.connectPort
  outside : ∀ line container,
    resolve (routeFileEntries (OrderedMap.listed run.containers)) host = some line →
      run.containers[line.nodeId]? = some container → isRunning container →
      ∃ target, resolveRoute (alone workspace run) host = some target ∧
        target.nodeId = line.nodeId

/-- The first match of a running container has a number for its port, and the matches of stopped
containers before it have none. -/
def Unshadowed (run : EnvState) (host : String) : Prop :=
  ∀ front container route back,
    matching (OrderedMap.listed run.containers) host = front ++ (container, route) :: back →
    isRunning container → (∀ entry ∈ front, ¬isRunning entry.1) →
      (portNumber route).isSome ∧ ∀ entry ∈ front, portNumber entry.2 = none

section Agreement

variable {run : EnvState} {host : String}

theorem container_of_mem_matching (ids : keyed run) {entry : ContainerInfo × PortRoute}
    (member : entry ∈ matching (OrderedMap.listed run.containers) host) :
    run.containers[entry.1.nodeId]? = some entry.1 := by
  have listed : entry ∈ declared (OrderedMap.listed run.containers) := by
    rcases List.mem_append.mp member with narrow | wild
    · exact List.mem_of_mem_filter narrow
    · exact List.mem_of_mem_filter wild
  obtain ⟨container, held, inside⟩ := List.mem_flatMap.mp listed
  obtain ⟨route, -, rfl⟩ := List.mem_map.mp inside
  obtain ⟨key, found⟩ := (OrderedMap.mem_listed _ _).mp held
  rw [(keyed_iff run).mp ids key container found]
  exact found

theorem routeFileEntry_eq_none {container : ContainerInfo} {route : PortRoute} :
    routeFileEntry container route = none ↔ portNumber route = none := by
  simp [routeFileEntry]

/-- An unshadowed host goes to the same container and port on both sides. -/
theorem Unshadowed.inside (unshadowed : Unshadowed run host) {container : ContainerInfo}
    {route : PortRoute} (sent : fromOutside run host = some (container, route)) :
    ∃ line, resolve (routeFileEntries (OrderedMap.listed run.containers)) host = some line ∧
      line.nodeId = container.nodeId ∧ portNumber route = some line.connectPort := by
  obtain ⟨running, front, back, split, stopped⟩ := List.find?_eq_some_iff_append.mp sent
  have idle : ∀ entry ∈ front, ¬isRunning entry.1 := by
    intro entry member
    simpa using stopped entry member
  obtain ⟨numeric, bare⟩ := unshadowed front container route back split running idle
  obtain ⟨port, port_eq⟩ := Option.isSome_iff_exists.mp numeric
  obtain ⟨line, written, named, connects⟩ : ∃ line, routeFileEntry container route = some line ∧
      line.nodeId = container.nodeId ∧ line.connectPort = port := by
    simp [routeFileEntry, port_eq]
  refine ⟨line, ?_, named, by rw [connects, port_eq]⟩
  rw [resolve_eq, List.findSome?_eq_some_iff]
  refine ⟨front, (container, route), back, split, written, fun entry member => ?_⟩
  exact routeFileEntry_eq_none.mpr (bare entry member)

/-- Inside and outside agree on a host exactly when the running match is unshadowed. -/
theorem agree_iff (workspace : String) (ids : keyed run) :
    Agree workspace run host ↔ Unshadowed run host := by
  constructor
  · intro agree front container route back split running stopped
    have sent : fromOutside run host = some (container, route) := by
      rw [fromOutside, List.find?_eq_some_iff_append]
      exact ⟨running, front, back, split, fun entry member => by simpa using stopped entry member⟩
    obtain ⟨line, resolved, named, port⟩ := agree.inside container route sent
    refine ⟨by rw [port]; rfl, ?_⟩
    -- the line comes from the running container, so from no entry in front of it
    rw [resolve_eq] at resolved
    obtain ⟨before, entry, after, whole, written, bare⟩ := List.findSome?_eq_some_iff.mp resolved
    obtain ⟨number, -, rfl⟩ := Option.map_eq_some_iff.mp written
    have same : entry.1 = container := by
      have held := container_of_mem_matching ids
        (whole ▸ List.mem_append_right _ List.mem_cons_self)
      have holds := container_of_mem_matching ids
        (split ▸ List.mem_append_right _ List.mem_cons_self)
      have key : entry.1.nodeId = container.nodeId := named
      rw [key, holds] at held
      exact (Option.some.inj held).symm
    have early : ∀ other ∈ front, other ∈ before := by
      rcases List.append_eq_append_iff.mp (split.symm.trans whole) with
        ⟨middle, before_eq, -⟩ | ⟨middle, front_eq, rest⟩
      · intro other member
        rw [before_eq]
        exact List.mem_append_left _ member
      · cases middle with
        | nil =>
            rw [front_eq, List.append_nil]
            exact fun _ member => member
        | cons head middle =>
            obtain rfl : entry = head := (List.cons.inj rest).1
            exact (stopped entry (by simp [front_eq]) (same ▸ running)).elim
    exact fun other member => routeFileEntry_eq_none.mp (bare other (early other member))
  · intro unshadowed
    refine ⟨fun container route sent => unshadowed.inside sent, ?_⟩
    intro line container resolved found running
    have line_eq := resolve_eq (OrderedMap.listed run.containers) host
    rw [resolved] at line_eq
    obtain ⟨entry, member, written⟩ := List.exists_of_findSome?_eq_some line_eq.symm
    obtain ⟨number, -, rfl⟩ := Option.map_eq_some_iff.mp written
    have same : entry.1 = container :=
      Option.some.inj ((container_of_mem_matching ids member).symm.trans found)
    obtain ⟨⟨chosen, route⟩, sent⟩ : ∃ chosen, fromOutside run host = some chosen := by
      apply Option.isSome_iff_exists.mp
      exact List.find?_isSome.mpr ⟨entry, member, same ▸ running⟩
    obtain ⟨other, resolves, named, -⟩ := unshadowed.inside sent
    rw [resolved] at resolves
    refine ⟨_, by rw [resolveRoute_alone, sent]; rfl, ?_⟩
    rw [Option.some.inj resolves, named]
    rfl

end Agreement

/-- In every environment the daemon reaches, names mean the same inside and outside the network
exactly when no stopped container's route stands in front of a running one's. -/
theorem same_name_same_node (events : List TaskDone.Event) (run : EnvState)
    (reached : (Execution.run TaskDone.step {} events).state.env = some run)
    (workspace host : String) :
    resolveRoute (alone workspace run) host =
        (fromOutside run host).map (fun entry => targetOf workspace entry.1 entry.2) ∧
      (Agree workspace run host ↔ Unshadowed run host) :=
  ⟨resolveRoute_alone workspace run host,
    agree_iff workspace ((TaskDone.filed_run events).state run reached)⟩

/-- A service on port 8080 with these additional hosts. -/
def shopService (id : String) (additionalHosts : List String) : Node where
  id
  kind := .service
  ports := (∅ : OrderedMap String PortConfig).insert "8080" { primary := true }
  additionalHosts

def shopGraph (nodes : List Node) : Graph where
  workspaceName := "shop"
  nodes
  edges := []
  flows := []

def shopWorld : World where
  ensureSidecar := .ok "172.18.0.2"
  resolveNodeSpec := fun id => .ok
    { containerName := containerName "shop" id
      domain := deriveDomain id "shop" .http
      rawDomain := deriveDomain id "shop" .raw
      portList := [("8080", none)] }
  specHash := fun _ _ => "spec"
  inspectStatus := fun _ => .ok none
  start := fun _ =>
    { inspected := .ok (some
        { status := "running"
          hostPorts := (∅ : OrderedMap String UInt16).insert "8080/tcp" 40001 }) }

/-- A start of one node alone, by the files as they are. -/
def startAlone (flight : Nat) (graph : Graph) (nodeId : String) : List TaskDone.Event :=
  [.acted (.envPlanned (.node nodeId)),
   .began graph shopWorld none (.node nodeId),
   .turned flight graph shopWorld [] nodeId,
   .finished flight none]

/-- A service is started that answers for `app.local` as well. -/
def firstRun : List TaskDone.Event :=
  startAlone 0 (shopGraph [shopService "api.shop" ["app.local"]]) "api.shop"

/-- The service exits, its additional host is given to another service, and that one is started. -/
def movedRun : List TaskDone.Event :=
  firstRun ++
    .observed ((Execution.run TaskDone.step {} firstRun).state.env.getD {})
      (.ok [{ name := containerName "shop" "api.shop"
              container := { state := .exited ExitCode.success } }])
      "api.shop" ::
    startAlone 1 (shopGraph [shopService "api.shop" [], shopService "web.shop" ["app.local"]])
      "web.shop"

theorem same_name_firstRun :
    ∃ run, (Execution.run TaskDone.step {} firstRun).state.env = some run ∧
      (fromOutside run "app.local").isSome ∧ Agree "shop" run "app.local" := by
  have reaches : (Execution.run TaskDone.step {} firstRun).state.env.isSome := by decide
  obtain ⟨run, reached⟩ := Option.isSome_iff_exists.mp reaches
  have sent : (Execution.run TaskDone.step {} firstRun).state.env.all fun run =>
      (fromOutside run "app.local").isSome := by decide +kernel
  have single : (Execution.run TaskDone.step {} firstRun).state.env.all fun run =>
      (matching (OrderedMap.listed run.containers) "app.local").map
        (fun entry => (portNumber entry.2).isSome) = [true] := by decide +kernel
  simp only [reached, Option.all_some, decide_eq_true_eq] at sent single
  refine ⟨run, reached, sent, (same_name_same_node firstRun run reached _ _).2.mpr ?_⟩
  intro front container route back split _ _
  rw [split, List.map_append, List.map_cons] at single
  cases front with
  | nil => exact ⟨(List.cons.inj single).1, List.forall_mem_nil _⟩
  | cons entry front => simp at single

/-- The name that moved still goes to the stopped service inside the network. -/
theorem moved_name_astray :
    ¬∀ events run, (Execution.run TaskDone.step {} events).state.env = some run →
      ∀ workspace host, Agree workspace run host := by
  intro claim
  have reaches : (Execution.run TaskDone.step {} movedRun).state.env.isSome := by decide +kernel
  obtain ⟨run, reached⟩ := Option.isSome_iff_exists.mp reaches
  have outside : (Execution.run TaskDone.step {} movedRun).state.env.all fun run =>
      (fromOutside run "app.local").map (fun entry => entry.1.nodeId) = some "web.shop" := by
    decide +kernel
  have inside : (Execution.run TaskDone.step {} movedRun).state.env.all fun run =>
      (resolve (routeFileEntries (OrderedMap.listed run.containers)) "app.local").map
        RouteFileEntry.nodeId = some "api.shop" := by decide +kernel
  simp only [reached, Option.all_some, decide_eq_true_eq] at outside inside
  obtain ⟨⟨container, route⟩, sent, web⟩ := Option.map_eq_some_iff.mp outside
  obtain ⟨line, resolved, named, -⟩ :=
    (claim movedRun run reached "shop" "app.local").inside container route sent
  rw [resolved, Option.map_some, named, web] at inside
  exact absurd inside (by decide)

end Sidecar
end Fghj
