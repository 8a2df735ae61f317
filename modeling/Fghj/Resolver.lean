import Fghj.Graph
import Fghj.RepoUrl

/-!
# The resolver

Every repo's configuration is turned into nodes and edges, in phases that each need the previous one
complete for every repo. Resolution never fails: what cannot be carried out as written becomes a
blocking warning. The checks that only add warnings about a single service's ports, build and
templates are left out; a graph they would refuse is a graph of this model all the same.
-/

namespace Fghj

open Std

/-- What a wait is for. -/
inductive Condition where
  | serviceStarted
  | serviceHealthy
  | serviceCompletedSuccessfully
  deriving DecidableEq

def Condition.asStr : Condition → String
  | .serviceStarted => "service_started"
  | .serviceHealthy => "service_healthy"
  | .serviceCompletedSuccessfully => "service_completed_successfully"

structure DependsOnEntry where
  condition : Condition := .serviceStarted
  /-- False: the target is only started when a flow asks for it. -/
  required : Bool := true

/-- One service as a repo's file declares it. -/
structure ServiceConfig where
  /-- Present for a build, with what is read of the clone a git context builds from. -/
  build : Option (Option BuildSource) := none
  image : Option String := none
  ports : OrderedMap String PortConfig := ∅
  volumes : List VolumeMount := []
  /-- Each with whether it is a wildcard. -/
  additionalHosts : List (String × Bool) := []
  restart : Option String := none
  healthcheck : Bool := false
  command : List String := []
  run : Option String := none
  migrates : Option String := none
  seeds : List String := []
  /-- The entries of the list form, or of the map form in key order. -/
  dependsOn : List (String × DependsOnEntry) := []

structure Include where
  repo : String
  defaultBranch : Option String := none
  deriving DecidableEq

/-- One repo's file. -/
structure ComponentConfig where
  include_ : OrderedMap String Include := ∅
  services : OrderedMap String ServiceConfig := ∅
  flows : OrderedMap String (List String) := ∅

/-- What git says of a repo. -/
structure RepoFacts where
  repo : Option String := none
  branch : Option String := none
  head : Option String := none
  dirty : Bool := false

/-- What a dependency or a flow's entry names. -/
inductive Target where
  | bare (name : String)
  | qualified (owner name : String)
  deriving DecidableEq

/-- Split at the first slash. -/
def Target.parse (text : String) : Target :=
  match Text.splitOnce '/' text.toList with
  | none => .bare text
  | some (owner, name) => .qualified (String.ofList owner) (String.ofList name)

namespace Resolver

/-- Leaf first, like the domain built from it. -/
def nodeId (name localPath : String) : String := name ++ "." ++ localPath

/-- A resolution on its way. -/
structure ResolveCtx where
  scanned : OrderedMap String ComponentConfig
  /-- The folder of each remote on disk. -/
  repoIndex : OrderedMap String String := ∅
  facts : OrderedMap String RepoFacts := ∅
  /-- Shared, so that two repos including the same missing one get one stub. -/
  stubRepoIds : OrderedMap String String := ∅
  includes : OrderedMap String (OrderedMap String String) := ∅
  nodes : OrderedMap String Node := ∅
  edges : List Edge := []
  warnings : List Warning := []
  /-- What requires another repo's flow, and a seed of it that nothing waits on. -/
  seedsPulled : List (String × String) := []

namespace ResolveCtx

variable (ctx : ResolveCtx)

def isScanned (localPath : String) : Bool := ctx.scanned.contains localPath

def warn (warnings : List Warning) : ResolveCtx := { ctx with warnings := ctx.warnings ++ warnings }

/-! ## Nodes -/

/-- A build makes a service, an image only a backing. -/
def serviceKind (id : String) (service : ServiceConfig) : NodeKind × List Warning :=
  match service.build, service.image with
  | some _, none => (.service, [])
  | none, some _ => (.backing, [])
  | some _, some _ =>
      (.service, [.blocking ("'" ++ id ++ "' sets both `build` and `image` — fghj names the images "
        ++ "it builds itself, so set one: `build` for your code, `image` for a published one")])
  | none, none =>
      (.service, [.blocking ("'" ++ id ++ "' sets neither `build` nor `image`, so there is nothing "
        ++ "to run")])

/-- The node of one service. -/
def addServiceNode (localPath : String) (ctx : ResolveCtx) (entry : String × ServiceConfig) :
    ResolveCtx :=
  let id := nodeId entry.1 localPath
  let service := entry.2
  let facts := (ctx.facts[localPath]?).getD {}
  let kind := serviceKind id service
  let ctx := ctx.warn kind.2
  { ctx with
    nodes := ctx.nodes.insert id
      { id
        kind := kind.1
        localPath := some localPath
        branch := facts.branch
        head := facts.head
        dirty := facts.dirty
        build := service.build
        ports := service.ports
        volumes := service.volumes
        additionalHosts := (service.additionalHosts.filter fun host => !host.2).map Prod.fst
        wildcardHosts := (service.additionalHosts.filter fun host => host.2).map Prod.fst
        healthcheck := service.healthcheck } }

/-- Phase 1. -/
def addRepoNodes (ctx : ResolveCtx) (repo : String × ComponentConfig) : ResolveCtx :=
  let ctx :=
    if repo.2.services.isEmpty then
      ctx.warn [.advisory ("'" ++ repo.1 ++ "' declares no services")]
    else ctx
  repo.2.services.toList.foldl (addServiceNode repo.1) ctx

/-! ## Includes -/

/-- A stand-in for a repo that is not on disk. -/
def stub (norm localPath : String) (defaultBranch : Option String) : ResolveCtx × String :=
  let stubId := (ctx.stubRepoIds[norm]?).getD localPath
  let node : Node :=
    { id := stubId, kind := .service, localPath := some stubId, downloaded := false
      branch := defaultBranch }
  ({ ctx with
      stubRepoIds := ctx.stubRepoIds.insert norm stubId
      nodes := if ctx.nodes.contains stubId then ctx.nodes else ctx.nodes.insert stubId node },
    stubId)

section Include

variable (toLowercase : String → String)

/-- One include: by the real remote if on disk, else by the folder the URL clones to. -/
def addInclude (repo : String × ComponentConfig)
    (acc : ResolveCtx × OrderedMap String String) (entry : String × Include) :
    ResolveCtx × OrderedMap String String :=
  let (ctx, resolved) := acc
  let ctx :=
    if repo.2.services.contains entry.1 || repo.2.flows.contains entry.1 then
      ctx.warn [.blocking ("'" ++ repo.1 ++ "' uses '" ++ entry.1 ++
        "' both as an include alias " ++
        "and as a service or flow name, so a bare '" ++ entry.1 ++
          "' could mean either — rename one")]
    else ctx
  let norm := RepoUrl.normalizeRepoUrl toLowercase entry.2.repo
  let target := (ctx.repoIndex[norm]?).getD (RepoUrl.repoNameFromUrl entry.2.repo)
  if ctx.isScanned target then (ctx, resolved.insert entry.1 target)
  else
    let (ctx, target) := ctx.stub norm target entry.2.defaultBranch
    (ctx, resolved.insert entry.1 target)

/-- Phase 2. -/
def addIncludes (ctx : ResolveCtx) (repo : String × ComponentConfig) : ResolveCtx :=
  let (ctx, resolved) := repo.2.include_.toList.foldl (addInclude toLowercase repo) (ctx, ∅)
  let clashes := (repo.2.flows.toList.filter fun flow => repo.2.services.contains flow.1).map
    fun flow => Warning.blocking ("'" ++ repo.1 ++ "' has a service and a flow both named '" ++
      flow.1 ++ "', so a bare '" ++ flow.1 ++ "' in a flow could mean either — rename one")
  let ctx := ctx.warn clashes
  { ctx with includes := ctx.includes.insert repo.1 resolved }

end Include

/-! ## Tasks -/

/-- The node id of a store a task names, or why it names none. -/
def storeOf (repo : String × ComponentConfig) (name field store : String) :
    Option String × List Warning :=
  let id := nodeId name repo.1
  if store = name then
    (none, [.blocking ("'" ++ id ++ "' names itself in `" ++ field ++ "`")])
  else if repo.2.services.contains store then (some (nodeId store repo.1), [])
  else
    (none, [.blocking ("'" ++ id ++ "' " ++ field ++ " '" ++ store ++ "', but '" ++ repo.1 ++
      "' has no service by that name — a store is in the same repo as what migrates or seeds it")])

/-- The stores a service names, and what is wrong with how. -/
def checkStores (repo : String × ComponentConfig) (name : String) (service : ServiceConfig) :
    (Option String × List String) × List Warning :=
  let id := nodeId name repo.1
  if service.migrates.isNone && service.seeds.isEmpty then ((none, []), [])
  else
    let run : List Warning :=
      if service.run.isSome then
        [.blocking ("'" ++ id ++ "' sets `run` alongside `" ++
          (if service.migrates.isSome then "migrates" else "seeds") ++
          "` — that decides when it runs; drop `run`")]
      else []
    let both : List Warning :=
      if service.migrates.isSome && !service.seeds.isEmpty then
        [.blocking ("'" ++ id ++ "' sets both `migrates` and `seeds` — a migration runs on every "
          ++ "start and a seed only on new data, so split it into two services")]
      else []
    let migrated := service.migrates.map (storeOf repo name "migrates")
    let seeded := service.seeds.map (storeOf repo name "seeds")
    ((migrated.bind Prod.fst, seeded.filterMap Prod.fst),
      run ++ both ++ (migrated.map Prod.snd).getD [] ++ seeded.flatMap Prod.snd)

/-- The services of a repo that another waits on to complete. -/
def completedOn (component : ComponentConfig) : List String :=
  component.services.toList.flatMap fun entry =>
    (entry.2.dependsOn.filter fun dependency =>
      dependency.2.condition == .serviceCompletedSuccessfully &&
        component.services.contains dependency.1).map Prod.fst

/-- What is wrong with a task. -/
def taskWarnings (id : String) (service : ServiceConfig) : List Warning :=
  let run := service.run.getD "on_start"
  (if service.healthcheck then
    [.blocking ("task '" ++ id ++ "' declares a healthcheck — a task is done when it exits 0, and "
      ++ "an exited container can never report healthy")]
  else []) ++
  (if service.restart.any (· != "no") then
    [.blocking
      ("task '" ++ id ++ "' sets `restart` — a container whose purpose is to exit would be " ++
      "restarted forever; leave it unset")]
  else []) ++
  (if service.command.isEmpty then
    [.blocking
      ("task '" ++ id ++ "' declares no `command` — a task is its command, and one without " ++
      "would run the image's default CMD and never exit")]
  else []) ++
  if run ≠ "on_start" ∧ run ≠ "once" then
    [.blocking ("task '" ++ id ++ "' sets `run: " ++ run ++ "` — it is \"on_start\" or \"once\"")]
  else []

/-- Mark one service as a task, if it is one. -/
def markTask (repo : String × ComponentConfig) (ctx : ResolveCtx)
    (entry : String × ServiceConfig) : ResolveCtx :=
  let id := nodeId entry.1 repo.1
  let service := entry.2
  let storeTask := service.migrates.isSome || !service.seeds.isEmpty
  if entry.1 ∉ completedOn repo.2 && service.run.isNone && !storeTask then ctx
  else
    let stores := checkStores repo entry.1 service
    let ctx := ctx.warn (taskWarnings id service ++ stores.2)
    { ctx with
      nodes := ctx.nodes.modify id fun node =>
        { node with
          kind := .task
          runPolicy := some (service.run.getD "on_start")
          healthcheck := false
          migrates := stores.1.1
          seeds := stores.1.2 } }

/-- Phase 3. -/
def markTasks (ctx : ResolveCtx) (repo : String × ComponentConfig) : ResolveCtx :=
  repo.2.services.toList.foldl (markTask repo) ctx

/-! ## Members of flows -/

def aliasTarget (localPath name : String) : Option String :=
  (ctx.includes[localPath]?).bind fun resolved => resolved[name]?

def hasAlias (localPath name : String) : Bool := (ctx.aliasTarget localPath name).isSome

/-- The alias replaced by its folder. -/
def flowLabel (localPath : String) : Target → String
  | .bare name => (ctx.aliasTarget localPath name).getD name
  | .qualified owner name => (ctx.aliasTarget localPath owner).getD owner ++ "/" ++ name

/-- The folders a repo includes. -/
def includedBy (repo : String) : List String := ((ctx.includes[repo]?).getD ∅).toList.map Prod.snd

/-- Every node of a repo and of what it includes. Each call sees a new repo, so the number of
includes bounds the depth. -/
def repoMembers : Nat → List String × List String → String → List String × List String
  | 0, found, _ => found
  | fuel + 1, (seen, out), repo =>
      if repo ∈ seen then (seen, out)
      else if ctx.isScanned repo then
        let own := (ctx.nodes.toList.filter fun entry =>
          entry.2.downloaded && entry.2.localPath == some repo).map Prod.fst
        (ctx.includedBy repo).foldl (repoMembers fuel) (repo :: seen, out ++ own)
      else (repo :: seen, if ctx.nodes.contains repo then out ++ [repo] else out)

/-- More than there are repos to see. -/
def repoFuel : Nat := (ctx.includes.toList.flatMap fun entry => entry.2.toList).length + 2

/-- Why a name is no flow of another repo; one not pulled yet cannot be checked. -/
def checkForeignFlow (owner repo name : String) : Except String Unit :=
  match ctx.scanned[repo]? with
  | none => .ok ()
  | some component =>
      if component.flows.contains name then .ok ()
      else
        let available :=
          if component.flows.isEmpty then
            "it publishes none, so name '" ++ owner ++ "' to start all of it"
          else
            "use one of its flows: " ++
              ", ".intercalate (component.flows.toList.map fun flow => owner ++ "/" ++ flow.1)
        if component.services.contains name then
          .error ("names '" ++ owner ++ "/" ++ name ++ "', which is a service — " ++ owner ++
            "'s services are internal; " ++ available)
        else
          .error ("names '" ++ owner ++ "/" ++ name ++ "', but '" ++ repo ++
            "' has no flow named '" ++ name ++ "'; " ++ available)

/-- What the expansion of a flow has found. -/
structure Expansion where
  seen : List (String × String) := []
  out : List String := []
  errors : List String := []

/-- Expand a flow. Each pair of repo and flow is expanded once, so the number of flows bounds the
depth; a bad entry is reported at depth zero only. -/
def expandFlow : Nat → Nat → Expansion → String × String → Expansion
  | 0, _, found, _ => found
  | fuel + 1, depth, found, (repo, flow) =>
      if (repo, flow) ∈ found.seen then found
      else
        let found := { found with seen := (repo, flow) :: found.seen }
        match ctx.scanned[repo]? with
        | none =>
            if ctx.nodes.contains repo then { found with out := found.out ++ [repo] } else found
        | some component =>
            ((component.flows[flow]?).getD []).foldl (fun found entry =>
              let unknown : Expansion :=
                if depth = 0 then
                  { found with
                    errors := found.errors ++ ["names '" ++ entry ++ "', but '" ++ repo ++
                      "' has no service, flow or include by that name"] }
                else found
              match Target.parse entry with
              | .bare name =>
                  if component.services.contains name then
                    { found with out := found.out ++ [nodeId name repo] }
                  else if component.flows.contains name then
                    expandFlow fuel (depth + 1) found (repo, name)
                  else
                    match ctx.aliasTarget repo name with
                    | some target =>
                        { found with
                          out := (ctx.repoMembers ctx.repoFuel ([], found.out) target).2 }
                    | none => unknown
              | .qualified owner name =>
                  match ctx.aliasTarget repo owner with
                  | some target =>
                      match ctx.checkForeignFlow owner target name with
                      | .ok () => expandFlow fuel (depth + 1) found (target, name)
                      | .error message =>
                          if depth = 0 then { found with errors := found.errors ++ [message] }
                          else found
                  | none => unknown) found

/-- More than there are flows to expand. -/
def flowFuel : Nat := (ctx.scanned.toList.flatMap fun entry => entry.2.flows.toList).length + 2

/-- The nodes another repo's flow, or the repo itself, stands for. -/
def foreignMembers (localPath : String) : Target → Except String (List String)
  | .bare name =>
      let repo := (ctx.aliasTarget localPath name).getD name
      -- what the repo includes stays out: it could be the dependent itself
      let seen := (ctx.includedBy repo).filter (· ≠ repo)
      .ok (intoIter (ctx.repoMembers ctx.repoFuel (seen, []) repo).2)
  | .qualified owner name =>
      match ctx.aliasTarget localPath owner with
      | none =>
          .error ("names '" ++ owner ++ "/" ++ name ++ "', but '" ++ localPath ++
            "' has no include named '" ++ owner ++ "'")
      | some repo =>
          match ctx.checkForeignFlow owner repo name with
          | .error message => .error message
          | .ok () => .ok (intoIter (ctx.expandFlow ctx.flowFuel 1 {} (repo, name)).out)

/-! ## Dependencies -/

def dependency (source target : String) (required : Bool) (condition : Condition)
    (viaFlow : Option String) : Edge where
  «from» := source
  «to» := target
  required
  condition := some condition.asStr
  viaFlow

/-- What is wrong with a condition on a service of the same repo. -/
def checkCondition (source target : String) (condition : Condition) : List Warning :=
  match ctx.nodes[target]? with
  | none => []
  | some node =>
      match condition with
      | .serviceCompletedSuccessfully => []
      | condition =>
          if node.kind = .task then
            [.blocking ("'" ++ source ++ "' waits on '" ++ target ++ "' with `" ++
              condition.asStr ++
              "`, but something else waits on it with `service_completed_successfully`, which " ++
              "makes it a task — wait on it that way everywhere")]
          else if condition = .serviceHealthy ∧ node.healthcheck = false then
            [.blocking ("'" ++ source ++ "' waits on '" ++ target ++ "' with `service_healthy`, " ++
              "but '" ++ target ++ "' declares no healthcheck")]
          else []

/-- What is wrong with a condition on something not needed to start. -/
def checkRuntimeCondition (source key : String) : Condition → List Warning
  | .serviceStarted => []
  | .serviceCompletedSuccessfully =>
      [.blocking ("'" ++ source ++ "' waits on '" ++ key ++ "' with " ++
        "`service_completed_successfully` but marks it `required: false` — a task has to finish " ++
        "before its dependent starts, so it is needed to start; drop `required: false`, or give " ++
        "the task `run:` and list it in a flow instead")]
  | .serviceHealthy =>
      [.advisory ("'" ++ source ++ "' waits on '" ++ key ++ "' with `service_healthy`, which is " ++
        "ignored: it's `required: false`, and nothing waits on a runtime dependency")]

/-- One edge of a wait on a flow; a seed is pulled, not waited on. -/
def addMember (source : String) (entry : DependsOnEntry) (via : String) (ctx : ResolveCtx)
    (member : String) : ResolveCtx :=
  if (ctx.nodes[member]?).any fun node => !node.seeds.isEmpty then
    if entry.required then
      { ctx with seedsPulled := ctx.seedsPulled ++ [(source, member)] }
    else ctx
  else
    { ctx with
      edges := ctx.edges ++ [dependency source member entry.required entry.condition (some via)] }

/-- A dependency across repos: on a flow, or on a whole repo. -/
def addForeign (localPath source key : String) (target : Target) (entry : DependsOnEntry) :
    ResolveCtx :=
  if entry.condition = .serviceCompletedSuccessfully then
    ctx.warn [.blocking ("'" ++ source ++ "' waits on '" ++ key ++
      "' with `condition: service_completed_successfully` — another repo's flow is waited on " ++
      "until it is up, it never completes")]
  else
    let ctx :=
      if entry.required then ctx else ctx.warn (checkRuntimeCondition source key entry.condition)
    match ctx.foreignMembers localPath target with
    | .error message => ctx.warn [.blocking ("'" ++ source ++ "' " ++ message)]
    | .ok members => members.foldl (addMember source entry (ctx.flowLabel localPath target)) ctx

/-- One dependency of a service. -/
def addDependency (repo : String × ComponentConfig) (source : String) (ctx : ResolveCtx)
    (declared : String × DependsOnEntry) : ResolveCtx :=
  let (key, entry) := declared
  let unknown (name : String) : ResolveCtx :=
    ctx.warn [.blocking ("'" ++ source ++ "' depends on '" ++ key ++ "', but '" ++ repo.1 ++
      "' has no service and no include named '" ++ name ++ "'")]
  match Target.parse key with
  | .bare name =>
      if repo.2.services.contains name then
        let target := nodeId name repo.1
        if target = source then
          ctx.warn [.blocking ("'" ++ source ++ "' depends on itself")]
        else
          let ctx := ctx.warn
            (if entry.required then ctx.checkCondition source target entry.condition
            else checkRuntimeCondition source key entry.condition)
          { ctx with
            edges := ctx.edges ++ [dependency source target entry.required entry.condition none] }
      else if repo.2.flows.contains name then
        ctx.warn [.blocking ("'" ++ source ++ "' depends on '" ++ name ++
          "', which is a flow in this repo — within a repo, `depends_on` names services")]
      else if ctx.hasAlias repo.1 name then ctx.addForeign repo.1 source key (.bare name) entry
      else unknown name
  | .qualified owner name =>
      if ctx.hasAlias repo.1 owner then
        ctx.addForeign repo.1 source key (.qualified owner name) entry
      else unknown owner

/-- Phase 4. -/
def addDependencyEdges (ctx : ResolveCtx) (repo : String × ComponentConfig) : ResolveCtx :=
  repo.2.services.toList.foldl (fun ctx entry =>
    entry.2.dependsOn.foldl (addDependency repo (nodeId entry.1 repo.1)) ctx) ctx

/-! ## Stores -/

/-- The stores a node names. -/
def storesOf (node : Node) : List String := node.migrates.toList ++ node.seeds

/-- One store of a migration or seed: the task waits on it. -/
def addStoreEdge (task : String) (ctx : ResolveCtx) (store : String) : ResolveCtx :=
  match ctx.nodes[store]? with
  | none => ctx
  | some target =>
      if target.kind = .task then
        ctx.warn [.blocking ("'" ++ task ++ "' names '" ++ store ++ "' as a store, but '" ++
          store ++ "' is a task — a store is something that stays up")]
      else if ctx.edges.any fun edge => edge.from == task && edge.to == store then ctx
      else
        let condition := if target.healthcheck then .serviceHealthy else .serviceStarted
        { ctx with edges := ctx.edges ++ [dependency task store true condition none] }

/-- The edges of one migration or seed to its stores, and the store it migrates. -/
def addStoreTask (acc : ResolveCtx × OrderedMap String String) (task : Node) :
    ResolveCtx × OrderedMap String String :=
  let ctx := (storesOf task).foldl (addStoreEdge task.id) acc.1
  match task.migrates with
  | none => (ctx, acc.2)
  | some store =>
      match acc.2[store]? with
      | none => (ctx, acc.2.insert store task.id)
      | some other =>
          (ctx.warn [.blocking ("'" ++ other ++ "' and '" ++ task.id ++ "' both migrate '" ++
            store ++ "' — one migration per store, so their order can't be a guess")],
            acc.2.insert store task.id)

/-- Waiting on a store means waiting on its migration. -/
def impliedEdge (edge : Edge) (migration : String) : Edge where
  «from» := edge.from
  «to» := migration
  required := true
  condition := some Condition.serviceCompletedSuccessfully.asStr
  viaFlow := edge.viaFlow
  implied := true

/-- The implied edges of a list of edges, each pair of nodes once. -/
def impliedEdges (edges : List Edge) (migrations : OrderedMap String String) :
    List (String × String) → List Edge → List Edge
  | _, [] => []
  | seen, edge :: rest =>
      match migrations[edge.to]? with
      | none => impliedEdges edges migrations seen rest
      | some migration =>
          if edge.from == migration ||
              (edges.any fun other => other.from == edge.from && other.to == migration) ||
              (edge.from, migration) ∈ seen then
            impliedEdges edges migrations seen rest
          else
            impliedEdge edge migration ::
              impliedEdges edges migrations ((edge.from, migration) :: seen) rest

/-- Phase 5.  A migration or seed waits on its stores; whatever waits on a store waits on its
migration. -/
def addStoreEdges : ResolveCtx :=
  let tasks := (OrderedMap.listed ctx.nodes).filter fun node =>
    node.migrates.isSome || !node.seeds.isEmpty
  let (ctx, migrations) := tasks.foldl addStoreTask (ctx, ∅)
  { ctx with
    edges := ctx.edges ++
      impliedEdges ctx.edges migrations [] (ctx.edges.filter Edge.neededToStart) }

/-! ## Flows -/

/-- The seeds of the flows that the set requires, and what they need, until none is missing. -/
def addPulledSeeds (nodes : List Node) : Nat → List String → List String
  | 0, start => start
  | fuel + 1, start =>
      match (ctx.seedsPulled.filter fun pulled => pulled.1 ∈ start && pulled.2 ∉ start).map
          Prod.snd with
      | [] => start
      | first :: rest =>
          addPulledSeeds nodes fuel
            (addMigrations nodes ctx.edges nodes.length
              (start ++ (requiredClosure ctx.edges (intoIter (first :: rest))).filter (· ∉ start)))

/-- Everything a start of the given nodes brings up, with all nodes listed in some order. -/
def startSetOf (nodes : List Node) (members : List String) : List String :=
  ctx.addPulledSeeds nodes ctx.seedsPulled.length
    (addMigrations nodes ctx.edges nodes.length (requiredClosure ctx.edges (intoIter members)))

def startSet (members : List String) : List String :=
  ctx.startSetOf (OrderedMap.listed ctx.nodes) members

/-- Every flow, with what its expansion found. -/
def expandedFlows : List (String × Expansion) :=
  ctx.scanned.toList.flatMap fun repo =>
    repo.2.flows.toList.map fun flow =>
      (repo.1 ++ "/" ++ flow.1, ctx.expandFlow ctx.flowFuel 0 {} (repo.1, flow.1))

/-- Phase 6.  Every node and edge learns the flows it is in. -/
def resolveFlows : ResolveCtx × List String :=
  let flows := ctx.expandedFlows
  let memberships := flows.map fun flow => (flow.1, ctx.startSet flow.2.out)
  let errors := flows.flatMap fun flow => flow.2.errors.map fun message =>
    Warning.blocking ("flow '" ++ flow.1 ++ "' " ++ message)
  let flowsOf (inside : List String → Bool) : List String :=
    (memberships.filter fun membership => inside membership.2).map Prod.fst
  ({ ctx.warn errors with
      nodes := ctx.nodes.map fun id node =>
        { node with flows := node.flows ++ flowsOf fun start => id ∈ start }
      edges := ctx.edges.map fun edge =>
        { edge with
          flows := edge.flows ++ flowsOf fun start => edge.from ∈ start && edge.to ∈ start } },
    flows.map Prod.fst)

/-- The last phases, and the graph they leave. -/
def resolved (workspaceName : String) : Graph :=
  let (ctx, flows) := ctx.addStoreEdges.resolveFlows
  { workspaceName
    nodes := OrderedMap.listed ctx.nodes
    edges := ctx.edges
    flows
    warnings := ctx.warnings ++ checkCycles ctx.edges }

end ResolveCtx

section Universe

variable (toLowercase : String → String)

/-- The folder of each remote on disk, the first of two clones of one. -/
def repoIndexOf (scanned : OrderedMap String ComponentConfig)
    (facts : OrderedMap String RepoFacts) : OrderedMap String String :=
  scanned.toList.foldl (fun index entry =>
    match (facts[entry.1]?).bind RepoFacts.repo with
    | none => index
    | some repo =>
        let norm := RepoUrl.normalizeRepoUrl toLowercase repo
        if index.contains norm then index else index.insert norm entry.1) ∅

/-- The resolution of a workspace up to the declared edges. -/
def declaredCtx (scanned : OrderedMap String ComponentConfig)
    (facts : OrderedMap String RepoFacts) : ResolveCtx :=
  let repos := scanned.toList
  let ctx : ResolveCtx := { scanned, repoIndex := repoIndexOf toLowercase scanned facts, facts }
  let ctx := repos.foldl ResolveCtx.addRepoNodes ctx
  let ctx := repos.foldl (ResolveCtx.addIncludes toLowercase) ctx
  let ctx := repos.foldl ResolveCtx.markTasks ctx
  repos.foldl ResolveCtx.addDependencyEdges ctx

/-- The graph of a workspace's files. -/
def resolveUniverse (workspaceName : String) (scanned : OrderedMap String ComponentConfig)
    (facts : OrderedMap String RepoFacts) : Graph :=
  (declaredCtx toLowercase scanned facts).resolved workspaceName

end Universe
end Resolver
end Fghj
