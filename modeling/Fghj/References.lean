import Fghj.NodeIdentity
import Fghj.Templates

/-!
# References

A template in a service's environment names a service of the same repo, or of one that it includes.
A name that leads to no node is refused when the graph is resolved, unless it would be of a repo
that is not on disk, so nothing else is left in the environment of a container.
-/

namespace Fghj
namespace Resolver

open Std Orchestrator Templates

/-- What the files declare of a service's environment, as `KEY=value`, by folder and name. -/
abbrev Environments := String → String → List String

section Environments

variable (environments : Environments)

def addEnvironments (table : OrderedMap String (List String)) (repo : String × ComponentConfig) :
    OrderedMap String (List String) :=
  repo.2.services.toList.foldl (fun table entry =>
    table.insert (nodeId entry.1 repo.1) (environments repo.1 entry.1)) table

/-- The environment of each service's node. -/
def environmentTable (scanned : OrderedMap String ComponentConfig) :
    OrderedMap String (List String) :=
  scanned.toList.foldl (addEnvironments environments) ∅

end Environments

namespace ResolveCtx

variable (ctx : ResolveCtx)

/-- The environment of a node; a stub has none. -/
def environmentOf (table : OrderedMap String (List String)) (node : Node) : List String :=
  if node.downloaded then (table[node.id]?).getD [] else []

/-- What the repo of a node includes; a stub has none. -/
def includesOf (node : Node) : OrderedMap String String :=
  if node.downloaded then (node.localPath.bind fun path => ctx.includes[path]?).getD ∅ else ∅

/-- The repo a path is about is not on disk. -/
def targetRepoIsStub (includes : OrderedMap String String) (path : String) : Bool :=
  match Target.parse path with
  | .bare _ => false
  | .qualified owner _ => (includes[owner]?).any fun repo => !ctx.isScanned repo

/-- One path in a template of a node. -/
def checkReference (id localPath : String) (includes : OrderedMap String String) (path : String) :
    List Warning :=
  match referenceTargetId localPath includes path with
  | none =>
      let first := ((Text.splitOnce '/' path.toList).map Prod.fst).getD path.toList
      [.blocking ("'" ++ id ++ "' references '" ++ path ++
        "' in a $\x7bFGHJ_SERVICE_FQDN:…\x7d template, but '" ++ localPath ++
        "' has no service and no include named '" ++ String.ofList first ++ "'")]
  | some target =>
      if ctx.nodes.contains target || ctx.targetRepoIsStub includes path then []
      else
        [.blocking ("'" ++ id ++ "' references '" ++ path ++
          "' in a $\x7bFGHJ_SERVICE_FQDN:…\x7d template, but there is no such service")]

/-- Every template of every node, each path of a node once. -/
def checkReferences (table : OrderedMap String (List String)) : List Warning :=
  ctx.nodes.toList.flatMap fun entry =>
    if !entry.2.downloaded then []
    else
      match entry.2.localPath with
      | none => []
      | some localPath =>
          ((environmentOf table entry.2).flatMap fqdnTemplatePaths).eraseDups.flatMap
            (ctx.checkReference entry.1 localPath (ctx.includesOf entry.2))

/-- A path is about a repo on disk. -/
def Pulled (includes : OrderedMap String String) (path : String) : Prop :=
  ctx.targetRepoIsStub includes path = false

end ResolveCtx

section Resolve

variable (toLowercase : String → String) (workspaceName : String)
  (scanned : OrderedMap String ComponentConfig) (facts : OrderedMap String RepoFacts)
  (environments : Environments)

/-- The graph of a workspace's files, with what is wrong with its templates. -/
def resolveReferenced : Graph :=
  let graph := resolveWorkspace toLowercase workspaceName scanned facts
  { graph with
    warnings := graph.warnings ++
      (declaredCtx toLowercase scanned facts).addStoreEdges.checkReferences
        (environmentTable environments scanned) }

/-- A node with its environment and what its repo includes. -/
structure Configures (node : Node) (config : NodeConfig) : Prop where
  id : config.id = node.id
  localPath : config.localPath = node.localPath
  includes : config.includes = (declaredCtx toLowercase scanned facts).includesOf node
  environment : config.environment =
    ResolveCtx.environmentOf (environmentTable environments scanned) node

end Resolve

variable {path : String}

namespace ResolveCtx

theorem samePlaces_addStoreEdge (task : String) (ctx : ResolveCtx) (store : String) :
    SamePlaces ctx (addStoreEdge task ctx store) := by
  rw [addStoreEdge]
  split
  · exact .refl ctx
  · split
    · exact samePlaces_warn ctx _
    · split
      · exact .refl ctx
      · exact ⟨rfl, fun _ => rfl⟩

theorem samePlaces_addStoreTask (acc : ResolveCtx × OrderedMap String String) (task : Node) :
    SamePlaces acc.1 (addStoreTask acc task).1 := by
  have stores := samePlaces_foldl (samePlaces_addStoreEdge task.id) (storesOf task) acc.1
  rw [addStoreTask]
  split
  · exact stores
  · split
    · exact stores
    · exact stores.trans (samePlaces_warn _ _)

theorem addStoreEdges_includes (ctx : ResolveCtx) : ctx.addStoreEdges.includes = ctx.includes := by
  rw [addStoreEdges_eq]
  exact (List.foldlRecOn (motive := fun acc : ResolveCtx × OrderedMap String String =>
    SamePlaces ctx acc.1) _ _ (.refl ctx) fun acc same task _ =>
      same.trans (samePlaces_addStoreTask acc task)).includes

/-- Whatever is said of a path in the environment of a node is among the warnings. -/
theorem mem_checkReferences {ctx : ResolveCtx} {table : OrderedMap String (List String)}
    {id : String} {node : Node} (filed : ctx.nodes[id]? = some node)
    (downloaded : node.downloaded = true) {localPath : String}
    (folder : node.localPath = some localPath) {entry : String}
    (declared : entry ∈ environmentOf table node) (named : path ∈ fqdnTemplatePaths entry)
    {warning : Warning}
    (reported : warning ∈ ctx.checkReference id localPath (ctx.includesOf node) path) :
    warning ∈ ctx.checkReferences table := by
  refine List.mem_flatMap.mpr ⟨(id, node), ExtTreeMap.mem_toList_iff_getElem?_eq_some.mpr filed, ?_⟩
  simp only [downloaded, Bool.not_true, Bool.false_eq_true, if_false, folder]
  refine List.mem_flatMap.mpr ⟨path, List.mem_eraseDups.mpr ?_, reported⟩
  exact List.mem_flatMap.mpr ⟨entry, declared, named⟩

/-- Whatever is said of a reference refuses the graph. -/
theorem checkReference_blocking {ctx : ResolveCtx} {id localPath : String}
    {includes : OrderedMap String String} {warning : Warning}
    (reported : warning ∈ ctx.checkReference id localPath includes path) : warning.isBlocking := by
  unfold checkReference at reported
  split at reported
  · obtain rfl := List.mem_singleton.mp reported
    rfl
  · split at reported
    · cases reported
    · obtain rfl := List.mem_singleton.mp reported
      rfl

/-- A reference of which nothing is said leads to a node, or to a repo that is not on disk. -/
theorem reference_known {ctx : ResolveCtx} {id localPath : String}
    {includes : OrderedMap String String}
    (none : ctx.checkReference id localPath includes path = [])
    (pulled : ctx.Pulled includes path) :
    ∃ target, referenceTargetId localPath includes path = some target ∧ target ∈ ctx.nodes := by
  unfold checkReference at none
  split at none
  · cases none
  · rename_i target leads
    split at none
    · rename_i known
      refine ⟨target, leads, ?_⟩
      rw [show ctx.targetRepoIsStub includes path = false from pulled, Bool.or_false] at known
      exact ExtTreeMap.contains_iff_mem.mp known
    · cases none

end ResolveCtx

section Resolve

variable {toLowercase : String → String} {workspaceName : String}
  {scanned : OrderedMap String ComponentConfig} {facts : OrderedMap String RepoFacts}
  {environments : Environments}

/-- In a graph that nothing refuses, a path in a node's environment is that of a node, unless it is
about a repo that is not on disk. -/
theorem sibling_known
    (free :
      (resolveReferenced toLowercase workspaceName scanned facts environments).blockingWarnings =
        [])
    {node : Node}
    (listed : node ∈ (resolveReferenced toLowercase workspaceName scanned facts environments).nodes)
    {config : NodeConfig}
    (configures : Configures toLowercase scanned facts environments node config) {entry : String}
    (declared : entry ∈ config.environment) (named : path ∈ fqdnTemplatePaths entry)
    (pulled : (declaredCtx toLowercase scanned facts).Pulled config.includes path)
    (zone : DomainZone) :
    ∃ target ∈ (resolveReferenced toLowercase workspaceName scanned facts environments).nodes,
      siblingDomain config path
          (resolveReferenced toLowercase workspaceName scanned facts environments) zone =
        some (deriveDomain target.id workspaceName zone) := by
  have sound := (declaredCtx_spec toLowercase scanned facts).2
  have inGraph : node ∈ ((declaredCtx toLowercase scanned facts).resolved workspaceName).nodes :=
    listed
  have inWorkspace : node ∈ (resolveWorkspace toLowercase workspaceName scanned facts).nodes :=
    listed
  have stands := service_or_stub inWorkspace
  obtain ⟨id, held, filed, rfl⟩ := (ResolveCtx.mem_resolved_nodes sound).mp inGraph
  -- Nothing that is read of the node here is among its flows.
  have environment : config.environment =
      ResolveCtx.environmentOf (environmentTable environments scanned) held :=
    configures.environment
  have localPath : config.localPath = held.localPath := configures.localPath
  have includes : config.includes =
      (declaredCtx toLowercase scanned facts).addStoreEdges.includesOf held := by
    rw [configures.includes, ResolveCtx.includesOf, ResolveCtx.includesOf,
      ResolveCtx.addStoreEdges_includes]
    rfl
  have downloaded : held.downloaded = true := by
    by_contra stub
    rw [environment, ResolveCtx.environmentOf, if_neg stub] at declared
    cases declared
  obtain ⟨folder, folder_eq⟩ : ∃ folder, held.localPath = some folder := by
    rcases stands with ⟨folder, name, -, place⟩ | ⟨first, -, place⟩
    · exact ⟨folder, (ResolveCtx.place_eq_iff.mp place).2.2⟩
    · exact ⟨_, (ResolveCtx.place_eq_iff.mp place).2.2⟩
  have silent : (declaredCtx toLowercase scanned facts).addStoreEdges.checkReference id folder
      config.includes path = [] := by
    refine List.eq_nil_iff_forall_not_mem.mpr fun warning reported => ?_
    refine List.filter_eq_nil_iff.mp free warning (List.mem_append_right _ ?_)
      (ResolveCtx.checkReference_blocking reported)
    rw [includes] at reported
    refine ResolveCtx.mem_checkReferences ?_ downloaded folder_eq (environment ▸ declared) named
      reported
    rw [ResolveCtx.addStoreEdges_nodes sound, filed]
  have onDisk :
      (declaredCtx toLowercase scanned facts).addStoreEdges.Pulled config.includes path := by
    have scans := (ResolveCtx.extends_addStoreEdges sound).scanned
    rw [ResolveCtx.Pulled, ResolveCtx.targetRepoIsStub] at pulled ⊢
    simpa only [ResolveCtx.isScanned, scans] using pulled
  obtain ⟨target, leads, known⟩ := ResolveCtx.reference_known silent onDisk
  rw [ResolveCtx.addStoreEdges_nodes sound] at known
  have named_in : target ∈
      ((declaredCtx toLowercase scanned facts).resolved workspaceName).nodes.map Node.id :=
    ResolveCtx.known_resolved sound known
  obtain ⟨sibling, inside, rfl⟩ := List.mem_map.mp named_in
  have lookup : (((declaredCtx toLowercase scanned facts).resolved workspaceName).nodes.find?
      fun node => node.id == sibling.id).isSome :=
    List.find?_isSome.mpr ⟨sibling, inside, beq_self_eq_true sibling.id⟩
  obtain ⟨found, first⟩ := Option.isSome_iff_exists.mp lookup
  refine ⟨found, List.mem_of_find?_eq_some first, ?_⟩
  rw [siblingDomain, localPath, folder_eq, Option.bind_some, leads, Option.bind_some]
  change Option.map _ (List.find? (fun node => node.id == sibling.id)
    ((declaredCtx toLowercase scanned facts).resolved workspaceName).nodes) = _
  rw [first]
  rfl

/-- Every template of an entry with a path about a repo on disk is replaced by the domain of a
node. -/
def Replaced (ctx : ResolveCtx) (graph : Graph) (config : NodeConfig)
    (rawDomain domain entry : String) : Prop :=
  ∃ cuts tail, Scanned entry.toList cuts tail ∧
    (expandServiceFqdnTemplates config rawDomain domain graph entry).toList =
      cuts.flatMap (Cut.rendered config rawDomain domain graph) ++ tail ∧
    ∀ cut ∈ cuts, ∀ path, cut.path = some path →
      ctx.Pulled config.includes (String.ofList path) → ∃ target ∈ graph.nodes,
        cut.rendered config rawDomain domain graph =
          cut.front ++ (deriveDomain target.id graph.workspaceName cut.zone).toList

end Resolve

/-- The checker lists the paths that the expander looks up, and neither ever slices where it cannot
or goes on for ever; so what the graph is not refused for is replaced in every environment. -/
theorem templates_checked :
    (∀ config rawDomain domain graph, ∀ value : String, ∃ calls,
      expand config rawDomain domain graph value.toList =
          some (some
            ((expandServiceFqdnTemplates config rawDomain domain graph value).toList, calls)) ∧
        scanPaths value.toList = some (some (calls.map Prod.fst))) ∧
      ∀ toLowercase workspaceName scanned facts environments,
        (resolveReferenced toLowercase workspaceName scanned facts environments).blockingWarnings =
            [] →
          ∀ node ∈ (resolveReferenced toLowercase workspaceName scanned facts environments).nodes,
            ∀ config, Configures toLowercase scanned facts environments node config →
              ∀ entry ∈ config.environment, ∀ rawDomain domain,
                Replaced (declaredCtx toLowercase scanned facts)
                  (resolveReferenced toLowercase workspaceName scanned facts environments) config
                  rawDomain domain entry := by
  constructor
  · intro config rawDomain domain graph value
    obtain ⟨cuts, tail, scanned, expands, lists⟩ :=
      scanners_end config rawDomain domain graph value.toList
    refine ⟨cuts.filterMap Cut.call, ?_, ?_⟩
    · rw [expands, expandServiceFqdnTemplates, String.toList_ofList]
      rfl
    · have paths : (fun cut : Cut => cut.call.map Prod.fst) = Cut.path := by
        funext cut
        cases path : cut.path <;> simp [Cut.call, path]
      rw [lists, List.map_filterMap, paths]
  · intro toLowercase workspaceName scanned facts environments free node listed config configures
      entry declared rawDomain domain
    obtain ⟨cuts, tail, scans⟩ := exists_scanned entry.toList
    refine ⟨cuts, tail, scans, ?_, ?_⟩
    · rw [expandServiceFqdnTemplates, String.toList_ofList]
      exact expandTemplates_eq config rawDomain domain _ scans _ scans.length_le
    · intro cut member path named pulled
      have listedPath : String.ofList path ∈ fqdnTemplatePaths entry := by
        rw [fqdnTemplatePaths_eq scans]
        exact List.mem_map_of_mem (List.mem_filterMap.mpr ⟨cut, member, named⟩)
      obtain ⟨target, inside, leads⟩ :=
        sibling_known free listed configures declared listedPath pulled cut.zone
      refine ⟨target, inside, ?_⟩
      rw [Cut.rendered, Cut.resolved, named]
      simp only [leads, Option.map_some, Option.getD_some]
      rfl

/-- A shop whose web server is told where the database of the shop is. -/
def shopWithDatabase : OrderedMap String ComponentConfig :=
  (∅ : OrderedMap String ComponentConfig).insert "shop"
    { services := ((∅ : OrderedMap String ServiceConfig).insert "web"
        { image := some "nginx" }).insert "db" { image := some "postgres" } }

def databaseUrl (_folder name : String) : List String :=
  if name = "web" then ["DB=$\x7bFGHJ_SERVICE_FQDN:db\x7d"] else []

/-- Nothing refuses the shop, and its web server is given the domain of the database. -/
theorem templates_checked_shop :
    ∃ node ∈ (resolveReferenced id "w" shopWithDatabase ∅ databaseUrl).nodes, ∃ config,
      Configures id shopWithDatabase ∅ databaseUrl node config ∧
        config.environment = ["DB=$\x7bFGHJ_SERVICE_FQDN:db\x7d"] ∧
        Replaced (declaredCtx id shopWithDatabase ∅)
          (resolveReferenced id "w" shopWithDatabase ∅ databaseUrl) config
          "web.shop.w.fghj.raw.internal" "web.shop.w.fghj.internal"
          "DB=$\x7bFGHJ_SERVICE_FQDN:db\x7d" := by
  obtain ⟨node, listed, declared⟩ :
      ∃ node ∈ (resolveReferenced id "w" shopWithDatabase ∅ databaseUrl).nodes,
        ResolveCtx.environmentOf (environmentTable databaseUrl shopWithDatabase) node =
          ["DB=$\x7bFGHJ_SERVICE_FQDN:db\x7d"] := by
    decide
  let config : NodeConfig :=
    { id := node.id
      kind := node.kind
      localPath := node.localPath
      includes := (declaredCtx id shopWithDatabase ∅).includesOf node
      environment := ResolveCtx.environmentOf (environmentTable databaseUrl shopWithDatabase) node }
  have configures : Configures id shopWithDatabase ∅ databaseUrl node config := ⟨rfl, rfl, rfl, rfl⟩
  have member : "DB=$\x7bFGHJ_SERVICE_FQDN:db\x7d" ∈ config.environment := by
    rw [configures.environment, declared]
    exact List.mem_singleton_self _
  exact ⟨node, listed, config, configures, declared,
    templates_checked.2 id "w" shopWithDatabase ∅ databaseUrl (by decide) node listed config
      configures _ member _ _⟩

end Resolver
end Fghj
