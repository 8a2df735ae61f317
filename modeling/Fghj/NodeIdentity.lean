import Fghj.Includes
import Fghj.NodeSpecs
import Fghj.Universe

/-!
# What a node id names

A service's node goes under the service's name and its folder's, joined by a dot; a stub goes under
the folder its repo clones to. Folders, unlike services, may have dots in their names, and so may
what a reference names: whether an id names one node is a question about these texts.
-/

namespace Fghj

open Std (ExtTreeMap)

namespace Resolver

open ResolveCtx (place place_eq_iff)

/-- The names of all services are ones that a file can have. -/
def ValidNames (scanned : OrderedMap String ComponentConfig) : Prop :=
  ∀ repo ∈ scanned.toList, ∀ entry ∈ repo.2.services.toList, Name.whyInvalid entry.1 = none

instance (scanned : OrderedMap String ComponentConfig) : Decidable (ValidNames scanned) :=
  inferInstanceAs (Decidable (∀ repo ∈ scanned.toList, ∀ entry ∈ repo.2.services.toList,
    Name.whyInvalid entry.1 = none))

/-- A folder's file has the service. -/
def Declares (scanned : OrderedMap String ComponentConfig) (folder name : String) : Prop :=
  ∃ component, scanned[folder]? = some component ∧ name ∈ component.services

/-! ## The nodes of the services -/

/-- A name without dots and what follows its dot are told by the id. -/
theorem nodeId_inj {name folder other otherFolder : String} (plain : '.' ∉ name.toList)
    (otherPlain : '.' ∉ other.toList) (same : nodeId name folder = nodeId other otherFolder) :
    folder = otherFolder ∧ name = other := by
  have shape : ∀ name folder : String,
      (nodeId name folder).toList = name.toList ++ '.' :: folder.toList := by
    intro name folder
    simp [nodeId]
  have split := congrArg (fun id => Text.splitOnce '.' id.toList) same
  rw [shape, shape, Text.splitOnce_append plain, Text.splitOnce_append otherPlain,
    Option.some.injEq, Prod.mk.injEq] at split
  exact ⟨String.toList_inj.mp split.2, String.toList_inj.mp split.1⟩

section Nodes

variable {toLowercase : String → String} {scanned : OrderedMap String ComponentConfig}
  {facts : OrderedMap String RepoFacts} {folder name : String}

theorem Declares.dot_not_mem (valid : ValidNames scanned)
    (declares : Declares scanned folder name) : '.' ∉ name.toList := by
  obtain ⟨component, scans, service⟩ := declares
  obtain ⟨config, lookup⟩ :=
    Option.isSome_iff_exists.mp (ExtTreeMap.mem_iff_isSome_getElem?.mp service)
  exact Name.dot_not_mem (valid _ (ExtTreeMap.mem_toList_iff_getElem?_eq_some.mpr scans) _
    (ExtTreeMap.mem_toList_iff_getElem?_eq_some.mpr lookup))

/-- Two declared services have two ids. -/
theorem Declares.id_inj (valid : ValidNames scanned) (declares : Declares scanned folder name)
    {otherFolder other : String} (also : Declares scanned otherFolder other)
    (same : nodeId name folder = nodeId other otherFolder) : folder = otherFolder ∧ name = other :=
  nodeId_inj (declares.dot_not_mem valid) (also.dot_not_mem valid) same

/-- Every node is a declared service's. -/
def OnlyServices (scanned : OrderedMap String ComponentConfig) (ctx : ResolveCtx) : Prop :=
  ∀ (id : String) (node : Node), ctx.nodes[id]? = some node →
    ∃ folder name, Declares scanned folder name ∧ id = nodeId name folder ∧
      place node = (id, true, some folder)

theorem OnlyServices.addServiceNode {ctx : ResolveCtx} (only : OnlyServices scanned ctx)
    {entry : String × ServiceConfig} (declares : Declares scanned folder entry.1) :
    OnlyServices scanned (ResolveCtx.addServiceNode folder ctx entry) := by
  intro id node filed
  rw [ResolveCtx.addServiceNode, ExtTreeMap.getElem?_insert] at filed
  split at filed
  · rename_i same
    obtain rfl := Std.compare_eq_iff_eq.mp same
    obtain rfl := Option.some.inj filed
    exact ⟨folder, entry.1, declares, rfl, rfl⟩
  · exact only id node filed

theorem OnlyServices.addRepoNodes {ctx : ResolveCtx} (only : OnlyServices scanned ctx)
    {repo : String × ComponentConfig} (scans : repo ∈ scanned.toList) :
    OnlyServices scanned (ctx.addRepoNodes repo) := by
  have services : ∀ ctx, OnlyServices scanned ctx → OnlyServices scanned
      (repo.2.services.toList.foldl (ResolveCtx.addServiceNode repo.1) ctx) := by
    intro ctx only
    refine List.foldlRecOn (motive := OnlyServices scanned) _ _ only fun ctx only entry
      service => ?_
    apply only.addServiceNode
    refine ⟨repo.2, ExtTreeMap.mem_toList_iff_getElem?_eq_some.mp scans, ?_⟩
    exact ExtTreeMap.mem_iff_isSome_getElem?.mpr (Option.isSome_of_eq_some
      (ExtTreeMap.mem_toList_iff_getElem?_eq_some.mp service))
  rw [ResolveCtx.addRepoNodes]
  split
  · exact services _ only
  · exact services _ only

/-- Every node before the includes is a declared service's. -/
theorem onlyServices_servicesCtx : OnlyServices scanned (servicesCtx toLowercase scanned facts) :=
  List.foldlRecOn (motive := OnlyServices scanned) _ _ (fun id node filed => by simp at filed)
    fun _ only _ scans => only.addRepoNodes scans

/-- A declared service has its node before the includes. -/
theorem Declares.served (toLowercase : String → String) (facts : OrderedMap String RepoFacts)
    (valid : ValidNames scanned) (declares : Declares scanned folder name) :
    ∃ node, (servicesCtx toLowercase scanned facts).nodes[nodeId name folder]? = some node ∧
      place node = (nodeId name folder, true, some folder) := by
  have known : nodeId name folder ∈ (servicesCtx toLowercase scanned facts).nodes := by
    obtain ⟨component, scans, service⟩ := declares
    exact (ResolveCtx.declared_addRepoNodes rfl).service_known (folder, component)
      (ExtTreeMap.mem_toList_iff_getElem?_eq_some.mpr scans) name service
  obtain ⟨node, filed⟩ := Option.isSome_iff_exists.mp (ExtTreeMap.mem_iff_isSome_getElem?.mp known)
  obtain ⟨other, otherName, also, same, place⟩ := onlyServices_servicesCtx _ node filed
  obtain ⟨rfl, -⟩ := declares.id_inj valid also same
  exact ⟨node, filed, place⟩

/-! ## The nodes of the graph -/

variable {workspaceName : String}

/-- A node of the graph stands where it was put before anything was started. -/
theorem exists_place_iff {spot : String × Bool × Option String} :
    (∃ node ∈ (resolveWorkspace toLowercase workspaceName scanned facts).nodes, place node = spot) ↔
      ((includedCtx toLowercase scanned facts).nodes[spot.1]?).map place = some spot := by
  have sound := (declaredCtx_spec toLowercase scanned facts).2
  have nodes : (resolveWorkspace toLowercase workspaceName scanned facts).nodes =
      ((declaredCtx toLowercase scanned facts).resolved workspaceName).nodes := rfl
  rw [nodes, ← (samePlaces_declaredCtx toLowercase scanned facts).nodes]
  constructor
  · rintro ⟨node, listed, rfl⟩
    obtain ⟨id, held, filed, rfl⟩ := (ResolveCtx.mem_resolved_nodes sound).mp listed
    have named : held.id = id := (sound.node_sound id held filed).named
    subst named
    exact Option.map_eq_some_iff.mpr ⟨held, filed, rfl⟩
  · intro found
    obtain ⟨held, filed, rfl⟩ := Option.map_eq_some_iff.mp found
    exact ⟨_, (ResolveCtx.mem_resolved_nodes sound).mpr ⟨_, held, filed, rfl⟩, rfl⟩

/-- The first missing include of a URL leaves a stub where no service's node is. -/
theorem place_includedCtx_iff {id : String} {spot : String × Bool × Option String} :
    ((includedCtx toLowercase scanned facts).nodes[id]?).map place = some spot ↔
      ((servicesCtx toLowercase scanned facts).nodes[id]?).map place = some spot ∨
      id ∉ (servicesCtx toLowercase scanned facts).nodes ∧ spot = (id, false, some id) ∧
        ∃ first : Inclusion, first.FirstMissing toLowercase scanned facts ∧ first.segment = id := by
  obtain ⟨placed, -⟩ := placed_includedCtx toLowercase scanned facts
  by_cases service : id ∈ (servicesCtx toLowercase scanned facts).nodes
  · rw [placed.service_kept id service]
    exact ⟨.inl, fun found => found.resolve_right fun stub => stub.1 service⟩
  · rw [ExtTreeMap.getElem?_eq_none service]
    constructor
    · intro found
      obtain ⟨node, filed, rfl⟩ := Option.map_eq_some_iff.mp found
      obtain ⟨stub, norm, named⟩ := placed.stub_added id node filed service
      obtain ⟨first, leads, -, segment⟩ := exists_firstMissing_of_stubName named
      exact .inr ⟨service, stub, first, leads, segment⟩
    · rintro (none | ⟨-, rfl, first, leads, rfl⟩)
      · cases none
      · have known := placed.stub_known _ _ (stubName_of_firstMissing leads)
        obtain ⟨node, filed⟩ :=
          Option.isSome_iff_exists.mp (ExtTreeMap.mem_iff_isSome_getElem?.mp known)
        rw [filed, Option.map_some, (placed.stub_added _ node filed service).1]

theorem Declares.exists_node (valid : ValidNames scanned)
    (declares : Declares scanned folder name) :
    ∃ node ∈ (resolveWorkspace toLowercase workspaceName scanned facts).nodes,
      place node = (nodeId name folder, true, some folder) := by
  obtain ⟨node, filed, stands⟩ := declares.served toLowercase facts valid
  exact exists_place_iff.mpr (place_includedCtx_iff.mpr
    (.inl (Option.map_eq_some_iff.mpr ⟨node, filed, stands⟩)))

/-- A stub whose name is no service's id has its node. -/
theorem exists_stub_node {first : Inclusion} (leads : first.FirstMissing toLowercase scanned facts)
    (free : ∀ folder name, Declares scanned folder name → first.segment ≠ nodeId name folder) :
    ∃ node ∈ (resolveWorkspace toLowercase workspaceName scanned facts).nodes,
      place node = (first.segment, false, some first.segment) := by
  refine exists_place_iff.mpr (place_includedCtx_iff.mpr
    (.inr ⟨fun service => ?_, rfl, first, leads, rfl⟩))
  obtain ⟨node, filed⟩ :=
    Option.isSome_iff_exists.mp (ExtTreeMap.mem_iff_isSome_getElem?.mp service)
  obtain ⟨folder, name, declares, same, -⟩ := onlyServices_servicesCtx _ node filed
  exact free folder name declares same

/-- A node is a declared service's or a stub. -/
theorem service_or_stub {node : Node}
    (listed : node ∈ (resolveWorkspace toLowercase workspaceName scanned facts).nodes) :
    (∃ folder name, Declares scanned folder name ∧
      place node = (nodeId name folder, true, some folder)) ∨
    ∃ first : Inclusion, first.FirstMissing toLowercase scanned facts ∧
      place node = (first.segment, false, some first.segment) := by
  rcases place_includedCtx_iff.mp (exists_place_iff.mp ⟨node, listed, rfl⟩) with
    found | ⟨-, stub, first, leads, segment⟩
  · obtain ⟨held, filed, same⟩ := Option.map_eq_some_iff.mp found
    obtain ⟨folder, name, declares, id, stands⟩ := onlyServices_servicesCtx _ held filed
    exact .inl ⟨folder, name, declares, by rw [← same, stands, id]⟩
  · exact .inr ⟨first, leads, by rw [stub, segment]⟩

/-! ## References -/

/-- The folder and the name that a repo's reference is about. -/
inductive RefersTo (toLowercase : String → String) (scanned : OrderedMap String ComponentConfig)
    (facts : OrderedMap String RepoFacts) (repo : String) : Target → String → String → Prop
  | bare (name : String) : RefersTo toLowercase scanned facts repo (.bare name) repo name
  | qualified {site : Inclusion} {folder : String} (listed : site ∈ inclusions scanned)
      (own : site.repo = repo) (leads : Leads toLowercase scanned facts site folder)
      (name : String) :
      RefersTo toLowercase scanned facts repo (.qualified site.name name) folder name

/-- The id that a repo's reference is resolved to. -/
def referenceId (toLowercase : String → String) (scanned : OrderedMap String ComponentConfig)
    (facts : OrderedMap String RepoFacts) (repo path : String) : Option String :=
  Orchestrator.referenceTargetId repo
    (((declaredCtx toLowercase scanned facts).includes[repo]?).getD ∅) path

theorem RefersTo.referenceId {repo path : String}
    (refers : RefersTo toLowercase scanned facts repo (Target.parse path) folder name) :
    referenceId toLowercase scanned facts repo path = some (nodeId name folder) := by
  rw [Resolver.referenceId, Orchestrator.referenceTargetId]
  generalize Target.parse path = target at refers
  cases refers with
  | bare => rfl
  | qualified listed own leads =>
      have found := leads.aliasTarget listed
      rw [own, ResolveCtx.aliasTarget, Option.bind_eq_some_iff] at found
      obtain ⟨resolved, includes, target⟩ := found
      simp only [includes, Option.getD_some, target, Option.map_some]

/-! ## One node for one id -/

/-- The nodes of the graph are the declared services and one stub for each missing repo, and a
reference finds the service it is about. -/
structure NodesIdentified (toLowercase : String → String) (workspaceName : String)
    (scanned : OrderedMap String ComponentConfig) (facts : OrderedMap String RepoFacts)
    (references : List (String × String)) : Prop where
  distinct : ((resolveWorkspace toLowercase workspaceName scanned facts).nodes.map Node.id).Nodup
  service : ∀ folder name, Declares scanned folder name →
    ∃ node ∈ (resolveWorkspace toLowercase workspaceName scanned facts).nodes,
      place node = (nodeId name folder, true, some folder)
  service_inj : ∀ folder name otherFolder other, Declares scanned folder name →
    Declares scanned otherFolder other → nodeId name folder = nodeId other otherFolder →
      folder = otherFolder ∧ name = other
  stub : ∀ site ∈ inclusions scanned, site.missing toLowercase scanned facts →
    ∃ node ∈ (resolveWorkspace toLowercase workspaceName scanned facts).nodes,
      node.downloaded = false ∧
        (declaredCtx toLowercase scanned facts).aliasTarget site.repo site.name = some node.id
  stub_inj : ∀ site ∈ inclusions scanned, ∀ other ∈ inclusions scanned,
    site.missing toLowercase scanned facts → other.missing toLowercase scanned facts →
      ((declaredCtx toLowercase scanned facts).aliasTarget site.repo site.name =
        (declaredCtx toLowercase scanned facts).aliasTarget other.repo other.name ↔
          site.norm toLowercase = other.norm toLowercase)
  only : ∀ node ∈ (resolveWorkspace toLowercase workspaceName scanned facts).nodes,
    (∃ folder name, Declares scanned folder name ∧
      place node = (nodeId name folder, true, some folder)) ∨
    ∃ site ∈ inclusions scanned, site.missing toLowercase scanned facts ∧
      node.downloaded = false ∧
        (declaredCtx toLowercase scanned facts).aliasTarget site.repo site.name = some node.id
  reference : ∀ reference ∈ references, ∀ folder name,
    RefersTo toLowercase scanned facts reference.1 (Target.parse reference.2) folder name →
      ((∃ node ∈ (resolveWorkspace toLowercase workspaceName scanned facts).nodes,
        referenceId toLowercase scanned facts reference.1 reference.2 = some node.id) ↔
          Declares scanned folder name)

/-- No text is the id of two things. -/
structure IdsApart (toLowercase : String → String) (scanned : OrderedMap String ComponentConfig)
    (facts : OrderedMap String RepoFacts) (references : List (String × String)) : Prop where
  /-- The first missing includes of two URLs clone to two folders. -/
  stubsApart : ∀ site other : Inclusion, site.FirstMissing toLowercase scanned facts →
    other.FirstMissing toLowercase scanned facts → site.segment = other.segment →
      site.norm toLowercase = other.norm toLowercase
  /-- Such a folder is no service's id. -/
  stubsFree : ∀ first : Inclusion, first.FirstMissing toLowercase scanned facts →
    ∀ folder name, Declares scanned folder name → first.segment ≠ nodeId name folder
  /-- A reference to no service makes no service's id. -/
  referencesDeclared : ∀ reference ∈ references, ∀ folder name,
    RefersTo toLowercase scanned facts reference.1 (Target.parse reference.2) folder name →
      ∀ otherFolder other, Declares scanned otherFolder other →
        nodeId name folder = nodeId other otherFolder → Declares scanned folder name
  /-- It makes no folder's name that a missing include clones to. -/
  referencesFree : ∀ reference ∈ references, ∀ folder name,
    RefersTo toLowercase scanned facts reference.1 (Target.parse reference.2) folder name →
      ∀ first : Inclusion, first.FirstMissing toLowercase scanned facts →
        first.segment ≠ nodeId name folder

variable {references : List (String × String)}

theorem resolveWorkspace_ids_nodup :
    ((resolveWorkspace toLowercase workspaceName scanned facts).nodes.map Node.id).Nodup :=
  show (((declaredCtx toLowercase scanned facts).resolved workspaceName).nodes.map
    Node.id).Nodup from
    ResolveCtx.resolved_ids_nodup (declaredCtx_spec toLowercase scanned facts).2

/-- The alias of a missing include leads to the stub named after the first of its URL. -/
theorem aliasTarget_of_missing {site : Inclusion} (listed : site ∈ inclusions scanned)
    (missing : site.missing toLowercase scanned facts) :
    ∃ first : Inclusion, first.FirstMissing toLowercase scanned facts ∧
      first.norm toLowercase = site.norm toLowercase ∧
      (declaredCtx toLowercase scanned facts).aliasTarget site.repo site.name =
        some first.segment := by
  obtain ⟨first, leads, norm, -⟩ := exists_firstMissing listed missing
  exact ⟨first, leads, norm, (Leads.stub leads missing norm).aliasTarget listed⟩

/-- Where no text is the id of two things, every id names one node. -/
theorem IdsApart.identified (apart : IdsApart toLowercase scanned facts references)
    (valid : ValidNames scanned) :
    NodesIdentified toLowercase workspaceName scanned facts references where
  distinct := resolveWorkspace_ids_nodup
  service := fun folder name declares => declares.exists_node valid
  service_inj := fun folder name otherFolder other declares also => declares.id_inj valid also
  stub := by
    intro site listed missing
    obtain ⟨first, leads, -, target⟩ := aliasTarget_of_missing listed missing
    obtain ⟨node, known, stands⟩ := exists_stub_node leads (apart.stubsFree first leads)
    obtain ⟨id, absent, -⟩ := place_eq_iff.mp stands
    exact ⟨node, known, absent, id ▸ target⟩
  stub_inj := by
    intro site listed other also missing otherMissing
    obtain ⟨first, leads, norm, target⟩ := aliasTarget_of_missing listed missing
    obtain ⟨otherFirst, otherLeads, otherNorm, otherTarget⟩ :=
      aliasTarget_of_missing also otherMissing
    rw [target, otherTarget, Option.some_inj, ← norm, ← otherNorm]
    exact ⟨apart.stubsApart first otherFirst leads otherLeads, leads.segment_eq otherLeads⟩
  only := by
    intro node listed
    refine (service_or_stub listed).imp_right ?_
    rintro ⟨first, leads, stands⟩
    obtain ⟨id, absent, -⟩ := place_eq_iff.mp stands
    exact ⟨first, leads.missing.1, leads.missing.2, absent,
      id ▸ aliasTarget_of_firstMissing leads⟩
  reference := by
    intro reference listed folder name refers
    rw [refers.referenceId]
    constructor
    · rintro ⟨node, known, same⟩
      obtain same := Option.some.inj same
      rcases service_or_stub known with ⟨otherFolder, other, declares, stands⟩ |
        ⟨first, leads, stands⟩
      · exact apart.referencesDeclared reference listed folder name refers otherFolder other
          declares
          (same.trans (place_eq_iff.mp stands).1)
      · exact absurd (same.trans (place_eq_iff.mp stands).1).symm
          (apart.referencesFree reference listed folder name refers first leads)
    · intro declares
      obtain ⟨node, known, stands⟩ := declares.exists_node valid
      exact ⟨node, known, congrArg some (place_eq_iff.mp stands).1.symm⟩

/-- Where every id names one node, no text is the id of two things. -/
theorem NodesIdentified.apart
    (identified : NodesIdentified toLowercase workspaceName scanned facts references) :
    IdsApart toLowercase scanned facts references := by
  have free : ∀ first : Inclusion, first.FirstMissing toLowercase scanned facts →
      ∀ folder name, Declares scanned folder name → first.segment ≠ nodeId name folder := by
    intro first leads folder name declares same
    obtain ⟨stub, known, absent, target⟩ := identified.stub first leads.missing.1 leads.missing.2
    obtain ⟨node, also, stands⟩ := identified.service folder name declares
    obtain ⟨id, here, -⟩ := place_eq_iff.mp stands
    rw [aliasTarget_of_firstMissing leads, Option.some_inj, same, ← id] at target
    rw [List.inj_on_of_nodup_map identified.distinct also known target, absent] at here
    cases here
  refine ⟨fun site other leads others together => ?_, free,
    fun reference listed folder name refers otherFolder other declares same => ?_,
    fun reference listed folder name refers first leads same => ?_⟩
  · apply (identified.stub_inj site leads.missing.1 other others.missing.1 leads.missing.2
      others.missing.2).mp
    rw [aliasTarget_of_firstMissing leads, aliasTarget_of_firstMissing others, together]
  · obtain ⟨node, known, stands⟩ := identified.service otherFolder other declares
    refine (identified.reference reference listed folder name refers).mp ⟨node, known, ?_⟩
    rw [refers.referenceId, same, (place_eq_iff.mp stands).1]
  · obtain ⟨stub, known, -, target⟩ := identified.stub first leads.missing.1 leads.missing.2
    rw [aliasTarget_of_firstMissing leads, same] at target
    refine free first leads folder name ?_ same
    refine (identified.reference reference listed folder name refers).mp ⟨stub, known, ?_⟩
    rw [refers.referenceId, target]

/-- Every id names one node if and only if no text is the id of two things. -/
theorem nodes_identified_iff (toLowercase : String → String) (workspaceName : String)
    (scanned : OrderedMap String ComponentConfig) (facts : OrderedMap String RepoFacts)
    (references : List (String × String)) (valid : ValidNames scanned) :
    NodesIdentified toLowercase workspaceName scanned facts references ↔
      IdsApart toLowercase scanned facts references :=
  ⟨NodesIdentified.apart, fun apart => apart.identified valid⟩

end Nodes

/-- A shop of one service that includes the given URLs, alone on disk. -/
def shopIncluding (urls : List (String × String)) : OrderedMap String ComponentConfig :=
  (∅ : OrderedMap String ComponentConfig).insert "shop"
    { include_ := urls.foldl (fun includes url => includes.insert url.1 { repo := url.2 }) ∅
      services := (∅ : OrderedMap String ServiceConfig).insert "web" { image := some "nginx" } }

/-- A shop, the repo it includes, and a reference to its own service. -/
theorem nodes_identified_shop :
    NodesIdentified id "w" (shopIncluding [("backend", "https://x/acme/api.git")]) ∅
      [("shop", "web")] := by
  have single : inclusions (shopIncluding [("backend", "https://x/acme/api.git")]) =
      [⟨"shop", "backend", { repo := "https://x/acme/api.git" }⟩] := by decide
  have named : ∀ first : Inclusion, first.FirstMissing id
      (shopIncluding [("backend", "https://x/acme/api.git")]) ∅ → first.segment = "api" := by
    intro first leads
    have listed := leads.missing.1
    rw [single, List.mem_singleton] at listed
    rw [listed]
    decide
  have served : ∀ folder name,
      Declares (shopIncluding [("backend", "https://x/acme/api.git")]) folder name →
        folder = "shop" ∧ name = "web" := by
    rintro folder name ⟨component, scans, service⟩
    rw [shopIncluding, ExtTreeMap.getElem?_insert] at scans
    split at scans
    · rename_i same
      obtain rfl := Option.some.inj scans
      rcases ExtTreeMap.mem_insert.mp service with web | none
      · exact ⟨(Std.compare_eq_iff_eq.mp same).symm, (Std.compare_eq_iff_eq.mp web).symm⟩
      · exact absurd none ExtTreeMap.not_mem_empty
    · simp at scans
  have refers : ∀ folder name, RefersTo id (shopIncluding [("backend", "https://x/acme/api.git")]) ∅
      "shop" (Target.parse "web") folder name → folder = "shop" ∧ name = "web" := by
    intro folder name refers
    rw [show Target.parse "web" = .bare "web" by decide] at refers
    cases refers
    exact ⟨rfl, rfl⟩
  refine (nodes_identified_iff id "w" _ ∅ [("shop", "web")] (by decide)).mpr
    ⟨fun site other leads others _ => ?_, fun first leads folder name declares => ?_,
      fun reference listed folder name about otherFolder other declares _ => ?_,
      fun reference listed folder name about first leads => ?_⟩
  · have listed := leads.missing.1
    have also := others.missing.1
    rw [single, List.mem_singleton] at listed also
    rw [listed, also]
  · obtain ⟨rfl, rfl⟩ := served folder name declares
    rw [named first leads]
    decide
  · obtain rfl := List.mem_singleton.mp listed
    obtain ⟨rfl, rfl⟩ := refers folder name about
    obtain ⟨rfl, rfl⟩ := served otherFolder other declares
    exact declares
  · obtain rfl := List.mem_singleton.mp listed
    obtain ⟨rfl, rfl⟩ := refers folder name about
    rw [named first leads]
    decide

/-- Two projects' repos of one name share a stub. -/
theorem two_repos_share_a_stub :
    ¬∀ scanned facts references, ValidNames scanned →
      (resolveWorkspace id "w" scanned facts).blockingWarnings = [] →
        NodesIdentified id "w" scanned facts references := by
  intro claim
  have identified := claim (shopIncluding [("backend", "https://x/acme/api.git"),
    ("billing", "https://x/initech/api.git")]) ∅ [] (by decide) (by decide)
  have same := (identified.stub_inj ⟨"shop", "backend", { repo := "https://x/acme/api.git" }⟩
    (by decide) ⟨"shop", "billing", { repo := "https://x/initech/api.git" }⟩
    (by decide) (by decide) (by decide)).mp (by decide)
  exact absurd same (by decide)

/-- A repo that clones to a folder named like a service's id is taken for the service. -/
example : (resolveWorkspace id "w" (shopIncluding [("backend", "https://x/acme/web.shop.git")])
    ∅).nodes.map Node.id = ["web.shop"] := by
  decide

end Resolver
end Fghj
