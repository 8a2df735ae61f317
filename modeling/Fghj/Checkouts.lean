import Fghj.Universe

/-!
# Checkouts on disk

What a pull reads of a workspace: the folders on disk, which of them the scan takes for repos, the
clones that services build from, and the clones that the resolved graph lacks. A folder without a
readable file is on disk but not in the scan, so whoever includes it still sees a stub.
-/

namespace Fghj
namespace Checkouts

open Std (ExtTreeMap)
open Text Resolver

/-! ## Build contexts -/

/-- A git URL as a build context: `<url>#<ref>:<subdir>`. -/
structure RemoteContext where
  url : String
  reference : Option String
  subdir : Option String
  deriving DecidableEq

def isRemote (context : String) : Bool :=
  ["https://", "http://", "ssh://", "git@", "file://"].any fun scheme =>
    scheme.toList.isPrefixOf context.toList

def nonEmpty (text : List Char) : Option String :=
  if text.isEmpty then none else some (String.ofList text)

/-- The fragment is split on its first colon, so the colon of `git@host:org/x` is no subdir's. -/
def parseRemote (context : String) : Option RemoteContext :=
  if isRemote context then
    let (url, fragment) := (splitOnce '#' context.toList).getD (context.toList, [])
    let (reference, subdir) := (splitOnce ':' fragment).getD (fragment, [])
    some
      { url := String.ofList url
        reference := nonEmpty reference
        subdir := nonEmpty (trimEndMatches ['/'] (subdir.dropWhile (· = '/'))) }
  else none

/-- The folder that holds the clones services build from. -/
def sourcesDir : String := "_fghj_sources"

/-- The folder below it, `<name>@<ref>`; a `/` in a branch becomes `-`. -/
def sourceFolder (url : String) (reference : Option String) : String :=
  let name := String.ofList (trimEndMatches ".git".toList
    ((trimEndMatches ['/'] url.toList).reverse.takeWhile fun char =>
      char ≠ '/' && char ≠ ':').reverse)
  match reference with
  | some reference =>
      name ++ "@" ++ String.ofList (reference.toList.map fun char =>
        if char = '/' then '-' else char)
  | none => name

example : parseRemote "https://github.com/acme/geocoder.git#v2.3.1:server" =
    some ⟨"https://github.com/acme/geocoder.git", some "v2.3.1", some "server"⟩ := by
  decide

example : sourceFolder "https://x/y.git" (some "feature/z") = "y@feature-z" := by
  decide

/-- `git clone --branch` takes only branches and tags, so a commit is checked out afterwards. -/
def looksLikeCommit (reference : String) : Bool :=
  7 ≤ reference.length && reference.length ≤ 40 &&
    reference.toList.all fun char =>
      char.isDigit || ('a' ≤ char && char ≤ 'f') || ('A' ≤ char && char ≤ 'F')

/-! ## The disk -/

/-- One repo's file, with the build context of each service that is built. -/
structure RepoFile where
  component : ComponentConfig
  contexts : OrderedMap String String := ∅

/-- What stands in a checkout for the file that declares a repo. -/
inductive FghjYaml where
  | absent
  | unreadable
  | readable (file : RepoFile)

def FghjYaml.file? : FghjYaml → Option RepoFile
  | .readable file => some file
  | .absent | .unreadable => none

structure Folder where
  /-- Whether it holds a `.git` of its own. -/
  git : Bool := false
  /-- What git says in it; without a `.git` of its own, of the checkout it is inside. -/
  facts : RepoFacts := {}
  yaml : FghjYaml := .absent

/-- Where a path of the workspace leads. -/
inductive Place where
  | parent
  | root
  | folder (name : String)
  | source (name : String)
  | aboveSources
  deriving DecidableEq

/-- A name in the workspace. -/
def Place.ofFolder (name : String) : Place :=
  if name = "" ∨ name = "." then .root
  else if name = ".." then .parent
  else .folder name

/-- A name in the folder of sources. -/
def Place.ofSource (name : String) : Place :=
  if name = "" ∨ name = "." then .folder sourcesDir
  else if name = ".." then .aboveSources
  else .source name

structure Disk where
  /-- The workspace's own folders. -/
  folders : OrderedMap String Folder := ∅
  /-- The folders of the folder of sources. -/
  sources : OrderedMap String Folder := ∅
  root : Folder := {}
  parent : Folder := {}

namespace Disk

variable (disk : Disk)

/-- What stands at a place. -/
def find : Place → Option Folder
  | .parent => some disk.parent
  | .root => some disk.root
  | .folder name => disk.folders[name]?
  | .source name => disk.sources[name]?
  | .aboveSources => if disk.folders.contains sourcesDir then some disk.root else none

/-- The folder of sources, made if it is not there. -/
def makeSources : Disk :=
  if disk.folders.contains sourcesDir then disk
  else { disk with folders := disk.folders.insert sourcesDir { facts := disk.root.facts } }

/-- The checkout in its place; git takes no other place than a folder of its own. For a source the
folder of sources is made first. -/
def put (checkout : Folder) : Place → Option Disk
  | .folder name => some { disk with folders := disk.folders.insert name checkout }
  | .source name =>
      some { disk.makeSources with sources := disk.sources.insert name checkout }
  | .parent | .root | .aboveSources => none

/-- The readable files, by folder. The folders of the folder of sources are not looked at. -/
def files : OrderedMap String RepoFile := disk.folders.filterMap fun _ folder => folder.yaml.file?

end Disk

/-- The clone a git build context builds from, as read from disk. -/
structure Source extends BuildSource where
  url : String
  folder : String
  downloaded : Bool

/-- Where a source is cloned to. -/
def Source.path (source : Source) : String := sourcesDir ++ "/" ++ source.folder

def Source.read (disk : Disk) (remote : RemoteContext) : Source :=
  let folder := sourceFolder remote.url remote.reference
  let found := disk.find (.ofSource folder)
  let downloaded := found.any Folder.git
  { url := remote.url
    reference := remote.reference
    head := if downloaded then found.bind fun folder => folder.facts.head else none
    dirty := downloaded && found.any fun folder => folder.facts.dirty
    downloaded
    folder }

namespace RepoFile

variable (file : RepoFile)

/-- The git URL a service is built from. -/
def remoteOf (name : String) (service : ServiceConfig) : Option RemoteContext :=
  service.build.bind fun _ => parseRemote ((file.contexts[name]?).getD ".")

/-- A service with what is read of the clone it is built from. -/
def readService (disk : Disk) (name : String) (service : ServiceConfig) : ServiceConfig :=
  { service with
    build := service.build.map fun _ =>
      (file.remoteOf name service).map fun remote => (Source.read disk remote).toBuildSource }

/-- The file with what is read of the clones its services build from. -/
def read (disk : Disk) : ComponentConfig :=
  { file.component with services := file.component.services.map (file.readService disk) }

/-- Where the repos and build sources that a file names are cloned to. -/
def places : List Place :=
  (file.component.include_.toList.map fun entry =>
    .ofFolder (RepoUrl.repoNameFromUrl entry.2.repo)) ++
  file.component.services.toList.filterMap fun entry =>
    (file.remoteOf entry.1 entry.2).map fun remote =>
      .ofSource (sourceFolder remote.url remote.reference)

end RepoFile

namespace Disk

variable (disk : Disk)

/-- A repo whose file is unreadable is skipped, not stubbed. -/
def scanWorkspace : OrderedMap String ComponentConfig := disk.files.map fun _ file => file.read disk

/-- What git says of each repo scanned. -/
def repoFacts : OrderedMap String RepoFacts :=
  disk.folders.filterMap fun _ folder => folder.yaml.file?.map fun _ => folder.facts

/-- The source that one more service is built from, under its node's id. -/
def addSource (repo : String × RepoFile) (held : OrderedMap String (Option Source))
    (entry : String × ServiceConfig) : OrderedMap String (Option Source) :=
  held.insert (nodeId entry.1 repo.1) ((repo.2.remoteOf entry.1 entry.2).map (Source.read disk))

/-- The source each node is built from. -/
def nodeSources : OrderedMap String (Option Source) :=
  disk.files.toList.foldl (fun held repo =>
    repo.2.component.services.toList.foldl (disk.addSource repo) held) ∅

/-- The source of a node that is not there yet. -/
def missingSource (node : Node) : Option Source :=
  (disk.nodeSources[node.id]?).join.filter fun source => !source.downloaded

variable (toLowercase : String → String)

/-- The repo of the stub that one more include is given, next to the stub each remote has. -/
def addStubRepo (acc : OrderedMap String String × OrderedMap String String)
    (entry : String × Include) : OrderedMap String String × OrderedMap String String :=
  let norm := RepoUrl.normalizeRepoUrl toLowercase entry.2.repo
  let target := ((repoIndexOf toLowercase disk.scanWorkspace disk.repoFacts)[norm]?).getD
    (RepoUrl.repoNameFromUrl entry.2.repo)
  if disk.scanWorkspace.contains target then acc
  else
    let stubId := (acc.1[norm]?).getD target
    (acc.1.insert norm stubId,
      if acc.2.contains stubId then acc.2 else acc.2.insert stubId entry.2.repo)

/-- The repo each stub stands for, that of the first include given it. -/
def stubRepos : OrderedMap String String :=
  ((disk.scanWorkspace.toList.flatMap fun repo => repo.2.include_.toList).foldl
    (disk.addStubRepo toLowercase) (∅, ∅)).2

end Disk

theorem file?_eq_some {yaml : FghjYaml} {file : RepoFile} :
    yaml.file? = some file ↔ yaml = .readable file := by
  cases yaml <;> simp [FghjYaml.file?]

/-- The files are those of the folders that have a readable one. -/
theorem mem_listed_files {disk : Disk} {file : RepoFile} :
    file ∈ OrderedMap.listed disk.files ↔ ∃ (name : String) (folder : Folder),
      disk.folders[name]? = some folder ∧ folder.yaml = .readable file := by
  simp only [OrderedMap.mem_listed, Disk.files, ExtTreeMap.getElem?_filterMap',
    Option.bind_eq_some_iff, file?_eq_some]

/-! ## Nodes on disk -/

section Backed

variable (disk : Disk) (sources : OrderedMap String (Option Source))
  (repos : OrderedMap String String)

/-- What stands behind a node: a repo that is scanned, or a repo to clone. -/
structure Backed (id : String) (node : Node) : Prop where
  here : node.downloaded = true → ∃ path, node.localPath = some path ∧ path ∈ disk.files
  stub : node.downloaded = false → node.localPath = some id ∧ id ∈ repos
  built : node.build.join = (sources[id]?).join.map Source.toBuildSource

/-- Something stands behind every node of a resolution. -/
structure AllBacked (ctx : ResolveCtx) : Prop where
  each : ∀ id node, ctx.nodes[id]? = some node → Backed disk sources repos id node
  known : ∀ id ∈ sources, id ∈ ctx.nodes

variable {disk sources repos} {ctx next : ResolveCtx}

theorem Backed.mono {others : OrderedMap String String} {id : String} {node : Node}
    (backed : Backed disk sources repos id node) (more : ∀ id ∈ repos, id ∈ others) :
    Backed disk sources others id node where
  here := backed.here
  stub := fun missing => ⟨(backed.stub missing).1, more id (backed.stub missing).2⟩
  built := backed.built

/-- Only the nodes matter. -/
theorem AllBacked.of_nodes (backed : AllBacked disk sources repos ctx)
    (same : next.nodes = ctx.nodes) : AllBacked disk sources repos next where
  each := fun id node filed => backed.each id node (same ▸ filed)
  known := fun id built => same ▸ backed.known id built

theorem built_readService (disk : Disk) (file : RepoFile) (name : String)
    (service : ServiceConfig) :
    (file.readService disk name service).build.join =
      ((file.remoteOf name service).map (Source.read disk)).map Source.toBuildSource := by
  cases declared : service.build with
  | none => simp [RepoFile.readService, RepoFile.remoteOf, declared]
  | some source => simp [RepoFile.readService, declared, Function.comp_def]

variable {repo : String × RepoFile}

/-- One service gets its node and its source. -/
theorem AllBacked.addServiceNode (backed : AllBacked disk sources repos ctx)
    (scans : repo.1 ∈ disk.files) (entry : String × ServiceConfig) :
    AllBacked disk (disk.addSource repo sources entry) repos
      (ResolveCtx.addServiceNode repo.1 ctx (entry.1,
        repo.2.readService disk entry.1 entry.2)) where
  each := by
    intro id node filed
    simp only [ResolveCtx.addServiceNode, ExtTreeMap.getElem?_insert] at filed
    by_cases same : compare (nodeId entry.1 repo.1) id = .eq
    · rw [if_pos same, Option.some_inj] at filed
      subst filed
      refine ⟨fun _ => ⟨repo.1, rfl, scans⟩, fun missing => (by cases missing), ?_⟩
      rw [Disk.addSource, ExtTreeMap.getElem?_insert, if_pos same]
      exact built_readService disk repo.2 entry.1 entry.2
    · rw [if_neg same] at filed
      have before := backed.each id node filed
      refine ⟨before.here, before.stub, ?_⟩
      rw [Disk.addSource, ExtTreeMap.getElem?_insert, if_neg same]
      exact before.built
  known := by
    intro id built
    rcases ExtTreeMap.mem_insert.mp built with same | old
    · exact ExtTreeMap.mem_insert.mpr (.inl same)
    · exact ExtTreeMap.mem_insert.mpr (.inr (backed.known id old))

/-- The first phase gives every service its node and its source. -/
theorem AllBacked.addRepoNodes (backed : AllBacked disk sources repos ctx)
    (scans : repo.1 ∈ disk.files) :
    AllBacked disk (repo.2.component.services.toList.foldl (disk.addSource repo) sources) repos
      (ctx.addRepoNodes (repo.1, repo.2.read disk)) := by
  have services : ∀ ctx, AllBacked disk sources repos ctx →
      AllBacked disk (repo.2.component.services.toList.foldl (disk.addSource repo) sources) repos
        ((repo.2.read disk).services.toList.foldl (ResolveCtx.addServiceNode repo.1) ctx) := by
    intro ctx backed
    rw [RepoFile.read, ExtTreeMap.toList_map, List.foldl_map]
    exact List.foldl_rel (r := fun held ctx => AllBacked disk held repos ctx) backed
      fun entry _ held ctx backed => backed.addServiceNode scans entry
  simp only [ResolveCtx.addRepoNodes]
  split
  · exact services _ (backed.of_nodes rfl)
  · exact services _ backed

theorem mem_files_of_mem_toList (listed : repo ∈ disk.files.toList) : repo.1 ∈ disk.files :=
  ExtTreeMap.mem_iff_isSome_getElem?.mpr (Option.isSome_of_eq_some
    (ExtTreeMap.mem_toList_iff_getElem?_eq_some.mp listed))

variable (toLowercase : String → String)

/-- The folder a remote is filed under is scanned. -/
theorem mem_of_repoIndexOf {scanned : OrderedMap String ComponentConfig}
    {facts : OrderedMap String RepoFacts} {norm path : String}
    (found : (repoIndexOf toLowercase scanned facts)[norm]? = some path) : path ∈ scanned := by
  rw [getElem?_repoIndexOf] at found
  obtain ⟨entry, first, rfl⟩ := Option.map_eq_some_iff.mp found
  exact ExtTreeMap.mem_iff_isSome_getElem?.mpr (Option.isSome_of_eq_some
    (ExtTreeMap.mem_toList_iff_getElem?_eq_some.mp (List.mem_of_find?_eq_some first)))

/-- A resolution among its includes, next to the repos its stubs stand for. -/
structure Stubbing (disk : Disk) (ctx : ResolveCtx)
    (acc : OrderedMap String String × OrderedMap String String) : Prop where
  backed : AllBacked disk disk.nodeSources acc.2 ctx
  scanned : ctx.scanned = disk.scanWorkspace
  repoIndex : ctx.repoIndex = repoIndexOf toLowercase disk.scanWorkspace disk.repoFacts
  stubRepoIds : ctx.stubRepoIds = acc.1

theorem Stubbing.of_same {acc : OrderedMap String String × OrderedMap String String}
    (stubbing : Stubbing toLowercase disk ctx acc) (nodes : next.nodes = ctx.nodes)
    (scanned : next.scanned = ctx.scanned) (index : next.repoIndex = ctx.repoIndex)
    (ids : next.stubRepoIds = ctx.stubRepoIds) : Stubbing toLowercase disk next acc where
  backed := stubbing.backed.of_nodes nodes
  scanned := scanned.trans stubbing.scanned
  repoIndex := index.trans stubbing.repoIndex
  stubRepoIds := ids.trans stubbing.stubRepoIds

theorem mem_insertIfAbsent {held : OrderedMap String String} {id key value : String}
    (known : id ∈ held) : id ∈ if held.contains key then held else held.insert key value := by
  split
  · exact known
  · exact ExtTreeMap.mem_insert.mpr (.inr known)

/-- A stub is filed where nothing was, and its repo is known. -/
theorem AllBacked.stub (backed : AllBacked disk sources repos ctx) (norm target url : String)
    (branch : Option String) :
    AllBacked disk sources
      (let id := (ctx.stubRepoIds[norm]?).getD target
        if repos.contains id then repos else repos.insert id url)
      (ctx.stub norm target branch).1 where
  each := by
    intro id node filed
    have more : ∀ other ∈ repos, other ∈ (let id := (ctx.stubRepoIds[norm]?).getD target
        if repos.contains id then repos else repos.insert id url) :=
      fun other known => mem_insertIfAbsent known
    simp only [ResolveCtx.stub] at filed
    split at filed
    · exact (backed.each id node filed).mono more
    rename_i unfiled
    rw [ExtTreeMap.getElem?_insert] at filed
    split at filed
    · rename_i same
      obtain rfl := Std.compare_eq_iff_eq.mp same
      obtain rfl := Option.some.inj filed
      refine ⟨fun here => (by cases here), fun _ => ⟨rfl, ?_⟩, ?_⟩
      · dsimp only
        split
        · rename_i contained
          exact ExtTreeMap.contains_iff_mem.mp contained
        · exact ExtTreeMap.mem_insert_self
      · have unbuilt : (ctx.stubRepoIds[norm]?).getD target ∉ sources := fun built =>
          unfiled (ExtTreeMap.contains_iff_mem.mpr (backed.known _ built))
        rw [ExtTreeMap.getElem?_eq_none unbuilt]
        rfl
    · exact (backed.each id node filed).mono more
  known := by
    intro id built
    have filed := backed.known id built
    simp only [ResolveCtx.stub]
    split
    · exact filed
    · exact ExtTreeMap.mem_insert.mpr (.inr filed)

section Include

variable {acc : OrderedMap String String × OrderedMap String String}

/-- An include of a repo that is scanned needs no stub. -/
theorem Stubbing.found (stubbing : Stubbing toLowercase disk ctx acc) (entry : String × Include)
    (scans : ctx.isScanned ((ctx.repoIndex[RepoUrl.normalizeRepoUrl toLowercase
      entry.2.repo]?).getD (RepoUrl.repoNameFromUrl entry.2.repo))) :
    Stubbing toLowercase disk ctx (disk.addStubRepo toLowercase acc entry) := by
  rw [ResolveCtx.isScanned, stubbing.scanned, stubbing.repoIndex] at scans
  rw [Disk.addStubRepo, if_pos scans]
  exact stubbing

/-- An include of any other repo leaves its stub and the stub's repo together. -/
theorem Stubbing.stub (stubbing : Stubbing toLowercase disk ctx acc) (entry : String × Include)
    (unscanned : ¬ctx.isScanned ((ctx.repoIndex[RepoUrl.normalizeRepoUrl toLowercase
      entry.2.repo]?).getD (RepoUrl.repoNameFromUrl entry.2.repo))) :
    Stubbing toLowercase disk
      (ctx.stub (RepoUrl.normalizeRepoUrl toLowercase entry.2.repo)
        ((ctx.repoIndex[RepoUrl.normalizeRepoUrl toLowercase entry.2.repo]?).getD
          (RepoUrl.repoNameFromUrl entry.2.repo)) entry.2.defaultBranch).1
      (disk.addStubRepo toLowercase acc entry) := by
  have backed := stubbing.backed.stub (RepoUrl.normalizeRepoUrl toLowercase entry.2.repo)
    ((ctx.repoIndex[RepoUrl.normalizeRepoUrl toLowercase entry.2.repo]?).getD
      (RepoUrl.repoNameFromUrl entry.2.repo)) entry.2.repo entry.2.defaultBranch
  rw [ResolveCtx.isScanned, stubbing.scanned, stubbing.repoIndex] at unscanned
  rw [stubbing.stubRepoIds, stubbing.repoIndex] at backed
  rw [Disk.addStubRepo, if_neg unscanned, stubbing.repoIndex]
  exact ⟨backed, stubbing.scanned, stubbing.repoIndex, by rw
    [ResolveCtx.stub, stubbing.stubRepoIds]⟩

theorem Stubbing.addInclude (stubbing : Stubbing toLowercase disk ctx acc)
    (repo : String × ComponentConfig) (resolved : OrderedMap String String)
    (entry : String × Include) :
    Stubbing toLowercase disk
      (ResolveCtx.addInclude toLowercase repo (ctx, resolved) entry).1
      (disk.addStubRepo toLowercase acc entry) := by
  have warned (warnings : List Warning) : Stubbing toLowercase disk (ctx.warn warnings) acc :=
    stubbing.of_same toLowercase rfl rfl rfl rfl
  simp only [ResolveCtx.addInclude]
  split
  · split
    · rename_i scans
      exact (warned _).found toLowercase entry scans
    · rename_i unscanned
      exact (warned _).stub toLowercase entry unscanned
  · split
    · rename_i scans
      exact stubbing.found toLowercase entry scans
    · rename_i unscanned
      exact stubbing.stub toLowercase entry unscanned

end Include

/-- The second phase leaves every stub with its repo. -/
theorem Stubbing.addIncludes {acc : OrderedMap String String × OrderedMap String String}
    (stubbing : Stubbing toLowercase disk ctx acc) (repo : String × ComponentConfig) :
    Stubbing toLowercase disk (ctx.addIncludes toLowercase repo)
      (repo.2.include_.toList.foldl (disk.addStubRepo toLowercase) acc) := by
  have entries := List.foldl_rel (l := repo.2.include_.toList)
    (f := ResolveCtx.addInclude toLowercase repo) (g := disk.addStubRepo toLowercase)
    (r := fun (state : ResolveCtx × OrderedMap String String) acc =>
      Stubbing toLowercase disk state.1 acc) (a := (ctx, ∅)) stubbing
    fun entry _ state acc stubbing => stubbing.addInclude toLowercase repo state.2 entry
  exact entries.of_same toLowercase rfl rfl rfl rfl

/-- A task is the node it was in another kind. -/
theorem AllBacked.markTask (backed : AllBacked disk sources repos ctx)
    (repo : String × ComponentConfig) (entry : String × ServiceConfig) :
    AllBacked disk sources repos (ResolveCtx.markTask repo ctx entry) := by
  simp only [ResolveCtx.markTask]
  split
  · exact backed
  refine ⟨fun id node filed => ?_, fun id built => ?_⟩
  · simp only [OrderedMap.get_modify] at filed
    split at filed
    · obtain ⟨old, held, rfl⟩ := Option.map_eq_some_iff.mp filed
      have before := backed.each id old held
      exact ⟨before.here, before.stub, before.built⟩
    · exact backed.each id node filed
  · exact ExtTreeMap.mem_modify.mpr (backed.known id built)

theorem addMember_nodes (source : String) (entry : DependsOnEntry) (via : String)
    (ctx : ResolveCtx) (member : String) :
    (ResolveCtx.addMember source entry via ctx member).nodes = ctx.nodes := by
  rw [ResolveCtx.addMember]
  split
  · split <;> rfl
  · rfl

theorem AllBacked.addForeign (backed : AllBacked disk sources repos ctx)
    (localPath source key : String) (target : Target) (entry : DependsOnEntry) :
    AllBacked disk sources repos (ctx.addForeign localPath source key target entry) := by
  simp only [ResolveCtx.addForeign]
  split
  · exact backed.of_nodes rfl
  have checked : AllBacked disk sources repos (if entry.required then ctx
      else ctx.warn (ResolveCtx.checkRuntimeCondition source key entry.condition)) := by
    split
    · exact backed
    · exact backed.of_nodes rfl
  split
  · exact checked.of_nodes rfl
  · exact List.foldlRecOn _ _ checked fun ctx backed member _ =>
      backed.of_nodes (addMember_nodes source entry _ ctx member)

theorem AllBacked.addDependency (backed : AllBacked disk sources repos ctx)
    (repo : String × ComponentConfig) (source : String) (dependency : String × DependsOnEntry) :
    AllBacked disk sources repos (ResolveCtx.addDependency repo source ctx dependency) := by
  simp only [ResolveCtx.addDependency]
  split
  · split
    · split <;> exact backed.of_nodes rfl
    split
    · exact backed.of_nodes rfl
    split
    · exact backed.addForeign _ _ _ _ _
    · exact backed.of_nodes rfl
  · split
    · exact backed.addForeign _ _ _ _ _
    · exact backed.of_nodes rfl

theorem stubbing_addRepoNodes (disk : Disk) :
    Stubbing toLowercase disk
      (disk.scanWorkspace.toList.foldl ResolveCtx.addRepoNodes
        { scanned := disk.scanWorkspace
          repoIndex := repoIndexOf toLowercase disk.scanWorkspace disk.repoFacts
          facts := disk.repoFacts }) (∅, ∅) := by
  have nodes : AllBacked disk disk.nodeSources ∅
      (disk.scanWorkspace.toList.foldl ResolveCtx.addRepoNodes
        { scanned := disk.scanWorkspace
          repoIndex := repoIndexOf toLowercase disk.scanWorkspace disk.repoFacts
          facts := disk.repoFacts }) := by
    rw [Disk.nodeSources, show disk.scanWorkspace.toList =
      disk.files.toList.map fun repo => (repo.1, repo.2.read disk) from ExtTreeMap.toList_map,
      List.foldl_map]
    refine List.foldl_rel (r := fun held ctx => AllBacked disk held ∅ ctx)
      ⟨fun id node filed => (by simp at filed), fun id built => (by simp at built)⟩ ?_
    exact fun repo listed held ctx backed => backed.addRepoNodes (mem_files_of_mem_toList listed)
  have same := List.foldlRecOn (motive := fun ctx : ResolveCtx =>
    ctx.scanned = disk.scanWorkspace ∧
      ctx.repoIndex = repoIndexOf toLowercase disk.scanWorkspace disk.repoFacts ∧
      ctx.stubRepoIds = ∅) disk.scanWorkspace.toList ResolveCtx.addRepoNodes
    (b := { scanned := disk.scanWorkspace
            repoIndex := repoIndexOf toLowercase disk.scanWorkspace disk.repoFacts
            facts := disk.repoFacts }) ⟨rfl, rfl, rfl⟩ fun ctx same repo _ => by
      obtain ⟨scanned, index, ids⟩ := ResolveCtx.addRepoNodes_same ctx repo
      exact ⟨scanned.trans same.1, index.trans same.2.1, ids.trans same.2.2⟩
  exact ⟨nodes, same.1, same.2.1, same.2.2⟩

/-- Something stands behind every node of the resolved workspace. -/
theorem allBacked_declaredCtx (disk : Disk) :
    AllBacked disk disk.nodeSources (disk.stubRepos toLowercase)
      (declaredCtx toLowercase disk.scanWorkspace disk.repoFacts) := by
  have stubbing := List.foldl_rel (l := disk.scanWorkspace.toList)
    (f := ResolveCtx.addIncludes toLowercase)
    (g := fun acc repo => repo.2.include_.toList.foldl (disk.addStubRepo toLowercase) acc)
    (r := fun ctx acc => Stubbing toLowercase disk ctx acc)
    (stubbing_addRepoNodes toLowercase disk)
    fun repo _ ctx acc stubbing => stubbing.addIncludes toLowercase repo
  simp only [declaredCtx]
  refine List.foldlRecOn (motive := AllBacked disk disk.nodeSources (disk.stubRepos toLowercase))
    _ _ ?_ fun ctx backed repo _ => List.foldlRecOn _ _ backed fun ctx backed entry _ =>
      List.foldlRecOn _ _ backed fun ctx backed dependency _ =>
        backed.addDependency repo _ dependency
  refine List.foldlRecOn (motive := AllBacked disk disk.nodeSources (disk.stubRepos toLowercase))
    _ _ ?_ fun ctx backed repo _ => List.foldlRecOn _ _ backed fun ctx backed entry _ =>
      backed.markTask repo entry
  rw [Disk.stubRepos, List.foldl_flatMap]
  exact stubbing.backed

/-- The graph of what is on disk. -/
def Disk.graph (disk : Disk) (workspaceName : String) : Graph :=
  resolveUniverse toLowercase workspaceName disk.scanWorkspace disk.repoFacts

/-- Something stands behind every node of the graph. -/
theorem backed_of_mem_graph {workspaceName : String} {node : Node}
    (listed : node ∈ (disk.graph toLowercase workspaceName).nodes) :
    Backed disk disk.nodeSources (disk.stubRepos toLowercase) node.id node := by
  have sound := (declaredCtx_spec toLowercase disk.scanWorkspace disk.repoFacts).2
  obtain ⟨id, held, filed, rfl⟩ := (ResolveCtx.mem_resolved_nodes sound).mp listed
  have backed := (allBacked_declaredCtx toLowercase disk).each id held filed
  have named : held.id = id := (sound.node_sound id held filed).named
  subst named
  exact ⟨backed.here, backed.stub, backed.built⟩

/-! ## What the files name -/

/-- Among the includes: every stub's repo is known, and it clones to the stub's folder. -/
structure StubsNamed (disk : Disk)
    (acc : OrderedMap String String × OrderedMap String String) : Prop where
  known : ∀ norm id : String, acc.1[norm]? = some id → id ∈ acc.2
  named : ∀ id url : String, acc.2[id]? = some url → ∃ file ∈ OrderedMap.listed disk.files,
    Place.ofFolder id ∈ file.places ∧ id = RepoUrl.repoNameFromUrl url

theorem StubsNamed.addStubRepo {acc : OrderedMap String String × OrderedMap String String}
    (named : StubsNamed disk acc) {file : RepoFile} (filed : file ∈ OrderedMap.listed disk.files)
    {entry : String × Include} (listed : entry ∈ file.component.include_.toList) :
    StubsNamed disk (disk.addStubRepo toLowercase acc entry) := by
  simp only [Disk.addStubRepo]
  split
  · exact named
  rename_i unscanned
  split
  · rename_i contained
    refine ⟨fun norm id found => ?_, named.named⟩
    rw [ExtTreeMap.getElem?_insert] at found
    split at found
    · obtain rfl := Option.some.inj found
      exact ExtTreeMap.contains_iff_mem.mp contained
    · exact named.known norm id found
  rename_i fresh
  -- a remote that had a stub has its repo, and one on disk would be scanned: the name is the URL's
  have unstubbed : acc.1[RepoUrl.normalizeRepoUrl toLowercase entry.2.repo]? = none := by
    rw [← Option.not_isSome_iff_eq_none, Option.isSome_iff_exists]
    rintro ⟨id, found⟩
    rw [found, Option.getD_some] at fresh
    exact fresh (ExtTreeMap.contains_iff_mem.mpr (named.known _ id found))
  have unindexed : (repoIndexOf toLowercase disk.scanWorkspace disk.repoFacts)[
      RepoUrl.normalizeRepoUrl toLowercase entry.2.repo]? = none := by
    rw [← Option.not_isSome_iff_eq_none, Option.isSome_iff_exists]
    rintro ⟨path, found⟩
    rw [found, Option.getD_some] at unscanned
    exact unscanned (ExtTreeMap.contains_iff_mem.mpr (mem_of_repoIndexOf toLowercase found))
  rw [unstubbed, unindexed, Option.getD_none, Option.getD_none]
  refine ⟨fun norm id found => ?_, fun id url found => ?_⟩
  · rw [ExtTreeMap.getElem?_insert] at found
    split at found
    · obtain rfl := Option.some.inj found
      exact ExtTreeMap.mem_insert_self
    · exact ExtTreeMap.mem_insert.mpr (.inr (named.known norm id found))
  · rw [ExtTreeMap.getElem?_insert] at found
    split at found
    · rename_i same
      obtain rfl := Std.compare_eq_iff_eq.mp same
      obtain rfl := Option.some.inj found
      exact ⟨file, filed, List.mem_append_left _ (List.mem_map.mpr ⟨entry, listed, rfl⟩), rfl⟩
    · exact named.named id url found

/-- A stub's folder is where a file on disk says its repo is cloned to. -/
theorem stubRepos_named {id url : String}
    (found : (disk.stubRepos toLowercase)[id]? = some url) :
    ∃ file ∈ OrderedMap.listed disk.files, Place.ofFolder id ∈ file.places ∧
      id = RepoUrl.repoNameFromUrl url := by
  have named : StubsNamed disk
      ((disk.scanWorkspace.toList.flatMap fun repo => repo.2.include_.toList).foldl
        (disk.addStubRepo toLowercase) (∅, ∅)) := by
    refine List.foldlRecOn _ _ ⟨by simp, by simp⟩ fun acc named entry listed => ?_
    obtain ⟨repo, scans, included⟩ := List.mem_flatMap.mp listed
    rw [show disk.scanWorkspace.toList = disk.files.toList.map fun repo =>
      (repo.1, repo.2.read disk) from ExtTreeMap.toList_map] at scans
    obtain ⟨held, filed, rfl⟩ := List.mem_map.mp scans
    exact named.addStubRepo toLowercase (List.mem_map.mpr ⟨held, filed, rfl⟩) included
  exact named.named id url found

/-- Every source was read from where a file on disk says it is cloned to. -/
def SourcesNamed (disk : Disk) (sources : OrderedMap String (Option Source)) : Prop :=
  ∀ (id : String) (source : Source), sources[id]? = some (some source) →
    ∃ remote, source = Source.read disk remote ∧ ∃ file ∈ OrderedMap.listed disk.files,
      Place.ofSource source.folder ∈ file.places

theorem SourcesNamed.addSource (named : SourcesNamed disk sources)
    (filed : repo ∈ disk.files.toList) {entry : String × ServiceConfig}
    (service : entry ∈ repo.2.component.services.toList) :
    SourcesNamed disk (disk.addSource repo sources entry) := by
  intro id source found
  rw [Disk.addSource, ExtTreeMap.getElem?_insert] at found
  split at found
  · obtain ⟨remote, declared, rfl⟩ := Option.map_eq_some_iff.mp (Option.some.inj found)
    refine ⟨remote, rfl, repo.2, List.mem_map.mpr ⟨repo, filed, rfl⟩, ?_⟩
    refine List.mem_append_right _ (List.mem_filterMap.mpr ⟨entry, service, ?_⟩)
    rw [declared]
    rfl
  · exact named id source found

theorem sourcesNamed_nodeSources (disk : Disk) : SourcesNamed disk disk.nodeSources := by
  refine List.foldlRecOn (motive := SourcesNamed disk) _ _ (fun id source found => ?_)
    fun held named repo filed => List.foldlRecOn _ _ named fun held named entry service =>
      named.addSource filed service
  simp at found

end Backed

end Checkouts
end Fghj
