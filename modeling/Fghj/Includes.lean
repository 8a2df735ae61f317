import Fghj.ResolverSpec
import Fghj.Uniqueness

/-!
# What an include means

An include names a repo by its URL.  It leads to the first folder whose remote has that URL, else to
the folder the URL clones to, else to a stub under that folder's name, which every include of the
URL shares. A folder that is found by its name is never asked for its remote, and nothing keeps the
stubs of two URLs apart: an include means the repo its URL names while neither happens.
-/

namespace Fghj

open Std (ExtTreeMap)

namespace Resolver

/-- An include, with the repo and the alias that declare it. -/
structure Inclusion where
  repo : String
  name : String
  entry : Include
  deriving DecidableEq

/-- The folder its URL clones to. -/
def Inclusion.segment (site : Inclusion) : String := RepoUrl.repoNameFromUrl site.entry.repo

/-- The includes of one repo. -/
def inclusionsOf (repo : String × ComponentConfig) : List Inclusion :=
  repo.2.include_.toList.map fun entry => ⟨repo.1, entry.1, entry.2⟩

/-- The includes of a workspace, in the order they are resolved in. -/
def inclusions (scanned : OrderedMap String ComponentConfig) : List Inclusion :=
  scanned.toList.flatMap inclusionsOf

/-- The remote of a folder, where git tells it. -/
def originOf (facts : OrderedMap String RepoFacts) (folder : String) : Option String :=
  (facts[folder]?).bind RepoFacts.repo

section Targets

variable (toLowercase : String → String) (scanned : OrderedMap String ComponentConfig)
  (facts : OrderedMap String RepoFacts)

def Inclusion.norm (site : Inclusion) : String :=
  RepoUrl.normalizeRepoUrl toLowercase site.entry.repo

/-- The remote of the folder is the URL. -/
def HasOrigin (folder norm : String) : Prop :=
  (originOf facts folder).map (RepoUrl.normalizeRepoUrl toLowercase) = some norm

/-- No scanned folder is known to have the URL as its remote. -/
def Inclusion.unplaced (site : Inclusion) : Bool :=
  scanned.toList.all fun entry => (originOf facts entry.1).map
    (RepoUrl.normalizeRepoUrl toLowercase) != some (site.norm toLowercase)

/-- Nothing on disk has the URL as its remote, or the name it clones to. -/
def Inclusion.missing (site : Inclusion) : Bool :=
  site.unplaced toLowercase scanned facts && !scanned.contains site.segment

/-- The name of the stub of a URL: the folder that the first missing include of it clones to. -/
def stubName (sites : List Inclusion) (norm : String) : Option String :=
  (sites.find? fun site =>
    site.missing toLowercase scanned facts && site.norm toLowercase == norm).map
    Inclusion.segment

/-- The folder or stub an include leads to among the given ones. -/
def targetAmong (sites : List Inclusion) (site : Inclusion) : String :=
  match (repoIndexOf toLowercase scanned facts)[site.norm toLowercase]? with
  | some folder => folder
  | none =>
      if scanned.contains site.segment then site.segment
      else (stubName toLowercase scanned facts sites (site.norm toLowercase)).getD site.segment

variable {toLowercase scanned facts} {site : Inclusion}

theorem repoIndexOf_eq_none :
    (repoIndexOf toLowercase scanned facts)[site.norm toLowercase]? = none ↔
      site.unplaced toLowercase scanned facts := by
  rw [getElem?_repoIndexOf, Option.map_eq_none_iff, List.find?_eq_none, Inclusion.unplaced,
    List.all_eq_true]
  simp [originOf, bne_iff_ne]

/-- A remote that is filed is the remote of a scanned folder. -/
theorem hasOrigin_of_repoIndexOf {norm folder : String}
    (found : (repoIndexOf toLowercase scanned facts)[norm]? = some folder) :
    folder ∈ scanned ∧ HasOrigin toLowercase facts folder norm := by
  rw [getElem?_repoIndexOf] at found
  obtain ⟨entry, first, rfl⟩ := Option.map_eq_some_iff.mp found
  constructor
  · exact ExtTreeMap.mem_iff_isSome_getElem?.mpr (Option.isSome_of_eq_some
      (ExtTreeMap.mem_toList_iff_getElem?_eq_some.mp (List.mem_of_find?_eq_some first)))
  · have origin := List.find?_some first
    exact eq_of_beq origin

theorem missing_iff : site.missing toLowercase scanned facts ↔
    site.unplaced toLowercase scanned facts ∧ site.segment ∉ scanned := by
  rw [Inclusion.missing, Bool.and_eq_true, Bool.not_eq_true', ← Bool.not_eq_true,
    ExtTreeMap.contains_iff_mem]

/-! ## Where an include leads -/

/-- What the aliases of a repo lead to. -/
def resolvedOf (toLowercase : String → String) (scanned : OrderedMap String ComponentConfig)
    (facts : OrderedMap String RepoFacts) (sites : List Inclusion)
    (repo : String × ComponentConfig) : OrderedMap String String :=
  (inclusionsOf repo).foldl (fun held site =>
    held.insert site.name (targetAmong toLowercase scanned facts sites site)) ∅

theorem stubName_append (sites others : List Inclusion) (norm : String) :
    stubName toLowercase scanned facts (sites ++ others) norm =
      (stubName toLowercase scanned facts sites norm).or
        (stubName toLowercase scanned facts others norm) := by
  rw [stubName, List.find?_append, stubName, stubName, Option.map_or]

variable {sites : List Inclusion}

/-- A stub is named after a missing include of its URL. -/
theorem exists_of_stubName {norm id : String}
    (named : stubName toLowercase scanned facts sites norm = some id) :
    ∃ site ∈ sites, site.missing toLowercase scanned facts ∧ site.norm toLowercase = norm ∧
      site.segment = id := by
  obtain ⟨site, first, rfl⟩ := Option.map_eq_some_iff.mp named
  have both := List.find?_some first
  rw [Bool.and_eq_true, beq_iff_eq] at both
  exact ⟨site, List.mem_of_find?_eq_some first, both.1, both.2, rfl⟩

theorem not_mem_of_stubName {norm id : String}
    (named : stubName toLowercase scanned facts sites norm = some id) : id ∉ scanned := by
  obtain ⟨site, -, missing, -, rfl⟩ := exists_of_stubName named
  exact (missing_iff.mp missing).2

/-- Every missing include has a stub. -/
theorem stubName_of_missing (listed : site ∈ sites)
    (missing : site.missing toLowercase scanned facts) :
    ∃ id, stubName toLowercase scanned facts sites (site.norm toLowercase) = some id := by
  rw [← Option.isSome_iff_exists, stubName, Option.isSome_map, List.find?_isSome]
  exact ⟨site, listed, by simpa using missing⟩

theorem targetAmong_of_placed (sites : List Inclusion) {folder : String}
    (found : (repoIndexOf toLowercase scanned facts)[site.norm toLowercase]? = some folder) :
    targetAmong toLowercase scanned facts sites site = folder := by
  rw [targetAmong, found]

theorem targetAmong_of_folder (sites : List Inclusion)
    (unplaced : site.unplaced toLowercase scanned facts) (folder : site.segment ∈ scanned) :
    targetAmong toLowercase scanned facts sites site = site.segment := by
  rw [targetAmong, repoIndexOf_eq_none.mpr unplaced]
  exact if_pos (ExtTreeMap.contains_iff_mem.mpr folder)

theorem targetAmong_of_missing {id : String} (missing : site.missing toLowercase scanned facts)
    (named : stubName toLowercase scanned facts sites (site.norm toLowercase) = some id) :
    targetAmong toLowercase scanned facts sites site = id := by
  obtain ⟨unplaced, unscanned⟩ := missing_iff.mp missing
  rw [targetAmong, repoIndexOf_eq_none.mpr unplaced, named]
  exact if_neg fun contained => unscanned (ExtTreeMap.contains_iff_mem.mp contained)

/-- An include leads to a folder by its remote, to one by its name, or to a stub. -/
theorem placed_or_folder_or_missing (toLowercase : String → String)
    (scanned : OrderedMap String ComponentConfig) (facts : OrderedMap String RepoFacts)
    (site : Inclusion) :
    (∃ folder, (repoIndexOf toLowercase scanned facts)[site.norm toLowercase]? = some folder) ∨
      (site.unplaced toLowercase scanned facts ∧ site.segment ∈ scanned) ∨
      site.missing toLowercase scanned facts := by
  cases found : (repoIndexOf toLowercase scanned facts)[site.norm toLowercase]? with
  | some folder => exact .inl ⟨folder, rfl⟩
  | none =>
      have unplaced := repoIndexOf_eq_none.mp found
      by_cases folder : site.segment ∈ scanned
      · exact .inr (.inl ⟨unplaced, folder⟩)
      · exact .inr (.inr (missing_iff.mpr ⟨unplaced, folder⟩))

/-- Includes that are resolved later change nothing for one that is. -/
theorem targetAmong_extend {sites all : List Inclusion} (before : sites <+: all)
    (listed : site ∈ sites) :
    targetAmong toLowercase scanned facts all site =
      targetAmong toLowercase scanned facts sites site := by
  obtain ⟨later, rfl⟩ := before
  rcases placed_or_folder_or_missing toLowercase scanned facts site with
    ⟨folder, found⟩ | ⟨unplaced, folder⟩ | missing
  · rw [targetAmong_of_placed _ found, targetAmong_of_placed _ found]
  · rw [targetAmong_of_folder _ unplaced folder, targetAmong_of_folder _ unplaced folder]
  · obtain ⟨id, named⟩ := stubName_of_missing listed missing
    rw [targetAmong_of_missing missing named, targetAmong_of_missing missing]
    rw [stubName_append, named, Option.some_or]

/-! ## A resolution among its includes -/

namespace ResolveCtx

/-- Where a node stands. -/
def place (node : Node) : String × Bool × Option String :=
    (node.id, node.downloaded, node.localPath)

theorem place_eq_iff {node : Node} {id : String} {downloaded : Bool} {path : Option String} :
    place node = (id, downloaded, path) ↔
      node.id = id ∧ node.downloaded = downloaded ∧ node.localPath = path := by
  rw [place, Prod.mk.injEq, Prod.mk.injEq]

/-- What the stubs of the includes so far leave, over the nodes of the services. -/
structure Placed (toLowercase : String → String) (scanned : OrderedMap String ComponentConfig)
    (facts : OrderedMap String RepoFacts) (services : OrderedMap String Node)
    (sites : List Inclusion) (ctx : ResolveCtx) : Prop where
  scanned_eq : ctx.scanned = scanned
  repoIndex_eq : ctx.repoIndex = repoIndexOf toLowercase scanned facts
  stub_id : ∀ norm : String,
    ctx.stubRepoIds[norm]? = stubName toLowercase scanned facts sites norm
  service_kept : ∀ id ∈ services, ctx.nodes[id]? = services[id]?
  stub_known : ∀ norm id, stubName toLowercase scanned facts sites norm = some id → id ∈ ctx.nodes
  stub_added : ∀ id node, ctx.nodes[id]? = some node → id ∉ services →
    place node = (id, false, some id) ∧ ∃ norm, stubName toLowercase scanned facts sites
      norm = some id

variable {services : OrderedMap String Node} {sites : List Inclusion} {ctx next : ResolveCtx}

theorem Placed.of_same (placed : Placed toLowercase scanned facts services sites ctx)
    (same : next.scanned = ctx.scanned) (index : next.repoIndex = ctx.repoIndex)
    (ids : next.stubRepoIds = ctx.stubRepoIds) (nodes : next.nodes = ctx.nodes) :
    Placed toLowercase scanned facts services sites next where
  scanned_eq := same.trans placed.scanned_eq
  repoIndex_eq := index.trans placed.repoIndex_eq
  stub_id := ids ▸ placed.stub_id
  service_kept := nodes ▸ placed.service_kept
  stub_known := nodes ▸ placed.stub_known
  stub_added := nodes ▸ placed.stub_added

/-- An include that leads to a folder leaves no stub. -/
theorem Placed.folder (placed : Placed toLowercase scanned facts services sites ctx)
    (present : ¬site.missing toLowercase scanned facts) :
    Placed toLowercase scanned facts services (sites ++ [site]) ctx := by
  have same : ∀ norm, stubName toLowercase scanned facts (sites ++ [site]) norm =
      stubName toLowercase scanned facts sites norm := by
    intro norm
    rw [stubName_append]
    simp [stubName, present]
  exact
    { placed with
      stub_id := fun norm => (placed.stub_id norm).trans (same norm).symm
      stub_known := fun norm id named => placed.stub_known norm id ((same norm).symm.trans named)
      stub_added := fun id node filed unserved =>
        ⟨(placed.stub_added id node filed unserved).1, by
          simpa only [same] using (placed.stub_added id node filed unserved).2⟩ }

/-- A stub is filed where nothing is. -/
theorem stub_nodes (ctx : ResolveCtx) (norm localPath : String) (branch : Option String) :
    (∀ id ∈ ctx.nodes, (ctx.stub norm localPath branch).1.nodes[id]? = ctx.nodes[id]?) ∧
      (ctx.stub norm localPath branch).2 ∈ (ctx.stub norm localPath branch).1.nodes ∧
      ∀ id node, (ctx.stub norm localPath branch).1.nodes[id]? = some node →
        ctx.nodes[id]? = some node ∨
          id = (ctx.stub norm localPath branch).2 ∧ place node = (id, false, some id) := by
  simp only [ResolveCtx.stub]
  split
  · rename_i contained
    exact ⟨fun _ _ => rfl, ExtTreeMap.contains_iff_mem.mp contained, fun _ _ filed => .inl filed⟩
  rename_i fresh
  refine ⟨fun id known => ?_, ExtTreeMap.mem_insert_self, fun id node filed => ?_⟩
  · rw [ExtTreeMap.getElem?_insert, if_neg]
    intro same
    exact fresh (ExtTreeMap.contains_iff_mem.mpr (Std.compare_eq_iff_eq.mp same ▸ known))
  · rw [ExtTreeMap.getElem?_insert] at filed
    split at filed
    · rename_i same
      obtain rfl := Std.compare_eq_iff_eq.mp same
      obtain rfl := Option.some.inj filed
      exact .inr ⟨rfl, rfl⟩
    · exact .inl filed

/-- The stub of a missing include: the one its URL has, or one by the folder it clones to. -/
theorem Placed.stub (placed : Placed toLowercase scanned facts services sites ctx)
    (missing : site.missing toLowercase scanned facts) (branch : Option String) :
    Placed toLowercase scanned facts services (sites ++ [site])
        (ctx.stub (site.norm toLowercase) site.segment branch).1 ∧
      stubName toLowercase scanned facts (sites ++ [site]) (site.norm toLowercase) =
        some (ctx.stub (site.norm toLowercase) site.segment branch).2 := by
  have last : ∀ norm, stubName toLowercase scanned facts [site] norm =
      if site.norm toLowercase = norm then some site.segment else none := by
    intro norm
    by_cases same : site.norm toLowercase = norm
    · simp [stubName, missing, same]
    · simp [stubName, same]
  have named : stubName toLowercase scanned facts (sites ++ [site]) (site.norm toLowercase) =
      some (ctx.stub (site.norm toLowercase) site.segment branch).2 := by
    rw [stubName_append, last, if_pos rfl, ResolveCtx.stub, placed.stub_id]
    cases stubName toLowercase scanned facts sites (site.norm toLowercase) <;> rfl
  have earlier : ∀ norm id, stubName toLowercase scanned facts sites norm = some id →
      stubName toLowercase scanned facts (sites ++ [site]) norm = some id := by
    intro norm id before
    rw [stubName_append, before, Option.some_or]
  obtain ⟨kept, known, added⟩ := stub_nodes ctx (site.norm toLowercase) site.segment branch
  have stays : ∀ id ∈ ctx.nodes,
      id ∈ (ctx.stub (site.norm toLowercase) site.segment branch).1.nodes :=
    fun id filed => (extends_stub ctx _ _ _).nodes id filed
  refine ⟨⟨placed.scanned_eq, placed.repoIndex_eq, fun norm => ?_, fun id service => ?_,
    fun norm id now => ?_, fun id node filed unserved => ?_⟩, named⟩
  · by_cases same : site.norm toLowercase = norm
    · subst same
      rw [named]
      exact ExtTreeMap.getElem?_insert_self
    · rw [stubName_append, last, if_neg same, Option.or_none, ← placed.stub_id]
      exact ExtTreeMap.getElem?_insert.trans (if_neg fun equal =>
        same (Std.compare_eq_iff_eq.mp equal))
  · rw [← placed.service_kept id service]
    apply kept
    rw [ExtTreeMap.mem_iff_isSome_getElem?, placed.service_kept id service]
    exact ExtTreeMap.mem_iff_isSome_getElem?.mp service
  · rw [stubName_append, last] at now
    cases before : stubName toLowercase scanned facts sites norm with
    | some held =>
        rw [before, Option.some_or] at now
        exact stays id (placed.stub_known norm id (before.trans now))
    | none =>
        rw [before, Option.none_or] at now
        split at now
        · rename_i same
          subst same
          rw [stubName_append, before, Option.none_or, last, if_pos rfl, now] at named
          exact Option.some.inj named ▸ known
        · cases now
  · rcases added id node filed with old | ⟨rfl, stub⟩
    · obtain ⟨stub, norm, before⟩ := placed.stub_added id node old unserved
      exact ⟨stub, norm, earlier norm id before⟩
    · exact ⟨stub, site.norm toLowercase, named⟩

/-- One include, next to its warning. -/
theorem addInclude_eq (toLowercase : String → String) (repo : String × ComponentConfig)
    (ctx : ResolveCtx) (resolved : OrderedMap String String) (site : Inclusion) :
    ∃ warnings, addInclude toLowercase repo (ctx, resolved) (site.name, site.entry) =
      if ctx.isScanned ((ctx.repoIndex[site.norm toLowercase]?).getD site.segment) then
        (ctx.warn warnings, resolved.insert site.name
          ((ctx.repoIndex[site.norm toLowercase]?).getD site.segment))
      else
        let stub := (ctx.warn warnings).stub (site.norm toLowercase)
          ((ctx.repoIndex[site.norm toLowercase]?).getD site.segment) site.entry.defaultBranch
        (stub.1, resolved.insert site.name stub.2) := by
  by_cases clash : repo.2.services.contains site.name || repo.2.flows.contains site.name
  · simp only [addInclude, clash, if_true]
    exact ⟨_, rfl⟩
  · refine ⟨[], ?_⟩
    have unwarned : ctx.warn [] = ctx := by rw [warn, List.append_nil]
    simp only [addInclude, clash, unwarned]
    rfl

/-- An include is resolved to where it leads. -/
theorem Placed.resolve (placed : Placed toLowercase scanned facts services sites ctx)
    {all : List Inclusion} (before : sites ++ [site] <+: all) (repo : String × ComponentConfig)
    (resolved : OrderedMap String String) :
    Placed toLowercase scanned facts services (sites ++ [site])
        (addInclude toLowercase repo (ctx, resolved) (site.name, site.entry)).1 ∧
      (addInclude toLowercase repo (ctx, resolved) (site.name, site.entry)).1.includes =
        ctx.includes ∧
      (addInclude toLowercase repo (ctx, resolved) (site.name, site.entry)).2 =
        resolved.insert site.name (targetAmong toLowercase scanned facts all site) := by
  obtain ⟨warnings, step⟩ := addInclude_eq toLowercase repo ctx resolved site
  have warned : Placed toLowercase scanned facts services sites (ctx.warn warnings) :=
    placed.of_same rfl rfl rfl rfl
  rw [targetAmong_extend before (List.mem_append_right _ (List.mem_singleton_self _)), step,
    isScanned, placed.scanned_eq, placed.repoIndex_eq]
  rcases placed_or_folder_or_missing toLowercase scanned facts site with
    ⟨folder, found⟩ | ⟨unplaced, folder⟩ | missing
  · have scans := (hasOrigin_of_repoIndexOf found).1
    rw [targetAmong_of_placed _ found, found, Option.getD_some,
      if_pos (ExtTreeMap.contains_iff_mem.mpr scans)]
    refine ⟨warned.folder fun missing => ?_, rfl, rfl⟩
    rw [repoIndexOf_eq_none.mpr (missing_iff.mp missing).1] at found
    cases found
  · rw [targetAmong_of_folder _ unplaced folder, repoIndexOf_eq_none.mpr unplaced, Option.getD_none,
      if_pos (ExtTreeMap.contains_iff_mem.mpr folder)]
    exact ⟨warned.folder fun missing => (missing_iff.mp missing).2 folder, rfl, rfl⟩
  · obtain ⟨unplaced, unscanned⟩ := missing_iff.mp missing
    obtain ⟨later, named⟩ := warned.stub missing site.entry.defaultBranch
    rw [targetAmong_of_missing missing named, repoIndexOf_eq_none.mpr unplaced, Option.getD_none,
      if_neg fun contained => unscanned (ExtTreeMap.contains_iff_mem.mp contained)]
    exact ⟨later, rfl, rfl⟩

/-- The includes of a repo are resolved to where they lead. -/
theorem Placed.resolveAll (placed : Placed toLowercase scanned facts services sites ctx)
    {all more : List Inclusion} (before : sites ++ more <+: all)
    (repo : String × ComponentConfig) (resolved : OrderedMap String String) :
    let out := more.foldl (fun acc site =>
      addInclude toLowercase repo acc (site.name, site.entry)) (ctx, resolved)
    Placed toLowercase scanned facts services (sites ++ more) out.1 ∧
      out.1.includes = ctx.includes ∧
      out.2 = more.foldl (fun held site =>
        held.insert site.name (targetAmong toLowercase scanned facts all site)) resolved := by
  induction more generalizing sites ctx resolved with
  | nil => exact ⟨by rwa [List.append_nil], rfl, rfl⟩
  | cons site more ih =>
      rw [List.append_cons] at before
      obtain ⟨later, includes, next⟩ := placed.resolve
        ((List.prefix_append _ _).trans before) repo resolved
      obtain ⟨last, same, rest⟩ := ih later before
        (addInclude toLowercase repo (ctx, resolved) (site.name, site.entry)).2
      refine ⟨by rwa [List.append_cons], same.trans includes, ?_⟩
      rw [List.foldl_cons (a := site) (b := resolved), ← next]
      exact rest

theorem Placed.addIncludes (placed : Placed toLowercase scanned facts services sites ctx)
    {all : List Inclusion} {repo : String × ComponentConfig}
    (before : sites ++ inclusionsOf repo <+: all) :
    Placed toLowercase scanned facts services (sites ++ inclusionsOf repo)
        (addIncludes toLowercase ctx repo) ∧
      (addIncludes toLowercase ctx repo).includes = ctx.includes.insert repo.1
        (resolvedOf toLowercase scanned facts all repo) := by
  obtain ⟨later, includes, resolved⟩ := placed.resolveAll before repo ∅
  rw [show (inclusionsOf repo).foldl (fun acc site =>
      addInclude toLowercase repo acc (site.name, site.entry)) (ctx, ∅) =
    repo.2.include_.toList.foldl (addInclude toLowercase repo) (ctx, ∅) from List.foldl_map] at *
  refine ⟨later.of_same rfl rfl rfl rfl, ?_⟩
  rw [resolvedOf, ← resolved, ← includes]
  rfl

/-- The includes of all repos are resolved to where they lead. -/
theorem Placed.addAllIncludes {repos : List (String × ComponentConfig)} {all : List Inclusion}
    (placed : Placed toLowercase scanned facts services sites ctx)
    (before : sites ++ repos.flatMap inclusionsOf <+: all) :
    Placed toLowercase scanned facts services (sites ++ repos.flatMap inclusionsOf)
        (repos.foldl (ResolveCtx.addIncludes toLowercase) ctx) ∧
      (repos.foldl (ResolveCtx.addIncludes toLowercase) ctx).includes =
        repos.foldl (fun held repo => held.insert repo.1
          (resolvedOf toLowercase scanned facts all repo)) ctx.includes := by
  induction repos generalizing sites ctx with
  | nil => exact ⟨by rwa [List.flatMap_nil, List.append_nil], rfl⟩
  | cons repo repos ih =>
      rw [List.flatMap_cons, ← List.append_assoc] at before ⊢
      obtain ⟨later, next⟩ := placed.addIncludes ((List.prefix_append _ _).trans before)
      obtain ⟨last, rest⟩ := ih later before
      refine ⟨last, ?_⟩
      rw [List.foldl_cons (a := repo) (b := ctx.includes), ← next]
      exact rest

/-! ## The later phases -/

/-- A later state in which every include and every node stand where they did. -/
structure SamePlaces (ctx next : ResolveCtx) : Prop where
  includes : next.includes = ctx.includes
  nodes : ∀ id : String, (next.nodes[id]?).map place = (ctx.nodes[id]?).map place

theorem SamePlaces.refl (ctx : ResolveCtx) : SamePlaces ctx ctx := ⟨rfl, fun _ => rfl⟩

theorem SamePlaces.trans {last : ResolveCtx} (first : SamePlaces ctx next)
    (second : SamePlaces next last) : SamePlaces ctx last :=
  ⟨second.includes.trans first.includes, fun id => (second.nodes id).trans (first.nodes id)⟩

theorem samePlaces_foldl {α : Type} {step : ResolveCtx → α → ResolveCtx}
    (each : ∀ ctx entry, SamePlaces ctx (step ctx entry)) (entries : List α) (ctx : ResolveCtx) :
    SamePlaces ctx (entries.foldl step ctx) := by
  induction entries generalizing ctx with
  | nil => exact .refl ctx
  | cons entry entries ih => exact (each ctx entry).trans (ih (step ctx entry))

theorem samePlaces_warn (ctx : ResolveCtx) (warnings : List Warning) :
    SamePlaces ctx (ctx.warn warnings) := ⟨rfl, fun _ => rfl⟩

theorem samePlaces_markTask (repo : String × ComponentConfig) (ctx : ResolveCtx)
    (entry : String × ServiceConfig) : SamePlaces ctx (markTask repo ctx entry) := by
  simp only [markTask]
  split
  · exact .refl ctx
  refine ⟨rfl, fun id => ?_⟩
  rw [OrderedMap.get_modify]
  split
  · rw [Option.map_map]
    rfl
  · rfl

theorem samePlaces_addMember (source : String) (entry : DependsOnEntry) (via : String)
    (ctx : ResolveCtx) (member : String) :
    SamePlaces ctx (addMember source entry via ctx member) := by
  rw [addMember]
  split
  · split <;> exact ⟨rfl, fun _ => rfl⟩
  · exact ⟨rfl, fun _ => rfl⟩

theorem samePlaces_addForeign (ctx : ResolveCtx) (localPath source key : String) (target : Target)
    (entry : DependsOnEntry) :
    SamePlaces ctx (ctx.addForeign localPath source key target entry) := by
  have checked : SamePlaces ctx (if entry.required then ctx
      else ctx.warn (checkRuntimeCondition source key entry.condition)) := by
    split
    · exact .refl ctx
    · exact samePlaces_warn ctx _
  simp only [addForeign]
  split
  · exact samePlaces_warn ctx _
  split
  · exact checked.trans (samePlaces_warn _ _)
  · exact checked.trans (samePlaces_foldl (samePlaces_addMember source entry _) _ _)

theorem samePlaces_addDependency (repo : String × ComponentConfig) (source : String)
    (ctx : ResolveCtx) (dependency : String × DependsOnEntry) :
    SamePlaces ctx (addDependency repo source ctx dependency) := by
  simp only [addDependency]
  split
  · split
    · split
      · exact samePlaces_warn ctx _
      · exact ⟨rfl, fun _ => rfl⟩
    split
    · exact samePlaces_warn ctx _
    split
    · exact samePlaces_addForeign ctx _ _ _ _ _
    · exact samePlaces_warn ctx _
  · split
    · exact samePlaces_addForeign ctx _ _ _ _ _
    · exact samePlaces_warn ctx _

end ResolveCtx

/-- A resolution with its services' nodes. -/
def servicesCtx (toLowercase : String → String) (scanned : OrderedMap String ComponentConfig)
    (facts : OrderedMap String RepoFacts) : ResolveCtx :=
  scanned.toList.foldl ResolveCtx.addRepoNodes
    { scanned, repoIndex := repoIndexOf toLowercase scanned facts, facts }

theorem placed_servicesCtx (toLowercase : String → String)
    (scanned : OrderedMap String ComponentConfig) (facts : OrderedMap String RepoFacts) :
    ResolveCtx.Placed toLowercase scanned facts (servicesCtx toLowercase scanned facts).nodes []
      (servicesCtx toLowercase scanned facts) := by
  have same := List.foldlRecOn (motive := fun ctx : ResolveCtx => ctx.scanned = scanned ∧
      ctx.repoIndex = repoIndexOf toLowercase scanned facts ∧ ctx.stubRepoIds = ∅)
    scanned.toList ResolveCtx.addRepoNodes
    (b := { scanned, repoIndex := repoIndexOf toLowercase scanned facts, facts })
    ⟨rfl, rfl, rfl⟩ fun ctx same repo _ => by
      obtain ⟨scans, index, ids⟩ := ResolveCtx.addRepoNodes_same ctx repo
      exact ⟨scans.trans same.1, index.trans same.2.1, ids.trans same.2.2⟩
  obtain ⟨scans, index, ids⟩ := same
  refine ⟨scans, index, fun norm => ?_, fun _ _ => rfl, fun norm id named => ?_,
    fun id node filed unserved => ?_⟩
  · rw [servicesCtx, ids]
    exact ExtTreeMap.getElem?_empty
  · cases named
  · exact absurd (ExtTreeMap.mem_iff_isSome_getElem?.mpr (Option.isSome_of_eq_some filed)) unserved

/-- A resolution with its services' nodes and its stubs. -/
def includedCtx (toLowercase : String → String) (scanned : OrderedMap String ComponentConfig)
    (facts : OrderedMap String RepoFacts) : ResolveCtx :=
  scanned.toList.foldl (ResolveCtx.addIncludes toLowercase) (servicesCtx toLowercase scanned facts)

theorem samePlaces_declaredCtx (toLowercase : String → String)
    (scanned : OrderedMap String ComponentConfig) (facts : OrderedMap String RepoFacts) :
    ResolveCtx.SamePlaces (includedCtx toLowercase scanned facts)
      (declaredCtx toLowercase scanned facts) :=
  (ResolveCtx.samePlaces_foldl (fun ctx repo => ResolveCtx.samePlaces_foldl
    (ResolveCtx.samePlaces_markTask repo) repo.2.services.toList ctx) scanned.toList _).trans
  (ResolveCtx.samePlaces_foldl (fun ctx repo => ResolveCtx.samePlaces_foldl (fun ctx _ =>
    ResolveCtx.samePlaces_foldl (ResolveCtx.samePlaces_addDependency repo _) _ ctx)
      repo.2.services.toList ctx) scanned.toList _)

theorem placed_includedCtx (toLowercase : String → String)
    (scanned : OrderedMap String ComponentConfig) (facts : OrderedMap String RepoFacts) :
    ResolveCtx.Placed toLowercase scanned facts (servicesCtx toLowercase scanned facts).nodes
        (inclusions scanned) (includedCtx toLowercase scanned facts) ∧
      (includedCtx toLowercase scanned facts).includes =
        scanned.toList.foldl (fun held repo => held.insert repo.1
          (resolvedOf toLowercase scanned facts (inclusions scanned) repo))
          (servicesCtx toLowercase scanned facts).includes :=
  (placed_servicesCtx toLowercase scanned facts).addAllIncludes (List.prefix_refl _)

/-- Every include is resolved to where it leads. -/
theorem aliasTarget_declaredCtx (listed : site ∈ inclusions scanned) :
    (declaredCtx toLowercase scanned facts).aliasTarget site.repo site.name =
      some (targetAmong toLowercase scanned facts (inclusions scanned) site) := by
  obtain ⟨repo, scans, member⟩ := List.mem_flatMap.mp listed
  obtain ⟨entry, declared, rfl⟩ := List.mem_map.mp member
  have distinct : ((inclusionsOf repo).map Inclusion.name).Nodup := by
    rw [inclusionsOf, List.map_map]
    exact OrderedMap.nodup_fst_toList repo.2.include_
  rw [ResolveCtx.aliasTarget, (samePlaces_declaredCtx toLowercase scanned facts).includes,
    (placed_includedCtx toLowercase scanned facts).2,
    OrderedMap.getElem?_foldl_insert (OrderedMap.nodup_fst_toList scanned) scans]
  exact OrderedMap.getElem?_foldl_insert distinct member ∅

/-! ## The repo a URL names -/

/-- Every include means the repo its URL names. -/
structure MeansItsUrl (toLowercase : String → String) (scanned : OrderedMap String ComponentConfig)
    (facts : OrderedMap String RepoFacts) : Prop where
  /-- A folder whose remote can be read is that of the URL. -/
  origin : ∀ site ∈ inclusions scanned, ∀ folder ∈ scanned, ∀ repo : String,
    (declaredCtx toLowercase scanned facts).aliasTarget site.repo site.name = some folder →
      originOf facts folder = some repo →
        RepoUrl.normalizeRepoUrl toLowercase repo = site.norm toLowercase
  /-- Two includes meet at a folder or stub exactly when they have one URL. -/
  same : ∀ site ∈ inclusions scanned, ∀ other ∈ inclusions scanned,
    (declaredCtx toLowercase scanned facts).aliasTarget site.repo site.name =
        (declaredCtx toLowercase scanned facts).aliasTarget other.repo other.name ↔
      site.norm toLowercase = other.norm toLowercase

/-- The first missing include of its URL. -/
def Inclusion.FirstMissing (toLowercase : String → String)
    (scanned : OrderedMap String ComponentConfig) (facts : OrderedMap String RepoFacts)
    (site : Inclusion) : Prop :=
  ((inclusions scanned).find? fun other => other.missing toLowercase scanned facts &&
    other.norm toLowercase == site.norm toLowercase) = some site

/-- No folder and no stub is found by a name that two URLs, or two spellings of one, clone to. -/
structure NamesSuffice (toLowercase : String → String) (scanned : OrderedMap String ComponentConfig)
    (facts : OrderedMap String RepoFacts) : Prop where
  /-- A folder that only the name leads to has no remote that can be read. -/
  unread : ∀ site ∈ inclusions scanned, site.unplaced toLowercase scanned facts →
    site.segment ∈ scanned → originOf facts site.segment = none
  /-- Two spellings of its URL clone to one folder. -/
  oneFolder : ∀ site ∈ inclusions scanned, ∀ other ∈ inclusions scanned,
    site.norm toLowercase = other.norm toLowercase → site.unplaced toLowercase scanned facts →
      site.segment ∈ scanned → other.segment = site.segment
  /-- No other URL leads to it. -/
  apart : ∀ site ∈ inclusions scanned, ∀ other ∈ inclusions scanned,
    site.unplaced toLowercase scanned facts → other.unplaced toLowercase scanned facts →
      site.segment ∈ scanned → other.segment = site.segment →
        other.norm toLowercase = site.norm toLowercase
  /-- The first missing includes of two URLs clone to two folders. -/
  stubsApart : ∀ site other : Inclusion, site.FirstMissing toLowercase scanned facts →
    other.FirstMissing toLowercase scanned facts → site.segment = other.segment →
      site.norm toLowercase = other.norm toLowercase

theorem stubName_of_firstMissing (first : site.FirstMissing toLowercase scanned facts) :
    stubName toLowercase scanned facts (inclusions scanned) (site.norm toLowercase) =
      some site.segment :=
  Option.map_eq_some_iff.mpr ⟨site, first, rfl⟩

theorem Inclusion.FirstMissing.missing (first : site.FirstMissing toLowercase scanned facts) :
    site ∈ inclusions scanned ∧ site.missing toLowercase scanned facts := by
  have both := List.find?_some first
  rw [Bool.and_eq_true] at both
  exact ⟨List.mem_of_find?_eq_some first, both.1⟩

/-- A URL has one first missing include. -/
theorem Inclusion.FirstMissing.segment_eq {site other : Inclusion}
    (first : site.FirstMissing toLowercase scanned facts)
    (others : other.FirstMissing toLowercase scanned facts)
    (same : site.norm toLowercase = other.norm toLowercase) : site.segment = other.segment := by
  rw [Inclusion.FirstMissing, same] at first
  exact congrArg Inclusion.segment (Option.some.inj (first.symm.trans others))

/-- A stub is named after the first missing include of its URL. -/
theorem exists_firstMissing_of_stubName {norm id : String}
    (named : stubName toLowercase scanned facts (inclusions scanned) norm = some id) :
    ∃ first : Inclusion, first.FirstMissing toLowercase scanned facts ∧
      first.norm toLowercase = norm ∧ first.segment = id := by
  obtain ⟨first, found, rfl⟩ := Option.map_eq_some_iff.mp named
  have both := List.find?_some found
  rw [Bool.and_eq_true, beq_iff_eq] at both
  refine ⟨first, ?_, both.2, rfl⟩
  rw [Inclusion.FirstMissing, both.2]
  exact found

/-- Every missing include goes with the first of its URL. -/
theorem exists_firstMissing (listed : site ∈ inclusions scanned)
    (missing : site.missing toLowercase scanned facts) :
    ∃ first : Inclusion, first.FirstMissing toLowercase scanned facts ∧
      first.norm toLowercase = site.norm toLowercase ∧
      targetAmong toLowercase scanned facts (inclusions scanned) site = first.segment := by
  obtain ⟨id, named⟩ := stubName_of_missing listed missing
  obtain ⟨first, leads, norm, rfl⟩ := exists_firstMissing_of_stubName named
  exact ⟨first, leads, norm, targetAmong_of_missing missing named⟩

/-- Where an include leads: by the remote, by the name, or to the stub of its URL. -/
inductive Leads (toLowercase : String → String) (scanned : OrderedMap String ComponentConfig)
    (facts : OrderedMap String RepoFacts) (site : Inclusion) : String → Prop
  | remote {folder : String}
      (found : (repoIndexOf toLowercase scanned facts)[site.norm toLowercase]? = some folder) :
      Leads toLowercase scanned facts site folder
  | name (unplaced : site.unplaced toLowercase scanned facts) (scans : site.segment ∈ scanned) :
      Leads toLowercase scanned facts site site.segment
  | stub {first : Inclusion} (leads : first.FirstMissing toLowercase scanned facts)
      (missing : site.missing toLowercase scanned facts)
      (norm : first.norm toLowercase = site.norm toLowercase) :
      Leads toLowercase scanned facts site first.segment

/-- Every include is resolved to where it leads. -/
theorem leads_aliasTarget (toLowercase : String → String) (facts : OrderedMap String RepoFacts)
    (listed : site ∈ inclusions scanned) :
    ∃ target, (declaredCtx toLowercase scanned facts).aliasTarget site.repo site.name =
      some target ∧ Leads toLowercase scanned facts site target := by
  refine ⟨_, aliasTarget_declaredCtx listed, ?_⟩
  rcases placed_or_folder_or_missing toLowercase scanned facts site with
    ⟨folder, found⟩ | ⟨unplaced, folder⟩ | missing
  · exact (targetAmong_of_placed _ found).symm ▸ .remote found
  · exact (targetAmong_of_folder _ unplaced folder).symm ▸ .name unplaced folder
  · obtain ⟨first, leads, norm, target⟩ := exists_firstMissing listed missing
    exact target.symm ▸ .stub leads missing norm

theorem Leads.aliasTarget {target : String} (listed : site ∈ inclusions scanned)
    (leads : Leads toLowercase scanned facts site target) :
    (declaredCtx toLowercase scanned facts).aliasTarget site.repo site.name = some target := by
  rw [aliasTarget_declaredCtx listed]
  cases leads with
  | remote found => rw [targetAmong_of_placed _ found]
  | name unplaced scans => rw [targetAmong_of_folder _ unplaced scans]
  | stub first missing norm =>
      rw [targetAmong_of_missing missing (norm ▸ stubName_of_firstMissing first)]

theorem unplaced_congr {site other : Inclusion}
    (same : site.norm toLowercase = other.norm toLowercase) :
    site.unplaced toLowercase scanned facts = other.unplaced toLowercase scanned facts := by
  rw [Inclusion.unplaced, Inclusion.unplaced, same]

/-- A remote is never that of an include which only the name, or nothing, leads to. -/
theorem not_unplaced_of_found {folder : String}
    (found : (repoIndexOf toLowercase scanned facts)[site.norm toLowercase]? = some folder) :
    ¬site.unplaced toLowercase scanned facts := by
  intro unplaced
  rw [repoIndexOf_eq_none.mpr unplaced] at found
  cases found

namespace Leads

variable {site other : Inclusion} {target : String}

theorem not_mem_of_firstMissing {first : Inclusion}
    (leads : first.FirstMissing toLowercase scanned facts) : first.segment ∉ scanned :=
  not_mem_of_stubName (stubName_of_firstMissing leads)

/-- The remote of the folder that an include leads to. -/
theorem origin (suffice : NamesSuffice toLowercase scanned facts)
    (listed : site ∈ inclusions scanned) (leads : Leads toLowercase scanned facts site target)
    (scans : target ∈ scanned) {repo : String} (read : originOf facts target = some repo) :
    RepoUrl.normalizeRepoUrl toLowercase repo = site.norm toLowercase := by
  cases leads with
  | remote found =>
      have origin := (hasOrigin_of_repoIndexOf found).2
      rw [HasOrigin, read] at origin
      exact Option.some.inj origin
  | name unplaced folder => simp [suffice.unread site listed unplaced folder] at read
  | stub leads => exact absurd scans (not_mem_of_firstMissing leads)

/-- A folder that a remote leads to is no folder that only a name leads to. -/
theorem remote_ne_name (suffice : NamesSuffice toLowercase scanned facts)
    (also : other ∈ inclusions scanned)
    (found : (repoIndexOf toLowercase scanned facts)[site.norm toLowercase]? = some target)
    (unplaced : other.unplaced toLowercase scanned facts) (scans : other.segment ∈ scanned) :
    target ≠ other.segment := by
  rintro rfl
  have origin := (hasOrigin_of_repoIndexOf found).2
  rw [HasOrigin, suffice.unread other also unplaced scans] at origin
  cases origin

/-- Two includes that lead to one place have one URL. -/
theorem norm_eq (suffice : NamesSuffice toLowercase scanned facts)
    (listed : site ∈ inclusions scanned) (also : other ∈ inclusions scanned) {target place : String}
    (leads : Leads toLowercase scanned facts site target)
    (others : Leads toLowercase scanned facts other place) (same : target = place) :
    site.norm toLowercase = other.norm toLowercase := by
  cases leads with
  | remote found =>
      have origin := hasOrigin_of_repoIndexOf found
      cases others with
      | remote others =>
          have otherOrigin := (hasOrigin_of_repoIndexOf others).2
          rw [← same, HasOrigin, origin.2] at otherOrigin
          exact Option.some.inj otherOrigin
      | name unplaced scans => exact absurd same (remote_ne_name suffice also found unplaced scans)
      | stub leads => exact absurd (same ▸ origin.1) (not_mem_of_firstMissing leads)
  | name unplaced scans =>
      cases others with
      | remote others =>
          exact absurd same.symm (remote_ne_name suffice listed others unplaced scans)
      | name otherUnplaced =>
          exact (suffice.apart site listed other also unplaced otherUnplaced scans same.symm).symm
      | stub leads => exact absurd (same ▸ scans) (not_mem_of_firstMissing leads)
  | stub leads _ norm =>
      cases others with
      | remote others =>
          exact absurd (same ▸ (hasOrigin_of_repoIndexOf others).1) (not_mem_of_firstMissing leads)
      | name _ scans => exact absurd (same ▸ scans) (not_mem_of_firstMissing leads)
      | stub others _ otherNorm =>
          exact norm.symm.trans ((suffice.stubsApart _ _ leads others same).trans otherNorm)

/-- Two includes of one URL lead to one place. -/
theorem target_eq (suffice : NamesSuffice toLowercase scanned facts)
    (listed : site ∈ inclusions scanned) (also : other ∈ inclusions scanned) {target place : String}
    (leads : Leads toLowercase scanned facts site target)
    (others : Leads toLowercase scanned facts other place)
    (same : site.norm toLowercase = other.norm toLowercase) : target = place := by
  cases leads with
  | remote found =>
      have placed := not_unplaced_of_found found
      rw [unplaced_congr same] at placed
      cases others with
      | remote others => exact Option.some.inj ((same ▸ found).symm.trans others)
      | name unplaced => exact absurd unplaced placed
      | stub _ missing => exact absurd (missing_iff.mp missing).1 placed
  | name unplaced scans =>
      have spelled := suffice.oneFolder site listed other also same unplaced scans
      cases others with
      | remote others =>
          exact absurd (unplaced_congr same ▸ unplaced) (not_unplaced_of_found others)
      | name => exact spelled.symm
      | stub _ missing => exact absurd (spelled ▸ scans) (missing_iff.mp missing).2
  | stub leads missing norm =>
      obtain ⟨unplaced, unscanned⟩ := missing_iff.mp missing
      cases others with
      | remote others =>
          exact absurd (unplaced_congr same ▸ unplaced) (not_unplaced_of_found others)
      | name otherUnplaced scans =>
          have spelled := suffice.oneFolder other also site listed same.symm otherUnplaced scans
          exact absurd (spelled ▸ scans) unscanned
      | stub others _ otherNorm =>
          exact leads.segment_eq others (norm.trans (same.trans otherNorm.symm))

end Leads

theorem aliasTarget_of_firstMissing (first : site.FirstMissing toLowercase scanned facts) :
    (declaredCtx toLowercase scanned facts).aliasTarget site.repo site.name = some site.segment :=
  (Leads.stub first first.missing.2 rfl).aliasTarget first.missing.1

/-- The names that stand in for remotes suffice where every include means the repo its URL names. -/
theorem MeansItsUrl.namesSuffice (means : MeansItsUrl toLowercase scanned facts) :
    NamesSuffice toLowercase scanned facts where
  unread := by
    intro site listed unplaced scans
    by_contra readable
    obtain ⟨repo, read⟩ := Option.ne_none_iff_exists'.mp readable
    have same := means.origin site listed _ scans repo
      ((Leads.name unplaced scans).aliasTarget listed) read
    obtain ⟨config, scan⟩ :=
      Option.isSome_iff_exists.mp (ExtTreeMap.mem_iff_isSome_getElem?.mp scans)
    have other := List.all_eq_true.mp unplaced _
      (ExtTreeMap.mem_toList_iff_getElem?_eq_some.mpr scan)
    rw [bne_iff_ne, read] at other
    exact other (congrArg some same)
  oneFolder := by
    intro site listed other also same unplaced scans
    have together := (means.same site listed other also).mpr same
    obtain ⟨target, resolved, leads⟩ := leads_aliasTarget toLowercase facts also
    rw [(Leads.name unplaced scans).aliasTarget listed, resolved, Option.some_inj] at together
    cases leads with
    | remote found => exact absurd (unplaced_congr same ▸ unplaced) (not_unplaced_of_found found)
    | name => exact together.symm
    | stub first => exact absurd (together ▸ scans) (Leads.not_mem_of_firstMissing first)
  apart := by
    intro site listed other also unplaced otherUnplaced scans together
    refine ((means.same site listed other also).mp ?_).symm
    rw [(Leads.name unplaced scans).aliasTarget listed,
      (Leads.name otherUnplaced (together ▸ scans)).aliasTarget also, together]
  stubsApart := by
    intro site other first otherFirst together
    apply (means.same site first.missing.1 other otherFirst.missing.1).mp
    rw [aliasTarget_of_firstMissing first, aliasTarget_of_firstMissing otherFirst, together]

/-- Every include means the repo its URL names if and only if the names that stand in for remotes
suffice. -/
theorem means_its_url_iff (toLowercase : String → String)
    (scanned : OrderedMap String ComponentConfig) (facts : OrderedMap String RepoFacts) :
    MeansItsUrl toLowercase scanned facts ↔ NamesSuffice toLowercase scanned facts := by
  constructor
  · exact MeansItsUrl.namesSuffice
  · intro suffice
    constructor
    · intro site listed folder scans repo resolved read
      obtain ⟨target, found, leads⟩ := leads_aliasTarget toLowercase facts listed
      obtain rfl := Option.some.inj (found.symm.trans resolved)
      exact leads.origin suffice listed scans read
    · intro site listed other also
      obtain ⟨target, resolved, leads⟩ := leads_aliasTarget toLowercase facts listed
      obtain ⟨place, otherResolved, others⟩ := leads_aliasTarget toLowercase facts also
      rw [resolved, otherResolved, Option.some_inj]
      exact ⟨leads.norm_eq suffice listed also others, leads.target_eq suffice listed also others⟩

end Targets

/-- A shop that includes one URL, next to a folder of the given name and remote. -/
def shopBeside (url folder remote : String) :
    OrderedMap String ComponentConfig × OrderedMap String RepoFacts :=
  ((∅ : OrderedMap String ComponentConfig)
      |>.insert "shop"
        { include_ := (∅ : OrderedMap String Include).insert "backend" { repo := url }
          services := (∅ : OrderedMap String ServiceConfig).insert "web" { image := some "nginx" } }
      |>.insert folder
        { services := (∅ : OrderedMap String ServiceConfig).insert "db"
            { image := some "postgres" } },
    (∅ : OrderedMap String RepoFacts)
      |>.insert "shop" { repo := some "https://x/acme/shop.git" }
      |>.insert folder { repo := some remote })

/-- The shop's alias leads to the checkout of another project. -/
theorem other_repo_included :
    ¬∀ scanned facts, (resolveWorkspace id "w" scanned facts).blockingWarnings = [] →
      MeansItsUrl id scanned facts := by
  intro claim
  have means := claim (shopBeside "https://x/acme/api.git" "api" "https://x/initech/api.git").1
    (shopBeside "https://x/acme/api.git" "api" "https://x/initech/api.git").2 (by decide +kernel)
  have same := means.origin ⟨"shop", "backend", { repo := "https://x/acme/api.git" }⟩
    (by decide +kernel) "api" (by decide +kernel) "https://x/initech/api.git" (by decide +kernel)
    (by decide +kernel)
  exact absurd same (by decide +kernel)

end Resolver
end Fghj
