import Fghj.Library.Listing
import Fghj.Pull

/-!
# Where a pull ends

A pass that goes on leaves everything it asked for on disk. If some of it was not there before,
less is left to pull; if all of it was, the next pass asks for the same again, for ever.
-/

namespace Fghj
namespace Pull

open Std (ExtTreeMap)
open Checkouts

namespace World

variable (world : World)

/-! ## What one request does -/

/-- The folder is a checkout of the remote. -/
def Own (folder : Folder) (url : String) : Prop :=
  ∃ origin, folder.facts.repo = some origin ∧ world.sameRemote origin url

variable {clone : Clone}

theorem ensureCheckoutIs_ok {folder : Folder}
    (ensured : world.ensureCheckoutIs clone folder = .ok ()) : world.Own folder clone.url := by
  simp only [ensureCheckoutIs] at ensured
  split at ensured
  · cases ensured
  · rename_i origin known
    split at ensured
    · rename_i same
      exact ⟨origin, known, same⟩
    · cases ensured

theorem Own.ensured {folder : Folder} (own : world.Own folder clone.url) :
    world.ensureCheckoutIs clone folder = .ok () := by
  obtain ⟨origin, known, same⟩ := own
  simp only [ensureCheckoutIs, known]
  rw [if_pos same]

theorem own_checkout (remote : Remote) : world.Own remote.checkout remote.url :=
  ⟨remote.url, rfl, beq_self_eq_true _⟩

/-- Something of the clone's remote is where the clone goes. -/
def There (disk : Disk) (clone : Clone) : Prop :=
  ∃ folder, disk.find clone.place = some folder ∧ world.Own folder clone.url

/-- What a pull does to the disk: it keeps what is there, and what it adds comes from a remote. -/
structure Grows (before after : Disk) : Prop where
  kept : ∀ place folder, before.find place = some folder → after.find place = some folder
  files : ∀ file ∈ OrderedMap.listed after.files, file ∈ OrderedMap.listed before.files ∨
    ∃ remote ∈ world.remotes, remote.yaml = .readable file

variable {world} {before middle after : Disk}

theorem Grows.refl (disk : Disk) : world.Grows disk disk :=
  ⟨fun _ _ found => found, fun _ listed => .inl listed⟩

theorem Grows.trans (first : world.Grows before middle) (second : world.Grows middle after) :
    world.Grows before after where
  kept := fun place folder found => second.kept place folder (first.kept place folder found)
  files := by
    intro file listed
    rcases second.files file listed with old | new
    · exact first.files file old
    · exact .inr new

theorem Grows.there (grows : world.Grows before after) (there : world.There before clone) :
    world.There after clone := by
  obtain ⟨folder, found, own⟩ := there
  exact ⟨folder, grows.kept _ _ found, own⟩

/-- A clone that was not there and is now was missing from the disk. -/
theorem Grows.absent_of_there (grows : world.Grows before after) (there : world.There after clone)
    (fresh : ¬world.There before clone) : before.find clone.place = none := by
  obtain ⟨folder, found, own⟩ := there
  cases held : before.find clone.place with
  | none => rfl
  | some other =>
      -- what stood there still does, so it is the checkout that was asked for
      have same := (grows.kept _ _ held).symm.trans found
      rw [Option.some_inj] at same
      exact absurd ⟨other, held, same ▸ own⟩ fresh

/-- A folder added where none was. -/
theorem grows_insert {disk : Disk} {name : String} {folder : Folder}
    (absent : disk.folders[name]? = none)
    (files : ∀ file, folder.yaml = .readable file →
      ∃ remote ∈ world.remotes, remote.yaml = .readable file) :
    world.Grows disk { disk with folders := disk.folders.insert name folder } where
  kept := by
    intro place held found
    cases place with
    | parent => exact found
    | root => exact found
    | source other => exact found
    | folder other =>
        have different : ¬compare name other = .eq := by
          rw [Std.compare_eq_iff_eq]
          rintro rfl
          exact Option.some_ne_none _ (found.symm.trans absent)
        simp only [Disk.find, ExtTreeMap.getElem?_insert]
        rw [if_neg different]
        exact found
    | aboveSources =>
        simp only [Disk.find] at found ⊢
        split at found
        · rename_i made
          rw [if_pos]
          · exact found
          · exact ExtTreeMap.contains_iff_mem.mpr
              (ExtTreeMap.mem_insert.mpr (.inr (ExtTreeMap.contains_iff_mem.mp made)))
        · cases found
  files := by
    intro file listed
    obtain ⟨other, held, found, readable⟩ := mem_listed_files.mp listed
    simp only [ExtTreeMap.getElem?_insert] at found
    split at found
    · obtain rfl := Option.some.inj found
      exact .inr (files file readable)
    · exact .inl (mem_listed_files.mpr ⟨other, held, found, readable⟩)

theorem grows_makeSources (disk : Disk) : world.Grows disk disk.makeSources := by
  rw [Disk.makeSources]
  split
  · exact .refl disk
  · rename_i unmade
    apply grows_insert
    · exact ExtTreeMap.getElem?_eq_none fun made => unmade (ExtTreeMap.contains_iff_mem.mpr made)
    · intro file readable
      cases readable

theorem grows_insertSource {disk : Disk} {name : String} {folder : Folder}
    (absent : disk.sources[name]? = none) :
    world.Grows disk { disk with sources := disk.sources.insert name folder } where
  kept := by
    intro place held found
    cases place with
    | parent => exact found
    | root => exact found
    | folder other => exact found
    | aboveSources => exact found
    | source other =>
        have different : ¬compare name other = .eq := by
          rw [Std.compare_eq_iff_eq]
          rintro rfl
          exact Option.some_ne_none _ (found.symm.trans absent)
        simp only [Disk.find, ExtTreeMap.getElem?_insert]
        rw [if_neg different]
        exact found
  files := fun file listed => .inl listed

theorem makeSources_sources (disk : Disk) : disk.makeSources.sources = disk.sources := by
  rw [Disk.makeSources]
  split <;> rfl

/-- A checkout in its place is the only change. -/
theorem put_spec {remote : Remote} {place : Place} (absent : before.find place = none)
    (placed : before.put remote.checkout place = some after) (listed : remote ∈ world.remotes) :
    world.Grows before after ∧ after.find place = some remote.checkout := by
  cases place with
  | parent => cases placed
  | root => cases placed
  | aboveSources => cases placed
  | folder name =>
      obtain rfl := Option.some.inj placed
      refine ⟨grows_insert absent fun file readable => ⟨remote, listed, readable⟩, ?_⟩
      exact ExtTreeMap.getElem?_insert_self
  | source name =>
      obtain rfl := Option.some.inj placed
      constructor
      · have empty : before.makeSources.sources[name]? = none := by
          rw [makeSources_sources]
          exact absent
        have added := (grows_makeSources before).trans
          (@grows_insertSource world before.makeSources name remote.checkout empty)
        rw [makeSources_sources] at added
        exact added
      · exact ExtTreeMap.getElem?_insert_self

variable {state next : Pulling} {clone : Clone}

@[simp]
theorem note_disk (world : World) (state : Pulling) (clone : Clone) :
    (world.note state clone).disk = state.disk := by
  rw [note]
  split <;> rfl

@[simp]
theorem note_cloned (world : World) (state : Pulling) (clone : Clone) :
    (world.note state clone).cloned = state.cloned := by
  rw [note]
  split <;> rfl

/-- A request that goes through only checked what is there, or cloned what was not. -/
theorem ask_cases (asked : world.ask state clone = .ok next) :
    (world.There state.disk clone ∧ next = world.note state clone) ∨
      (state.disk.find clone.place = none ∧ world.Grows state.disk next.disk ∧
        world.There next.disk clone ∧ next.cloned = clone :: state.cloned ∧
        next.repeated = (world.note state clone).repeated) := by
  simp only [ask] at asked
  split at asked
  · rename_i folder found
    cases ensured : world.ensureCheckoutIs clone folder with
    | error message => simp [ensured, Except.map] at asked
    | ok checked =>
        rw [ensured, Except.map, Except.ok.injEq] at asked
        exact .inl ⟨⟨folder, found, world.ensureCheckoutIs_ok ensured⟩, asked.symm⟩
  · rename_i absent
    simp only [runGitClone, checkout] at asked
    split at asked
    · cases asked
    rename_i folder left
    split at left
    · split at left
      · rename_i remote found
        obtain rfl := Except.ok.inj left
        split at asked
        · cases asked
        · rename_i disk placed
          obtain rfl := Except.ok.inj asked
          have listed := List.mem_of_find?_eq_some found
          have named := List.find?_some found
          rw [Bool.and_eq_true, beq_iff_eq] at named
          rw [note_disk] at placed
          obtain ⟨grows, there⟩ := put_spec absent placed listed
          refine .inr ⟨absent, grows, ⟨remote.checkout, there, ?_⟩, ?_, rfl⟩
          · rw [← named.1]
            exact world.own_checkout remote
          · simp
      · cases left
    · cases left

theorem ask_grows (asked : world.ask state clone = .ok next) :
    world.Grows state.disk next.disk ∧ world.There next.disk clone := by
  rcases ask_cases asked with ⟨there, rfl⟩ | ⟨-, grows, there, -, -⟩
  · rw [note_disk]
    exact ⟨.refl _, there⟩
  · exact ⟨grows, there⟩

theorem ask_cloned (asked : world.ask state clone = .ok next) {made : Clone}
    (listed : made ∈ next.cloned) : made ∈ state.cloned ∨ made = clone := by
  rcases ask_cases asked with ⟨-, rfl⟩ | ⟨-, -, -, cloned, -⟩
  · rw [note_cloned] at listed
    exact .inl listed
  · rw [cloned] at listed
    exact (List.mem_cons.mp listed).symm

/-- What was not cloned before is not asked for again. -/
theorem ask_repeated (asked : world.ask state clone = .ok next)
    (new : ∀ made ∈ state.cloned, ¬world.sameClone made clone) :
    next.repeated = state.repeated := by
  have unnoted : world.note state clone = state := by
    rw [note, if_neg]
    simpa using new
  rcases ask_cases asked with ⟨-, rfl⟩ | ⟨-, -, -, -, repeated⟩
  · rw [unnoted]
  · rw [repeated, unnoted]

/-! ## What a pass asks for -/

section Requests

variable {request : Except String Clone} {requests : List (Except String Clone)}

theorem askAll_nil : world.askAll state [] = .ok next ↔ next = state := by
  simp [askAll, pure, Except.pure, eq_comm]

theorem askAll_cons : world.askAll state (request :: requests) = .ok next ↔
    ∃ clone middle, request = .ok clone ∧ world.ask state clone = .ok middle ∧
      world.askAll middle requests = .ok next := by
  simp only [askAll, List.foldlM_cons, bind]
  constructor
  · intro asked
    cases request with
    | error message => cases asked
    | ok clone =>
        simp only [Except.bind] at asked
        cases first : world.ask state clone with
        | error message => simp [first] at asked
        | ok middle =>
            rw [first] at asked
            exact ⟨clone, middle, rfl, first, asked⟩
  · rintro ⟨clone, middle, rfl, first, rest⟩
    simp only [Except.bind, first]
    exact rest

/-- After a pass that goes on everything it asked for is there. -/
theorem askAll_grows (asked : world.askAll state requests = .ok next) :
    world.Grows state.disk next.disk ∧
      ∀ clone, .ok clone ∈ requests → world.There next.disk clone := by
  induction requests generalizing state with
  | nil =>
      rw [askAll_nil.mp asked]
      exact ⟨.refl _, fun clone listed => absurd listed List.not_mem_nil⟩
  | cons request requests ih =>
      obtain ⟨first, middle, rfl, head, rest⟩ := askAll_cons.mp asked
      obtain ⟨grows, there⟩ := ask_grows head
      obtain ⟨later, others⟩ := ih rest
      refine ⟨grows.trans later, fun clone listed => ?_⟩
      rcases List.mem_cons.mp listed with same | listed
      · rw [Except.ok.inj same]
        exact later.there there
      · exact others clone listed

theorem askAll_cloned (asked : world.askAll state requests = .ok next) {made : Clone}
    (listed : made ∈ next.cloned) : made ∈ state.cloned ∨ .ok made ∈ requests := by
  induction requests generalizing state with
  | nil =>
      rw [askAll_nil.mp asked] at listed
      exact .inl listed
  | cons request requests ih =>
      obtain ⟨first, middle, rfl, head, rest⟩ := askAll_cons.mp asked
      rcases ih rest with before | later
      · rcases ask_cloned head before with old | rfl
        · exact .inl old
        · exact .inr List.mem_cons_self
      · exact .inr (List.mem_cons_of_mem _ later)

/-- Two requests for different clones. -/
def Differ (world : World) (first second : Except String Clone) : Prop :=
  ∀ clone other, first = .ok clone → second = .ok other → ¬world.sameClone clone other

/-- A pass that asks for different clones, none of them made before, repeats no request. -/
theorem askAll_repeated (asked : world.askAll state requests = .ok next)
    (different : requests.Pairwise world.Differ)
    (new : ∀ made ∈ state.cloned, ∀ clone, .ok clone ∈ requests →
      ¬world.sameClone made clone) : next.repeated = state.repeated := by
  induction requests generalizing state with
  | nil => rw [askAll_nil.mp asked]
  | cons request requests ih =>
      obtain ⟨first, middle, rfl, head, rest⟩ := askAll_cons.mp asked
      obtain ⟨apart, different⟩ := List.pairwise_cons.mp different
      have once := ask_repeated head fun made listed => new made listed first List.mem_cons_self
      rw [ih rest different, once]
      intro made listed clone later
      rcases ask_cloned head listed with old | rfl
      · exact new made old clone (List.mem_cons_of_mem _ later)
      · exact apart _ later made clone rfl rfl

end Requests

variable {flow : Option String} {disk : Disk} {nodes : List Node}

theorem wanted_subset (found : world.wanted flow disk = .ok nodes) :
    nodes.Sublist (disk.graph world.toLowercase world.workspaceName).nodes := by
  simp only [wanted] at found
  cases ids : startIds (disk.graph world.toLowercase world.workspaceName) flow with
  | error message => simp [ids, Except.map] at found
  | ok ids =>
      rw [ids, Except.map, Except.ok.injEq] at found
      rw [← found]
      exact List.filter_sublist

theorem mem_missingSources {source : Source} (listed : source ∈ missingSources disk nodes) :
    ∃ node ∈ nodes, disk.missingSource node = some source := by
  have sorted := (List.destutter_sublist _ _).subset listed
  rw [List.mem_insertionSort] at sorted
  exact List.mem_filterMap.mp sorted

/-- Every source that is missing is asked for, if only under a path it shares. -/
theorem missingSource_eq_none (nothing : missingSources disk nodes = []) {node : Node}
    (listed : node ∈ nodes) : disk.missingSource node = none := by
  rw [missingSources, List.destutter_eq_nil] at nothing
  have permuted := List.perm_insertionSort (fun first second : Source => first.path ≤ second.path)
    (nodes.filterMap disk.missingSource)
  rw [nothing] at permuted
  exact List.filterMap_eq_nil_iff.mp permuted.symm.eq_nil node listed

/-- The paths of the sources asked for are the sorted paths of those missing. -/
theorem map_path_missingSources (disk : Disk) (nodes : List Node) :
    (missingSources disk nodes).map Source.path =
      Listing.sortDedup ((nodes.filterMap disk.missingSource).map Source.path) := by
  have sorted := List.map_insertionSort (fun first second : Source => first.path ≤ second.path)
    (· ≤ ·) Source.path (nodes.filterMap disk.missingSource) fun _ _ _ _ => Iff.rfl
  rw [missingSources, Listing.sortDedup, ← sorted]
  exact List.map_destutter fun _ _ _ _ => Iff.rfl

/-- A stub's clone goes to the folder its node is named after. -/
theorem stubClone_folder {node : Node} (listed : node ∈ missingNodes nodes)
    (found : world.wanted flow disk = .ok nodes) (named : world.stubClone disk node = .ok clone) :
    clone.source = false ∧ clone.folder = node.id ∧
      (disk.stubRepos world.toLowercase)[node.id]? = some clone.url := by
  obtain ⟨member, missing⟩ := List.mem_filter.mp listed
  have backed := backed_of_mem_graph world.toLowercase ((wanted_subset found).subset member)
  have stub := backed.stub (by simpa using missing)
  rw [stubClone] at named
  split at named
  · cases named
  · rename_i repo known
    obtain rfl := Except.ok.inj named
    exact ⟨rfl, by simp [stub.1], known⟩

/-- Every stub has a repo to clone. -/
theorem stubClone_ok {node : Node} (listed : node ∈ missingNodes nodes)
    (found : world.wanted flow disk = .ok nodes) :
    ∃ clone, world.stubClone disk node = .ok clone := by
  obtain ⟨member, missing⟩ := List.mem_filter.mp listed
  have backed := backed_of_mem_graph world.toLowercase ((wanted_subset found).subset member)
  have known := (backed.stub (by simpa using missing)).2
  obtain ⟨repo, lookup⟩ := Option.isSome_iff_exists.mp (ExtTreeMap.mem_iff_isSome_getElem?.mp known)
  exact ⟨_, by rw [stubClone, lookup]⟩

theorem requests_differ (found : world.wanted flow disk = .ok nodes) :
    (world.requests disk nodes).Pairwise world.Differ := by
  have ids : ((disk.graph world.toLowercase world.workspaceName).nodes.map Node.id).Nodup :=
    Resolver.ResolveCtx.resolved_ids_nodup
      (Resolver.declaredCtx_spec world.toLowercase disk.scanWorkspace disk.repoFacts).2
  have stubs : ((missingNodes nodes).map Node.id).Nodup :=
    ids.sublist ((List.filter_sublist.trans (wanted_subset found)).map Node.id)
  refine List.pairwise_append.mpr ⟨?_, ?_, ?_⟩
  · have paths : ((missingSources disk nodes).map Source.path).Pairwise (· < ·) := by
      rw [map_path_missingSources]
      exact Listing.pairwise_sortDedup _
    apply List.pairwise_map.mpr
    apply (List.pairwise_map.mp paths).imp
    intro first second below clone other named same
    obtain rfl := Except.ok.inj named
    obtain rfl := Except.ok.inj same
    rw [Bool.not_eq_true, sameClone]
    have apart : first.folder ≠ second.folder := fun same =>
      below.ne (by rw [Source.path, same]; rfl)
    simp [Clone.ofSource, apart]
  · apply List.pairwise_map.mpr
    apply (List.pairwise_map.mp stubs).imp_of_mem
    intro first second listed later apart clone other named same
    have folder := (stubClone_folder listed found named).2.1
    have otherFolder := (stubClone_folder later found same).2.1
    rw [Bool.not_eq_true, sameClone, folder, otherFolder]
    simp [apart]
  · intro request source other stub clone second first same
    obtain ⟨held, -, rfl⟩ := List.mem_map.mp source
    obtain ⟨node, listed, rfl⟩ := List.mem_map.mp stub
    obtain rfl := Except.ok.inj first
    have kind := (stubClone_folder listed found same).1
    rw [Bool.not_eq_true, sameClone, kind]
    rfl

/-- Every clone that a pass asks for goes to where a file on disk says. -/
theorem place_of_request (found : world.wanted flow disk = .ok nodes)
    (listed : .ok clone ∈ world.requests disk nodes) :
    ∃ file ∈ OrderedMap.listed disk.files, clone.place ∈ file.places := by
  rcases List.mem_append.mp listed with source | stub
  · obtain ⟨held, missing, same⟩ := List.mem_map.mp source
    obtain rfl := Except.ok.inj same
    obtain ⟨node, -, lacks⟩ := mem_missingSources missing
    obtain ⟨built, -⟩ := Option.filter_eq_some_iff.mp lacks
    obtain ⟨-, -, file, filed, named⟩ :=
      sourcesNamed_nodeSources disk node.id held (Option.join_eq_some_iff.mp built)
    exact ⟨file, filed, named⟩
  · obtain ⟨node, missing, same⟩ := List.mem_map.mp stub
    obtain ⟨kind, folder, known⟩ := stubClone_folder missing found same
    obtain ⟨file, filed, named, -⟩ := stubRepos_named world.toLowercase known
    refine ⟨file, filed, ?_⟩
    rw [Clone.place, kind, folder]
    exact named

/-! ## What is left to pull -/

/-- The files of a world: those on disk, and those of the remotes. -/
def files (world : World) (disk : Disk) : List RepoFile :=
  OrderedMap.listed disk.files ++ world.remotes.filterMap fun remote => remote.yaml.file?

/-- The repos that some file includes and the sources that some service is built from, by where
they are cloned to, that are not on disk. -/
def absent (world : World) (disk : Disk) : Finset Place :=
  ((world.files disk).flatMap RepoFile.places).toFinset.filter fun place => disk.find place = none

theorem mem_absent {place : Place} :
    place ∈ world.absent disk ↔
      (∃ file ∈ world.files disk, place ∈ file.places) ∧ disk.find place = none := by
  simp only [absent, Finset.mem_filter, List.mem_toFinset, List.mem_flatMap]

/-- A pull never adds to what is left. -/
theorem Grows.absent_subset (grows : world.Grows before after) :
    world.absent after ⊆ world.absent before := by
  intro place left
  obtain ⟨⟨file, filed, named⟩, missing⟩ := mem_absent.mp left
  refine mem_absent.mpr ⟨⟨file, ?_, named⟩, ?_⟩
  · rcases List.mem_append.mp filed with onDisk | remote
    · rcases grows.files file onDisk with old | ⟨remote, listed, readable⟩
      · exact List.mem_append_left _ old
      · exact List.mem_append_right _
          (List.mem_filterMap.mpr ⟨remote, listed, file?_eq_some.mpr readable⟩)
    · exact List.mem_append_right _ remote
  · cases held : before.find place with
    | none => rfl
    | some folder => exact absurd (grows.kept _ _ held) (by simp [missing])

/-- A pass that asks for something not there takes it off what is left. -/
theorem Grows.absent_ssubset (grows : world.Grows before after) (there : world.There after clone)
    (fresh : ¬world.There before clone)
    (named : ∃ file ∈ OrderedMap.listed before.files, clone.place ∈ file.places) :
    world.absent after ⊂ world.absent before := by
  obtain ⟨file, filed, asked⟩ := named
  refine (Finset.ssubset_iff_of_subset grows.absent_subset).mpr ⟨clone.place, ?_, ?_⟩
  · exact mem_absent.mpr ⟨⟨file, List.mem_append_left _ filed, asked⟩,
      grows.absent_of_there there fresh⟩
  · intro left
    obtain ⟨folder, found, -⟩ := there
    exact Option.some_ne_none folder (found.symm.trans (mem_absent.mp left).2)

theorem There.of_sameClone {made : Clone} (there : world.There disk made)
    (same : world.sameClone made clone) : world.There disk clone := by
  rw [sameClone, Bool.and_eq_true, Bool.and_eq_true, beq_iff_eq, beq_iff_eq] at same
  obtain ⟨⟨kind, folder⟩, remote⟩ := same
  obtain ⟨held, found, origin, known, spelled⟩ := there
  refine ⟨held, ?_, origin, known, ?_⟩
  · rw [Clone.place, ← kind, ← folder]
    exact found
  · rw [sameRemote, beq_iff_eq] at remote spelled ⊢
    exact spelled.trans remote

/-! ## The loop -/

/-- Nothing that the next pass asks for is there already as a checkout of its own remote. -/
def Fresh (world : World) (flow : Option String) (disk : Disk) : Prop :=
  ∀ nodes, world.wanted flow disk = .ok nodes →
    ∀ clone, .ok clone ∈ world.requests disk nodes → ¬world.There disk clone

/-- The repo of a node is scanned, and the source it is built from is cloned. -/
structure Present (disk : Disk) (node : Node) : Prop where
  repo : ∃ (path : String) (folder : Folder) (file : RepoFile), node.localPath = some path ∧
    disk.folders[path]? = some folder ∧ folder.yaml = .readable file
  source : ∀ built, node.build = some (some built) → ∃ (source : Source) (folder : Folder),
    source.toBuildSource = built ∧ disk.find (.ofSource source.folder) = some folder ∧
      folder.git = true

/-- What holds of a state that a pull takes a pass from. -/
structure Sound (world : World) (flow : Option String) (state : Pulling) : Prop where
  /-- No clone made in this pull was asked for again. -/
  once : state.repeated = []
  /-- A pass asks for nothing twice, and for no clone made in this pull. -/
  new : ∀ nodes, world.wanted flow state.disk = .ok nodes →
    (world.requests state.disk nodes).Pairwise world.Differ ∧
      ∀ clone, .ok clone ∈ world.requests state.disk nodes →
        ∀ made ∈ state.cloned, ¬world.sameClone made clone
  /-- A pass that goes on has less left to pull. -/
  shrinks : ∀ next, world.pass flow state = .again next →
    world.absent next.disk ⊂ world.absent state.disk
  /-- A pull that succeeds has every wanted node's repo and source. -/
  complete : ∀ final, world.pass flow state = .done (.ok final) → ∃ nodes,
    world.wanted flow final.disk = .ok nodes ∧ ∀ node ∈ nodes, Present final.disk node

/-- The three ways a pass ends. -/
theorem pass_cases (world : World) (flow : Option String) (state : Pulling) :
    (∃ message, world.pass flow state = .done (.error message)) ∨
      ∃ nodes, world.wanted flow state.disk = .ok nodes ∧
        ((missingNodes nodes = [] ∧ missingSources state.disk nodes = [] ∧
            world.pass flow state = .done (.ok state)) ∨
          (¬(missingNodes nodes = [] ∧ missingSources state.disk nodes = []) ∧
            ∃ next, world.askAll state (world.requests state.disk nodes) = .ok next ∧
              world.pass flow state = .again next)) := by
  cases found : world.wanted flow state.disk with
  | error message => exact .inl ⟨message, by simp [pass, found]⟩
  | ok nodes =>
      by_cases nothing : missingNodes nodes = [] ∧ missingSources state.disk nodes = []
      · cases pulled : world.images nodes with
        | error message => exact .inl ⟨message, by simp [pass, found, nothing, pulled]⟩
        | ok done =>
            exact .inr ⟨nodes, rfl, .inl ⟨nothing.1,
              nothing.2, by simp [pass, found, nothing, pulled]⟩⟩
      · cases asked : world.askAll state (world.requests state.disk nodes) with
        | error message => exact .inl ⟨message, by simp [pass, found, nothing, asked]⟩
        | ok next =>
            exact .inr ⟨nodes, rfl, .inr ⟨nothing, next,
              asked, by simp [pass, found, nothing, asked]⟩⟩

theorem pass_again (goesOn : world.pass flow state = .again next) :
    ∃ nodes, world.wanted flow state.disk = .ok nodes ∧
      ¬(missingNodes nodes = [] ∧ missingSources state.disk nodes = []) ∧
      world.askAll state (world.requests state.disk nodes) = .ok next := by
  rcases pass_cases world flow state with
    ⟨message, failed⟩ | ⟨nodes, found, ⟨-, -, finished⟩ | ⟨missing, later, asked, again⟩⟩
  · cases goesOn.symm.trans failed
  · cases goesOn.symm.trans finished
  · obtain rfl := Pass.again.inj (goesOn.symm.trans again)
    exact ⟨nodes, found, missing, asked⟩

theorem pass_finished {final : Pulling} (finished : world.pass flow state = .done (.ok final)) :
    final = state ∧ ∃ nodes, world.wanted flow state.disk = .ok nodes ∧
      missingNodes nodes = [] ∧ missingSources state.disk nodes = [] := by
  rcases pass_cases world flow state with
    ⟨message, failed⟩ | ⟨nodes, found, ⟨nodesHere, sourcesHere, done⟩ | ⟨-, later, -, again⟩⟩
  · cases finished.symm.trans failed
  · have same := Pass.done.inj (finished.symm.trans done)
    exact ⟨Except.ok.inj same, nodes, found, nodesHere, sourcesHere⟩
  · cases finished.symm.trans again

/-- A pass with something missing asks for something. -/
theorem exists_request (found : world.wanted flow disk = .ok nodes)
    (missing : ¬(missingNodes nodes = [] ∧ missingSources disk nodes = [])) :
    ∃ clone, .ok clone ∈ world.requests disk nodes := by
  rw [not_and_or] at missing
  rcases missing with stubs | sources
  · obtain ⟨node, listed⟩ := List.exists_mem_of_ne_nil _ stubs
    obtain ⟨clone, named⟩ := stubClone_ok listed found
    exact ⟨clone, List.mem_append_right _ (List.mem_map.mpr ⟨node, listed, named⟩)⟩
  · obtain ⟨source, listed⟩ := List.exists_mem_of_ne_nil _ sources
    exact ⟨.ofSource source, List.mem_append_left _ (List.mem_map.mpr ⟨source, listed, rfl⟩)⟩

/-- With nothing missing, every wanted node is present. -/
theorem present_of_nothing_missing (found : world.wanted flow disk = .ok nodes)
    (nodesHere : missingNodes nodes = []) (sourcesHere : missingSources disk nodes = [])
    {node : Node} (listed : node ∈ nodes) : Present disk node := by
  have backed := backed_of_mem_graph world.toLowercase ((wanted_subset found).subset listed)
  constructor
  · have downloaded : node.downloaded = true := by
      have here := List.filter_eq_nil_iff.mp nodesHere node listed
      simpa using here
    obtain ⟨path, located, scanned⟩ := backed.here downloaded
    obtain ⟨file, lookup⟩ :=
      Option.isSome_iff_exists.mp (ExtTreeMap.mem_iff_isSome_getElem?.mp scanned)
    simp only [Disk.files, ExtTreeMap.getElem?_filterMap', Option.bind_eq_some_iff,
      file?_eq_some] at lookup
    obtain ⟨folder, held, readable⟩ := lookup
    exact ⟨path, folder, file, located, held, readable⟩
  · intro built declared
    have known := backed.built
    rw [declared, Option.join_some] at known
    obtain ⟨source, read, same⟩ := Option.map_eq_some_iff.mp known.symm
    obtain ⟨remote, origin, -⟩ :=
      sourcesNamed_nodeSources disk node.id source (Option.join_eq_some_iff.mp read)
    have here := missingSource_eq_none sourcesHere listed
    rw [Disk.missingSource, read, Option.filter_some_eq_none] at here
    have downloaded : source.downloaded = true := by simpa using here
    rw [origin, Source.read, Option.any_eq_true] at downloaded
    obtain ⟨folder, held, cloned⟩ := downloaded
    exact ⟨source, folder, same, by rw [origin]; exact held, cloned⟩

/-- What a pull knows of its own clones: each is there, and none was asked for again. -/
structure Tidy (world : World) (state : Pulling) : Prop where
  there : ∀ made ∈ state.cloned, world.There state.disk made
  once : state.repeated = []

/-- What a fresh state lacks was not cloned before. -/
theorem Tidy.new (tidy : world.Tidy state) (fresh : world.Fresh flow state.disk)
    (found : world.wanted flow state.disk = .ok nodes)
    (request : .ok clone ∈ world.requests state.disk nodes) {made : Clone}
    (listed : made ∈ state.cloned) : ¬world.sameClone made clone :=
  fun same => fresh nodes found clone request ((tidy.there made listed).of_sameClone same)

/-- A pass from a fresh state asks for no clone that was made. -/
theorem Tidy.pass (tidy : world.Tidy state) (fresh : world.Fresh flow state.disk)
    (goesOn : world.pass flow state = .again next) : world.Tidy next := by
  obtain ⟨nodes, found, -, asked⟩ := pass_again goesOn
  obtain ⟨grows, there⟩ := askAll_grows asked
  constructor
  · intro made listed
    rcases askAll_cloned asked listed with old | new
    · exact grows.there (tidy.there made old)
    · exact there made new
  · rw [askAll_repeated asked (requests_differ found), tidy.once]
    exact fun made listed clone request => tidy.new fresh found request listed

/-- A pass from a fresh state that goes on takes something off what is left. -/
theorem Fresh.shrinks (fresh : world.Fresh flow state.disk)
    (goesOn : world.pass flow state = .again next) :
    world.absent next.disk ⊂ world.absent state.disk := by
  obtain ⟨nodes, found, missing, asked⟩ := pass_again goesOn
  obtain ⟨clone, request⟩ := exists_request found missing
  obtain ⟨grows, there⟩ := askAll_grows asked
  exact grows.absent_ssubset (there clone request) (fresh nodes found clone request)
    (place_of_request found request)

/-! ## A pull that gets nowhere -/

/-- Something is missing, and all of it is there already as a checkout of its own remote. -/
def Stuck (world : World) (flow : Option String) (disk : Disk) : Prop :=
  ∃ nodes, world.wanted flow disk = .ok nodes ∧
    ¬(missingNodes nodes = [] ∧ missingSources disk nodes = []) ∧
    ∀ clone, .ok clone ∈ world.requests disk nodes → world.There disk clone

theorem There.ask (there : world.There state.disk clone) :
    world.ask state clone = .ok (world.note state clone) := by
  obtain ⟨folder, found, own⟩ := there
  rw [World.ask, found]
  dsimp only
  rw [Own.ensured world own, Except.map]

/-- Requests for what is there leave the disk as it is. -/
theorem askAll_there {requests : List (Except String Clone)}
    (there : ∀ request ∈ requests, ∃ clone, request = .ok clone ∧ world.There state.disk clone) :
    ∃ next, world.askAll state requests = .ok next ∧ next.disk = state.disk := by
  induction requests generalizing state with
  | nil => exact ⟨state, askAll_nil.mpr rfl, rfl⟩
  | cons request requests ih =>
      obtain ⟨clone, rfl, here⟩ := there request List.mem_cons_self
      obtain ⟨next, asked, same⟩ := @ih (world.note state clone) fun request listed => by
        rw [note_disk]
        exact there request (List.mem_cons_of_mem _ listed)
      exact ⟨next, askAll_cons.mpr ⟨clone, _, rfl, here.ask, asked⟩, same.trans (note_disk ..)⟩

theorem Stuck.pass (stuck : world.Stuck flow state.disk) :
    ∃ next, world.pass flow state = .again next ∧ next.disk = state.disk := by
  obtain ⟨nodes, found, missing, there⟩ := stuck
  obtain ⟨next, asked, same⟩ := @askAll_there world state (world.requests state.disk nodes) <| by
    intro request listed
    rcases List.mem_append.mp listed with source | stub
    · obtain ⟨held, -, rfl⟩ := List.mem_map.mp source
      exact ⟨_, rfl, there _ listed⟩
    · obtain ⟨node, lacks, rfl⟩ := List.mem_map.mp stub
      obtain ⟨clone, named⟩ := stubClone_ok lacks found
      exact ⟨clone, named, there clone (named ▸ listed)⟩
  refine ⟨next, ?_, same⟩
  rcases pass_cases world flow state with
    ⟨message, failed⟩ | ⟨others, again, ⟨nodesHere, sourcesHere, -⟩ | ⟨-, later, asks, goesOn⟩⟩
  · simp [World.pass, found, missing, asked] at failed
  · obtain rfl := Except.ok.inj (found.symm.trans again)
    exact absurd ⟨nodesHere, sourcesHere⟩ missing
  · obtain rfl := Except.ok.inj (found.symm.trans again)
    obtain rfl := Except.ok.inj (asked.symm.trans asks)
    exact goesOn

/-- A pull never ends once all that is missing is there. -/
theorem Stuck.loop (stuck : world.Stuck flow state.disk) (fuel : Nat) :
    Pass.loop (world.pass flow) fuel state = none := by
  have still : ∀ state : Pulling, world.Stuck flow state.disk →
      ∃ next : Pulling, world.pass flow state = .again next ∧ world.Stuck flow next.disk := by
    intro state stuck
    obtain ⟨next, goesOn, same⟩ := stuck.pass
    refine ⟨next, goesOn, ?_⟩
    rw [same]
    exact stuck
  exact Pass.loop_stuck _ still fuel stuck

/-! ## Pulls end -/

/-- A pull whose passes never ask for what is there already ends, after passes that each have less
left to pull; it asks for no clone twice, and succeeds only with everything wanted present. -/
theorem pull_ends (world : World) (flow : Option String) (disk : Disk)
    (fresh : ∀ state, Pass.Reached (world.pass flow) { disk } state → world.Fresh flow state.disk) :
    (∃ fuel outcome, world.pullAll flow fuel disk = some outcome) ∧
      ∀ state, Pass.Reached (world.pass flow) { disk } state → world.Sound flow state := by
  constructor
  · exact Pass.loop_ends (fun state => world.absent state.disk)
      fun state next reached goesOn => (fresh state reached).shrinks goesOn
  · intro state reached
    have tidy := reached.invariant world.Tidy
      ⟨fun made listed => absurd listed List.not_mem_nil, rfl⟩
      fun state next reached goesOn tidy => tidy.pass (fresh state reached) goesOn
    refine ⟨tidy.once, fun nodes found => ⟨requests_differ found, fun clone request made listed =>
      tidy.new (fresh state reached) found request listed⟩,
      fun next goesOn => (fresh state reached).shrinks goesOn, ?_⟩
    intro final finished
    obtain ⟨rfl, nodes, found, nodesHere, sourcesHere⟩ := pass_finished finished
    exact ⟨nodes, found, fun node listed =>
      present_of_nothing_missing found nodesHere sourcesHere listed⟩

/-! ## A run -/

instance (world : World) (disk : Disk) (clone : Clone) : Decidable (world.There disk clone) :=
  decidable_of_iff ((disk.find clone.place).any fun folder =>
      folder.facts.repo.any fun origin => world.sameRemote origin clone.url) (by
    simp [There, Own, Option.any_eq_true])

/-- Every clone that the next pass asks for meets a condition. -/
theorem forall_request_iff (world : World) (flow : Option String) (disk : Disk)
    (accepts : Clone → Bool) :
    ((world.wanted flow disk).toOption.all fun nodes =>
      (world.requests disk nodes).all fun request => request.toOption.all accepts) ↔
      ∀ nodes, world.wanted flow disk = .ok nodes →
        ∀ clone, .ok clone ∈ world.requests disk nodes → accepts clone := by
  cases found : world.wanted flow disk with
  | error message => simp [Except.toOption]
  | ok nodes =>
      simp only [Except.toOption, Option.all_some, List.all_eq_true, Except.ok.injEq]
      constructor
      · rintro each _ rfl clone listed
        exact each _ listed
      · intro each request listed
        cases request with
        | error message => rfl
        | ok clone => exact each nodes rfl clone listed

instance (world : World) (flow : Option String) (disk : Disk) : Decidable (world.Fresh flow disk) :=
  decidable_of_iff _ ((forall_request_iff world flow disk fun clone =>
    !decide (world.There disk clone)).trans (by simp [Fresh]))

theorem stuck_iff (world : World) (flow : Option String) (disk : Disk) :
    ((world.wanted flow disk).toOption.any fun nodes =>
        !((missingNodes nodes).isEmpty && (missingSources disk nodes).isEmpty)) ∧
      ((world.wanted flow disk).toOption.all fun nodes =>
        (world.requests disk nodes).all fun request =>
          request.toOption.all fun clone => decide (world.There disk clone)) ↔
      world.Stuck flow disk := by
  rw [forall_request_iff]
  have missing_iff : ∀ nodes,
      (!((missingNodes nodes).isEmpty && (missingSources disk nodes).isEmpty)) = true ↔
        ¬(missingNodes nodes = [] ∧ missingSources disk nodes = []) := by
    intro nodes
    rw [Bool.not_eq_true', ← Bool.not_eq_true, Bool.and_eq_true, List.isEmpty_iff,
      List.isEmpty_iff]
  simp only [Option.any_eq_true, missing_iff, decide_eq_true_eq]
  constructor
  · rintro ⟨⟨nodes, found, missing⟩, there⟩
    cases result : world.wanted flow disk with
    | error message => simp [result, Except.toOption] at found
    | ok others =>
        rw [result, Except.toOption, Option.some_inj] at found
        subst found
        exact ⟨others, result, missing, there others result⟩
  · rintro ⟨nodes, found, missing, there⟩
    refine ⟨⟨nodes, by rw [found]; rfl, missing⟩, fun others result => ?_⟩
    obtain rfl := Except.ok.inj (found.symm.trans result)
    exact there

instance (world : World) (flow : Option String) (disk : Disk) : Decidable (world.Stuck flow disk) :=
  decidable_of_iff _ (stuck_iff world flow disk)

end World

/-- A repo's file that includes another repo. -/
def appFile : RepoFile where
  component :=
    { include_ := (∅ : OrderedMap String Include).insert "lib"
        { repo := "https://example.com/lib.git" } }

/-- A workspace of that repo. -/
def shopDisk : Disk where
  folders := (∅ : OrderedMap String Folder).insert "app"
    { git := true
      facts := { repo := some "https://example.com/app.git" }
      yaml := .readable appFile }

/-- The file of the repo it includes: a service built from a third repo. -/
def libFile : RepoFile where
  component :=
    { services := (∅ : OrderedMap String ServiceConfig).insert "geo" { build := some none } }
  contexts := (∅ : OrderedMap String String).insert "geo" "https://example.com/geo.git#v1"

/-- The remotes; what the included one holds for a file is left open. -/
def shopWorld (yaml : FghjYaml) : World where
  workspace := "/shop"
  workspaceName := "shop"
  toLowercase := id
  remotes :=
    [{ url := "https://example.com/lib.git", reference := some "main", yaml },
      { url := "https://example.com/geo.git", reference := some "v1" }]
  git := fun _ => true
  images := fun _ => .ok ()

/-- With a readable file the pull ends: the included repo, the source it builds from, nothing. -/
theorem pull_ends_shop :
    (∀ state, Pass.Reached ((shopWorld (.readable libFile)).pass none) { disk := shopDisk } state →
        (shopWorld (.readable libFile)).Fresh none state.disk) ∧
      (∃ fuel outcome, (shopWorld (.readable libFile)).pullAll none fuel shopDisk = some outcome) ∧
      ∀ state, Pass.Reached ((shopWorld (.readable libFile)).pass none) { disk := shopDisk } state →
        (shopWorld (.readable libFile)).Sound none state := by
  have checked : Pass.checkRun ((shopWorld (.readable libFile)).pass none)
      (fun state => decide ((shopWorld (.readable libFile)).Fresh none state.disk)) 3
      { disk := shopDisk } = true := by decide +kernel
  have fresh : ∀ state,
      Pass.Reached ((shopWorld (.readable libFile)).pass none) { disk := shopDisk } state →
        (shopWorld (.readable libFile)).Fresh none state.disk := by
    intro state reached
    have here := Pass.check_of_reached checked reached
    exact of_decide_eq_true here
  exact ⟨fresh, World.pull_ends (shopWorld (.readable libFile)) none shopDisk fresh⟩

/-- A pull that clones an included repo without a file never ends. -/
theorem bare_include_pulled_forever :
    ¬∀ (world : World) (flow : Option String) (disk : Disk),
      (∃ fuel outcome, world.pullAll flow fuel disk = some outcome) ∧
        ∀ state, Pass.Reached (world.pass flow) { disk } state → world.Sound flow state := by
  intro claim
  obtain ⟨fuel, outcome, ended⟩ := (claim (shopWorld .absent) none shopDisk).1
  have first : (match (shopWorld .absent).pass none { disk := shopDisk } with
      | .again next => decide ((shopWorld .absent).Stuck none next.disk)
      | .done _ => false) = true := by decide +kernel
  cases result : (shopWorld .absent).pass none { disk := shopDisk } with
  | done outcome => simp [result] at first
  | again next =>
      rw [result] at first
      have stuck := of_decide_eq_true first
      cases fuel with
      | zero => cases ended
      | succ fuel =>
          rw [World.pullAll, Pass.loop_again result, stuck.loop] at ended
          cases ended

end Pull
end Fghj
