import Fghj.Checkouts

/-!
# Where build sources are cloned to

A git build context is cloned to a folder named after its URL and its reference. The resolver
refuses two repos in one such folder, but not two references.
-/

namespace Fghj

open Std (ExtTreeMap)

namespace Checkouts

open Text

/-! ## The check -/

section Check

variable (toLowercase : String → String)

/-- Two repos that would share a clone. -/
def checkSourcePaths (sources : List (String × Source)) : List Warning :=
  (intoIter (sources.map (·.2.path))).filterMap fun path =>
    let sharing := sources.filter (·.2.path = path)
    let urls := intoIter (sharing.map fun entry =>
      RepoUrl.normalizeRepoUrl toLowercase entry.2.url)
    if urls.length > 1 then
      some (.blocking (", ".intercalate (sortUnstable (sharing.map (·.1))) ++
        " build from different repos (" ++ ", ".intercalate
          urls ++ ") that would share the clone " ++
        path ++ "; pin different refs, or build from one of them"))
    else none

/-- Without a warning, sources that share a clone are of one repo. -/
theorem same_repo_of_calm {sources : List (String × Source)}
    (calm : ∀ warning ∈ checkSourcePaths toLowercase sources, warning.isBlocking = false)
    {entry other : String × Source} (member : entry ∈ sources) (also : other ∈ sources)
    (same : entry.2.path = other.2.path) :
    RepoUrl.normalizeRepoUrl toLowercase entry.2.url =
      RepoUrl.normalizeRepoUrl toLowercase other.2.url := by
  let sharing := sources.filter (·.2.path = entry.2.path)
  let urls := intoIter (sharing.map fun entry =>
    RepoUrl.normalizeRepoUrl toLowercase entry.2.url)
  have few : urls.length ≤ 1 := by
    by_contra many
    have warned := calm _ (List.mem_filterMap.mpr ⟨entry.2.path,
      mem_intoIter.mpr (List.mem_map.mpr ⟨entry, member, rfl⟩), if_pos (Nat.lt_of_not_le many)⟩)
    cases warned
  have listed : ∀ source ∈ sharing, RepoUrl.normalizeRepoUrl toLowercase source.2.url ∈ urls :=
    fun source inside => mem_intoIter.mpr (List.mem_map.mpr ⟨source, inside, rfl⟩)
  have first := listed entry (List.mem_filter.mpr ⟨member, by simp⟩)
  have second := listed other (List.mem_filter.mpr ⟨also, by simp [same]⟩)
  rcases shape : urls with _ | ⟨url, _ | ⟨next, rest⟩⟩
  · rw [shape] at first
    cases first
  · rw [shape, List.mem_singleton] at first second
    rw [first, second]
  · rw [shape] at few
    simp at few

end Check

/-! ## What two paths have in common -/

/-- The last segment of a URL, which names its clones. -/
def cloneName (url : String) : List Char :=
  trimEndMatches ".git".toList
    ((trimEndMatches ['/'] url.toList).reverse.takeWhile fun char =>
      char ≠ '/' && char ≠ ':').reverse

/-- A reference as it stands in a path. -/
def flatRef (reference : String) : List Char :=
  reference.toList.map fun char => if char = '/' then '-' else char

theorem toList_sourceFolder (url : String) (reference : Option String) :
    (sourceFolder url reference).toList =
      cloneName url ++ ((reference.map flatRef).map ('@' :: ·)).getD [] := by
  cases reference <;> simp [sourceFolder, cloneName, flatRef]

/-- A clone's name that is another's continued by `@` and the beginning of its reference. -/
def Continues (longer shorter : Source) : Prop :=
  ∃ reference middle, shorter.reference = some reference ∧
    cloneName longer.url = cloneName shorter.url ++ '@' :: middle ∧
    flatRef reference = middle ++ ((longer.reference.map flatRef).map ('@' :: ·)).getD []

/-- Two references of one clone's name that differ in `/` against `-` alone. -/
def SlashOnly (source other : Source) : Prop :=
  cloneName source.url = cloneName other.url ∧ source.reference ≠ other.reference ∧
    source.reference.map flatRef = other.reference.map flatRef

/-- Two texts cut at an `@` each. -/
theorem append_at_eq_iff {left right front back : List Char} :
    left ++ '@' :: right = front ++ '@' :: back ↔
      left = front ∧ right = back ∨
        (∃ middle, left = front ++ '@' :: middle ∧ back = middle ++ '@' :: right) ∨
        ∃ middle, front = left ++ '@' :: middle ∧ right = middle ++ '@' :: back := by
  constructor
  · intro same
    rcases List.append_eq_append_iff.mp same with ⟨between, rfl, rest⟩ | ⟨between, rfl, rest⟩
    · cases between with
      | nil =>
          simp only [List.nil_append, List.cons.injEq, true_and] at rest
          exact .inl ⟨by simp, rest⟩
      | cons char middle =>
          simp only [List.cons_append, List.cons.injEq] at rest
          obtain ⟨rfl, rfl⟩ := rest
          exact .inr (.inr ⟨middle, rfl, rfl⟩)
    · cases between with
      | nil =>
          simp only [List.nil_append, List.cons.injEq, true_and] at rest
          exact .inl ⟨by simp, rest.symm⟩
      | cons char middle =>
          simp only [List.cons_append, List.cons.injEq] at rest
          obtain ⟨rfl, rfl⟩ := rest
          exact .inr (.inl ⟨middle, rfl, rfl⟩)
  · rintro (⟨rfl, rfl⟩ | ⟨middle, rfl, rfl⟩ | ⟨middle, rfl, rfl⟩) <;> simp

theorem Continues.of_some {longer shorter : Source} {reference : String}
    (given : longer.reference = some reference) : Continues longer shorter ↔
      ∃ other middle, shorter.reference = some other ∧
        cloneName longer.url = cloneName shorter.url ++ '@' :: middle ∧
        flatRef other = middle ++ '@' :: flatRef reference := by
  simp [Continues, given]

theorem Continues.reference_ne {longer shorter : Source} (continues : Continues longer shorter) :
    longer.reference ≠ shorter.reference := by
  obtain ⟨reference, middle, given, -, flat⟩ := continues
  rw [given]
  intro same
  have lengths := congrArg List.length flat
  simp [same] at lengths
  omega

/-- Which sources with different references share a folder. -/
theorem shared_folder_iff {source other : Source}
    (named : source.folder = sourceFolder source.url source.reference)
    (alsoNamed : other.folder = sourceFolder other.url other.reference) :
    source.folder = other.folder ∧ source.reference ≠ other.reference ↔
      SlashOnly source other ∨ Continues source other ∨ Continues other source := by
  have texts : source.folder = other.folder ↔
      cloneName source.url ++ ((source.reference.map flatRef).map ('@' :: ·)).getD [] =
        cloneName other.url ++ ((other.reference.map flatRef).map ('@' :: ·)).getD [] := by
    rw [named, alsoNamed, ← String.toList_inj, toList_sourceFolder, toList_sourceFolder]
  have apart : Continues source other ∨ Continues other source →
      source.reference ≠ other.reference := by
    rintro (longer | longer)
    · exact longer.reference_ne
    · exact longer.reference_ne.symm
  have shared : source.folder = other.folder ↔
      (cloneName source.url = cloneName other.url ∧
        source.reference.map flatRef = other.reference.map flatRef) ∨
      Continues source other ∨ Continues other source := by
    rw [texts]
    cases mine : source.reference with
    | none =>
        cases theirs : other.reference with
        | none => simp [Continues, mine, theirs]
        | some reference => simp [Continues, mine, theirs]
    | some reference =>
        cases theirs : other.reference with
        | none => simp [Continues, mine, theirs, eq_comm]
        | some later =>
            rw [Continues.of_some mine, Continues.of_some theirs]
            simp [append_at_eq_iff, mine, theirs]
  rw [shared]
  constructor
  · rintro ⟨⟨name, flat⟩ | continues, different⟩
    · exact .inl ⟨name, different, flat⟩
    · exact .inr continues
  · rintro (⟨name, different, flat⟩ | continues)
    · exact ⟨.inl ⟨name, flat⟩, different⟩
    · exact ⟨.inr continues, apart continues⟩

/-! ## One repo at one reference -/

/-- The sources that nodes are built from, with their nodes. -/
def Disk.sourceList (disk : Disk) : List (String × Source) :=
  disk.nodeSources.toList.filterMap fun (id, source) => source.map fun source => (id, source)

theorem mem_sourceList {disk : Disk} {id : String} {source : Source} :
    (id, source) ∈ disk.sourceList ↔ disk.nodeSources[id]? = some (some source) := by
  rw [Disk.sourceList, List.mem_filterMap]
  constructor
  · rintro ⟨⟨other, held⟩, listed, same⟩
    obtain ⟨found, rfl, equal⟩ := Option.map_eq_some_iff.mp same
    cases equal
    exact ExtTreeMap.mem_toList_iff_getElem?_eq_some.mp listed
  · intro found
    exact ⟨(id, some source), ExtTreeMap.mem_toList_iff_getElem?_eq_some.mpr found, rfl⟩

/-- Every clone holds one repo at one reference, in a folder of its own. -/
structure OneRefPerClone (toLowercase : String → String) (disk : Disk) : Prop where
  shared : ∀ entry ∈ disk.sourceList, ∀ other ∈ disk.sourceList,
    entry.2.path = other.2.path →
      RepoUrl.normalizeRepoUrl toLowercase entry.2.url =
        RepoUrl.normalizeRepoUrl toLowercase other.2.url ∧ entry.2.reference = other.2.reference
  inside : ∀ entry ∈ disk.sourceList, '/' ∉ entry.2.folder.toList ∧
    Place.ofSource entry.2.folder = .source entry.2.folder

/-- No two references of one clone's name differ in `/` against `-` alone, no clone's name is
another's continued by its reference, and without a reference no clone's name leads elsewhere. -/
structure Unambiguous (disk : Disk) : Prop where
  slashes : ∀ entry ∈ disk.sourceList, ∀ other ∈ disk.sourceList, ¬SlashOnly entry.2 other.2
  names : ∀ entry ∈ disk.sourceList, ∀ other ∈ disk.sourceList, ¬Continues entry.2 other.2
  plain : ∀ entry ∈ disk.sourceList, entry.2.reference = none →
    cloneName entry.2.url ∉ ["".toList, ".".toList, "..".toList]

theorem folder_of_mem {disk : Disk} {entry : String × Source} (member : entry ∈ disk.sourceList) :
    entry.2.folder = sourceFolder entry.2.url entry.2.reference := by
  obtain ⟨remote, same, -⟩ := sourcesNamed_nodeSources disk entry.1 entry.2
    (mem_sourceList.mp member)
  rw [same]
  rfl

theorem path_eq_iff {source other : Source} :
    source.path = other.path ↔ source.folder = other.folder := by
  rw [Source.path, Source.path, ← String.toList_inj, ← String.toList_inj]
  simp

theorem slash_not_mem_cloneName (url : String) : '/' ∉ cloneName url := by
  intro member
  have inside := List.mem_takeWhile_imp (List.mem_reverse.mp (mem_of_mem_trimEndMatches member))
  simp at inside

theorem slash_not_mem_flatRef (reference : String) : '/' ∉ flatRef reference := by
  intro member
  obtain ⟨char, -, same⟩ := List.mem_map.mp member
  split at same
  · cases same
  · exact absurd same ‹_›

/-- A clone's folder is a name of its own unless it is empty or made of dots. -/
theorem ofSource_eq_iff (name : String) :
    Place.ofSource name = .source name ↔ name.toList ∉ ["".toList, ".".toList, "..".toList] := by
  rw [Place.ofSource]
  simp only [List.mem_cons, String.toList_inj, List.not_mem_nil, or_false, not_or]
  split
  · rename_i empty
    simp only [reduceCtorEq, false_iff]
    rintro ⟨first, second, -⟩
    exact empty.elim first second
  · rename_i solid
    rw [not_or] at solid
    split
    · rename_i up
      simp [up]
    · rename_i down
      simp [solid, down]

theorem inside_iff {disk : Disk} {entry : String × Source} (member : entry ∈ disk.sourceList) :
    '/' ∉ entry.2.folder.toList ∧ Place.ofSource entry.2.folder = .source entry.2.folder ↔
      (entry.2.reference = none →
        cloneName entry.2.url ∉ ["".toList, ".".toList, "..".toList]) := by
  rw [ofSource_eq_iff, folder_of_mem member, toList_sourceFolder]
  cases given : entry.2.reference with
  | none => simp [slash_not_mem_cloneName]
  | some reference =>
      simp only [Option.map_some, Option.getD_some, reduceCtorEq, false_implies, iff_true]
      refine ⟨fun member => ?_, fun dots => ?_⟩
      · rcases List.mem_append.mp member with name | later
        · exact slash_not_mem_cloneName _ name
        · rcases List.mem_cons.mp later with sign | flat
          · cases sign
          · exact slash_not_mem_flatRef _ flat
      · have at_ : '@' ∈ cloneName entry.2.url ++ '@' :: flatRef reference := by simp
        simp only [List.mem_cons, List.not_mem_nil, or_false] at dots
        rcases dots with same | same | same <;> · rw [same] at at_; revert at_; decide

/-- Where the resolver has nothing to say against the sources, every clone holds one repo at one
reference in a folder of its own if and only if the names of the clones are unambiguous. -/
theorem one_ref_per_clone_iff (toLowercase : String → String) (disk : Disk)
    (calm : ∀ warning ∈ checkSourcePaths toLowercase disk.sourceList, warning.isBlocking = false) :
    OneRefPerClone toLowercase disk ↔ Unambiguous disk := by
  constructor
  · intro one
    have apart : ∀ entry ∈ disk.sourceList, ∀ other ∈ disk.sourceList,
        ¬(SlashOnly entry.2 other.2 ∨ Continues entry.2 other.2 ∨ Continues other.2 entry.2) := by
      intro entry member other also clash
      obtain ⟨folder, different⟩ :=
        (shared_folder_iff (folder_of_mem member) (folder_of_mem also)).mpr clash
      exact different (one.shared entry member other also (path_eq_iff.mpr folder)).2
    refine ⟨?_, ?_, fun entry member => (inside_iff member).mp (one.inside entry member)⟩
    · exact fun entry member other also slashes => apart entry member other also (.inl slashes)
    · exact fun entry member other also longer => apart entry member other also (.inr (.inl longer))
  · intro clear
    refine ⟨fun entry member other also same =>
      ⟨same_repo_of_calm toLowercase calm member also same,
      ?_⟩, fun entry member => (inside_iff member).mpr (clear.plain entry member)⟩
    by_contra different
    rcases (shared_folder_iff (folder_of_mem member) (folder_of_mem also)).mp
      ⟨path_eq_iff.mp same, different⟩ with slashes | longer | longer
    · exact clear.slashes entry member other also slashes
    · exact clear.names entry member other also longer
    · exact clear.names other also entry member longer

/-- A workspace of one repo whose services build from these contexts. -/
def buildsDisk (contexts : List (String × String)) : Disk where
  folders := (∅ : OrderedMap String Folder).insert "app"
    { git := true
      facts := { repo := some "https://x/app.git" }
      yaml := .readable
        { component :=
            { services := contexts.foldl (fun services (name, _) =>
                services.insert name { build := some none }) ∅ }
          contexts := contexts.foldl (fun held (name, context) => held.insert name context) ∅ } }

/-- Two branches of one repo, and another repo. -/
theorem one_ref_per_clone_branches :
    OneRefPerClone id (buildsDisk [("a", "https://x/y.git#feature/z"),
      ("b", "https://x/y.git#main"), ("c", "https://x/w.git")]) := by
  refine (one_ref_per_clone_iff id _ (by decide +kernel)).mpr ⟨?_, ?_, by decide +kernel⟩
  · simp only [SlashOnly]
    decide +kernel
  · rintro entry member other also ⟨reference, middle, -, name, -⟩
    have clear : ∀ entry ∈ (buildsDisk [("a", "https://x/y.git#feature/z"),
        ("b", "https://x/y.git#main"), ("c", "https://x/w.git")]).sourceList,
        '@' ∉ cloneName entry.2.url := by decide +kernel
    exact clear entry member (by simp [name])

/-- A slash and a dash make one folder of two branches. -/
theorem two_branches_share_a_clone :
    ¬∀ (disk : Disk),
      (∀ warning ∈ (disk.graph id "shop").warnings ++ checkSourcePaths id disk.sourceList,
        warning.isBlocking = false) → OneRefPerClone id disk := by
  intro claim
  have one := claim (buildsDisk [("a", "https://x/y.git#feature/z"),
    ("b", "https://x/y.git#feature-z")]) (by decide +kernel)
  exact absurd one.shared (by decide +kernel)

/-- A repo without a name is cloned over the folder of sources. -/
example : ¬OneRefPerClone id (buildsDisk [("a", "https://x/.git")]) :=
  fun one => absurd one.inside (by decide +kernel)

end Checkouts
end Fghj
