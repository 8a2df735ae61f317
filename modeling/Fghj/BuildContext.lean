import Fghj.Moby

/-!
# The files of a build context

The context directory is walked from a stack of directories. What the `.dockerignore` excludes is
left out, except the Dockerfile and the `.dockerignore` themselves, and an excluded directory is
walked only if a `!` pattern could bring something in it back.
-/

namespace Fghj
namespace BuildContext

open Dockerignore (Ignore)
open Paths (path)

/-- What a directory lists, in the order it is read in. A link counts as what it leads to; one that
leads nowhere is broken. -/
inductive Entries where
  | none
  | file (name : List Char) (rest : Entries)
  | broken (name : List Char) (rest : Entries)
  | directory (name : List Char) (children rest : Entries)
  deriving DecidableEq

namespace Entries

def names : Entries → List (List Char)
  | none => []
  | file name rest | broken name rest | directory name _ rest => name :: rest.names

/-- A name a directory can list. -/
def IsName (name : List Char) : Prop := name ≠ [] ∧ name ≠ ['.'] ∧ name ≠ ['.', '.'] ∧ '/' ∉ name

/-- A directory lists no name twice, and nor do those in it. -/
def Sound : Entries → Prop
  | none => True
  | file name rest | broken name rest => IsName name ∧ name ∉ rest.names ∧ rest.Sound
  | directory name children rest =>
      IsName name ∧ name ∉ rest.names ∧ children.Sound ∧ rest.Sound

/-- The paths of the files below a directory. -/
def files : Entries → List (List (List Char))
  | none => []
  | file name rest => [name] :: rest.files
  | broken _ rest => rest.files
  | directory name children rest => children.files.map (name :: ·) ++ rest.files

theorem nil_not_mem_files (entries : Entries) : [] ∉ entries.files := by
  induction entries with
  | none => exact List.not_mem_nil
  | file name rest ih => simpa [files] using ih
  | broken name rest ih => exact ih
  | directory name children rest _ ih => simpa [files] using ih

/-- How many directories there are. -/
def directories : Entries → Nat
  | none => 0
  | file _ rest | broken _ rest => rest.directories
  | directory _ children rest => children.directories + rest.directories + 1

end Entries

/-- The tree of a context directory. -/
structure Tree where
  entries : Entries
  sound : entries.Sound

/-- What is put into the archive. -/
inductive Sent where
  | file (rel : List Char)
  | directory (rel : List Char)
  deriving DecidableEq

/-- The directories still to be read, the next one first, and what was sent. -/
structure Walk where
  stack : List (List Char × Entries)
  sent : List Sent

/-- The path of an entry relative to the root. -/
def relative (dir name : List Char) : List Char := if dir.isEmpty then name else dir ++ '/' :: name

section

variable (ignore : Ignore) (always : List (List Char)) (walksExcluded : Bool)

/-- An entry is left out. -/
def leftOut (rel : List Char) : Bool := !always.contains rel && ignore.excludes rel

/-- The entries of one directory. -/
def scan (dir : List Char) : Entries → Walk → Walk
  | .none, walk => walk
  | .file name rest, walk =>
      let rel := relative dir name
      scan dir rest
        (if leftOut ignore always rel then walk else { walk with sent := walk.sent ++ [.file rel] })
  | .broken _ rest, walk => scan dir rest walk
  | .directory name children rest, walk =>
      let rel := relative dir name
      scan dir rest
        (if leftOut ignore always rel then
          if walksExcluded then { walk with stack := (rel, children) :: walk.stack } else walk
        else ⟨(rel, children) :: walk.stack, walk.sent ++ [.directory rel]⟩)

def walkPass (walk : Walk) : Pass Walk (List Sent) :=
  match walk.stack with
  | [] => .done walk.sent
  | (dir, entries) :: stack =>
      .again (scan ignore always walksExcluded dir entries { walk with stack := stack })

end

/-- What is always sent. -/
def always (dockerfile : List Char) : List (List Char) :=
  [Text.trimStartMatches "./".toList dockerfile.length dockerfile, ".dockerignore".toList]

/-- The walk, where excluded directories are walked or not. -/
def appendWith (walksExcluded : Bool) (tree : Tree) (ignore : Ignore) (dockerfile : List Char) :
    Option (List Sent) :=
  Pass.loop (walkPass ignore (always dockerfile) walksExcluded) (tree.entries.directories + 2)
    ⟨[([], tree.entries)], []⟩

def appendFiltered (tree : Tree) (ignore : Ignore) (dockerfile : List Char) : Option (List Sent) :=
  appendWith ignore.hasExclusions tree ignore dockerfile

/-- The patterns of the context, with `.git` after those of the file for a clone. -/
def contextIgnore (text : Option (List Char)) (skipGitDir : Bool) : Ignore :=
  if skipGitDir then Dockerignore.parse (text.getD [] ++ "\n.git\n".toList)
  else Dockerignore.load text

/-- The paths of the files that were sent. -/
def sentFiles (sent : List Sent) : List (List Char) :=
  sent.filterMap fun
    | .file rel => some rel
    | .directory _ => none

/-! ## What a walk sends -/

section

variable (ignore : Ignore) (always : List (List Char)) (walksExcluded : Bool)

/-- A directory is walked. -/
def walked (rel : List Char) : Bool := !leftOut ignore always rel || walksExcluded

/-- The files that are sent of a directory and those below. -/
def reached (dir : List Char) : Entries → List (List Char)
  | .none => []
  | .file name rest =>
      (if leftOut ignore always (relative dir name) then [] else [relative dir name]) ++
        reached dir rest
  | .broken _ rest => reached dir rest
  | .directory name children rest =>
      (if walked ignore always walksExcluded (relative dir name) then
        reached (relative dir name) children else []) ++ reached dir rest

/-- The files sent so far and those that the directories on the stack will add. -/
def Walk.promised (walk : Walk) : List (List Char) :=
  sentFiles walk.sent ++ walk.stack.flatMap fun item =>
    reached ignore always walksExcluded item.1 item.2

/-- The directories on the stack and below. -/
def Walk.left (walk : Walk) : Nat := (walk.stack.map fun item => item.2.directories + 1).sum

variable {ignore always walksExcluded}

theorem sentFiles_append (sent more : List Sent) :
    sentFiles (sent ++ more) = sentFiles sent ++ sentFiles more :=
  List.filterMap_append

theorem sentFiles_directory (rel : List Char) : sentFiles [.directory rel] = [] := rfl

theorem promised_scan (dir : List Char) (entries : Entries) (walk : Walk) :
    ((scan ignore always walksExcluded dir entries walk).promised ignore always walksExcluded).Perm
      (walk.promised ignore always walksExcluded ++
        reached ignore always walksExcluded dir entries) := by
  induction entries generalizing walk with
  | none => simp [scan, reached]
  | file name rest ih =>
      rw [scan, reached]
      refine (ih _).trans ?_
      by_cases out : leftOut ignore always (relative dir name)
      · simp [out]
      · simp only [out, if_false, Bool.false_eq_true, Walk.promised, sentFiles_append]
        simp only [List.append_assoc]
        refine List.Perm.append_left _ ?_
        exact List.perm_append_comm_assoc _ _ _
  | broken name rest ih => exact ih walk
  | directory name children rest _ ih =>
      rw [scan, reached]
      refine (ih _).trans ?_
      by_cases out : leftOut ignore always (relative dir name)
      · cases walksExcluded with
        | false => simp [out, walked]
        | true =>
            simp only [out, if_true, walked, Bool.not_true, Bool.false_or, Walk.promised,
              List.flatMap_cons, List.append_assoc]
            refine List.Perm.append_left _ ?_
            exact List.perm_append_comm_assoc _ _ _
      · simp only [out, if_false, Bool.false_eq_true, walked, Bool.not_false, Bool.true_or,
          if_true, Walk.promised, List.flatMap_cons, sentFiles_append, sentFiles_directory,
          List.append_assoc, List.nil_append]
        refine List.Perm.append_left _ ?_
        exact List.perm_append_comm_assoc _ _ _

theorem left_scan (dir : List Char) (entries : Entries) (walk : Walk) :
    (scan ignore always walksExcluded dir entries walk).left ≤ walk.left + entries.directories := by
  induction entries generalizing walk with
  | none => simp [scan, Entries.directories]
  | file name rest ih =>
      rw [scan, Entries.directories]
      refine (ih _).trans (le_of_eq ?_)
      split <;> rfl
  | broken name rest ih => exact ih walk
  | directory name children rest _ ih =>
      rw [scan, Entries.directories]
      refine (ih _).trans ?_
      split
      · split
        · simp [Walk.left]
          omega
        · omega
      · simp [Walk.left]
        omega

/-- A walk comes to an end and sends what it promised. -/
theorem loop_walkPass {fuel : Nat} {walk : Walk} (enough : walk.left < fuel) :
    ∃ sent, Pass.loop (walkPass ignore always walksExcluded) fuel walk = some sent ∧
      (sentFiles sent).Perm (walk.promised ignore always walksExcluded) := by
  refine Pass.loop_total (fun _ => True) Walk.left
    (fun walk sent => (sentFiles sent).Perm (walk.promised ignore always walksExcluded))
    ?_ ?_ trivial enough
  · rintro ⟨stack, sent⟩ next - goesOn
    cases stack with
    | nil => cases goesOn
    | cons item stack =>
        obtain ⟨dir, entries⟩ := item
        obtain rfl := Pass.again.inj goesOn
        have less := @left_scan ignore always walksExcluded dir entries ⟨stack, sent⟩
        refine ⟨trivial, Nat.lt_of_le_of_lt less ?_, fun outcome promised => ?_⟩
        · simp [Walk.left]
          omega
        · refine promised.trans ((promised_scan dir entries _).trans ?_)
          simp only [Walk.promised, List.flatMap_cons, List.append_assoc]
          exact List.Perm.append_left _ List.perm_append_comm
  · rintro ⟨stack, sent⟩ outcome - ends
    cases stack with
    | nil =>
        cases ends
        simp [Walk.promised]
    | cons item stack => cases ends

end

theorem appendWith_spec (walksExcluded : Bool) (tree : Tree) (ignore : Ignore)
    (dockerfile : List Char) :
    ∃ sent, appendWith walksExcluded tree ignore dockerfile = some sent ∧
      (sentFiles sent).Perm (reached ignore (always dockerfile) walksExcluded [] tree.entries) := by
  have enough : (Walk.mk [([], tree.entries)] []).left < tree.entries.directories + 2 := by
    simp [Walk.left]
  obtain ⟨sent, run, same⟩ := loop_walkPass enough
  exact ⟨sent, run, same.trans (by simp [Walk.promised, sentFiles])⟩

/-! ## Which files are reached -/

/-- The path of a file below a directory. -/
def below (dir : List Char) : List (List Char) → List Char
  | [] => dir
  | name :: parts => below (relative dir name) parts

section

variable (ignore : Ignore) (always : List (List Char)) (walksExcluded : Bool)

/-- The directories down to a file are walked and the file is not left out. -/
def passes (dir : List Char) : List (List Char) → Bool
  | [] => true
  | [name] => !leftOut ignore always (relative dir name)
  | name :: parts =>
      walked ignore always walksExcluded (relative dir name) && passes (relative dir name) parts

theorem passes_cons (dir name next : List Char) (parts : List (List Char)) :
    passes ignore always walksExcluded dir (name :: next :: parts) =
      (walked ignore always walksExcluded (relative dir name) &&
        passes ignore always walksExcluded (relative dir name) (next :: parts)) :=
  rfl

theorem reached_eq (dir : List Char) (entries : Entries) :
    reached ignore always walksExcluded dir entries =
      (entries.files.filter (passes ignore always walksExcluded dir)).map (below dir) := by
  induction entries generalizing dir with
  | none => rfl
  | file name rest ih =>
      rw [reached, Entries.files, ih, List.filter_cons]
      by_cases out : leftOut ignore always (relative dir name)
      · simp [out, passes]
      · simp [out, passes, below]
  | broken name rest ih => exact ih dir
  | directory name children rest inner ih =>
      rw [reached, Entries.files, ih, List.filter_append, List.map_append, List.filter_map,
        List.map_map, inner]
      have deep : ∀ parts ∈ children.files, passes ignore always walksExcluded dir (name :: parts) =
          (walked ignore always walksExcluded (relative dir name) &&
            passes ignore always walksExcluded (relative dir name) parts) := by
        intro parts member
        cases parts with
        | nil => exact absurd member children.nil_not_mem_files
        | cons first parts => exact passes_cons ..
      have same :=
        @List.filter_congr _ (passes ignore always walksExcluded dir ∘ (name :: ·)) _ _ deep
      rw [same]
      by_cases goesIn : walked ignore always walksExcluded (relative dir name)
      · simp [goesIn, Function.comp_def, below]
      · simp [goesIn]

variable {ignore always walksExcluded}

theorem relative_path {above : List (List Char)} (named : ∀ name ∈ above, name ≠ [])
    (name : List Char) : relative (path above) name = path (above ++ [name]) := by
  cases above with
  | nil => simp [relative]
  | cons first above =>
      have filled : path (first :: above) ≠ [] := by
        intro empty
        have first := named first List.mem_cons_self
        by_cases last : above = []
        · exact first (by simpa [last] using empty)
        · rw [Paths.path_cons _ last] at empty
          exact first (List.append_eq_nil_iff.mp empty).1
      rw [relative, if_neg (by simpa using filled), Paths.path_append (List.cons_ne_nil _ _)
        (List.cons_ne_nil _ _), Paths.path_singleton]

theorem below_path {above parts : List (List Char)} (named : ∀ name ∈ above ++ parts, name ≠ []) :
    below (path above) parts = path (above ++ parts) := by
  induction parts generalizing above with
  | nil => rw [below, List.append_nil]
  | cons name parts ih =>
      rw [below, relative_path fun other member => named other (List.mem_append_left _ member)]
      have rest := @ih (above ++ [name]) (by simpa using named)
      simpa using rest

/-- A file is reached if every directory above it is walked. -/
theorem passes_iff {above parts : List (List Char)} (nonempty : parts ≠ [])
    (named : ∀ name ∈ above ++ parts, name ≠ []) :
    passes ignore always walksExcluded (path above) parts ↔
      leftOut ignore always (path (above ++ parts)) = false ∧
        ∀ front back, front ≠ [] → back ≠ [] → parts = front ++ back →
          walked ignore always walksExcluded (path (above ++ front)) := by
  induction parts generalizing above with
  | nil => exact absurd rfl nonempty
  | cons name parts ih =>
      have first : ∀ other ∈ above, other ≠ [] := fun other member =>
        named other (List.mem_append_left _ member)
      cases parts with
      | nil =>
          rw [passes, relative_path first, Bool.not_eq_true']
          refine ⟨fun sent => ⟨sent, fun front back someFront someBack same => ?_⟩, And.left⟩
          have long := congrArg List.length same
          have := List.length_pos_of_ne_nil someFront
          have := List.length_pos_of_ne_nil someBack
          simp only [List.length_append, List.length_singleton] at long
          omega
      | cons next parts =>
          have rest := @ih (above ++ [name]) (List.cons_ne_nil _ _) (by simpa using named)
          rw [passes_cons, relative_path first, Bool.and_eq_true, rest]
          simp only [List.append_assoc, List.singleton_append]
          constructor
          · rintro ⟨here, sent, further⟩
            refine ⟨sent, fun front back someFront someBack same => ?_⟩
            cases front with
            | nil => exact absurd rfl someFront
            | cons other front =>
                obtain ⟨rfl, tail⟩ := List.cons.inj same
                by_cases only : front = []
                · rw [only]
                  exact here
                · exact further front back only someBack tail
          · rintro ⟨sent, each⟩
            refine ⟨each [name] (next :: parts) (by simp) (by simp) rfl, sent,
              fun front back someFront someBack same => ?_⟩
            exact each (name :: front) back (by simp) someBack (by rw [same]; rfl)

end

/-! ## Trees -/

namespace Entries

theorem mem_names_of_mem_files {entries : Entries} {parts : List (List Char)}
    (member : parts ∈ entries.files) :
    ∃ name rest, parts = name :: rest ∧ name ∈ entries.names := by
  induction entries generalizing parts with
  | none => cases member
  | file name rest ih =>
      rcases List.mem_cons.mp member with rfl | later
      · exact ⟨name, [], rfl, List.mem_cons_self⟩
      · obtain ⟨other, more, rfl, inside⟩ := ih later
        exact ⟨other, more, rfl, List.mem_cons_of_mem _ inside⟩
  | broken name rest ih =>
      obtain ⟨other, more, rfl, inside⟩ := ih member
      exact ⟨other, more, rfl, List.mem_cons_of_mem _ inside⟩
  | directory name children rest _ ih =>
      rcases List.mem_append.mp member with here | later
      · obtain ⟨more, -, rfl⟩ := List.mem_map.mp here
        exact ⟨name, more, rfl, List.mem_cons_self⟩
      · obtain ⟨other, more, rfl, inside⟩ := ih later
        exact ⟨other, more, rfl, List.mem_cons_of_mem _ inside⟩

theorem isName_of_mem_files {entries : Entries} (sound : entries.Sound)
    {parts : List (List Char)} (member : parts ∈ entries.files) : ∀ name ∈ parts, IsName name := by
  induction entries generalizing parts with
  | none => cases member
  | file name rest ih =>
      rcases List.mem_cons.mp member with rfl | later
      · exact List.forall_mem_singleton.mpr sound.1
      · exact ih sound.2.2 later
  | broken name rest ih => exact ih sound.2.2 member
  | directory name children rest inner ih =>
      rcases List.mem_append.mp member with here | later
      · obtain ⟨more, inside, rfl⟩ := List.mem_map.mp here
        exact List.forall_mem_cons.mpr ⟨sound.1, inner sound.2.2.1 inside⟩
      · exact ih sound.2.2.2 later

theorem nodup_files {entries : Entries} (sound : entries.Sound) : entries.files.Nodup := by
  induction entries with
  | none => exact List.nodup_nil
  | file name rest ih =>
      refine List.nodup_cons.mpr ⟨fun member => sound.2.1 ?_, ih sound.2.2⟩
      obtain ⟨other, more, same, inside⟩ := mem_names_of_mem_files member
      rwa [(List.cons.inj same).1]
  | broken name rest ih => exact ih sound.2.2
  | directory name children rest inner ih =>
      refine List.Nodup.append ((inner sound.2.2.1).map fun _ _ same => (List.cons.inj same).2)
        (ih sound.2.2.2) fun parts here later => sound.2.1 ?_
      obtain ⟨other, more, rfl, inside⟩ := mem_names_of_mem_files later
      obtain ⟨same, -, whole⟩ := List.mem_map.mp here
      rwa [(List.cons.inj whole).1]

end Entries

/-- The paths of the files of a context directory. -/
def Tree.files (tree : Tree) : List (List Char) := tree.entries.files.map path

namespace Tree

variable {tree : Tree}

theorem isName_of_mem {parts : List (List Char)} (member : parts ∈ tree.entries.files) :
    parts ≠ [] ∧ ∀ name ∈ parts, Entries.IsName name := by
  refine ⟨?_, Entries.isName_of_mem_files tree.sound member⟩
  rintro rfl
  exact tree.entries.nil_not_mem_files member

theorem nodup_files (tree : Tree) : tree.files.Nodup := by
  refine List.Nodup.map_on (fun parts member other listed same => ?_)
    (Entries.nodup_files tree.sound)
  obtain ⟨nonempty, named⟩ := isName_of_mem member
  obtain ⟨filled, called⟩ := isName_of_mem listed
  exact (Paths.path_inj nonempty filled (fun name inside => (named name inside).2.2.2)
    fun name inside => (called name inside).2.2.2).mp same

theorem reached_root (ignore : Ignore) (always : List (List Char)) (walksExcluded : Bool) :
    reached ignore always walksExcluded [] tree.entries =
      (tree.entries.files.filter (passes ignore always walksExcluded [])).map path := by
  rw [reached_eq]
  refine List.map_congr_left fun parts member => ?_
  obtain ⟨-, named⟩ := isName_of_mem (List.mem_filter.mp member).1
  exact @below_path [] parts fun name inside => (named name inside).1

theorem mem_reached {ignore : Ignore} {always : List (List Char)} {walksExcluded : Bool}
    {file : List Char} :
    file ∈ reached ignore always walksExcluded [] tree.entries ↔
      file ∈ tree.files ∧ leftOut ignore always file = false ∧
        ∀ directory rest, file = directory ++ '/' :: rest →
          walked ignore always walksExcluded directory := by
  have passed : ∀ parts ∈ tree.entries.files,
      (passes ignore always walksExcluded [] parts ↔ leftOut ignore always (path parts) = false ∧
        ∀ directory rest, path parts = directory ++ '/' :: rest →
          walked ignore always walksExcluded directory) := by
    intro parts member
    obtain ⟨nonempty, named⟩ := isName_of_mem member
    have above := @Paths.path_eq_append_iff parts nonempty fun name inside =>
      (named name inside).2.2.2
    have root := @passes_iff ignore always walksExcluded [] parts nonempty
      fun name inside => (named name inside).1
    rw [Paths.path_nil] at root
    rw [root]
    refine and_congr_right fun _ => ⟨fun each directory rest same => ?_, ?_⟩
    · obtain ⟨front, back, someFront, someBack, whole, rfl⟩ := above.mp ⟨rest, same⟩
      exact each front back someFront someBack whole
    · intro each front back someFront someBack whole
      obtain ⟨rest, same⟩ := above.mpr ⟨front, back, someFront, someBack, whole, rfl⟩
      exact each (path front) rest same
  rw [reached_root, Tree.files]
  simp only [List.mem_map, List.mem_filter]
  constructor
  · rintro ⟨parts, ⟨member, pass⟩, rfl⟩
    exact ⟨⟨parts, member, rfl⟩, (passed parts member).mp pass⟩
  · rintro ⟨⟨parts, member, rfl⟩, pass⟩
    exact ⟨parts, ⟨member, (passed parts member).mpr pass⟩, rfl⟩

end Tree

theorem mem_sent {walksExcluded : Bool} {tree : Tree} {ignore : Ignore} {dockerfile : List Char}
    {sent : List Sent} (run : appendWith walksExcluded tree ignore dockerfile = some sent)
    {file : List Char} :
    file ∈ sentFiles sent ↔ file ∈ tree.files ∧ leftOut ignore (always dockerfile) file = false ∧
      ∀ directory rest, file = directory ++ '/' :: rest →
        walked ignore (always dockerfile) walksExcluded directory := by
  obtain ⟨found, run', same⟩ := appendWith_spec walksExcluded tree ignore dockerfile
  obtain rfl := Option.some.inj (run'.symm.trans run)
  rw [same.mem_iff, Tree.mem_reached]

theorem nodup_sent {walksExcluded : Bool} {tree : Tree} {ignore : Ignore}
    {dockerfile : List Char} {sent : List Sent}
    (run : appendWith walksExcluded tree ignore dockerfile = some sent) :
    (sentFiles sent).Nodup := by
  obtain ⟨found, run', same⟩ := appendWith_spec walksExcluded tree ignore dockerfile
  obtain rfl := Option.some.inj (run'.symm.trans run)
  refine same.nodup_iff.mpr ?_
  rw [Tree.reached_root]
  exact tree.nodup_files.sublist (List.filter_sublist.map path)

/-! ## The Dockerfile -/

/-- The Dockerfile's path as the walk looks for it. -/
def spelled (dockerfile : List Char) : List Char :=
  Text.trimStartMatches "./".toList dockerfile.length dockerfile

/-- The path of the file that the Dockerfile's path names. -/
def named (dockerfile : List Char) : List Char := path (Moby.clean dockerfile)

theorem splitOn_dots (count : Nat) (rest : List Char) :
    ((List.replicate count "./".toList).flatten ++ rest).splitOn '/' =
      List.replicate count ['.'] ++ rest.splitOn '/' := by
  induction count with
  | zero => rfl
  | succ count ih =>
      rw [List.replicate_succ, List.flatten_cons, List.append_assoc, List.replicate_succ,
        List.cons_append, ← ih]
      exact @List.splitOn_append_cons_self_of_not_mem _ ['.'] _ _ '/' (by decide) _

/-- A file that the walk finds under the Dockerfile's path is the one it names. -/
theorem named_eq_spelled {tree : Tree} {dockerfile : List Char}
    (member : spelled dockerfile ∈ tree.files) : named dockerfile = spelled dockerfile := by
  obtain ⟨parts, inside, same⟩ := List.mem_map.mp member
  obtain ⟨nonempty, called⟩ := Tree.isName_of_mem inside
  obtain ⟨⟨count, whole⟩, -⟩ :=
    @Text.trimStartMatches_spec _ "./".toList (by decide) _ (le_refl dockerfile.length)
  have written : Moby.written dockerfile = parts := by
    rw [Moby.written, whole, splitOn_dots]
    change (_ ++ (spelled dockerfile).splitOn '/').filter _ = _
    rw [← same, Paths.splitOn_path nonempty fun name listed => (called name listed).2.2.2,
      List.filter_append]
    have dots : (List.replicate count ['.']).filter Moby.solid = [] :=
      List.filter_eq_nil_iff.mpr fun dot listed => by
        rw [List.eq_of_mem_replicate listed]
        decide
    have names : parts.filter Moby.solid = parts :=
      List.filter_eq_self.mpr fun name listed => by
        obtain ⟨filled, noDot, -⟩ := called name listed
        simp [Moby.solid, filled, noDot]
    rw [dots, names, List.nil_append]
  have clean : Moby.clean dockerfile = parts := by
    rw [Moby.clean_eq, written]
    intro before after up
    rw [written] at up
    exact absurd rfl (called ['.', '.'] (by simp [up])).2.2.1
  rw [named, clean, same]

/-! ## The .git directory of a clone -/

theorem parseLine_stripReturn (line : List Char) :
    Dockerignore.parseLine (Text.stripReturn line) = Dockerignore.parseLine line := by
  rw [Dockerignore.parseLine, Dockerignore.parseLine, Text.trim_stripReturn]

theorem filterMap_stripReturn (lines : List (List Char)) :
    (lines.map Text.stripReturn).filterMap Dockerignore.parseLine =
      lines.filterMap Dockerignore.parseLine := by
  rw [List.filterMap_map]
  exact List.filterMap_congr fun line _ => parseLine_stripReturn line

/-- What stands after the last newline tells a pattern as a line does. -/
theorem parse_eq (text : List Char) :
    (Dockerignore.parse text).patterns = (text.splitOn '\n').filterMap Dockerignore.parseLine := by
  have split := List.dropLast_append_getLast (List.splitOn_ne_nil '\n' text)
  have last : (Text.lastLine text).filterMap Dockerignore.parseLine =
      [(text.splitOn '\n').getLast (List.splitOn_ne_nil '\n' text)].filterMap
        Dockerignore.parseLine := by
    rw [Text.lastLine, List.getLast?_eq_getLast_of_ne_nil (List.splitOn_ne_nil '\n' text)]
    cases (text.splitOn '\n').getLast (List.splitOn_ne_nil '\n' text) with
    | nil => decide
    | cons char rest => rfl
  rw [Dockerignore.parse, Text.lines, List.filterMap_append, filterMap_stripReturn, last,
    ← List.filterMap_append, split]

/-- The pattern for `.git` follows those of the file. -/
theorem patterns_skipGitDir (text : Option (List Char)) :
    (contextIgnore text true).patterns =
      (Dockerignore.load text).patterns ++ [⟨false, [".git".toList]⟩] := by
  have git : (".git\n".toList.splitOn '\n').filterMap Dockerignore.parseLine =
      [⟨false, [".git".toList]⟩] := by
    decide
  have both (text : List Char) :
      (Dockerignore.parse (text ++ "\n.git\n".toList)).patterns =
        (Dockerignore.parse text).patterns ++ [⟨false, [".git".toList]⟩] := by
    rw [parse_eq, parse_eq, ← git, ← List.filterMap_append, ← List.splitOn_append_cons_self]
    rfl
  cases text with
  | none => exact both []
  | some text => exact both text

theorem excludes_git {text : Option (List Char)} {file : List Char}
    (inside : ".git/".toList <+: file) : (contextIgnore text true).excludes file := by
  obtain ⟨rest, rfl⟩ := inside
  have hit : (Dockerignore.Pattern.mk false [".git".toList]).hits ".git".toList := by
    decide
  have ignore : contextIgnore text true =
      ⟨(Dockerignore.load text).patterns ++ [⟨false, [".git".toList]⟩]⟩ :=
    congrArg Ignore.mk (patterns_skipGitDir text)
  rw [ignore, Ignore.excludes_concat]
  exact (if_pos (Dockerignore.Pattern.hits_below hit rest)).trans rfl

/-! ## The whole context -/

/-- The context holds what it should: the files that are not excluded, the Dockerfile and the
`.dockerignore`, each once; the same as if everything were walked; and nothing of the `.git` of a
clone. -/
structure Exact (tree : Tree) (text : Option (List Char)) (dockerfile : List Char)
    (skipGitDir : Bool) (sent all : List Sent) : Prop where
  once : (sentFiles sent).Nodup
  exactly : ∀ file, file ∈ sentFiles sent ↔ file ∈ tree.files ∧
    ((contextIgnore text skipGitDir).excludes file = false ∨ file = named dockerfile ∨
      file = ".dockerignore".toList)
  pruned : (contextIgnore text skipGitDir).hasExclusions = false →
    ∀ file, file ∈ sentFiles sent ↔ file ∈ sentFiles all
  noGit : skipGitDir → ∀ file ∈ sentFiles sent, ¬".git/".toList <+: file

/-- The Dockerfile, if there is one, is not in the `.git` of a clone; and it is not excluded, or the
walk finds it under its path and no directory above it is left out. -/
def DockerfileInReach (tree : Tree) (text : Option (List Char)) (dockerfile : List Char)
    (skipGitDir : Bool) : Prop :=
  named dockerfile ∈ tree.files →
    (skipGitDir → ¬".git/".toList <+: named dockerfile) ∧
    ((contextIgnore text skipGitDir).excludes (named dockerfile) = false ∨
      named dockerfile = ".dockerignore".toList ∨
      (named dockerfile = spelled dockerfile ∧
        ((contextIgnore text skipGitDir).hasExclusions ∨
          ∀ directory rest, named dockerfile = directory ++ '/' :: rest →
            (contextIgnore text skipGitDir).excludes directory = false ∨
              directory = ".dockerignore".toList)))

section

variable {ignore : Ignore} {dockerfile file : List Char}

theorem leftOut_eq_false_iff : leftOut ignore (always dockerfile) file = false ↔
    ignore.excludes file = false ∨ file = spelled dockerfile ∨ file = ".dockerignore".toList := by
  rw [leftOut, Bool.and_eq_false_iff, Bool.not_eq_false', List.contains_iff_mem, always,
    List.mem_cons, List.mem_singleton, or_comm]
  exact Iff.rfl

/-- What lies above a file that is not excluded is walked. -/
theorem walked_of_kept {ignored : Bool} (kept : ignore.excludes file = false)
    (rule : ignore.hasExclusions → ignored) {directory rest : List Char}
    (whole : file = directory ++ '/' :: rest) :
    walked ignore (always dockerfile) ignored directory := by
  rw [walked, Bool.or_eq_true]
  by_cases plain : ignore.hasExclusions = false
  · refine .inl ?_
    rw [Bool.not_eq_true', leftOut_eq_false_iff]
    refine .inl (Bool.eq_false_iff.mpr fun excluded => ?_)
    have below := Ignore.excludes_below plain excluded rest
    rw [← whole, kept] at below
    cases below
  · exact .inr (rule (by simpa using plain))

/-- No file is its own directory. -/
theorem ne_spelled_of_above {directory rest : List Char}
    (whole : spelled dockerfile = directory ++ '/' :: rest) : directory ≠ spelled dockerfile := by
  intro same
  have long := congrArg List.length whole
  rw [same] at long
  simp at long

end

theorem no_directory_above {directory rest : List Char}
    (whole : ".dockerignore".toList = directory ++ '/' :: rest) : False := by
  have slash : '/' ∈ ".dockerignore".toList := by simp [whole]
  exact absurd slash (by decide)

/-- With the Dockerfile in reach everything above a file that is not left out is walked. -/
theorem DockerfileInReach.walked {tree : Tree} {text : Option (List Char)}
    {dockerfile file : List Char} {skipGitDir : Bool}
    (reach : DockerfileInReach tree text dockerfile skipGitDir) (member : file ∈ tree.files)
    (kept : leftOut (contextIgnore text skipGitDir) (always dockerfile) file = false) :
    ∀ directory rest, file = directory ++ '/' :: rest →
      walked (contextIgnore text skipGitDir) (always dockerfile)
        (contextIgnore text skipGitDir).hasExclusions directory := by
  intro directory rest whole
  rcases leftOut_eq_false_iff.mp kept with kept | rfl | rfl
  · exact walked_of_kept kept id whole
  · have same := named_eq_spelled member
    obtain ⟨-, here⟩ := reach (same ▸ member)
    rw [same] at here
    rcases here with kept | ignoreFile | ⟨-, everything | each⟩
    · exact walked_of_kept kept id whole
    · exact absurd whole (fun whole => no_directory_above (ignoreFile ▸ whole))
    · rw [BuildContext.walked, everything, Bool.or_true]
    · rw [BuildContext.walked, Bool.or_eq_true, Bool.not_eq_true', leftOut_eq_false_iff]
      exact .inl ((each directory rest whole).imp id .inr)
  · exact absurd whole no_directory_above

/-- The context holds exactly what it should if and only if the Dockerfile is in reach. -/
theorem exact_iff (tree : Tree) (text : Option (List Char)) (dockerfile : List Char)
    (skipGitDir : Bool) :
    ∃ sent all, appendFiltered tree (contextIgnore text skipGitDir) dockerfile = some sent ∧
      appendWith true tree (contextIgnore text skipGitDir) dockerfile = some all ∧
      (Exact tree text dockerfile skipGitDir sent all ↔
        DockerfileInReach tree text dockerfile skipGitDir) := by
  obtain ⟨sent, run, -⟩ := appendWith_spec
    (contextIgnore text skipGitDir).hasExclusions tree (contextIgnore text skipGitDir) dockerfile
  obtain ⟨all, runAll, -⟩ := appendWith_spec true tree (contextIgnore text skipGitDir) dockerfile
  refine ⟨sent, all, run, runAll, fun exact present => ?_, fun reach => ?_⟩
  · have member := (exact.exactly _).mpr ⟨present, .inr (.inl rfl)⟩
    refine ⟨fun skip => exact.noGit skip _ member, ?_⟩
    obtain ⟨-, kept, above⟩ := (mem_sent run).mp member
    rcases leftOut_eq_false_iff.mp kept with kept | same | same
    · exact .inl kept
    · refine .inr (.inr ⟨same, ?_⟩)
      by_cases everything : (contextIgnore text skipGitDir).hasExclusions
      · exact .inl everything
      · refine .inr fun directory rest whole => ?_
        have goesIn := above directory rest whole
        rw [walked, Bool.or_eq_true, or_iff_left everything, Bool.not_eq_true',
          leftOut_eq_false_iff] at goesIn
        rcases goesIn with kept | wrong | ignoreFile
        · exact .inl kept
        · exact absurd wrong (ne_spelled_of_above (same ▸ whole))
        · exact .inr ignoreFile
    · exact .inr (.inl same)
  · have whole : ∀ file, file ∈ sentFiles sent ↔ file ∈ tree.files ∧
        leftOut (contextIgnore text skipGitDir) (always dockerfile) file = false := by
      intro file
      rw [mem_sent run]
      exact ⟨fun found => ⟨found.1, found.2.1⟩,
        fun found => ⟨found.1, found.2, reach.walked found.1 found.2⟩⟩
    refine ⟨nodup_sent run, fun file => ?_, fun _ file => ?_, fun skip file member git => ?_⟩
    · rw [whole, and_congr_right_iff, leftOut_eq_false_iff]
      intro member
      constructor
      · rintro (kept | rfl | ignoreFile)
        · exact .inl kept
        · exact .inr (.inl (named_eq_spelled member).symm)
        · exact .inr (.inr ignoreFile)
      · rintro (kept | rfl | ignoreFile)
        · exact .inl kept
        · rcases (reach member).2 with kept | ignoreFile | ⟨same, -⟩
          · exact .inl kept
          · exact .inr (.inr ignoreFile)
          · exact .inr (.inl same)
        · exact .inr (.inr ignoreFile)
    · rw [whole, mem_sent runAll]
      exact ⟨fun found => ⟨found.1, found.2, fun _ _ _ => Bool.or_true _⟩,
        fun found => ⟨found.1, found.2.1⟩⟩
    · obtain ⟨listed, kept⟩ := (whole file).mp member
      rcases leftOut_eq_false_iff.mp kept with kept | rfl | rfl
      · rw [skip, excludes_git git] at kept
        cases kept
      · have same := named_eq_spelled listed
        exact (reach (same ▸ listed)).1 skip (same ▸ git)
      · exact absurd git (by decide)

def dockerDirectory : Tree where
  entries := .file ".dockerignore".toList
    (.directory "docker".toList (.file "Dockerfile".toList .none) .none)
  sound := by simp [Entries.Sound, Entries.IsName, Entries.names]

/-- A Dockerfile in a directory that is excluded is not sent. -/
theorem dockerfile_not_sent :
    ¬∀ (tree : Tree) (text : Option (List Char)) (dockerfile : List Char) (skipGitDir : Bool)
      (sent all : List Sent),
      appendFiltered tree (contextIgnore text skipGitDir) dockerfile = some sent →
      appendWith true tree (contextIgnore text skipGitDir) dockerfile = some all →
      Exact tree text dockerfile skipGitDir sent all := by
  intro exact
  have run : appendFiltered dockerDirectory (contextIgnore (some "docker\n".toList) false)
      "docker/Dockerfile".toList = some [.file ".dockerignore".toList] := by
    decide
  have runAll : appendWith true dockerDirectory (contextIgnore (some "docker\n".toList) false)
      "docker/Dockerfile".toList =
        some [.file ".dockerignore".toList, .file "docker/Dockerfile".toList] := by
    decide
  have holds := exact _ _ _ _ _ _ run runAll
  have member := (holds.exactly "docker/Dockerfile".toList).mpr
    ⟨by decide, .inr (.inl (by decide))⟩
  exact absurd member (by decide)

end BuildContext
end Fghj
