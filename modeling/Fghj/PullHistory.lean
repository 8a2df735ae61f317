import Fghj.Library.Execution
import Fghj.PullEnds
import Mathlib.Logic.Function.Basic

/-!
# The history of a workspace's pulls

Pulls under different keys run side by side, each of them git run by git run, and fghjd may stop
between any two of their steps, which leaves on disk what git has come to. A later pull reads the
disk and nothing else: a folder that is there with the right origin, or a source's `.git`, passes
for the clone that it looks for.
-/

namespace Fghj

open Std (ExtTreeMap)
open Checkouts

namespace Checkouts

/-- A folder and all that is in it gone. -/
def Disk.remove (disk : Disk) : Place → Disk
  | .folder name =>
      { disk with
        folders := disk.folders.erase name
        sources := if name = sourcesDir then ∅ else disk.sources }
  | .source name => { disk with sources := disk.sources.erase name }
  | .parent | .root | .aboveSources => disk

/-- Whether a place may be another once a folder is removed. -/
def Place.isWithin (place folder : Place) : Bool :=
  place == folder ||
    folder == .folder sourcesDir && (place == .aboveSources || place matches .source _)

theorem Disk.find_remove (disk : Disk) {folder place : Place}
    (outside : place.isWithin folder = false) :
    (disk.remove folder).find place = disk.find place := by
  unfold Place.isWithin at outside
  rw [Bool.or_eq_false_iff, beq_eq_false_iff_ne] at outside
  obtain ⟨other, notInside⟩ := outside
  cases folder with
  | parent => rfl
  | root => rfl
  | aboveSources => rfl
  | source name =>
      cases place with
      | source found =>
          have different : ¬compare name found = .eq := fun same =>
            other (Std.compare_eq_iff_eq.mp same ▸ rfl)
          simp only [remove, find, ExtTreeMap.getElem?_erase, if_neg different]
      | parent => rfl
      | root => rfl
      | folder found => rfl
      | aboveSources => rfl
  | folder name =>
      cases place with
      | parent => rfl
      | root => rfl
      | folder found =>
          have different : ¬compare name found = .eq := fun same =>
            other (Std.compare_eq_iff_eq.mp same ▸ rfl)
          simp only [remove, find, ExtTreeMap.getElem?_erase, if_neg different]
      | source found =>
          have elsewhere : name ≠ sourcesDir := by
            rintro rfl
            simp at notInside
          simp only [remove, find, if_neg elsewhere]
      | aboveSources =>
          have elsewhere : name ≠ sourcesDir := by
            rintro rfl
            simp at notInside
          have kept : (disk.folders.erase name).contains sourcesDir =
              disk.folders.contains sourcesDir := by
            rw [ExtTreeMap.contains_erase]
            simp [elsewhere]
          simp only [remove, find, kept]

theorem Disk.find_put_self {disk after : Disk} {checkout : Folder} {place : Place}
    (placed : disk.put checkout place = some after) : after.find place = some checkout := by
  cases place with
  | parent => cases placed
  | root => cases placed
  | aboveSources => cases placed
  | folder name =>
      obtain rfl := Option.some.inj placed
      exact ExtTreeMap.getElem?_insert_self
  | source name =>
      obtain rfl := Option.some.inj placed
      exact ExtTreeMap.getElem?_insert_self

/-- A folder inserted is the only change. -/
theorem Disk.find_insert (disk : Disk) (name : String) (checkout : Folder) {place : Place}
    (other : place ≠ .folder name) : disk.find place = none ∨
      { disk with folders := disk.folders.insert name checkout }.find place = disk.find place := by
  cases place with
  | parent => exact .inr rfl
  | root => exact .inr rfl
  | source found => exact .inr rfl
  | folder found =>
      have different : ¬compare name found = .eq := fun same =>
        other (Std.compare_eq_iff_eq.mp same ▸ rfl)
      exact .inr (by simp only [find, ExtTreeMap.getElem?_insert, if_neg different])
  | aboveSources =>
      by_cases made : disk.folders.contains sourcesDir
      · have still : (disk.folders.insert name checkout).contains sourcesDir := by
          rw [ExtTreeMap.contains_insert, made, Bool.or_true]
        exact .inr (by simp only [find, if_pos made, if_pos still])
      · exact .inl (by simp only [find, if_neg made])

/-- A checkout in its place changes nothing that is there, but what stands at the place. -/
theorem Disk.find_put_other {disk after : Disk} {checkout : Folder} {place other : Place}
    (placed : disk.put checkout place = some after) (different : other ≠ place) :
    disk.find other = none ∨ after.find other = disk.find other := by
  cases place with
  | parent => cases placed
  | root => cases placed
  | aboveSources => cases placed
  | folder name =>
      obtain rfl := Option.some.inj placed
      exact disk.find_insert name checkout different
  | source name =>
      obtain rfl := Option.some.inj placed
      have inserted :
          { disk.makeSources with sources := disk.sources.insert name checkout }.find other =
            disk.makeSources.find other := by
        cases other with
        | parent => rfl
        | root => rfl
        | folder found => rfl
        | aboveSources => rfl
        | source found =>
            have apart : ¬compare name found = .eq := fun same =>
              different (Std.compare_eq_iff_eq.mp same ▸ rfl)
            simp only [find, ExtTreeMap.getElem?_insert, if_neg apart,
              Pull.World.makeSources_sources]
      rw [inserted, makeSources]
      split
      · exact .inr rfl
      · by_cases dir : other = .folder sourcesDir
        · rename_i unmade
          subst dir
          exact .inl (ExtTreeMap.getElem?_eq_none fun made =>
            unmade (ExtTreeMap.contains_iff_mem.mpr made))
        · exact disk.find_insert sourcesDir _ dir

/-- Changes of the user's to the folders they are at. -/
structure Edit where
  change : Disk → Disk
  touched : Place → Bool
  frame : ∀ disk place, touched place = false → (change disk).find place = disk.find place

def Edit.remove (folder : Place) : Edit where
  change disk := disk.remove folder
  touched place := place.isWithin folder
  frame disk _ := disk.find_remove

end Checkouts

namespace Pull

/-! ## Pulls -/

/-- What a pull is started for. -/
inductive Order where
  | all
  | flow (name : String)
  | node (id : String)

/-- The key that a pull is joined under. -/
def Order.key : Order → String
  | .all => "pull-all"
  | .flow name => "pull-flow:" ++ name
  | .node id => "node:" ++ id

/-- How far git has come with a clone. -/
inductive Stage where
  | made
  | origin
  | fetched
  /-- A tree is checked out, and not yet the commit that the source is pinned to. -/
  | tree
  deriving DecidableEq

/-- What a pull that settles well says is there. -/
inductive Demand where
  | repo (folder : String)
  | clone (clone : Clone)
  deriving DecidableEq

inductive Phase where
  | resolving
  | asking (queue : List (Except String Clone))
  /-- Nothing was there, so git is started. -/
  | spawned (clone : Clone) (queue : List (Except String Clone))
  | cloning (clone : Clone) (stage : Stage) (queue : List (Except String Clone))
  | images
  | settled (result : Except String Unit)
  /-- It ended with fghjd. -/
  | stopped
  deriving DecidableEq

def Phase.isRunning : Phase → Bool
  | .settled _ | .stopped => false
  | _ => true

structure Job where
  order : Order
  phase : Phase := .resolving
  /-- The disk on which it last resolved the workspace. -/
  resolved : Option Disk := none
  demands : List Demand := []
  /-- Where the user has been at work since it was started. -/
  changed : Place → Bool := fun _ => false

/-- Whose work stands at a place: the user's or nobody's, a clone that git has begun, or one that
it has finished. -/
inductive Standing where
  | theirs
  | begun (job : Nat) (clone : Clone) (stage : Stage)
  | whole (clone : Clone)
  deriving DecidableEq

/-- The disk, whose work each place is, and the pulls so far. -/
structure History where
  disk : Disk
  standing : Place → Standing := fun _ => .theirs
  jobs : List Job := []

namespace Clone

variable (clone : Clone)

/-- The commit that a source is pinned to. -/
def pinned : Option String := if clone.source then clone.reference.filter looksLikeCommit else none

/-- What git clones; a commit is cloned whole and then checked out. -/
def branch : Option String := if clone.pinned.isSome then none else clone.reference

end Clone

namespace World

variable (world : World)

/-! ## What is asked for -/

/-- The repo of a node, and the source it is built from. -/
def demandsOf (disk : Disk) (node : Node) : List Demand :=
  (node.localPath.map Demand.repo).toList ++
    ((disk.nodeSources[node.id]?).join.map fun source => .clone (.ofSource source)).toList

/-- What resolving the workspace tells a pull. -/
inductive Resolved where
  | failed (message : String)
  | missing (requests : List (Except String Clone))
  | present (demands : List Demand)

/-- The pull of a flow, or of all. -/
def resolveAll (disk : Disk) (flow : Option String) : Resolved :=
  match world.wanted flow disk with
  | .error message => .failed message
  | .ok wanted =>
      if (missingNodes wanted).isEmpty && (missingSources disk wanted).isEmpty then
        .present (wanted.flatMap (demandsOf disk))
      else .missing (world.requests disk wanted)

/-- The pull of a node: its source if it lacks that, else its repo. -/
def resolveNode (disk : Disk) (id : String) : Resolved :=
  let graph := disk.graph world.toLowercase world.workspaceName
  match graph.nodes.find? fun node => node.id == id with
  | none => .failed ("no such node: " ++ id)
  | some node =>
      match disk.missingSource node with
      | some source => .missing [.ok (.ofSource source)]
      | none =>
          if node.downloaded then .present (demandsOf disk node)
          else .missing [world.stubClone disk node]

def resolve (disk : Disk) : Order → Resolved
  | .all => world.resolveAll disk none
  | .flow name => world.resolveAll disk (some name)
  | .node id => world.resolveNode disk id

/-! ## git -/

/-- The remote as a clone is asked for, at the given branch, tag or commit. -/
def remoteAt (clone : Clone) (reference : Option String) : Option Remote :=
  world.remotes.find? fun remote => remote.url == clone.url && remote.reference == reference

/-- What a clone is before its tree is checked out. -/
def bare (clone : Clone) : Folder where
  git := true
  facts := { repo := some clone.url }

/-- What git comes to next in a clone: the folder it leaves, and how far it is then unless the clone
is whole. -/
def nextStage (clone : Clone) : Stage → Option (Folder × Option Stage)
  | .made => some (bare clone, some .origin)
  | .origin => some (bare clone, some .fetched)
  | .fetched => (world.remoteAt clone clone.branch).map fun remote =>
      (remote.checkout, if clone.pinned.isSome then some .tree else none)
  | .tree => (world.remoteAt clone clone.reference).map fun remote => (remote.checkout, none)

end World

namespace History

variable (history : History)

/-- One pull goes on; nothing else changes. -/
def put (id : Nat) (job : Job) : History := { history with jobs := history.jobs.set id job }

/-- What stands at a place is no longer what any pull left there. -/
def edit (edit : Edit) : History where
  disk := edit.change history.disk
  standing place := if edit.touched place then .theirs else history.standing place
  jobs := history.jobs.map fun job =>
    { job with changed := fun place => job.changed place || edit.touched place }

/-- One pull goes on with another folder at a place. -/
def place (id : Nat) (job : Job) (disk : Disk) (place : Place) (standing : Standing) : History where
  disk
  standing := Function.update history.standing place standing
  jobs := history.jobs.set id job

end History

namespace Job

variable (job : Job)

def settle (result : Except String Unit) : Job := { job with phase := .settled result }

/-- A clone is there, and the pull asks for the next. -/
def next (clone : Clone) (queue : List (Except String Clone)) : Job :=
  { job with phase := .asking queue, demands := .clone clone :: job.demands }

/-- With nothing left to ask for, a node's pull goes on to the images, and any other looks again. -/
def asked : Job :=
  { job with
    phase :=
      match job.order with
      | .node _ => .images
      | .all | .flow _ => .resolving }

end Job

/-! ## Steps -/

/-- git starts on a clone, and takes no folder that something is in. -/
def History.startGit (history : History) (id : Nat) (job : Job) (clone : Clone)
    (queue : List (Except String Clone)) : History :=
  match history.disk.find clone.place, history.standing clone.place with
  | none, _ | some _, .begun _ _ .made =>
      match history.disk.put { facts := history.disk.root.facts } clone.place with
      | none => history.put id (job.settle (.error clone.failed))
      | some disk =>
          history.place id { job with phase := .cloning clone .made queue } disk clone.place
            (.begun id clone .made)
  | some _, _ => history.put id (job.settle (.error clone.failed))

namespace World

variable (world : World)

/-- git goes on with a clone, or fails and removes the folder. -/
def runGit (history : History) (id : Nat) (job : Job) (clone : Clone) (stage : Stage)
    (queue : List (Except String Clone)) (gets : Bool) : History :=
  let reached := if gets then world.nextStage clone stage else none
  if history.standing clone.place = .begun id clone stage then
    match reached.bind fun reached =>
        (history.disk.put reached.1 clone.place).map fun disk => (disk, reached.2) with
    | none =>
        history.place id (job.settle (.error clone.refused)) (history.disk.remove clone.place)
          clone.place .theirs
    | some (disk, some stage) =>
        history.place id { job with phase := .cloning clone stage queue } disk clone.place
          (.begun id clone stage)
    | some (disk, none) =>
        history.place id (job.next clone queue) disk clone.place (.whole clone)
  else
    -- the user has been in the folder
    match reached with
    | none => (history.edit (.remove clone.place)).put id (job.settle (.error clone.refused))
    | some (_, some stage) => history.put id { job with phase := .cloning clone stage queue }
    | some (_, none) => history.put id (job.next clone queue)

/-- The next step of a pull, and whether what it runs gets through. -/
def advance (history : History) (id : Nat) (job : Job) (gets : Bool) : History :=
  match job.phase with
  | .resolving =>
      if gets then
        match world.resolve history.disk job.order with
        | .failed message => history.put id (job.settle (.error message))
        | .missing requests =>
            history.put id { job with phase := .asking requests, resolved := some history.disk }
        | .present demands =>
            history.put id
              { job with
                phase := .images
                resolved := some history.disk
                demands := demands ++ job.demands }
      else history.put id (job.settle (.error "failed to read workspace dir"))
  | .asking [] => history.put id job.asked
  | .asking (.error message :: _) => history.put id (job.settle (.error message))
  | .asking (.ok clone :: queue) =>
      match history.disk.find clone.place with
      | none => history.put id { job with phase := .spawned clone queue }
      | some folder =>
          match world.ensureCheckoutIs clone folder with
          | .ok () => history.put id (job.next clone queue)
          | .error message => history.put id (job.settle (.error message))
  | .spawned clone queue =>
      if gets then history.startGit id job clone queue
      else history.put id (job.settle (.error clone.failed))
  | .cloning clone stage queue => world.runGit history id job clone stage queue gets
  | .images =>
      history.put id (job.settle (if gets then .ok () else .error "failed to pull an image"))
  | .settled _ | .stopped => history

inductive Event where
  | start (order : Order)
  | act (id : Nat) (gets : Bool)
  /-- fghjd stops, and git with it. -/
  | stop
  | user (edit : Edit)

def step (history : History) : Event → History
  | .start order =>
      if history.jobs.any fun job => job.phase.isRunning && job.order.key == order.key then history
      else { history with jobs := history.jobs ++ [{ order }] }
  | .act id gets =>
      match history.jobs[id]? with
      | none => history
      | some job => world.advance history id job gets
  | .stop =>
      { history with
        jobs := history.jobs.map fun job =>
          if job.phase.isRunning then { job with phase := .stopped } else job }
  | .user edit => history.edit edit

end World

end Pull
end Fghj
