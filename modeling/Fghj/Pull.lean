import Fghj.Checkouts
import Fghj.Library.Loop

/-!
# Pulling a workspace

A pull resolves the workspace from disk, clones what the wanted nodes lack, and repeats until
nothing is missing. What is missing is what the resolver says: a folder that is already there and
is a checkout of the right remote counts as cloned, also when the scan cannot read its file and
goes on reporting it as a stub.
-/

namespace Fghj

open Std (ExtTreeMap)
open Checkouts

namespace Pull

/-- A repo that can be cloned, at one branch, tag or commit, or at its default branch. -/
structure Remote where
  url : String
  reference : Option String
  facts : RepoFacts := {}
  yaml : FghjYaml := .absent

/-- What cloning it leaves: its origin is the URL it was cloned from. -/
def Remote.checkout (remote : Remote) : Folder where
  git := true
  facts := { remote.facts with repo := some remote.url }
  yaml := remote.yaml

/-- One clone that a pull asks for: a source to build from, or a repo that is a stub. -/
structure Clone where
  source : Bool
  folder : String
  url : String
  reference : Option String
  deriving DecidableEq

namespace Clone

variable (clone : Clone)

/-- Where it lands. -/
def path : String := if clone.source then sourcesDir ++ "/" ++ clone.folder else clone.folder

def place : Place := if clone.source then .ofSource clone.folder else .ofFolder clone.folder

def ofSource (source : Source) : Clone where
  source := true
  folder := source.folder
  url := source.url
  reference := source.reference

def failed : String :=
  if clone.source then "git clone failed for " ++ clone.url
  else "git clone failed for " ++ clone.url ++ " (branch " ++ clone.reference.getD "main" ++ ")"

/-- Why there is nothing to check out; a commit is only looked for after the clone. -/
def refused : String :=
  match clone.source, clone.reference with
  | true, some reference =>
      if looksLikeCommit reference then clone.url ++ " has no commit " ++ reference
      else clone.failed
  | _, _ => clone.failed

end Clone

/-- What a pull is run in: the remotes, and how git and the pulls of images go. -/
structure World where
  workspace : String
  workspaceName : String
  toLowercase : String → String
  remotes : List Remote
  /-- Whether git gets through, run after run. -/
  git : Nat → Bool
  images : List Node → Except String Unit

/-- A pull on its way, with what it has cloned and what of that it asked for again. -/
structure Pulling where
  disk : Disk
  runs : Nat := 0
  cloned : List Clone := []
  repeated : List Clone := []

namespace World

variable (world : World)

/-- Two spellings of one remote. -/
def sameRemote (url other : String) : Bool :=
  RepoUrl.normalizeRepoUrl world.toLowercase url == RepoUrl.normalizeRepoUrl world.toLowercase other

/-- A folder with no readable origin cannot be vouched for, so it is an error too. -/
def ensureCheckoutIs (clone : Clone) (folder : Folder) : Except String Unit :=
  let dest := world.workspace ++ "/" ++ clone.path
  match folder.facts.repo with
  | none =>
      .error (dest ++ " already exists but is not a git checkout with an `origin` remote; fghj " ++
        "cannot confirm it is " ++ clone.url ++ ". Remove or rename it, then pull again.")
  | some origin =>
      if world.sameRemote origin clone.url then .ok ()
      else
        .error (dest ++ " is a checkout of " ++ origin ++ ", not " ++ clone.url ++
          ". Both repos " ++
          "want the same workspace folder because it is named after the last segment of the URL. "
            ++
          "fghj cannot hold both; rename or remove the existing checkout.")

/-- What git leaves of one clone. -/
def checkout (runs : Nat) (clone : Clone) : Except String Folder :=
  if world.git runs then
    match world.remotes.find? fun remote =>
        remote.url == clone.url && remote.reference == clone.reference with
    | some remote => .ok remote.checkout
    | none => .error clone.refused
  else .error clone.failed

def runGitClone (state : Pulling) (clone : Clone) : Except String Pulling :=
  match world.checkout state.runs clone with
  | .error message => .error message
  | .ok checkout =>
      match state.disk.put checkout clone.place with
      | none => .error clone.failed
      | some disk =>
          .ok { state with disk, runs := state.runs + 1, cloned := clone :: state.cloned }

/-- The same clone: into the same folder, from the same remote. -/
def sameClone (first second : Clone) : Bool :=
  first.source == second.source && first.folder == second.folder &&
    world.sameRemote first.url second.url

/-- The request is noted if the clone was made in this pull. -/
def note (state : Pulling) (clone : Clone) : Pulling :=
  if state.cloned.any fun made => world.sameClone made clone then
    { state with repeated := clone :: state.repeated }
  else state

/-- Ask for one clone; what is there already is only checked. -/
def ask (state : Pulling) (clone : Clone) : Except String Pulling :=
  match state.disk.find clone.place with
  | some folder => (world.ensureCheckoutIs clone folder).map fun _ => world.note state clone
  | none => world.runGitClone (world.note state clone) clone

/-! ## One pass -/

/-- The clone of a stub. -/
def stubClone (disk : Disk) (node : Node) : Except String Clone :=
  match (disk.stubRepos world.toLowercase)[node.id]? with
  | none => .error ("stub node " ++ node.id ++ " has no repo to clone")
  | some repo =>
      .ok
        { source := false
          folder := node.localPath.getD node.id
          url := repo
          reference := some (node.branch.getD "main") }

def missingNodes (wanted : List Node) : List Node := wanted.filter fun node => !node.downloaded

/-- In the order of their paths, each path once. -/
def missingSources (disk : Disk) (wanted : List Node) : List Source :=
  ((wanted.filterMap disk.missingSource).insertionSort fun first second =>
    first.path ≤ second.path).destutter fun first second => first.path ≠ second.path

/-- Everything a pass asks for, in turn. -/
def requests (disk : Disk) (wanted : List Node) : List (Except String Clone) :=
  ((missingSources disk wanted).map fun source => .ok (.ofSource source)) ++
    (missingNodes wanted).map (world.stubClone disk)

def askAll (state : Pulling) (requests : List (Except String Clone)) : Except String Pulling :=
  requests.foldlM (fun state request => request.bind (world.ask state)) state

/-- The ids of a flow, or all of them. -/
def startIds (graph : Graph) : Option String → Except String (List String)
  | none => .ok (graph.nodes.map Node.id)
  | some flow => graph.startIds flow

variable (flow : Option String)

/-- The nodes that the pull is for. -/
def wanted (disk : Disk) : Except String (List Node) :=
  let graph := disk.graph world.toLowercase world.workspaceName
  (startIds graph flow).map fun ids => graph.nodes.filter fun node => node.id ∈ ids

/-- One turn of the loop. -/
def pass (state : Pulling) : Pass Pulling (Except String Pulling) :=
  match world.wanted flow state.disk with
  | .error message => .done (.error message)
  | .ok wanted =>
      if (missingNodes wanted).isEmpty && (missingSources state.disk wanted).isEmpty then
        match world.images wanted with
        | .error message => .done (.error message)
        | .ok () => .done (.ok state)
      else
        match world.askAll state (world.requests state.disk wanted) with
        | .error message => .done (.error message)
        | .ok next => .again next

/-- The pull of a workspace, given the passes it may take. -/
def pullAll (fuel : Nat) (disk : Disk) : Option (Except String Pulling) :=
  Pass.loop (world.pass flow) fuel { disk }

end World

end Pull
end Fghj
