import Fghj.Library.Execution
import Fghj.Library.Slots
import Fghj.Naming

/-!
# Tearing a workspace down

Removing a workspace aborts its converge task and starts a teardown, which sweeps up what Docker has
under the workspace's names. Starts that the converge task had spawned go on by themselves: each is
a sequence of Docker calls, any of which may fall between two calls of the teardown or after it.
-/

namespace Fghj
namespace Teardown

open Orchestrator

/-- A call to Docker that makes or removes something. -/
inductive Call where
  | createNetwork
  | removeNetwork
  | createContainer (name : String)
  | removeContainer (name : String)
  | createVolume (name : String)
  deriving DecidableEq

structure Container where
  name : String
  project : String
  deriving DecidableEq

structure Volume where
  name : String
  project : String
  deriving DecidableEq

structure Docker where
  containers : List Container
  networks : List String
  volumes : List Volume
  deriving DecidableEq

/-- A node a start works on, and its named volumes: what they are called and whether other nodes
share them. -/
structure Target where
  nodeId : String
  volumes : List (String × Bool)

/-- What the converge task or the reconciler may spawn for a workspace. -/
inductive Job where
  | create (targets : List Target)
  | start (targets : List Target)
  | stop
  | remove (nodeId : String)
  | restoreSidecar

section Calls

variable (workspaceName : String)

/-- A new network is made, read back and made again with its subnet, or without when that fails. -/
def ensureNetwork : List Call := [.createNetwork, .removeNetwork, .createNetwork, .createNetwork]

/-- A container replaces the one of its name, and goes again when it cannot be started. -/
def runContainer (name : String) : List Call :=
  [.removeContainer name, .createContainer name, .removeContainer name]

def startNode (target : Target) : List Call :=
  (target.volumes.map fun volume =>
    .createVolume
      (deriveVolumeName volume.1 (if volume.2 then none else some target.nodeId) workspaceName)) ++
    runContainer (containerName workspaceName target.nodeId)

def bringUp (targets : List Target) : List Call :=
  ensureNetwork ++ runContainer (sidecarName workspaceName) ++
    targets.flatMap (startNode workspaceName)

/-- The calls a job may make, in their order. -/
def calls : Job → List Call
  | .create targets => bringUp workspaceName targets
  | .start targets => bringUp workspaceName targets
  | .stop => []
  | .remove nodeId => [.removeContainer (containerName workspaceName nodeId)]
  | .restoreSidecar => runContainer (sidecarName workspaceName)

namespace Docker

def removeContainer (docker : Docker) (name : String) : Docker :=
  { docker with containers := docker.containers.filter fun container => container.name != name }

def removeNetwork (docker : Docker) (name : String) : Docker :=
  { docker with networks := docker.networks.filter fun network => network != name }

def removeVolume (docker : Docker) (name : String) : Docker :=
  { docker with volumes := docker.volumes.filter fun volume => volume.name != name }

/-- The containers of the workspace's project. -/
def listStatuses (docker : Docker) : List String :=
  (docker.containers.filter fun container =>
    container.project == networkName workspaceName).map Container.name

def listVolumes (docker : Docker) : List String :=
  (docker.volumes.filter fun volume => volume.project == workspaceName).map Volume.name

/-- Carries out a call of one of the workspace's jobs. A name that is taken stays as it is. -/
def carryOut (docker : Docker) : Call → Docker
  | .createNetwork =>
      if networkName workspaceName ∈ docker.networks then docker
      else { docker with networks := networkName workspaceName :: docker.networks }
  | .removeNetwork => docker.removeNetwork (networkName workspaceName)
  | .createContainer name =>
      if name ∈ docker.containers.map Container.name then docker
      else { docker with containers := ⟨name, networkName workspaceName⟩ :: docker.containers }
  | .removeContainer name => docker.removeContainer name
  | .createVolume name =>
      if name ∈ docker.volumes.map Volume.name then docker
      else { docker with volumes := ⟨name, workspaceName⟩ :: docker.volumes }

end Docker

end Calls

/-- Where a teardown is between two calls. -/
inductive Stage where
  | listing (sweeps : Nat)
  | discarding (found : List String) (sweeps : Nat)
  | discardingSidecar
  | lastListing
  | removingRoutes
  | removingNetwork
  | inspectingNetwork
  | listingVolumes
  | removingVolumes (volumes : List String)
  | finishing
  deriving DecidableEq

/-- A workspace and what is done for it: whether it is wired, what its jobs still have to call, its
teardown, whether its removal is on the list, and whether a teardown has settled since it was last
wired. -/
structure Site where
  docker : Docker
  wired : Bool
  tasks : List (List Call)
  teardown : Option Stage
  pending : Bool
  settled : Bool
  deriving DecidableEq

inductive Event where
  | wire
  | spawn (job : Job)
  /-- A task makes its next call, or leaves it out. -/
  | call (task : Nat) (made : Bool)
  | remove
  /-- The teardown's next call is answered; which container of a sweep it is about. -/
  | tear (which : Nat) (answered : Bool)

section Machine

variable (workspaceName : String)

def sweeps : Nat := 3

/-- The stage after a sweep: another one, or the sidecar by its name. -/
def afterSweep : Nat → Stage
  | 0 => .discardingSidecar
  | left + 1 => .listing (left + 1)

namespace Site

def fail (site : Site) : Site := { site with teardown := none }

def proceed (site : Site) (stage : Stage) : Site := { site with teardown := some stage }

/-- The teardown goes on with the answer to its call. -/
def tear (site : Site) (which : Nat) (answered : Bool) : Stage → Site
  | .listing left =>
      if answered then
        match site.docker.listStatuses workspaceName with
        | [] => site.proceed .discardingSidecar
        | found => site.proceed (.discarding found (left - 1))
      else site.fail
  | .discarding found left =>
      match found[which]? with
      | none => site
      | some name =>
          let docker := if answered then site.docker.removeContainer name else site.docker
          match found.eraseIdx which with
          | [] => { site with docker }.proceed (afterSweep left)
          | rest => { site with docker }.proceed (.discarding rest left)
  | .discardingSidecar =>
      let docker :=
        if answered then site.docker.removeContainer (sidecarName workspaceName) else site.docker
      { site with docker }.proceed .lastListing
  | .lastListing =>
      if answered && (site.docker.listStatuses workspaceName).isEmpty then
        site.proceed .removingRoutes
      else site.fail
  | .removingRoutes => if answered then site.proceed .removingNetwork else site.fail
  | .removingNetwork =>
      let docker :=
        if answered then site.docker.removeNetwork (networkName workspaceName) else site.docker
      { site with docker }.proceed .inspectingNetwork
  | .inspectingNetwork =>
      -- an inspection that fails reads like a network that is gone
      if answered && site.docker.networks.contains (networkName workspaceName) then site.fail
      else site.proceed .listingVolumes
  | .listingVolumes =>
      if answered then site.proceed (.removingVolumes (site.docker.listVolumes workspaceName))
      else site.fail
  | .removingVolumes [] => site.proceed .finishing
  | .removingVolumes (name :: rest) =>
      if answered then
        { site with docker := site.docker.removeVolume name }.proceed (.removingVolumes rest)
      else site.fail
  | .finishing =>
      if answered then { site with teardown := none, pending := false, settled := true }
      else site.fail

/-- A removal starts a teardown, or joins the one that runs. -/
def spawnTeardown (site : Site) : Site :=
  match site.teardown with
  | some _ => site
  | none => site.proceed (.listing sweeps)

def step (site : Site) : Event → Site
  | .wire =>
      if site.wired || site.pending then site else { site with wired := true, settled := false }
  | .spawn job =>
      if site.wired then { site with tasks := site.tasks ++ [calls workspaceName job] } else site
  | .call task made =>
      match site.tasks[task]? with
      | some (call :: rest) =>
          { site with
            docker := if made then site.docker.carryOut workspaceName call else site.docker
            tasks := site.tasks.set task rest }
      | _ => site
  | .remove =>
      if site.wired then { site with wired := false, pending := true }.spawnTeardown
      else if site.pending then site.spawnTeardown
      else site
  | .tear which answered =>
      match site.teardown with
      | some stage => site.tear workspaceName which answered stage
      | none => site

end Site

/-! ## What is left to make and what there is -/

/-- What a workspace has in Docker. -/
inductive Kind where
  | container
  | network
  | volume
  deriving DecidableEq

/-- What a call makes. -/
def Call.makes : Call → Option Kind
  | .createContainer _ => some .container
  | .createNetwork => some .network
  | .createVolume _ => some .volume
  | .removeContainer _ | .removeNetwork => none

/-- Docker has something of the kind under the workspace's names. -/
def Docker.has (docker : Docker) : Kind → Bool
  | .container => !(docker.listStatuses workspaceName).isEmpty
  | .network => docker.networks.contains (networkName workspaceName)
  | .volume => !(docker.listVolumes workspaceName).isEmpty

/-- Some task has yet to make something of the kind. -/
def Site.leftToMake (site : Site) (kind : Kind) : Bool :=
  site.tasks.any fun task => task.any fun call => call.makes == some kind

/-- Nothing of the kind is there, and no task makes one any more. -/
def Site.Cleared (site : Site) (kind : Kind) : Prop :=
  site.leftToMake kind = false ∧ site.docker.has workspaceName kind = false

/-- When the teardown looks for something for the last time, no task of the workspace has any of it
left to make, and Docker answers. -/
def Site.quiet (site : Site) : Event → Bool
  | .tear _ answered =>
      match site.teardown with
      | some .lastListing => !site.leftToMake .container
      | some .inspectingNetwork => answered && !site.leftToMake .network
      | some .listingVolumes => !site.leftToMake .volume
      | _ => true
  | _ => true

/-- The teardown has looked for the kind for the last time. -/
def Stage.past : Stage → Kind → Bool
  | .removingRoutes, .container | .removingNetwork, .container | .inspectingNetwork, .container |
    .listingVolumes, .container | .listingVolumes, .network |
    .removingVolumes _, .container | .removingVolumes _, .network | .finishing, _ => true
  | _, _ => false

/-- What a teardown has looked for the last time is gone for good. -/
structure Swept (site : Site) : Prop where
  running : site.teardown ≠ none → site.wired = false ∧ site.pending = true
  resting : site.settled → site.wired = false ∧ site.pending = false ∧ site.teardown = none
  settled : site.settled → ∀ kind, site.Cleared workspaceName kind
  past : ∀ stage kind, site.teardown = some stage → stage.past kind →
    site.Cleared workspaceName kind
  volumes : ∀ left, site.teardown = some (.removingVolumes left) →
    site.leftToMake .volume = false ∧ ∀ name ∈ site.docker.listVolumes workspaceName, name ∈ left

section Steps

variable {workspaceName} {site : Site} {docker : Docker}

theorem mem_listStatuses {name : String} :
    name ∈ docker.listStatuses workspaceName ↔
      ⟨name, networkName workspaceName⟩ ∈ docker.containers := by
  rw [Docker.listStatuses, List.mem_map]
  constructor
  · rintro ⟨container, member, rfl⟩
    obtain ⟨held, project⟩ := List.mem_filter.mp member
    rw [← beq_iff_eq.mp project]
    exact held
  · intro held
    exact ⟨_, List.mem_filter.mpr ⟨held, beq_self_eq_true _⟩, rfl⟩

theorem mem_listVolumes {name : String} :
    name ∈ docker.listVolumes workspaceName ↔ ⟨name, workspaceName⟩ ∈ docker.volumes := by
  rw [Docker.listVolumes, List.mem_map]
  constructor
  · rintro ⟨volume, member, rfl⟩
    obtain ⟨held, project⟩ := List.mem_filter.mp member
    rw [← beq_iff_eq.mp project]
    exact held
  · intro held
    exact ⟨_, List.mem_filter.mpr ⟨held, beq_self_eq_true _⟩, rfl⟩

/-- A Docker with less in it. -/
structure Less (docker next : Docker) : Prop where
  containers : ∀ container ∈ next.containers, container ∈ docker.containers
  networks : ∀ network ∈ next.networks, network ∈ docker.networks
  volumes : ∀ volume ∈ next.volumes, volume ∈ docker.volumes

theorem Less.refl (docker : Docker) : Less docker docker :=
  ⟨fun _ held => held, fun _ held => held, fun _ held => held⟩

theorem less_removeContainer (docker : Docker) (name : String) :
    Less docker (docker.removeContainer name) :=
  ⟨fun _ held => List.mem_of_mem_filter held, fun _ held => held, fun _ held => held⟩

theorem less_removeNetwork (docker : Docker) (name : String) :
    Less docker (docker.removeNetwork name) :=
  ⟨fun _ held => held, fun _ held => List.mem_of_mem_filter held, fun _ held => held⟩

theorem less_removeVolume (docker : Docker) (name : String) :
    Less docker (docker.removeVolume name) :=
  ⟨fun _ held => held, fun _ held => held, fun _ held => List.mem_of_mem_filter held⟩

variable {kind : Kind}

theorem has_iff : docker.has workspaceName kind = true ↔
    match kind with
    | .container => ∃ name, ⟨name, networkName workspaceName⟩ ∈ docker.containers
    | .network => networkName workspaceName ∈ docker.networks
    | .volume => ∃ name, ⟨name, workspaceName⟩ ∈ docker.volumes := by
  cases kind with
  | container =>
      simp only [Docker.has, Bool.not_eq_true', ← mem_listStatuses]
      exact List.isEmpty_eq_false_iff_exists_mem
  | network => exact List.contains_iff_mem
  | volume =>
      simp only [Docker.has, Bool.not_eq_true', ← mem_listVolumes]
      exact List.isEmpty_eq_false_iff_exists_mem

/-- Where nothing was there is nothing left. -/
theorem Less.has {docker next : Docker} (less : Less docker next)
    (gone : docker.has workspaceName kind = false) : next.has workspaceName kind = false := by
  rw [Bool.eq_false_iff] at gone ⊢
  rw [Ne, has_iff] at gone ⊢
  cases kind with
  | container => exact fun ⟨name, held⟩ => gone ⟨name, less.containers _ held⟩
  | network => exact fun held => gone (less.networks _ held)
  | volume => exact fun ⟨name, held⟩ => gone ⟨name, less.volumes _ held⟩

/-- A call brings nothing of a kind it does not make. -/
theorem carryOut_has {call : Call} (other : call.makes ≠ some kind)
    (gone : docker.has workspaceName kind = false) :
    (docker.carryOut workspaceName call).has workspaceName kind = false := by
  cases call with
  | createNetwork =>
      rw [Docker.carryOut]
      split
      · exact gone
      · cases kind with
        | network => exact absurd rfl other
        | container => exact gone
        | volume => exact gone
  | removeNetwork => exact (less_removeNetwork _ _).has gone
  | createContainer name =>
      rw [Docker.carryOut]
      split
      · exact gone
      · cases kind with
        | container => exact absurd rfl other
        | network => exact gone
        | volume => exact gone
  | removeContainer name => exact (less_removeContainer _ _).has gone
  | createVolume name =>
      rw [Docker.carryOut]
      split
      · exact gone
      · cases kind with
        | volume => exact absurd rfl other
        | network => exact gone
        | container => exact gone

theorem carryOut_volumes {call : Call} (other : call.makes ≠ some .volume) :
    (docker.carryOut workspaceName call).volumes = docker.volumes := by
  cases call with
  | createNetwork =>
      rw [Docker.carryOut]
      split
      · rfl
      · rfl
  | createContainer name =>
      rw [Docker.carryOut]
      split
      · rfl
      · rfl
  | removeNetwork => rfl
  | removeContainer name => rfl
  | createVolume name => exact absurd rfl other

theorem leftToMake_eq_false : site.leftToMake kind = false ↔
    ∀ task ∈ site.tasks, ∀ call ∈ task, call.makes ≠ some kind := by
  simp [Site.leftToMake, List.any_eq_false]

/-- A task that goes on has no more left to make. -/
theorem leftToMake_set {task : Nat} {call : Call} {rest : List Call}
    (found : site.tasks[task]? = some (call :: rest)) (none_left : site.leftToMake kind = false)
    (docker : Docker) :
    ({ site with docker, tasks := site.tasks.set task rest } : Site).leftToMake kind = false := by
  rw [leftToMake_eq_false] at none_left ⊢
  intro later member other held
  rcases List.mem_or_eq_of_mem_set member with before | rfl
  · exact none_left later before other held
  · exact none_left (call :: later) (List.mem_of_getElem? found) other (List.mem_cons_of_mem _ held)

theorem Swept.call (swept : Swept workspaceName site) (task : Nat) (made : Bool) :
    Swept workspaceName (site.step workspaceName (.call task made)) := by
  rw [Site.step]
  split
  · rename_i call rest found
    have makes {kind : Kind} (none_left : site.leftToMake kind = false) : call.makes ≠ some kind :=
      leftToMake_eq_false.mp none_left _ (List.mem_of_getElem? found) call List.mem_cons_self
    have cleared {kind : Kind} (gone : site.Cleared workspaceName kind) :
        ({ site with
            docker := if made then site.docker.carryOut workspaceName call else site.docker
            tasks := site.tasks.set task rest } : Site).Cleared workspaceName kind := by
      refine ⟨leftToMake_set found gone.1 _, ?_⟩
      cases made with
      | true => exact carryOut_has (makes gone.1) gone.2
      | false => exact gone.2
    refine ⟨swept.running, swept.resting, fun settled kind => cleared (swept.settled settled kind),
      fun stage kind here past => cleared (swept.past stage kind here past), fun left here => ?_⟩
    obtain ⟨none_left, inside⟩ := swept.volumes left here
    refine ⟨leftToMake_set found none_left _, fun name held => inside name ?_⟩
    rw [mem_listVolumes] at held ⊢
    cases made with
    | true => exact carryOut_volumes (makes none_left) ▸ held
    | false => exact held
  · exact swept

theorem Swept.unsettled (swept : Swept workspaceName site) {stage : Stage}
    (running : site.teardown = some stage) : site.settled ≠ true := by
  intro settled
  obtain ⟨-, -, idle⟩ := swept.resting settled
  rw [idle] at running
  cases running

/-- A wired workspace has no teardown and has not settled. -/
theorem Swept.idle_of_wired (swept : Swept workspaceName site) (wired : site.wired) :
    site.teardown = none ∧ site.settled ≠ true := by
  constructor
  · by_contra running
    simp [(swept.running running).1] at wired
  · intro settled
    simp [(swept.resting settled).1] at wired

/-- A teardown that goes on, over a Docker with no more in it. -/
theorem Swept.proceed (swept : Swept workspaceName site) {before stage : Stage}
    (running : site.teardown = some before) (less : Less site.docker docker)
    (past : ∀ kind, stage.past kind → before.past kind ∨
      ({ site with docker } : Site).Cleared workspaceName kind)
    (volumes : ∀ left, stage = .removingVolumes left →
      site.leftToMake .volume = false ∧ ∀ name ∈ docker.listVolumes workspaceName, name ∈ left) :
    Swept workspaceName (({ site with docker } : Site).proceed stage) where
  running _ := swept.running (by simp [running])
  resting settled := absurd settled (swept.unsettled running)
  settled settled := absurd settled (swept.unsettled running)
  past reached kind here is_past := by
    cases here
    rcases past kind is_past with earlier | now
    · obtain ⟨none_left, gone⟩ := swept.past before kind running earlier
      exact ⟨none_left, less.has gone⟩
    · exact now
  volumes left here := by
    cases here
    exact volumes left rfl

theorem Swept.fail (swept : Swept workspaceName site) {before : Stage}
    (running : site.teardown = some before) : Swept workspaceName site.fail where
  running some_stage := absurd rfl some_stage
  resting settled := absurd settled (swept.unsettled running)
  settled settled := absurd settled (swept.unsettled running)
  past _ _ here := by cases here
  volumes _ here := by cases here

/-- Stages before the last listing have cleared nothing yet. -/
theorem Swept.proceed_early (swept : Swept workspaceName site) {before stage : Stage}
    (running : site.teardown = some before) (less : Less site.docker docker)
    (early : ∀ kind, stage.past kind = false) (other : ∀ left, stage ≠ .removingVolumes left) :
    Swept workspaceName (({ site with docker } : Site).proceed stage) :=
  swept.proceed running less (fun kind past => by rw [early kind] at past; cases past)
    (fun left same => absurd same (other left))

theorem less_answered (answered : Bool) {removed : Docker} (less : Less docker removed) :
    Less docker (if answered then removed else docker) := by
  cases answered with
  | true => exact less
  | false => exact Less.refl docker

theorem afterSweep_early (left : Nat) :
    (∀ kind, (afterSweep left).past kind = false) ∧
      ∀ volumes, afterSweep left ≠ .removingVolumes volumes := by
  cases left with
  | zero => exact ⟨fun _ => rfl, fun _ same => by cases same⟩
  | succ left => exact ⟨fun _ => rfl, fun _ same => by cases same⟩

/-- A stage that has as much behind it as the one before. -/
theorem Swept.proceed_same (swept : Swept workspaceName site) {before stage : Stage}
    (running : site.teardown = some before) (less : Less site.docker docker)
    (past : ∀ kind, stage.past kind = before.past kind)
    (other : ∀ left, stage ≠ .removingVolumes left) :
    Swept workspaceName (({ site with docker } : Site).proceed stage) :=
  swept.proceed running less (fun kind is_past => .inl (past kind ▸ is_past))
    (fun left same => absurd same (other left))

/-- Nothing makes a container any more and none is listed: the containers are gone for good. -/
theorem Swept.tear_lastListing (swept : Swept workspaceName site) (which : Nat) (answered : Bool)
    (running : site.teardown = some .lastListing) (quiet : site.quiet (.tear which answered)) :
    Swept workspaceName (site.tear workspaceName which answered .lastListing) := by
  simp only [Site.quiet, running] at quiet
  rw [Site.tear]
  split
  · rename_i none_listed
    rw [Bool.and_eq_true] at none_listed
    refine swept.proceed running (Less.refl _) (fun kind past => .inr ?_)
      (fun _ same => by cases same)
    cases kind with
    | container => exact ⟨by simpa using quiet, by simp [Docker.has, none_listed.2]⟩
    | network => cases past
    | volume => cases past
  · exact swept.fail running

/-- Nothing makes a network any more and none is found. -/
theorem Swept.tear_inspectingNetwork (swept : Swept workspaceName site) (which : Nat)
    (answered : Bool) (running : site.teardown = some .inspectingNetwork)
    (quiet : site.quiet (.tear which answered)) :
    Swept workspaceName (site.tear workspaceName which answered .inspectingNetwork) := by
  simp only [Site.quiet, running] at quiet
  rw [Site.tear]
  split
  · exact swept.fail running
  · rename_i absent
    rw [Bool.and_eq_true] at quiet
    rw [quiet.1, Bool.true_and] at absent
    refine swept.proceed running (Less.refl _) (fun kind past => ?_) (fun _ same => by cases same)
    cases kind with
    | container => exact .inl rfl
    | network => exact .inr ⟨by simpa using quiet.2, Bool.eq_false_iff.mpr absent⟩
    | volume => cases past

/-- The volumes that are left are among those still to be removed. -/
theorem Swept.tear_removingVolumes (swept : Swept workspaceName site) (which : Nat)
    (answered : Bool) {volumes : List String}
    (running : site.teardown = some (.removingVolumes volumes)) :
    Swept workspaceName (site.tear workspaceName which answered (.removingVolumes volumes)) := by
  obtain ⟨none_left, inside⟩ := swept.volumes volumes running
  cases volumes with
  | nil =>
      refine swept.proceed running (Less.refl _) (fun kind past => ?_)
        (fun _ same => by cases same)
      cases kind with
      | container => exact .inl rfl
      | network => exact .inl rfl
      | volume =>
          have empty : site.docker.listVolumes workspaceName = [] :=
            List.eq_nil_iff_forall_not_mem.mpr fun name held =>
              List.not_mem_nil (inside name held)
          exact .inr ⟨none_left, by simp [Docker.has, empty]⟩
  | cons name rest =>
      rw [Site.tear]
      split
      · refine swept.proceed running (less_removeVolume _ name)
          (fun kind past => .inl (by cases kind <;> exact past)) (fun left here => ?_)
        cases here
        refine ⟨none_left, fun other held => ?_⟩
        rw [mem_listVolumes] at held
        obtain ⟨before, different⟩ := List.mem_filter.mp held
        rcases List.mem_cons.mp (inside other (mem_listVolumes.mpr before)) with rfl | later
        · simp at different
        · exact later
      · exact swept.fail running

/-- Every answer to the teardown leaves gone what is gone for good. -/
theorem Swept.tear (swept : Swept workspaceName site) {stage : Stage} (which : Nat)
    (answered : Bool) (running : site.teardown = some stage)
    (quiet : site.quiet (.tear which answered)) :
    Swept workspaceName (site.tear workspaceName which answered stage) := by
  have same := Less.refl site.docker
  cases stage with
  | listing left =>
      rw [Site.tear]
      split
      · split
        · exact swept.proceed_early running same (fun _ => rfl) (fun _ same => by cases same)
        · exact swept.proceed_early running same (fun _ => rfl) (fun _ same => by cases same)
      · exact swept.fail running
  | discarding found left =>
      rw [Site.tear]
      split
      · exact swept
      · rename_i name _
        have less := less_answered answered (less_removeContainer site.docker name)
        dsimp only
        split
        · obtain ⟨early, other⟩ := afterSweep_early left
          exact swept.proceed_early running less early other
        · exact swept.proceed_early running less (fun _ => rfl) (fun _ same => by cases same)
  | discardingSidecar =>
      exact swept.proceed_early running (less_answered answered (less_removeContainer _ _))
        (fun _ => rfl) (fun _ same => by cases same)
  | lastListing => exact swept.tear_lastListing which answered running quiet
  | removingRoutes =>
      rw [Site.tear]
      split
      · exact swept.proceed_same running same (fun kind => by cases kind <;> rfl)
          (fun _ same => by cases same)
      · exact swept.fail running
  | removingNetwork =>
      exact swept.proceed_same running (less_answered answered (less_removeNetwork _ _))
        (fun kind => by cases kind <;> rfl) (fun _ same => by cases same)
  | inspectingNetwork => exact swept.tear_inspectingNetwork which answered running quiet
  | listingVolumes =>
      rw [Site.tear]
      split
      · simp only [Site.quiet, running] at quiet
        refine swept.proceed running same
          (fun kind past => .inl (by cases kind <;> exact past)) (fun left here => ?_)
        cases here
        exact ⟨by simpa using quiet, fun name held => held⟩
      · exact swept.fail running
  | removingVolumes volumes => exact swept.tear_removingVolumes which answered running
  | finishing =>
      rw [Site.tear]
      split
      · refine ⟨fun some_stage => absurd rfl some_stage, fun _ => ?_, fun _ kind => ?_,
          fun _ _ here => (by cases here), fun _ here => (by cases here)⟩
        · exact ⟨(swept.running (by simp [running])).1, rfl, rfl⟩
        · exact swept.past .finishing kind running (by cases kind <;> rfl)
      · exact swept.fail running

theorem Swept.spawnTeardown (swept : Swept workspaceName site) (unwired : site.wired = false)
    (pending : site.pending = true) : Swept workspaceName site.spawnTeardown := by
  rw [Site.spawnTeardown]
  split
  · exact swept
  · have unsettled : site.settled ≠ true := by
      intro settled
      rw [(swept.resting settled).2.1] at pending
      cases pending
    exact ⟨fun _ => ⟨unwired, pending⟩, fun settled => absurd settled unsettled,
      fun settled => absurd settled unsettled, fun _ _ here past => (by cases here; cases past),
      fun _ here => (by cases here)⟩

theorem Swept.step (swept : Swept workspaceName site) {event : Event} (quiet : site.quiet event) :
    Swept workspaceName (site.step workspaceName event) := by
  cases event with
  | wire =>
      rw [Site.step]
      split
      · exact swept
      · rename_i free
        have idle : site.teardown = none := by
          by_contra running
          simp [(swept.running running).2] at free
        exact ⟨fun running => absurd idle running, fun settled => (by cases settled),
          fun settled => (by cases settled), fun _ _ here => (by simp [idle] at here),
          fun _ here => (by simp [idle] at here)⟩
  | spawn job =>
      rw [Site.step]
      split
      · rename_i wired
        obtain ⟨idle, unsettled⟩ := swept.idle_of_wired wired
        exact ⟨swept.running, swept.resting, fun settled => absurd settled unsettled,
          fun _ _ here => (by simp [idle] at here), fun _ here => (by simp [idle] at here)⟩
      · exact swept
  | call task made => exact swept.call task made
  | remove =>
      rw [Site.step]
      split
      · rename_i wired
        obtain ⟨idle, unsettled⟩ := swept.idle_of_wired wired
        refine Swept.spawnTeardown ⟨fun running => absurd idle running,
          fun settled => absurd settled unsettled, fun settled => absurd settled unsettled,
          fun _ _ here => ?_, fun _ here => ?_⟩ rfl rfl
        · simp [idle] at here
        · simp [idle] at here
      · rename_i unwired
        split
        · rename_i pending
          exact swept.spawnTeardown (Bool.eq_false_iff.mpr unwired) pending
        · exact swept
  | tear which answered =>
      rw [Site.step]
      split
      · rename_i stage running
        exact swept.tear which answered running quiet
      · exact swept

end Steps

/-- A workspace that is not wired, over a Docker with anything in it. -/
def Site.begin (docker : Docker) : Site where
  docker := docker
  wired := false
  tasks := []
  teardown := none
  pending := false
  settled := false

theorem swept_begin (docker : Docker) : Swept workspaceName (Site.begin docker) where
  running some_stage := absurd rfl some_stage
  resting settled := by cases settled
  settled settled := by cases settled
  past _ _ here := by cases here
  volumes _ here := by cases here

/-- When no task has anything left to make of what a teardown looks for the last time, a workspace
whose teardown has settled has nothing in Docker and no task that makes anything, in every
interleaving, until it is wired again. -/
theorem removed_stays_removed (docker : Docker) (events : List Event)
    (quiet : Execution.Along (Site.step workspaceName) (fun site event => site.quiet event)
      (Site.begin docker) events) :
    let site := Execution.run (Site.step workspaceName) (Site.begin docker) events
    site.settled →
      ∀ kind, site.leftToMake kind = false ∧ site.docker.has workspaceName kind = false := by
  intro site settled
  have swept : Swept workspaceName site :=
    Execution.run_invariant (Site.step workspaceName) _ (Swept workspaceName)
      (fun _ _ swept quiet => swept.step quiet) (swept_begin workspaceName docker) quiet
  exact swept.settled settled

end Machine

/-- A start of a database with a volume of its own. -/
def startDatabase : Job := .create [⟨"db", [("data", false)]⟩]

/-- A database comes up, and its workspace is removed. -/
def startThenRemove : List Event :=
  [.wire, .spawn startDatabase] ++
    [true, false, false, false, true, true, false, true, true, true, false].map (.call 0) ++
    .remove :: List.replicate 13 (.tear 0 true)

theorem removed_stays_removed_after_start :
    let site := Execution.run (Site.step "shop") (Site.begin ⟨[], [], []⟩) startThenRemove
    site.settled ∧ site.docker.has "shop" .container = false := by
  have settled : (Execution.run (Site.step "shop") (Site.begin ⟨[], [], []⟩)
      startThenRemove).settled := by
    decide
  have gone := removed_stays_removed "shop" ⟨[], [], []⟩ startThenRemove (by
    simp only [Execution.Along, startThenRemove, List.cons_append, List.nil_append, List.map_cons,
      List.map_nil, List.replicate]
    decide)
  exact ⟨settled, (gone settled .container).2⟩

/-- A start that has not made its first call when its workspace is removed makes the network after
the teardown has settled. -/
theorem network_made_after_teardown :
    ¬∀ (workspaceName : String) (docker : Docker) (events : List Event),
      let site := Execution.run (Site.step workspaceName) (Site.begin docker) events
      site.settled →
        ∀ kind, site.leftToMake kind = false ∧ site.docker.has workspaceName kind = false := by
  intro claim
  have gone := claim "shop" ⟨[], [], []⟩
    ([.wire, .spawn startDatabase, .remove] ++ List.replicate 9 (.tear 0 true) ++ [.call 0 true])
    (by decide) .network
  revert gone
  decide

end Teardown
end Fghj
