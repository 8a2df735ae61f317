import Fghj.Docker
import Fghj.Library.Text
import Fghj.Observation
import Mathlib.Data.List.Induction

/-!
# Reading containers off Docker

What Docker has a container as, and the two ways the program reads it: an inspect of one container,
and one listing of all of them, whose exit codes come out of Docker's status text. Docker reports a
zero exit code of a container that has not exited, and both ways pass it on.
-/

namespace Fghj

open Std

/-- An exit code as Docker's interface carries it. -/
abbrev ExitCode := { code : Int // -2 ^ 63 ≤ code ∧ code < 2 ^ 63 }

namespace ExitCode

/-- A clean exit. -/
def success : ExitCode := ⟨0, by decide⟩

end ExitCode

/-- What Docker has a container as, with the code it last exited with if it did. -/
inductive DockerState where
  | created
  | running
  | paused
  | restarting (code : ExitCode)
  | removing (code : ExitCode)
  | exited (code : ExitCode)
  | dead (code : ExitCode)
  deriving DecidableEq

namespace DockerState

/-- Docker's word for the state. -/
def word : DockerState → String
  | .created => "created"
  | .running => "running"
  | .paused => "paused"
  | .restarting _ => "restarting"
  | .removing _ => "removing"
  | .exited _ => "exited"
  | .dead _ => "dead"

/-- The exit code Docker reports, which is zero before the container exited. -/
def exitCode : DockerState → Int
  | .created => 0
  | .running => 0
  | .paused => 0
  | .restarting code => code
  | .removing code => code
  | .exited code => code
  | .dead code => code

/-- Docker's status text; `age` is how long and, of a container that is up, how healthy. -/
def text (age : String) : DockerState → String
  | .created => "Created"
  | .running => "Up " ++ age
  | .paused => "Up " ++ age ++ " (Paused)"
  | .restarting code => "Restarting (" ++ code.val.repr ++ ") " ++ age
  | .removing _ => "Removal In Progress"
  | .exited code => "Exited (" ++ code.val.repr ++ ") " ++ age
  | .dead _ => "Dead"

/-- An inspect reports zero, but not of a container that exited with it. -/
def falseZero : DockerState → Bool
  | .created => true
  | .running => true
  | .paused => true
  | .restarting code => code.val == 0
  | .removing code => code.val == 0
  | .exited _ => false
  | .dead code => code.val == 0

/-- A listing reports zero, but not of a container that exited with it. -/
def listedFalseZero : DockerState → Bool
  | .removing _ => true
  | state => state.falseZero

/-- A reported zero is false, or of a container that exited with it. -/
theorem eq_exited_of_exitCode {state : DockerState} (zero : state.exitCode = 0)
    (honest : state.falseZero = false) : state = .exited ExitCode.success := by
  cases state with
  | exited code => exact congrArg exited (Subtype.ext zero)
  | created => cases honest
  | running => cases honest
  | paused => cases honest
  | restarting code => exact absurd zero (by simpa [falseZero, exitCode] using honest)
  | removing code => exact absurd zero (by simpa [falseZero, exitCode] using honest)
  | dead code => exact absurd zero (by simpa [falseZero, exitCode] using honest)

end DockerState

/-- One container in Docker. -/
structure DockerContainer where
  state : DockerState
  hostPorts : OrderedMap String UInt16 := ∅
  age : String := ""

/-- What Docker answers about one container: an error, that there is none, or the container. -/
abbrev DockerAnswer := Except String (Option DockerContainer)

namespace Docker

/-! ## Inspect -/

/-- One inspect of a container. -/
def inspectStatus : DockerAnswer → DockerReading
  | .error message => .error message
  | .ok none => .ok none
  | .ok (some container) =>
      .ok (some
        { status := container.state.word
          exitCode := some container.state.exitCode
          hostPorts := container.hostPorts })

/-! ## Listing -/

/-- The code in Docker's status text. -/
def exitCodeIn (text : String) : Option Int :=
  match Text.splitOnce '(' text.toList with
  | none => none
  | some (_, rest) =>
      match Text.splitOnce ')' rest with
      | none => none
      | some (code, _) => Text.parseI64 (Text.trim code)

/-- One container in a listing, and the answer to an inspect made because of it. -/
structure Sighting where
  name : String
  container : DockerContainer
  again : DockerAnswer := .ok none

/-- The status a listing gives of one container. -/
def sightedStatus (sighting : Sighting) : Except String ContainerStatus :=
  let status := sighting.container.state.word
  let hostPorts := sighting.container.hostPorts
  match exitCodeIn (sighting.container.state.text sighting.container.age) with
  | some code => .ok { status, exitCode := some code, hostPorts }
  | none =>
      if status = "exited" ∨ status = "dead" then
        match inspectStatus sighting.again with
        | .error message => .error message
        | .ok found => .ok { status, exitCode := found.bind ContainerStatus.exitCode, hostPorts }
      else
        -- What an inspect reports for a container that has not exited.
        .ok { status, exitCode := some 0, hostPorts }

/-- Every container of a listing by name; a failed inspect fails the listing. -/
def listStatuses (listing : List Sighting) : Except String (OrderedMap String ContainerStatus) :=
  listing.foldl (fun statuses sighting =>
    match statuses, sightedStatus sighting with
    | .error message, _ => .error message
    | .ok _, .error message => .error message
    | .ok statuses, .ok status => .ok (statuses.insert sighting.name status)) (.ok ∅)

/-- The code printed in a status text is read out of it. -/
theorem exitCodeIn_printed (front : String) (plain : '(' ∉ front.toList) (code : ExitCode)
    (age : String) : exitCodeIn (front ++ "(" ++ code.val.repr ++ ") " ++ age) = some code.val := by
  have solid : ∀ char ∈ code.val.repr.toList, char ≠ ')' ∧ ¬Text.isWhitespace char := by
    intro char member
    rcases Text.mem_toList_repr_int member with rfl | digit
    · decide
    · exact Text.solid_of_isDigit digit
  have shape : (front ++ "(" ++ code.val.repr ++ ") " ++ age).toList =
      front.toList ++ '(' :: (code.val.repr.toList ++ ')' :: ' ' :: age.toList) := by
    simp
  have closed : ')' ∉ code.val.repr.toList := fun member => (solid ')' member).1 rfl
  simp only [exitCodeIn, shape, Text.splitOnce_append plain, Text.splitOnce_append closed]
  rw [Text.trim_eq_self fun char member => (solid char member).2]
  exact Text.parseI64_repr code.property

/-- The state the exit code of a sighting is read off. -/
def Sighting.source (sighting : Sighting) : Option DockerState :=
  match sighting.container.state with
  | .dead _ =>
      match sighting.again with
      | .ok (some container) => some container.state
      | _ => none
  | state => some state

/-- The listing reports no zero of a container that did not exit with it. -/
def Sighting.honest (sighting : Sighting) : Bool :=
  match sighting.container.state with
  | .dead _ =>
      match sighting.again with
      | .ok (some container) => !container.state.falseZero
      | _ => true
  | state => !state.listedFalseZero

/-- A zero read off an honest sighting is that of a clean exit. -/
theorem sightedStatus_zero {sighting : Sighting} {status : ContainerStatus}
    (sighted : sightedStatus sighting = .ok status) (zero : status.exitCode = some 0)
    (honest : sighting.honest) : sighting.source = some (.exited ExitCode.success) := by
  obtain ⟨name, ⟨state, hostPorts, age⟩, again⟩ := sighting
  cases state with
  | created => cases honest
  | running => cases honest
  | paused => cases honest
  | removing code => cases honest
  | restarting code =>
      have read : exitCodeIn ((DockerState.restarting code).text age) = some code.val :=
        exitCodeIn_printed "Restarting " (by decide) code age
      simp only [sightedStatus, read, Except.ok.injEq] at sighted
      subst sighted
      have falsely : (DockerState.restarting code).falseZero = true :=
        beq_iff_eq.mpr (Option.some.inj zero)
      simp [Sighting.honest, DockerState.listedFalseZero, falsely] at honest
  | exited code =>
      have read : exitCodeIn ((DockerState.exited code).text age) = some code.val :=
        exitCodeIn_printed "Exited " (by decide) code age
      simp only [sightedStatus, read, Except.ok.injEq] at sighted
      subst sighted
      exact congrArg (fun code => some (DockerState.exited code))
        (Subtype.ext (Option.some.inj zero))
  | dead code =>
      have read : exitCodeIn ((DockerState.dead code).text age) = none :=
        show exitCodeIn "Dead" = none by decide
      simp only [sightedStatus, read, DockerState.word, or_true, if_true] at sighted
      cases again with
      | error message => cases sighted
      | ok found =>
          cases found with
          | none =>
              cases sighted
              cases zero
          | some container =>
              cases sighted
              have clean := DockerState.eq_exited_of_exitCode (Option.some.inj zero)
                (by simpa [Sighting.honest] using honest)
              simp [Sighting.source, clean]

/-- A status of a listing is that of the last sighting under its name. -/
theorem listStatuses_get {listing : List Sighting} {statuses : OrderedMap String ContainerStatus}
    (listed : listStatuses listing = .ok statuses) {name : String} {status : ContainerStatus}
    (found : statuses[name]? = some status) :
    ∃ sighting, listing.reverse.find? (fun sighting => sighting.name == name) = some sighting ∧
      sightedStatus sighting = .ok status := by
  induction listing using List.reverseRecOn generalizing statuses with
  | nil =>
      cases listed
      simp at found
  | append_singleton front last ih =>
      rw [listStatuses, List.foldl_concat, ← listStatuses] at listed
      split at listed
      · cases listed
      · cases listed
      · rename_i earlier read before sighted
        cases listed
        rw [List.reverse_concat, List.find?_cons]
        rw [ExtTreeMap.getElem?_insert] at found
        split at found
        · rename_i same
          obtain rfl := Std.compare_eq_iff_eq.mp same
          cases found
          exact ⟨last, by simp, sighted⟩
        · rename_i different
          obtain ⟨sighting, first, status_eq⟩ := ih before found
          have apart : (last.name == name) = false := by
            simpa [Std.compare_eq_iff_eq] using different
          exact ⟨sighting, by rw [apart]; exact first, status_eq⟩

end Docker

/-- Every published port, a bare number for tcp. -/
def ContainerStatus.publishedPorts (status : ContainerStatus) : List (String × UInt16) :=
  status.hostPorts.toList.map fun entry =>
    (((Text.stripSuffix "/tcp".toList entry.1.toList).map String.ofList).getD entry.1, entry.2)

namespace Orchestrator

/-! ## Observing -/

/-- The host ports of the ports a record knows, or of all of them if it knows none. -/
def readPorts (known : OrderedMap String (Option UInt16)) (inspected : Option ContainerStatus) :
    OrderedMap String (Option UInt16) :=
  if known.isEmpty then
    (inspected.toList.flatMap ContainerStatus.publishedPorts).foldl
      (fun ports entry => ports.insert entry.1 (some entry.2)) ∅
  else known.map fun port _ => inspected.bind fun status => status.hostPort port

/-- What the listing says of one recorded container. Without a listing its last reading stays. -/
def observedReading (listed : Except String (OrderedMap String ContainerStatus))
    (container : ContainerInfo) : Observation.Reading :=
  match listed with
  | .error _ =>
      { status := container.observed.status
        publishedPort := container.observed.publishedPort
        ports := container.observed.ports
        exitCode := container.observed.exitCode
        unseen := true }
  | .ok statuses =>
      let inspected := statuses[container.desired.containerName]?
      { status := (inspected.map ContainerStatus.status).getD "removed"
        publishedPort := container.desired.statusPort.bind fun port =>
          inspected.bind fun status => status.hostPort port
        ports := readPorts container.observed.ports inspected
        exitCode := inspected.bind ContainerStatus.exitCode }

/-- What one listing says of every recorded container. -/
def observe (env : EnvState) (listed : Except String (OrderedMap String ContainerStatus)) :
    OrderedMap String Observation.Reading :=
  env.containers.map fun _ container => observedReading listed container

end Orchestrator

namespace Persistence

/-! ## The store -/

/-- A container as the store gives it back. -/
def restored (container : ContainerInfo) : ContainerInfo :=
  { container with
    observed :=
      { container.observed with
        -- Orphanhood is derived again from the graph.
        sync := if container.observed.sync = .orphaned then .unknown else container.observed.sync }
    pendingAction := none }

/-- The environment as the store gives it back. -/
def loadEnv (saved : EnvState) : EnvState where
  network := saved.network
  sidecarContainerName := saved.sidecarContainerName
  sidecarIp := saved.sidecarIp
  containers := (OrderedMap.listed saved.containers).foldl
    (fun containers container => containers.insert container.nodeId (restored container)) ∅

/-- A restored container with its status read anew. -/
def rehydrated (answer : DockerAnswer) (container : ContainerInfo) : ContainerInfo :=
  let wasUp := container.observed.isUp || container.observed.unseen
  match Docker.inspectStatus answer with
  | .ok (some status) =>
      { container with
        observed := { container.observed with
          status := status.status
          exitCode := status.exitCode
          unseen := false }.settleInterruption wasUp }
  | .ok none =>
      { container with
        observed := { container.observed with
          status := "removed"
          exitCode := none
          unseen := false }.settleInterruption wasUp }
  | .error _ => { container with observed := { container.observed with unseen := true } }

/-- The stored environment with every container's status read anew. -/
def rehydrate (saved : EnvState) (answers : String → DockerAnswer) : EnvState :=
  let env := loadEnv saved
  { env with
    containers := env.containers.map fun _ container =>
      rehydrated (answers container.desired.containerName) container }

/-- The workspace's store, and whether this process wrote it. -/
structure Store where
  env : Option EnvState := none
  written : Bool := false

/-- Not created yet. -/
def uncreated (env : EnvState) : Bool := env.network == "" && env.containers.isEmpty

/-- Mirror an environment into the store; an empty shell is not written. -/
def Store.converge (store : Store) : Option EnvState → Store
  | some env => if uncreated env then store else { env := some env, written := true }
  | none => if store.written then {} else store

end Persistence
end Fghj
