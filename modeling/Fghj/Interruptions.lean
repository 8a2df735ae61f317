import Fghj.Library.Execution
import Fghj.Readings
import Fghj.Reducer

/-!
# Down out of sight

One container that should be up, over its life in Docker and the moments the program reads it,
fails to reach Docker, and is stopped and started again. Beside the record stands a watch, which
knows of the last time the container went down whether that was out of sight, and whether it was
read as down before anything went out of sight. The record has two bits for this, and readings that
mistake them are named here: without them the condition agrees with the watch.
-/

namespace Fghj

open Std Reducer

/-- Docker's own words for a container that serves or tries to. -/
def DockerState.isUp : DockerState → Bool
  | .running => true
  | .paused => true
  | .restarting _ => true
  | _ => false

namespace Interruptions

/-- The container is up; one that Docker does not have is down. -/
def isUp (docker : Option DockerContainer) : Bool :=
  docker.any fun container => container.state.isUp

/-- What an onlooker knows of the last time the container went down. -/
structure Watch where
  /-- Since the last reading Docker was not reached, or the program stopped. -/
  blind : Bool := false
  /-- It last went down in such a stretch. -/
  fellBlind : Bool := false
  /-- It last went down in sight, and nothing went out of sight since. -/
  watched : Bool := false
  /-- It was read as down after it last went down and before anything went out of sight. -/
  seen : Bool := false

namespace Watch

/-- The container goes from one Docker state to another. -/
def moved (watch : Watch) (before after : Option DockerContainer) : Watch :=
  if isUp before && !isUp after then
    { watch with fellBlind := watch.blind, watched := !watch.blind, seen := false }
  else watch

/-- Docker is not reached, or the program stops. -/
def lost (watch : Watch) : Watch := { watch with blind := true, watched := false }

/-- The container is read. -/
def read (watch : Watch) (docker : Option DockerContainer) : Watch :=
  { watch with blind := false, seen := watch.seen || (!isUp docker && watch.watched) }

end Watch

/-- The container in Docker, its record, in memory or stored, and the onlooker. -/
structure World where
  docker : Option DockerContainer
  container : ContainerInfo
  running : Bool := true
  watch : Watch := {}

inductive Event where
  /-- The container's state in Docker changes. -/
  | docker (after : Option DockerContainer)
  /-- The program observes the environment; Docker may fail. -/
  | poll (failure : Option String)
  | stop
  /-- The program starts and rehydrates what it stored; Docker may fail. -/
  | start (failure : Option String)

/-- A listing with the container, if Docker has it. -/
def listing (docker : Option DockerContainer) (name : String) : Option String →
    Except String (OrderedMap String ContainerStatus)
  | some message => .error message
  | none => Docker.listStatuses (docker.toList.map fun container =>
      { name, container, again := .ok (some container) })

/-- The record after an observation. -/
def observed (listed : Except String (OrderedMap String ContainerStatus))
    (container : ContainerInfo) : ContainerInfo :=
  let reading := Orchestrator.observedReading listed container
  observeContainer container reading.status reading.publishedPort reading.ports reading.exitCode
    reading.unseen container.observed

/-- The answer to an inspect. -/
def answer (docker : Option DockerContainer) : Option String → DockerAnswer
  | some message => .error message
  | none => .ok docker

def Watch.asked (watch : Watch) (docker : Option DockerContainer) : Option String → Watch
  | some _ => watch.lost
  | none => watch.read docker

def step (world : World) : Event → World
  | .docker after =>
      { world with docker := after, watch := world.watch.moved world.docker after }
  | .poll failure =>
      if world.running then
        { world with
          container :=
            observed (listing world.docker world.container.desired.containerName failure)
              world.container
          watch := world.watch.asked world.docker failure }
      else world
  | .stop =>
      if world.running then { world with running := false, watch := world.watch.lost } else world
  | .start failure =>
      if world.running then world
      else
        { world with
          container :=
            Persistence.rehydrated (answer world.docker failure)
              (Persistence.restored world.container)
          running := true
          watch := world.watch.asked world.docker failure }

/-- Where the program has a reading of the container as down, the condition says how it went. -/
def Right (world : World) : Prop :=
  world.running = true → world.container.observed.unseen = false →
    world.container.observed.isUp = false → world.container.observed.status ≠ "removed" →
      (world.watch.fellBlind = true → world.container.condition = .interrupted) ∧
        (world.watch.seen = true → world.container.condition = .crashed)

instance (world : World) : Decidable (Right world) := by
  unfold Right
  infer_instance

/-- The event reads the container as down, but does not take one of the three wrong turns. -/
def Fine (world : World) : Event → Prop
  | .poll none => world.running = true → isUp world.docker = false →
      -- A crash that was seen is not taken for an interruption after a blip,
      (world.watch.seen = true → world.container.observed.unseen = false) ∧
        -- and one in sight finds no flag left over from before the container was up again.
        (world.watch.watched = true → world.container.observed.interrupted = false)
  | .start none => world.running = false → isUp world.docker = false →
      (world.watch.seen = true → world.container.observed.unseen = false) ∧
        -- Having gone down out of sight, it was last read as up or something went out of sight.
        (world.watch.fellBlind = true →
          (world.container.observed.isUp || world.container.observed.unseen ||
            world.container.observed.interrupted) = true)
  | _ => True

instance (world : World) (event : Event) : Decidable (Fine world event) := by
  unfold Fine
  split <;> infer_instance

/-- A container that should be up, of which nothing is in flight, with a current reading. -/
structure Fresh (world : World) : Prop where
  running : world.running = true
  wanted : world.container.desired.running = true
  service : world.container.desired.terminating = false
  idle : world.container.pendingAction = none
  current : world.container.observed.unseen = false
  watch : world.watch = {}

/-! ## What a reading leaves of the record -/

/-- The status a container in Docker reads as. -/
def status (docker : Option DockerContainer) : String :=
  (docker.map fun container => container.state.word).getD "removed"

theorem isUp_of_status {docker : Option DockerContainer} {reading : ContainerObserved}
    (status_eq : reading.status = status docker) : reading.isUp = isUp docker := by
  rw [ContainerObserved.isUp, status_eq]
  cases docker with
  | none => rfl
  | some container =>
      obtain ⟨state, hostPorts, age⟩ := container
      cases state <;> rfl

/-- What a reading that reached Docker leaves of a record. -/
structure Reads (docker : Option DockerContainer) (unwatched : Bool)
    (before after : ContainerInfo) : Prop where
  desired : after.desired = before.desired
  pendingAction : after.pendingAction = none
  unseen : after.observed.unseen = false
  isUp : after.observed.isUp = Interruptions.isUp docker
  interrupted : after.observed.interrupted =
    (!Interruptions.isUp docker && (unwatched || before.observed.interrupted))

theorem Reads.of_settled {docker : Option DockerContainer} {unwatched : Bool}
    {before after : ContainerInfo} (reading : ContainerObserved)
    (settled : after.observed = reading.settleInterruption unwatched)
    (status_eq : reading.status = status docker) (current : reading.unseen = false)
    (flag : reading.interrupted = before.observed.interrupted)
    (desired : after.desired = before.desired) (idle : after.pendingAction = none) :
    Reads docker unwatched before after := by
  rw [ContainerObserved.settleInterruption_eq, isUp_of_status status_eq, flag] at settled
  exact
    { desired
      pendingAction := idle
      unseen := by rw [settled, current]
      isUp := by
        rw [settled]
        exact isUp_of_status status_eq
      interrupted := by rw [settled] }

theorem sightedStatus_word (name : String) (container : DockerContainer) :
    ∃ status,
      Docker.sightedStatus { name, container, again := .ok (some container) } = .ok status ∧
        status.status = container.state.word := by
  unfold Docker.sightedStatus
  dsimp only
  split
  · exact ⟨_, rfl, rfl⟩
  · split
    · exact ⟨_, rfl, rfl⟩
    · exact ⟨_, rfl, rfl⟩

/-- A listing that reached Docker has the container's state under its name. -/
theorem listing_none (docker : Option DockerContainer) (name : String) :
    ∃ statuses, listing docker name none = .ok statuses ∧
      ((statuses[name]?).map ContainerStatus.status).getD "removed" = status docker := by
  cases docker with
  | none => exact ⟨∅, rfl, by simp [status]⟩
  | some container =>
      obtain ⟨status, sighted, word⟩ := sightedStatus_word name container
      refine ⟨(∅ : OrderedMap String ContainerStatus).insert name status, ?_, ?_⟩
      · simp [listing, Docker.listStatuses, sighted]
      · simp [Interruptions.status, word]

theorem sameReading_self (observed : ContainerObserved) : observed.sameReading observed = true := by
  simp [ContainerObserved.sameReading]

theorem observed_reads (docker : Option DockerContainer) {container : ContainerInfo}
    (idle : container.pendingAction = none) :
    Reads docker container.observed.unseen container
      (observed (listing docker container.desired.containerName none) container) := by
  obtain ⟨statuses, listed, status_eq⟩ := listing_none docker container.desired.containerName
  simp only [observed, listed, Orchestrator.observedReading, observeContainer, idle,
    sameReading_self, Option.isSome_none, Bool.not_true, Bool.or_false, Bool.false_eq_true,
    if_false]
  exact .of_settled _ rfl status_eq rfl rfl rfl rfl

/-- Without Docker a record is only marked. -/
theorem observed_unreached {container : ContainerInfo} (idle : container.pendingAction = none)
    (message : String) :
    observed (.error message) container =
      { container with observed := { container.observed with unseen := true } } := by
  simp [observed, Orchestrator.observedReading, observeContainer, idle, sameReading_self]

theorem rehydrated_reads (docker : Option DockerContainer) (container : ContainerInfo) :
    Reads docker (container.observed.isUp || container.observed.unseen) container
      (Persistence.rehydrated (.ok docker) (Persistence.restored container)) := by
  cases docker with
  | none =>
      exact .of_settled
        { (Persistence.restored container).observed with
          status := "removed"
          exitCode := none
          unseen := false } rfl rfl rfl rfl rfl rfl
  | some found =>
      exact .of_settled
        { (Persistence.restored container).observed with
          status := found.state.word
          exitCode := some found.state.exitCode
          unseen := false } rfl rfl rfl rfl rfl rfl

/-! ## The invariant -/

/-- What the two bits of the record have to do with what the onlooker knows. -/
structure Invariant (world : World) : Prop where
  wanted : world.container.desired.running = true
  service : world.container.desired.terminating = false
  idle : world.container.pendingAction = none
  blind_eq : world.running = true → world.watch.blind = world.container.observed.unseen
  stopped : world.running = false → world.watch.blind = true
  unwatched : world.watch.blind = true → world.watch.watched = false
  seen : world.watch.seen = true → world.container.observed.interrupted = false ∧
    (isUp world.docker = false → world.container.observed.isUp = false)
  fell : world.watch.fellBlind = true → world.watch.blind = true ∨
    world.container.observed.interrupted = true ∨
      (isUp world.docker = true ∧ world.container.observed.isUp = true)

theorem Fresh.invariant {world : World} (fresh : Fresh world) : Invariant world where
  wanted := fresh.wanted
  service := fresh.service
  idle := fresh.idle
  blind_eq _ := by rw [fresh.watch, fresh.current]
  stopped halted := by simp [fresh.running] at halted
  unwatched blind := by simp [fresh.watch] at blind
  seen seen := by simp [fresh.watch] at seen
  fell fell := by simp [fresh.watch] at fell

/-- The condition of a container that is there, but down. -/
theorem condition_of_down {container : ContainerInfo}
    (wanted : container.desired.running = true) (service : container.desired.terminating = false)
    (current : container.observed.unseen = false) (down : container.observed.isUp = false)
    (kept : container.observed.status ≠ "removed") :
    container.condition = if container.observed.interrupted then .interrupted else .crashed := by
  simp only [ContainerObserved.isUp, Bool.or_eq_false_iff, beq_eq_false_iff_ne] at down
  obtain ⟨⟨running, restarting⟩, paused⟩ := down
  simp [ContainerInfo.condition, wanted, service, current, kept, running, restarting, paused]

namespace Invariant

variable {world : World}

/-- The record's condition is the onlooker's verdict. -/
theorem right (invariant : Invariant world) : Right world := by
  intro running current down kept
  have clear : world.watch.blind = false := (invariant.blind_eq running).trans current
  rw [condition_of_down invariant.wanted invariant.service current down kept]
  constructor
  · intro fell
    rcases invariant.fell fell with blind | flagged | ⟨-, up⟩
    · exact absurd blind (by simp [clear])
    · simp [flagged]
    · exact absurd up (by simp [down])
  · intro seen
    simp [(invariant.seen seen).1]

theorem moved (invariant : Invariant world) (after : Option DockerContainer) :
    Invariant (step world (.docker after)) := by
  simp only [step, Watch.moved]
  split
  · rename_i falls
    -- What the onlooker knew of an earlier fall is void.
    exact
      { invariant with
        unwatched := fun blind => by simpa using blind
        seen := fun seen => by cases seen
        fell := fun fell => .inl fell }
  · rename_i stays
    have rises : isUp after = false → isUp world.docker = false := by
      intro down
      simpa [down] using stays
    exact
      { invariant with
        seen := fun seen =>
          ⟨(invariant.seen seen).1, fun down => (invariant.seen seen).2 (rises down)⟩
        fell := fun fell => by
          rcases invariant.fell fell with blind | flagged | ⟨upBefore, up⟩
          · exact .inl blind
          · exact .inr (.inl flagged)
          · refine .inr (.inr ⟨?_, up⟩)
            by_contra down
            exact absurd upBefore (by simp [rises (by simpa using down)]) }

/-- A reading that reached Docker, if what it calls unwatched agrees with the onlooker. -/
theorem read (invariant : Invariant world) {unwatched : Bool} {after : ContainerInfo}
    (reads : Reads world.docker unwatched world.container after)
    (seen : isUp world.docker = false → world.watch.seen = true → unwatched = false)
    (watched : isUp world.docker = false → world.watch.watched = true →
      unwatched = false ∧ world.container.observed.interrupted = false)
    (fell : isUp world.docker = false → world.watch.fellBlind = true →
      unwatched = true ∨ world.container.observed.interrupted = true) :
    Invariant
      { world with
        container := after
        running := true
        watch := world.watch.read world.docker } where
  wanted := by rw [reads.desired, invariant.wanted]
  service := by rw [reads.desired, invariant.service]
  idle := reads.pendingAction
  blind_eq _ := reads.unseen.symm
  stopped halted := by cases halted
  unwatched blind := by cases blind
  seen verdict := by
    simp only [reads.interrupted, reads.isUp]
    refine ⟨?_, id⟩
    cases up : isUp world.docker with
    | true => rfl
    | false =>
        simp only [Watch.read, up, Bool.not_false, Bool.true_and, Bool.or_eq_true] at verdict
        rcases verdict with before | inSight
        · simp [seen up before, (invariant.seen before).1]
        · obtain ⟨attended, clear⟩ := watched up inSight
          simp [attended, clear]
  fell fellBlind := by
    simp only [reads.interrupted, reads.isUp]
    cases up : isUp world.docker with
    | true => exact .inr (.inr ⟨rfl, rfl⟩)
    | false => exact .inr (.inl (by simpa using fell up fellBlind))

/-- Going out of sight changes no more of the record than that it is not current. -/
theorem lost (invariant : Invariant world) {after : ContainerInfo} {running : Bool}
    (desired : after.desired = world.container.desired) (idle : after.pendingAction = none)
    (isUp : after.observed.isUp = world.container.observed.isUp)
    (interrupted : after.observed.interrupted = world.container.observed.interrupted)
    (marked : running = true → after.observed.unseen = true) :
    Invariant { world with container := after, running, watch := world.watch.lost } where
  wanted := by rw [desired, invariant.wanted]
  service := by rw [desired, invariant.service]
  idle := idle
  blind_eq up := (marked up).symm
  stopped _ := rfl
  unwatched _ := rfl
  seen seen := by simpa only [isUp, interrupted] using invariant.seen seen
  fell _ := .inl rfl

theorem polled (invariant : Invariant world) {failure : Option String}
    (fine : Fine world (.poll failure)) : Invariant (step world (.poll failure)) := by
  simp only [step]
  split
  · rename_i running
    cases failure with
    | some message =>
        simp only [listing, observed_unreached invariant.idle]
        rw [running]
        exact invariant.lost rfl invariant.idle rfl rfl fun _ => rfl
    | none =>
        have blind_eq := invariant.blind_eq running
        rw [running]
        refine invariant.read (observed_reads world.docker invariant.idle) ?_ ?_ ?_
        · exact fun down seen => (fine running down).1 seen
        · intro down watched
          refine ⟨?_, (fine running down).2 watched⟩
          by_contra unseen
          have blind := blind_eq.trans (by simpa using unseen)
          exact absurd watched (by simp [invariant.unwatched blind])
        · intro down fell
          rcases invariant.fell fell with blind | flagged | ⟨up, -⟩
          · exact .inl (blind_eq.symm.trans blind)
          · exact .inr flagged
          · exact absurd up (by simp [down])
  · exact invariant

theorem halted (invariant : Invariant world) : Invariant (step world .stop) := by
  simp only [step]
  split
  · exact invariant.lost rfl invariant.idle rfl rfl fun up => by cases up
  · exact invariant

theorem started (invariant : Invariant world) {failure : Option String}
    (fine : Fine world (.start failure)) : Invariant (step world (.start failure)) := by
  simp only [step]
  split
  · exact invariant
  · rename_i running
    have halted : world.running = false := by simpa using running
    cases failure with
    | some message => exact invariant.lost rfl rfl rfl rfl fun _ => rfl
    | none =>
        refine invariant.read (rehydrated_reads world.docker world.container) ?_ ?_ ?_
        · intro down seen
          simp [(invariant.seen seen).2 down, (fine halted down).1 seen]
        · intro down watched
          exact absurd watched (by simp [invariant.unwatched (invariant.stopped halted)])
        · intro down fell
          simpa using (fine halted down).2 fell

theorem step (invariant : Invariant world) {event : Event} (fine : Fine world event) :
    Invariant (Interruptions.step world event) := by
  cases event with
  | docker after => exact invariant.moved after
  | poll failure => exact invariant.polled fine
  | stop => exact invariant.halted
  | start failure => exact invariant.started fine

end Invariant

/-- In a run without the three wrong turns a container the program has as down is interrupted if it
last went down out of sight, and crashed if it was read as down before anything went out of
sight. -/
theorem right_throughout {world : World} (fresh : Fresh world) {events : List Event}
    (fine : Execution.Along step Fine world events) {front back : List Event}
    (split : events = front ++ back) : Right (Execution.run step world front) := by
  subst split
  have along := ((Execution.along_append step Fine world front back).mp fine).1
  exact (Execution.run_invariant step Fine Invariant (fun _ _ invariant => invariant.step)
    fresh.invariant along).right

/-- A container that is up. -/
def web : World where
  docker := some { state := .running }
  container :=
    { nodeId := "web"
      desired := { running := true, containerName := "shop-web" }
      observed := { status := "running" } }

/-- One that exited with code 1. -/
def crashed : Option DockerContainer := some { state := .exited ⟨1, by decide⟩ }

theorem fresh_web : Fresh web where
  running := rfl
  wanted := rfl
  service := rfl
  idle := rfl
  current := rfl
  watch := rfl

/-- Down while the program was not running, and still down after a blip. -/
theorem right_throughout_web :
    Right (Execution.run step web
      [.poll none, .stop, .docker crashed, .start none, .poll (some "no answer"), .poll none]) :=
  right_throughout fresh_web
    (by decide : Execution.Along step Fine web
      [.poll none, .stop, .docker crashed, .start none, .poll (some "no answer"), .poll none])
    (List.append_nil _).symm

/-- A crash seen before a blip reads as an interruption after it, as does one in sight after an
interruption that was over unseen, and one out of sight after a crash that was over unseen reads as
a crash. -/
theorem crash_blip_down : Fresh web ∧
    ¬Right (Execution.run step web
      [.docker crashed, .poll none, .poll (some "no answer"), .poll none]) ∧
    ¬Right (Execution.run step web
      [.poll (some "no answer"), .docker crashed, .poll none, .docker web.docker, .docker crashed,
        .poll none]) ∧
    ¬Right (Execution.run step web
      [.docker crashed, .poll none, .stop, .docker web.docker, .docker crashed, .start none]) :=
  ⟨fresh_web, by decide, by decide, by decide⟩

end Interruptions
end Fghj
