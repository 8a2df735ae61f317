import Fghj.Library.Execution
import Fghj.Reducer

/-!
# Effects over all workspaces

An effect that renders one resource from every workspace waits for the map of actors to change and
for a forwarder of each workspace to poke it. The map and each actor's state are watched values: a
reader sees the latest, and whether there was any other since it last looked.
-/

namespace Fghj
namespace FannedIn

open Std

/-- A watched value. -/
structure Watched (α : Type) where
  value : α
  version : Nat := 0

def Watched.send {α : Type} (watched : Watched α) (value : α) : Watched α :=
  { value, version := watched.version + 1 }

/-- A task that pokes the driver whenever its actor's state is another than when it last looked. -/
structure Forwarder where
  actor : Nat
  seen : Nat

/-- Where the driver's loop is. -/
inductive Phase where
  | top
  /-- The actors whose state is still to be read, and the states that were. -/
  | reading (todo : List (String × Nat)) (states : OrderedMap String WorkspaceState)
  | waiting
  deriving DecidableEq

structure Driver (τ : Type) where
  /-- The version of the map it has waited for. -/
  seen : Nat
  phase : Phase := .top
  forwarders : OrderedMap String Forwarder := ∅
  /-- It was poked and has not been woken. -/
  poked : Bool := false
  last : Option τ := none
  /-- Its last attempt to converge failed. -/
  failed : Bool := false

/-- Every actor there has been, the map of the wired ones, and one effect's driver. -/
structure World (τ : Type) where
  actors : List (Watched WorkspaceState) := []
  registry : Watched (OrderedMap String Nat) := { value := ∅ }
  driver : Driver τ := { seen := 0 }

inductive Event where
  | wire (id : String) (state : WorkspaceState)
  | remove (id : String)
  /-- An actor publishes a state; its handles may outlive its place in the map. -/
  | change (actor : Nat) (state : WorkspaceState)
  /-- A forwarder runs. -/
  | forward (id : String)
  /-- A forwarder that was aborted gets to poke the driver once more. -/
  | stray
  /-- The driver goes on in its loop, and converging succeeds or fails. -/
  | turn (converges : Bool)
  /-- The driver is woken by a poke. -/
  | woken
  /-- The driver is woken by the map. -/
  | rewoken

section Step

variable {τ : Type} [DecidableEq τ] (extract : OrderedMap String WorkspaceState → τ)

namespace World

variable (world : World τ)

def stateOf (actor : Nat) : WorkspaceState := (world.actors[actor]?).elim {} Watched.value

def versionOf (actor : Nat) : Nat := (world.actors[actor]?).elim 0 Watched.version

/-- The states of all wired workspaces. -/
def current : OrderedMap String WorkspaceState :=
  world.registry.value.map fun _ actor => world.stateOf actor

def wire (id : String) (state : WorkspaceState) : World τ :=
  { world with
    actors := world.actors ++ [{ value := state }]
    registry := world.registry.send (world.registry.value.insert id world.actors.length) }

def change (actor : Nat) (state : WorkspaceState) : World τ :=
  { world with actors := world.actors.modify actor fun watched => watched.send state }

def forward (id : String) : World τ :=
  match world.driver.forwarders[id]? with
  | none => world
  | some forwarder =>
      if forwarder.seen = world.versionOf forwarder.actor then world
      else
        { world with
          driver :=
            { world.driver with
              forwarders := world.driver.forwarders.insert id
                { forwarder with seen := world.versionOf forwarder.actor }
              poked := true } }

/-- The map is read, forwarders of workspaces that are gone are aborted, and workspaces without one
get one. A fresh receiver has seen nothing but the state the actor began with. -/
def follow : World τ :=
  let workspaces := world.registry.value
  let kept := world.driver.forwarders.filter fun id _ => workspaces.contains id
  { world with
    driver :=
      { world.driver with
        phase := .reading workspaces.toList ∅
        forwarders := workspaces.toList.foldl (fun forwarders entry =>
          if forwarders.contains entry.1 then forwarders
          else forwarders.insert entry.1 { actor := entry.2, seen := 0 }) kept } }

/-- The snapshot is converged to unless it is the last one. -/
def converge (states : OrderedMap String WorkspaceState) (converges : Bool) : World τ :=
  let snapshot := extract states
  let driver := { world.driver with phase := .waiting }
  { world with
    driver :=
      if world.driver.last = some snapshot then { driver with failed := false }
      else if converges then { driver with last := some snapshot, failed := false }
      else { driver with failed := true } }

def turn (converges : Bool) : World τ :=
  match world.driver.phase with
  | .top => world.follow
  | .reading ((id, actor) :: todo) states =>
      { world with
        driver :=
          { world.driver with
            phase := .reading todo (states.insert id (world.stateOf actor)) } }
  | .reading [] states => world.converge extract states converges
  | .waiting => world

end World

def step (world : World τ) : Event → World τ
  | .wire id state => world.wire id state
  | .remove id =>
      { world with registry := world.registry.send (world.registry.value.erase id) }
  | .change actor state => world.change actor state
  | .forward id => world.forward id
  | .stray => { world with driver := { world.driver with poked := true } }
  | .turn converges => world.turn extract converges
  | .woken =>
      match world.driver.phase with
      | .waiting =>
          if world.driver.poked then
            { world with driver := { world.driver with phase := .top, poked := false } }
          else world
      | _ => world
  | .rewoken =>
      match world.driver.phase with
      | .waiting =>
          if world.driver.seen = world.registry.version then world
          else
            { world with
              driver := { world.driver with phase := .top, seen := world.registry.version } }
      | _ => world

end Step

/-! ## What it is to follow every workspace -/

section Follow

variable {τ : Type} (extract : OrderedMap String WorkspaceState → τ)

/-- The driver waits and nothing is there to wake it. -/
def Idle (world : World τ) : Prop :=
  world.driver.phase = .waiting ∧ world.driver.poked = false ∧
    world.driver.seen = world.registry.version

/-- No forwarder has anything to see. -/
def Quiet (world : World τ) : Prop :=
  ∀ (id : String) (forwarder : Forwarder), world.driver.forwarders[id]? = some forwarder →
    forwarder.seen = world.versionOf forwarder.actor

/-- A driver that waits is woken by every workspace, and has converged to their states if it did not
fail to. -/
structure Follows (world : World τ) : Prop where
  forwarded : Idle world → ∀ (id : String) (actor : Nat),
    world.registry.value[id]? = some actor → ∃ forwarder : Forwarder,
      world.driver.forwarders[id]? = some forwarder ∧ forwarder.actor = actor
  woken : Idle world → ∀ (id : String) (actor : Nat) (state : WorkspaceState),
    world.registry.value[id]? = some actor →
      ((world.change actor state).forward id).driver.poked = true
  converged : Idle world → Quiet world → world.driver.failed = false →
    world.driver.last = some (extract world.current)

/-- When the driver reads the map, no workspace it follows has another actor than the one it
follows. -/
def SameActors (world : World τ) : Event → Prop
  | .turn _ =>
      world.driver.phase = .top → ∀ (id : String) (actor : Nat) (forwarder : Forwarder),
        world.registry.value[id]? = some actor →
          world.driver.forwarders[id]? = some forwarder → forwarder.actor = actor
  | _ => True

/-! ## What the driver has read -/

/-- The state that was read of an actor is its latest, or its forwarder is yet to poke the driver,
or has done so. -/
def Fresh (world : World τ) (forwarder : Forwarder) (state : WorkspaceState) : Prop :=
  state = world.stateOf forwarder.actor ∨
    forwarder.seen ≠ world.versionOf forwarder.actor ∨ world.driver.poked = true

/-- The driver has read the map, has a forwarder for each workspace and has read the states of those
that are not still to be read. -/
structure Read (world : World τ) (todo : List (String × Nat))
    (states : OrderedMap String WorkspaceState) (workspaces : OrderedMap String Nat)
    (version : Nat) : Prop where
  seen : world.driver.seen ≤ version
  read : version ≤ world.registry.version
  same : version = world.registry.version → world.registry.value = workspaces
  each : ∀ (id : String) (actor : Nat), workspaces[id]? = some actor → ∃ forwarder : Forwarder,
    world.driver.forwarders[id]? = some forwarder ∧ forwarder.actor = actor ∧
      ((id, actor) ∈ todo ∨ ∃ state, states[id]? = some state ∧ Fresh world forwarder state)
  only : ∀ (id : String) (state : WorkspaceState), states[id]? = some state →
    ∃ actor : Nat, workspaces[id]? = some actor
  listed : ∀ entry ∈ todo, workspaces[entry.1]? = some entry.2

/-- What the driver knows where it is. -/
def Knows (world : World τ) : Phase → Prop
  | .top => True
  | .reading todo states => ∃ workspaces version, Read world todo states workspaces version
  | .waiting =>
      ∃ states workspaces version, Read world [] states workspaces version ∧
        (world.driver.failed = false → world.driver.last = some (extract states))

/-- What holds while the driver never finds another actor under an id it follows. -/
structure Sound (world : World τ) : Prop where
  actors : ∀ (id : String) (actor : Nat), world.registry.value[id]? = some actor →
    actor < world.actors.length
  forwarders : ∀ (id : String) (forwarder : Forwarder),
    world.driver.forwarders[id]? = some forwarder → forwarder.actor < world.actors.length ∧
      forwarder.seen ≤ world.versionOf forwarder.actor
  seen : world.driver.seen ≤ world.registry.version
  knows : Knows extract world world.driver.phase

variable {extract} {world next : World τ}

theorem Sound.empty : Sound extract ({} : World τ) where
  actors := by simp
  forwarders := by simp
  seen := Nat.le_refl 0
  knows := trivial

/-- What was read stays read while others act. -/
theorem Read.mono {todo : List (String × Nat)} {states : OrderedMap String WorkspaceState}
    {workspaces : OrderedMap String Nat} {version : Nat}
    (read : Read world todo states workspaces version)
    (seen : next.driver.seen = world.driver.seen)
    (registry : next.registry = world.registry ∨ world.registry.version < next.registry.version)
    (kept : ∀ (id : String) (forwarder : Forwarder),
      world.driver.forwarders[id]? = some forwarder → ∃ later : Forwarder,
        next.driver.forwarders[id]? = some later ∧ later.actor = forwarder.actor ∧
          ∀ state, Fresh world forwarder state → Fresh next later state) :
    Read next todo states workspaces version where
  seen := seen ▸ read.seen
  read := by
    rcases registry with same | later
    · exact same ▸ read.read
    · exact Nat.le_trans read.read (Nat.le_of_lt later)
  same := by
    intro current
    rcases registry with same | later
    · exact same ▸ read.same (same ▸ current)
    · exact absurd read.read (Nat.not_le_of_lt (current ▸ later))
  each := by
    intro id actor found
    obtain ⟨forwarder, there, follows, either⟩ := read.each id actor found
    obtain ⟨later, there', same, fresh⟩ := kept id forwarder there
    refine ⟨later, there', same.trans follows, either.imp_right ?_⟩
    rintro ⟨state, held, before⟩
    exact ⟨state, held, fresh state before⟩
  only := read.only
  listed := read.listed

/-- The driver stays where it is while others act. -/
theorem Sound.mono (sound : Sound extract world)
    (actors : ∀ (id : String) (actor : Nat), next.registry.value[id]? = some actor →
      actor < next.actors.length)
    (seen : next.driver.seen = world.driver.seen) (phase : next.driver.phase = world.driver.phase)
    (last : next.driver.last = world.driver.last)
    (failed : next.driver.failed = world.driver.failed)
    (registry : next.registry = world.registry ∨ world.registry.version < next.registry.version)
    (forwarders : ∀ (id : String) (forwarder : Forwarder),
      next.driver.forwarders[id]? = some forwarder → forwarder.actor < next.actors.length ∧
        forwarder.seen ≤ next.versionOf forwarder.actor)
    (kept : ∀ (id : String) (forwarder : Forwarder),
      world.driver.forwarders[id]? = some forwarder → ∃ later : Forwarder,
        next.driver.forwarders[id]? = some later ∧ later.actor = forwarder.actor ∧
          ∀ state, Fresh world forwarder state → Fresh next later state) :
    Sound extract next where
  actors := actors
  forwarders := forwarders
  seen := by
    rw [seen]
    rcases registry with same | later
    · exact same ▸ sound.seen
    · exact Nat.le_trans sound.seen (Nat.le_of_lt later)
  knows := by
    have knows := sound.knows
    rw [phase]
    cases at_phase : world.driver.phase with
    | top => trivial
    | reading todo states =>
        rw [at_phase] at knows
        obtain ⟨workspaces, version, read⟩ := knows
        exact ⟨workspaces, version, read.mono seen registry kept⟩
    | waiting =>
        rw [at_phase] at knows
        obtain ⟨states, workspaces, version, read, converged⟩ := knows
        refine ⟨states, workspaces, version, read.mono seen registry kept, ?_⟩
        rw [last, failed]
        exact converged

/-! ### Others -/

theorem Fresh.congr {forwarder : Forwarder} {state : WorkspaceState}
    (fresh : Fresh world forwarder state)
    (states : next.stateOf forwarder.actor = world.stateOf forwarder.actor)
    (versions : next.versionOf forwarder.actor = world.versionOf forwarder.actor)
    (poked : next.driver.poked = world.driver.poked) : Fresh next forwarder state := by
  rw [Fresh, states, versions, poked]
  exact fresh

theorem wire_lookups (world : World τ) (id : String) (state : WorkspaceState) {actor : Nat}
    (inside : actor < world.actors.length) :
    (world.wire id state).stateOf actor = world.stateOf actor ∧
      (world.wire id state).versionOf actor = world.versionOf actor := by
  simp only [World.stateOf, World.versionOf, World.wire, List.getElem?_append_left inside, and_self]

theorem Sound.wire (sound : Sound extract world) (id : String) (state : WorkspaceState) :
    Sound extract (world.wire id state) := by
  have grown : world.actors.length < (world.wire id state).actors.length := by
    simp [World.wire]
  refine sound.mono ?_ rfl rfl rfl rfl (.inr (Nat.lt_succ_self _)) ?_ ?_
  · intro other actor found
    simp only [World.wire, Watched.send, ExtTreeMap.getElem?_insert] at found
    split at found
    · obtain rfl := Option.some.inj found
      exact grown
    · exact Nat.lt_trans (sound.actors other actor found) grown
  · intro other forwarder found
    obtain ⟨inside, seen⟩ := sound.forwarders other forwarder found
    rw [(wire_lookups world id state inside).2]
    exact ⟨Nat.lt_trans inside grown, seen⟩
  · intro other forwarder found
    obtain ⟨states, versions⟩ :=
      wire_lookups world id state (sound.forwarders other forwarder found).1
    exact ⟨forwarder, found, rfl, fun _ fresh => fresh.congr states versions rfl⟩

theorem Sound.remove (sound : Sound extract world) (id : String) :
    Sound extract
      { world with registry := world.registry.send (world.registry.value.erase id) } := by
  refine sound.mono ?_ rfl rfl rfl rfl (.inr (Nat.lt_succ_self _)) sound.forwarders ?_
  · intro other actor found
    simp only [Watched.send, ExtTreeMap.getElem?_erase] at found
    split at found
    · cases found
    · exact sound.actors other actor found
  · exact fun other forwarder found => ⟨forwarder, found, rfl, fun _ fresh => fresh⟩

/-- A change shows in the version of the actor, and in no other actor. -/
theorem change_lookups (world : World τ) (changed actor : Nat) (state : WorkspaceState)
    (inside : actor < world.actors.length) :
    (world.change changed state).versionOf actor =
        (if changed = actor then world.versionOf actor + 1 else world.versionOf actor) ∧
      (changed ≠ actor → (world.change changed state).stateOf actor = world.stateOf actor) := by
  have there : world.actors[actor]? = some world.actors[actor] := List.getElem?_eq_getElem inside
  simp only [World.stateOf, World.versionOf, World.change, List.getElem?_modify, there,
    Option.elim_some]
  refine ⟨?_, fun different => ?_⟩
  · split <;> rfl
  · simp [different]

theorem Sound.change (sound : Sound extract world) (changed : Nat) (state : WorkspaceState) :
    Sound extract (world.change changed state) := by
  have length : (world.change changed state).actors.length = world.actors.length := by
    simp [World.change]
  refine sound.mono ?_ rfl rfl rfl rfl (.inl rfl) ?_ ?_
  · rw [length]
    exact sound.actors
  · intro other forwarder found
    obtain ⟨inside, seen⟩ := sound.forwarders other forwarder found
    rw [length, (change_lookups world changed forwarder.actor state inside).1]
    refine ⟨inside, Nat.le_trans seen ?_⟩
    split
    · exact Nat.le_succ _
    · exact Nat.le_refl _
  · intro other forwarder found
    obtain ⟨inside, seen⟩ := sound.forwarders other forwarder found
    obtain ⟨version, still⟩ := change_lookups world changed forwarder.actor state inside
    refine ⟨forwarder, found, rfl, fun read fresh => ?_⟩
    by_cases same : changed = forwarder.actor
    · rw [if_pos same] at version
      exact .inr (.inl (by omega))
    · rw [if_neg same] at version
      exact fresh.congr (still same) version rfl

/-- A forwarder that has something to see pokes the driver. -/
theorem Sound.forward (sound : Sound extract world) (id : String) :
    Sound extract (world.forward id) := by
  rw [World.forward]
  split
  · exact sound
  · rename_i forwarder found
    split
    · exact sound
    · obtain ⟨inside, seen⟩ := sound.forwarders id forwarder found
      refine sound.mono sound.actors rfl rfl rfl rfl (.inl rfl) ?_ ?_
      · intro other later there
        simp only [ExtTreeMap.getElem?_insert] at there
        split at there
        · obtain rfl := Option.some.inj there
          exact ⟨inside, Nat.le_refl _⟩
        · exact sound.forwarders other later there
      · intro other before there
        by_cases same : id = other
        · subst same
          rw [found] at there
          obtain rfl := Option.some.inj there
          exact ⟨_, ExtTreeMap.getElem?_insert_self, rfl, fun _ _ => .inr (.inr rfl)⟩
        · refine ⟨before, ?_, rfl, fun _ _ => .inr (.inr rfl)⟩
          simpa [same] using there

theorem Sound.stray (sound : Sound extract world) :
    Sound extract { world with driver := { world.driver with poked := true } } :=
  sound.mono sound.actors rfl rfl rfl rfl (.inl rfl) sound.forwarders
    fun _ forwarder found => ⟨forwarder, found, rfl, fun _ _ => .inr (.inr rfl)⟩

/-! ### The driver -/

/-- The forwarder of a workspace after the map was read: the one there was, or a fresh one. -/
theorem follow_forwarders (world : World τ) (id : String) :
    world.follow.driver.forwarders[id]? =
      ((world.driver.forwarders[id]?).filter fun _ => world.registry.value.contains id).or
        ((world.registry.value[id]?).map fun actor => { actor, seen := 0 }) := by
  rw [World.follow]
  dsimp only
  rw [OrderedMap.getElem?_foldl_insert_absent (fun entry => some entry.1)
    (fun entry => { actor := entry.2, seen := 0 }) (fun _ _ unnamed => by cases unnamed)
    (fun _ _ fresh named => by cases named; rfl), OrderedMap.map_find?_toList,
    ExtTreeMap.getElem?_filter']

/-- The map is read, and none of the workspaces has another actor than the one that is followed. -/
theorem Sound.follow (sound : Sound extract world)
    (same : ∀ (id : String) (actor : Nat) (forwarder : Forwarder),
      world.registry.value[id]? = some actor →
        world.driver.forwarders[id]? = some forwarder → forwarder.actor = actor) :
    Sound extract world.follow where
  actors := sound.actors
  forwarders := by
    intro id forwarder found
    rw [follow_forwarders] at found
    rcases Option.or_eq_some_iff.mp found with before | ⟨-, new⟩
    · exact sound.forwarders id forwarder (Option.filter_eq_some_iff.mp before).1
    · obtain ⟨actor, there, rfl⟩ := Option.map_eq_some_iff.mp new
      exact ⟨sound.actors id actor there, Nat.zero_le _⟩
  seen := sound.seen
  knows := by
    refine ⟨world.registry.value, world.registry.version, ?_⟩
    refine ⟨sound.seen, Nat.le_refl _, fun _ => rfl, ?_, ?_, ?_⟩
    · intro id actor found
      have contains : world.registry.value.contains id := by
        rw [ExtTreeMap.contains_eq_isSome_getElem?, found]
        rfl
      have listed : (id, actor) ∈ world.registry.value.toList :=
        ExtTreeMap.mem_toList_iff_getElem?_eq_some.mpr found
      rw [follow_forwarders, found]
      cases before : world.driver.forwarders[id]? with
      | none => exact ⟨_, rfl, rfl, .inl listed⟩
      | some forwarder =>
          refine ⟨forwarder, ?_, same id actor forwarder found before, .inl listed⟩
          rw [Option.filter_some, if_pos contains, Option.some_or]
    · intro id state found
      simp at found
    · exact fun entry listed => ExtTreeMap.mem_toList_iff_getElem?_eq_some.mp listed

/-- One more state is read. -/
theorem Sound.readOne (sound : Sound extract world) {id : String} {actor : Nat}
    {todo : List (String × Nat)} {states : OrderedMap String WorkspaceState}
    (phase : world.driver.phase = .reading ((id, actor) :: todo) states) :
    Sound extract
      { world with
        driver :=
          { world.driver with
            phase := .reading todo (states.insert id (world.stateOf actor)) } } where
  actors := sound.actors
  forwarders := sound.forwarders
  seen := sound.seen
  knows := by
    have knows := sound.knows
    rw [phase] at knows
    obtain ⟨workspaces, version, read⟩ := knows
    have here : workspaces[id]? = some actor := read.listed (id, actor) List.mem_cons_self
    refine ⟨workspaces, version, read.seen, read.read, read.same, ?_, ?_, ?_⟩
    · intro other followed found
      obtain ⟨forwarder, there, follows, either⟩ := read.each other followed found
      refine ⟨forwarder, there, follows, ?_⟩
      by_cases same : id = other
      · subst same
        rw [here] at found
        obtain rfl := Option.some.inj found
        exact .inr ⟨_, ExtTreeMap.getElem?_insert_self, .inl (by rw [follows]; rfl)⟩
      · rcases either with listed | ⟨state, held, fresh⟩
        · refine .inl ((List.mem_cons.mp listed).resolve_left fun first => same ?_)
          exact (congrArg Prod.fst first).symm
        · exact .inr ⟨state, by simpa [same] using held, fresh⟩
    · intro other state found
      simp only [ExtTreeMap.getElem?_insert, Std.compare_eq_iff_eq] at found
      split at found
      · rename_i same
        exact ⟨actor, same ▸ here⟩
      · exact read.only other state found
    · exact fun entry listed => read.listed entry (List.mem_cons_of_mem _ listed)

/-- The driver wakes. -/
theorem Sound.wake (sound : Sound extract world) {seen : Nat} (poked : Bool)
    (current : seen ≤ world.registry.version) :
    Sound extract { world with driver := { world.driver with phase := .top, seen, poked } } where
  actors := sound.actors
  forwarders := sound.forwarders
  seen := current
  knows := trivial

/-- A driver that knows what it has read follows every workspace. -/
theorem Sound.follows (sound : Sound extract world) : Follows extract world := by
  have read : Idle world → ∃ states,
      Read world [] states world.registry.value world.registry.version ∧
        (world.driver.failed = false → world.driver.last = some (extract states)) := by
    rintro ⟨phase, -, seen⟩
    have knows := sound.knows
    rw [phase] at knows
    obtain ⟨states, workspaces, version, read, converged⟩ := knows
    have latest : version = world.registry.version := Nat.le_antisymm read.read (seen ▸ read.seen)
    obtain rfl := read.same latest
    subst latest
    exact ⟨states, read, converged⟩
  constructor
  · intro idle id actor found
    obtain ⟨states, read, -⟩ := read idle
    obtain ⟨forwarder, there, follows, -⟩ := read.each id actor found
    exact ⟨forwarder, there, follows⟩
  · intro idle id actor state found
    obtain ⟨states, read, -⟩ := read idle
    obtain ⟨forwarder, there, rfl, -⟩ := read.each id actor found
    obtain ⟨inside, seen⟩ := sound.forwarders id forwarder there
    have version := (change_lookups world forwarder.actor forwarder.actor state inside).1
    rw [if_pos rfl] at version
    have same : (world.change forwarder.actor state).driver.forwarders[id]? = some forwarder :=
      there
    rw [World.forward, same]
    dsimp only
    rw [if_neg (by omega)]
  · intro idle quiet converges
    obtain ⟨states, read, converged⟩ := read idle
    rw [converged converges]
    congr 2
    apply ExtTreeMap.ext_getElem?
    intro id
    rw [World.current, ExtTreeMap.getElem?_map]
    cases found : world.registry.value[id]? with
    | none =>
        rw [Option.map_none, Option.eq_none_iff_forall_ne_some]
        intro state held
        obtain ⟨actor, there⟩ := read.only id state held
        rw [found] at there
        cases there
    | some actor =>
        obtain ⟨forwarder, there, rfl, either⟩ := read.each id actor found
        obtain ⟨state, held, fresh⟩ := either.resolve_left fun listed => by cases listed
        rw [held, Option.map_some]
        rcases fresh with latest | unseen | poked
        · rw [latest]
        · exact absurd (quiet id forwarder there) unseen
        · rw [idle.2.1] at poked
          cases poked

end Follow

section Run

variable {τ : Type} [DecidableEq τ] {extract : OrderedMap String WorkspaceState → τ}
  {world : World τ}

/-- The driver waits once it has converged, or failed to. -/
theorem Sound.converge (sound : Sound extract world)
    {states : OrderedMap String WorkspaceState}
    (phase : world.driver.phase = .reading [] states) (converges : Bool) :
    Sound extract (world.converge extract states converges) := by
  have knows := sound.knows
  rw [phase] at knows
  obtain ⟨workspaces, version, read⟩ := knows
  rw [World.converge]
  dsimp only
  split
  · rename_i same
    exact ⟨sound.actors, sound.forwarders, sound.seen, states, workspaces, version,
      ⟨read.seen, read.read, read.same, read.each, read.only, read.listed⟩, fun _ => same⟩
  · split
    · exact ⟨sound.actors, sound.forwarders, sound.seen, states, workspaces, version,
        ⟨read.seen, read.read, read.same, read.each, read.only, read.listed⟩, fun _ => rfl⟩
    · exact ⟨sound.actors, sound.forwarders, sound.seen, states, workspaces, version,
        ⟨read.seen, read.read, read.same, read.each, read.only, read.listed⟩,
        fun fine => by cases fine⟩

theorem Sound.step {event : Event} (sound : Sound extract world)
    (same : SameActors world event) : Sound extract (step extract world event) := by
  cases event with
  | wire id state => exact sound.wire id state
  | remove id => exact sound.remove id
  | change actor state => exact sound.change actor state
  | forward id => exact sound.forward id
  | stray => exact sound.stray
  | turn converges =>
      rw [FannedIn.step, World.turn]
      split
      · rename_i phase
        exact sound.follow (same phase)
      · rename_i id actor todo states phase
        exact sound.readOne phase
      · rename_i states phase
        exact sound.converge phase converges
      · exact sound
  | woken =>
      rw [FannedIn.step]
      split
      · split
        · exact sound.wake false sound.seen
        · exact sound
      · exact sound
  | rewoken =>
      rw [FannedIn.step]
      split
      · split
        · exact sound
        · exact sound.wake world.driver.poked (Nat.le_refl _)
      · exact sound

/-- A driver that finds the same actor under every id it follows whenever it reads the map is woken
by every workspace, and converges to the states of all of them. -/
theorem follows_every_workspace (extract : OrderedMap String WorkspaceState → τ)
    (events : List Event)
    (same : Execution.Along (step extract) SameActors ({} : World τ) events) :
    Follows extract (Execution.run (step extract) {} events) :=
  (Execution.run_invariant (step extract) SameActors (Sound extract)
    (fun _ _ sound same => sound.step same) .empty same).follows

end Run

/-! ## Two workspaces -/

section Checked

variable {τ : Type} (world : World τ)

theorem mem_entries {β : Type} {entries : OrderedMap String β} {id : String} {value : β} :
    (id, value) ∈ entries.toList ↔ entries[id]? = some value :=
  ExtTreeMap.mem_toList_iff_getElem?_eq_some

instance : Decidable (Quiet world) :=
  decidable_of_iff (∀ entry ∈ world.driver.forwarders.toList,
    entry.2.seen = world.versionOf entry.2.actor)
    ⟨fun each id forwarder there => each (id, forwarder) (mem_entries.mpr there),
      fun quiet entry listed => quiet entry.1 entry.2 (mem_entries.mp listed)⟩

instance : ∀ event, Decidable (SameActors world event)
  | .turn _ =>
      decidable_of_iff (world.driver.phase = .top → ∀ entry ∈ world.registry.value.toList,
        ∀ other ∈ world.driver.forwarders.toList, other.1 = entry.1 → other.2.actor = entry.2)
        ⟨fun each top id actor forwarder found there =>
          each top (id, actor) (mem_entries.mpr found) (id, forwarder) (mem_entries.mpr there) rfl,
        fun own top entry listed other also same =>
          own top entry.1 entry.2 other.2 (mem_entries.mp listed) (same ▸ mem_entries.mp also)⟩
  | .wire .. | .remove _ | .change .. | .forward _ | .stray | .woken | .rewoken => .isTrue trivial

end Checked

/-- How many workspaces have an environment. -/
def created (states : OrderedMap String WorkspaceState) : Nat :=
  states.toList.countP (·.2.env.isSome)

/-- The driver waits, two workspaces are wired, and once it follows them one gets an environment. -/
def wiredTwice : List Event :=
  [.turn true, .turn true, .wire "shop" {}, .wire "cart" {}, .rewoken, .turn true, .turn true,
    .turn true, .turn true, .change 0 { env := some {} }, .forward "shop", .woken, .turn true,
    .turn true, .turn true, .turn true]

theorem follows_wired_twice :
    let world := Execution.run (step created) ({} : World Nat) wiredTwice
    Execution.Along (step created) SameActors ({} : World Nat) wiredTwice ∧ Idle world ∧
      Quiet world ∧ world.driver.failed = false ∧ world.registry.value.size = 2 ∧
      created world.current = 1 ∧ Follows created world := by
  intro world
  have same : Execution.Along (step created) SameActors ({} : World Nat) wiredTwice := by
    decide
  exact ⟨same, ⟨by decide +kernel, by decide +kernel, by decide +kernel⟩, by decide +kernel,
    by decide, by decide, by decide,
    follows_every_workspace created wiredTwice same⟩

/-- A workspace is wired, and the driver converges to it. -/
def wiredOnce : List Event := [.wire "shop" {}, .turn true, .turn true, .turn true]

/-- A workspace is removed and wired again before the driver reads the map. -/
def rewired : List Event :=
  wiredOnce ++ [.rewoken, .turn true, .turn true, .turn true, .remove "shop", .wire "shop" {},
    .rewoken, .turn true, .turn true, .turn true]

/-- The driver waits for the actor that is gone. -/
theorem follows_old_actor :
    ¬∀ events : List Event, Follows (fun states => states.size)
      (Execution.run (step fun states => states.size) ({} : World Nat) events) := by
  intro holds
  have follows := holds rewired
  obtain ⟨forwarder, there, follows⟩ := follows.forwarded
    ⟨by decide, by decide, by decide⟩ "shop" 1 (by decide)
  have stale : ((Execution.run (step fun states => states.size) ({} : World Nat)
      rewired).driver.forwarders["shop"]?).map Forwarder.actor = some 0 := by decide +kernel
  rw [there, Option.map_some, follows] at stale
  cases stale

end FannedIn
end Fghj
