import Fghj.Library.Execution
import Fghj.Library.Slots
import Mathlib.Logic.Function.Basic

/-!
# Activating and deactivating

`activate` acquires the daemon's sockets, tasks and the proxy's alias one after another and records
them at the end. `deactivate` aborts what is recorded and then clears what the effects wrote. Any
number of both calls run at once with the effects. A step that fails leaves what was acquired
before it, and an effect that is aborted while it writes may write after the clean-up.
-/

namespace Fghj
namespace Activation

/-- The tasks of one activation. -/
inductive Kind where
  | dns
  | http
  | https
  | rawNet
  | dnsEffect
  | hostsEffect
  deriving DecidableEq

def kinds : List Kind := [.dns, .http, .https, .rawNet, .dnsEffect, .hostsEffect]

/-- What is to be gone when the daemon is idle. -/
inductive Resource where
  | resolver
  | hostsBlock
  | listeners
  | proxyAlias
  deriving DecidableEq

/-- In the order in which `deactivate` clears them. -/
def resources : List Resource := [.resolver, .hostsBlock, .listeners, .proxyAlias]

/-- What an effect's converge step writes. -/
def Kind.writes : Kind → Option Resource
  | .rawNet => some .listeners
  | .dnsEffect => some .resolver
  | .hostsEffect => some .hostsBlock
  | .dns | .http | .https => none

structure Task where
  /-- The call to `activate` that spawned it. -/
  set : Nat
  kind : Kind
  aborted : Bool := false
  /-- It is being polled: an abort takes effect when it next waits. -/
  busy : Bool := false
  ended : Bool := false
  deriving DecidableEq

def Task.runs (task : Task) : Bool := !task.aborted && !task.ended

/-- How far a call to `activate` is. -/
inductive Stage where
  | bindDns
  | spawnDns
  | addAlias
  | bindHttp
  | bindHttps
  /-- With nothing left to spawn the resources are recorded. -/
  | spawn (kinds : List Kind)
  deriving DecidableEq

inductive Call where
  | activating (stage : Stage)
  /-- A call to `deactivate` aborts the tasks it took. It holds the lock on what is active. -/
  | aborting (set : Nat) (kinds : List Kind)
  | clearing (resources : List Resource)
  | finished
  | failed
  deriving DecidableEq

def Call.stops : Call → Bool
  | .aborting .. | .clearing _ => true
  | _ => false

def Call.locks : Call → Bool
  | .aborting .. => true
  | _ => false

/-- A call to `activate` has its DNS socket. -/
def Call.acquires : Call → Bool
  | .activating stage => stage ≠ .bindDns
  | _ => false

/-- If the call clears, it is still to clear the resource. -/
def Call.awaits (resource : Resource) : Call → Bool
  | .clearing resources => resource ∈ resources
  | _ => true

structure World where
  /-- The calls there have been, in the order of their start. -/
  calls : List Call := []
  active : Option Nat := none
  tasks : List Task := []
  present : Resource → Bool := fun _ => false
  /-- No call to `activate` has succeeded since one to `deactivate` has last completed. The code
  does not keep it. -/
  idle : Bool := true

inductive Event where
  | activate
  | deactivate
  /-- A call takes its next step, which fails or does not, where it can fail. -/
  | proceed (call : Nat) (ok : Bool)
  /-- A task is polled. -/
  | wake (task : Nat)
  /-- An effect's converge step leaves what it writes present or absent. -/
  | converge (task : Nat) (present : Bool)
  /-- A task waits again. -/
  | park (task : Nat)
  /-- A task has ended, aborted or by itself. -/
  | finish (task : Nat)

namespace World

variable (world : World)

def locked : Bool := world.calls.any Call.locks

def setCall (number : Nat) (call : Call) : World :=
  { world with calls := world.calls.set number call }

def spawn (set : Nat) (kind : Kind) : World :=
  { world with tasks := world.tasks ++ [{ set, kind }] }

def abort (set : Nat) (kind : Kind) : World :=
  { world with
    tasks := world.tasks.map fun task =>
      if task.set = set ∧ task.kind = kind then { task with aborted := true } else task }

def put (resource : Resource) (there : Bool) : World :=
  { world with present := Function.update world.present resource there }

def setTask (number : Nat) (update : Task → Task) : World :=
  { world with tasks := world.tasks.modify number update }

/-- Nothing is done if there is something active. -/
def activate : World :=
  if world.locked then world
  else if world.active.isSome then
    { world with calls := world.calls ++ [.finished], idle := false }
  else { world with calls := world.calls ++ [.activating .bindDns] }

def deactivate : World :=
  if world.locked then world
  else
    match world.active with
    | some set => { world with active := none, calls := world.calls ++ [.aborting set kinds] }
    | none => { world with calls := world.calls ++ [.clearing resources] }

/-- The next step of a call to `activate`. -/
def acquire (call : Nat) (stage : Stage) (ok : Bool) : World :=
  match stage with
  | .bindDns => world.setCall call (if ok then .activating .spawnDns else .failed)
  | .spawnDns => (world.spawn call .dns).setCall call (.activating .addAlias)
  | .addAlias =>
      if ok then (world.put .proxyAlias true).setCall call (.activating .bindHttp)
      else world.setCall call .failed
  | .bindHttp => world.setCall call (if ok then .activating .bindHttps else .failed)
  | .bindHttps =>
      world.setCall call
        (if ok then .activating (.spawn [.http, .https, .rawNet, .dnsEffect, .hostsEffect])
        else .failed)
  | .spawn (kind :: kinds) =>
      (world.spawn call kind).setCall call (.activating (.spawn kinds))
  | .spawn [] =>
      if world.locked then world
      else { world.setCall call .finished with active := some call, idle := false }

/-- The next step of a call to `deactivate` that has taken what was active. -/
def clear (call : Nat) (resource : Resource) (rest : List Resource) (ok : Bool) : World :=
  let world := if ok then world.put resource false else world
  if rest.isEmpty then { world.setCall call .finished with idle := true }
  else world.setCall call (.clearing rest)

def proceed (call : Nat) (ok : Bool) : World :=
  match world.calls[call]? with
  | some (.activating stage) => world.acquire call stage ok
  | some (.aborting set (kind :: kinds)) =>
      (world.abort set kind).setCall call (.aborting set kinds)
  | some (.aborting _ []) => world.setCall call (.clearing resources)
  | some (.clearing (resource :: rest)) => world.clear call resource rest ok
  | _ => world

def converge (number : Nat) (present : Bool) : World :=
  match world.tasks[number]? with
  | some task =>
      match task.kind.writes with
      | some resource => if task.busy && !task.ended then world.put resource present else world
      | none => world
  | none => world

end World

def step (world : World) : Event → World
  | .activate => world.activate
  | .deactivate => world.deactivate
  | .proceed call ok => world.proceed call ok
  | .wake number => world.setTask number fun task => { task with busy := task.busy || task.runs }
  | .converge number present => world.converge number present
  | .park number => world.setTask number fun task => { task with busy := false }
  | .finish number =>
      world.setTask number fun task => { task with ended := task.ended || !task.busy }

/-! ## What idle means -/

/-- No task runs of a call to `activate` that failed, and none but those of calls still under way
once `deactivate` has completed and none has succeeded since; what was set up is then gone when the
aborted tasks have ended. The tasks that run are of one call. -/
structure IdleMeansIdle (world : World) : Prop where
  failed : ∀ task ∈ world.tasks, task.runs → world.calls[task.set]? ≠ some .failed
  stopped : world.idle → ∀ task ∈ world.tasks, task.runs →
    ∃ stage, world.calls[task.set]? = some (.activating stage)
  gone : world.idle → (∀ stage, .activating stage ∉ world.calls) →
    (∀ task ∈ world.tasks, task.aborted → task.ended) → ∀ resource, world.present resource = false
  single : ∀ task ∈ world.tasks, task.runs → ∀ other ∈ world.tasks, other.runs →
    task.set = other.set

namespace World

variable (world : World)

/-- No task of another call to `activate` runs. -/
def Alone (call : Nat) : Prop := ∀ task ∈ world.tasks, task.runs → task.set = call

/-- Some call to `activate` is on its way to be recorded. -/
def Acquires : Prop := ∃ call ∈ world.calls, call.acquires

/-- The resource is still to be cleared, by each call to `deactivate` that is under way, or by a
later one after what is active or about to be. -/
def Due (resource : Resource) : Prop :=
  world.active.isSome ∨ world.Acquires ∨
    world.idle = false ∧ ∀ call ∈ world.calls, call.awaits resource

/-- The next step of a call to `activate` is orderly. -/
def Ready (call : Nat) (ok : Bool) : Stage → Prop
  | .bindDns => True
  | .addAlias | .bindHttp | .bindHttps => ok
  | .spawnDns | .spawn (_ :: _) => world.Alone call
  | .spawn [] => world.Alone call ∧ ∀ other ∈ world.calls, ¬other.stops

/-- The next step of a call is orderly. -/
def Sequenced (number : Nat) (ok : Bool) : Call → Prop
  | .activating stage => world.Ready number ok stage
  | .clearing (resource :: _) => ok ∨ world.present resource = false ∨ world.Acquires
  | _ => True

/-- Once `activate` has its DNS socket no step of it fails, it spawns its tasks while no other's run
and is recorded while `deactivate` is not under way either; nothing that is there fails to be
cleared; and an effect that was aborted makes nothing that is not to be cleared. -/
def Orderly : Event → Prop
  | .proceed number ok => ∀ call ∈ world.calls[number]?, world.Sequenced number ok call
  | .converge number present => ∀ task ∈ world.tasks[number]?, task.aborted → present →
      ∀ resource ∈ task.kind.writes, world.Due resource
  | _ => True

instance (call : Nat) : Decidable (world.Alone call) :=
  inferInstanceAs (Decidable (∀ task ∈ world.tasks, task.runs → task.set = call))

instance : Decidable world.Acquires :=
  inferInstanceAs (Decidable (∃ call ∈ world.calls, call.acquires))

instance (resource : Resource) : Decidable (world.Due resource) :=
  inferInstanceAs (Decidable (_ ∨ _ ∨ _ ∧ ∀ call ∈ world.calls, call.awaits resource))

instance (call : Nat) (ok : Bool) (stage : Stage) : Decidable (world.Ready call ok stage) := by
  unfold Ready
  split <;> infer_instance

instance (number : Nat) (ok : Bool) (call : Call) : Decidable (world.Sequenced number ok call) := by
  unfold Sequenced
  split <;> infer_instance

instance (event : Event) : Decidable (world.Orderly event) := by
  unfold Orderly
  split <;> infer_instance

/-- A running task is of a call under way, of what is active or of what is about to be aborted. -/
def Owned (task : Task) : Prop :=
  (∃ stage, world.calls[task.set]? = some (.activating stage) ∧ stage ≠ .bindDns) ∨
    world.active = some task.set ∨
      ∃ kinds, .aborting task.set kinds ∈ world.calls ∧ task.kind ∈ kinds

structure Invariant (world : World) : Prop where
  owned : ∀ task ∈ world.tasks, task.runs → world.Owned task
  single : ∀ task ∈ world.tasks, task.runs → ∀ other ∈ world.tasks, other.runs →
    task.set = other.set
  recorded : ∀ set, world.active = some set → world.calls[set]? = some .finished
  /-- What is taken is aborted while no other call to `deactivate` is under way. -/
  taken : ∀ (number set : Nat) (kinds : List Kind),
    world.calls[number]? = some (.aborting set kinds) →
      world.calls[set]? = some .finished ∧ world.idle = false ∧
        ∀ (other : Nat) (call : Call), world.calls[other]? = some call → call.stops → other = number
  stopping : ∀ call ∈ world.calls, call.stops → world.active = none
  resting : world.idle → world.active = none
  due : ∀ resource, world.present resource → world.Due resource

end World

open World

section Invariant

variable {world : World} {number set : Nat} {stage : Stage} {call : Call}

theorem mem_kinds (kind : Kind) : kind ∈ kinds := by
  cases kind <;> decide

theorem mem_resources (resource : Resource) : resource ∈ resources := by
  cases resource <;> decide

theorem acquires_of (found : world.calls[number]? = some (.activating stage))
    (past : stage ≠ .bindDns) : world.Acquires :=
  ⟨_, List.mem_of_getElem? found, decide_eq_true past⟩

/-- Calls that have no DNS socket may go on as they like. -/
theorem acquires_set (acquires : world.Acquires) {old : Call}
    (found : world.calls[number]? = some old) (without : ¬old.acquires) (next : Call) :
    (world.setCall number next).Acquires := by
  obtain ⟨call, member, has⟩ := acquires
  exact ⟨call, Slots.mem_set_of_ne found member (fun same => without (same ▸ has)) next, has⟩

theorem awaits_of_not_stops {call : Call} (quiet : ¬call.stops) (resource : Resource) :
    call.awaits resource := by
  cases call with
  | clearing => exact absurd rfl quiet
  | _ => rfl

theorem awaits_resources (resource : Resource) : (Call.clearing resources).awaits resource :=
  decide_eq_true (mem_resources resource)

/-- What nobody locks nobody aborts. -/
theorem not_aborting (unlocked : ¬world.locked) {kinds : List Kind} :
    .aborting set kinds ∉ world.calls :=
  fun member => unlocked (List.any_eq_true.mpr ⟨_, member, rfl⟩)

/-- Only one call aborts. -/
theorem World.Invariant.aborting_eq (invariant : Invariant world) {kinds : List Kind}
    (found : world.calls[number]? = some (.aborting set kinds)) {other : Nat} {more : List Kind}
    (member : .aborting other more ∈ world.calls) : other = set ∧ more = kinds := by
  obtain ⟨place, here⟩ := List.mem_iff_getElem?.mp member
  obtain rfl := (invariant.taken number set kinds found).2.2 place _ here rfl
  rw [found] at here
  cases here
  exact ⟨rfl, rfl⟩

variable {rest : List Resource}

/-- Nothing is aborted while a call clears. -/
theorem World.Invariant.not_aborting (invariant : Invariant world)
    (found : world.calls[number]? = some (.clearing rest)) {kinds : List Kind} :
    .aborting set kinds ∉ world.calls := by
  intro member
  obtain ⟨place, here⟩ := List.mem_iff_getElem?.mp member
  obtain rfl := (invariant.taken place set kinds here).2.2 number _ found rfl
  rw [found] at here
  cases here

/-- Nothing is cleared before all that was taken is aborted. -/
theorem World.Invariant.awaits (invariant : Invariant world) {kinds : List Kind}
    (found : world.calls[number]? = some (.aborting set kinds)) {call : Call}
    (member : call ∈ world.calls) (resource : Resource) : call.awaits resource := by
  cases call with
  | clearing =>
      obtain ⟨place, here⟩ := List.mem_iff_getElem?.mp member
      exact absurd (List.mem_of_getElem? found) (invariant.not_aborting here)
  | _ => rfl

/-- What a running task writes is to be cleared. -/
theorem World.Invariant.due_of_owned (invariant : Invariant world) {task : Task}
    (owned : world.Owned task) (resource : Resource) : world.Due resource := by
  rcases owned with ⟨stage, found, past⟩ | active | ⟨kinds, aborting, -⟩
  · exact .inr (.inl (acquires_of found past))
  · exact .inl (by rw [active]; rfl)
  · obtain ⟨place, here⟩ := List.mem_iff_getElem?.mp aborting
    exact .inr (.inr ⟨(invariant.taken place _ kinds here).2.1,
      fun call member => invariant.awaits here member resource⟩)

/-- A task stays owned when another call goes on. -/
theorem owned_set {task : Task} (owned : world.Owned task) {old next : Call}
    (found : world.calls[number]? = some old) (without : ¬old.acquires)
    (aborts : ∀ kinds, .aborting task.set kinds ∈ world.calls → task.kind ∈ kinds →
      ∃ left, .aborting task.set left ∈ world.calls.set number next ∧ task.kind ∈ left) :
    (world.setCall number next).Owned task := by
  rcases owned with ⟨stage, before, past⟩ | active | ⟨kinds, aborting, among⟩
  · have different : .activating stage ≠ old := by
      rintro rfl
      exact without (decide_eq_true past)
    exact .inl ⟨stage, Slots.getElem?_set_of_ne found before different next, past⟩
  · exact .inr (.inl active)
  · exact .inr (.inr (aborts kinds aborting among))

/-- What is being aborted stays so when a call that stops nothing goes on as another such. -/
theorem World.Invariant.taken_set (invariant : Invariant world) {old next : Call}
    (found : world.calls[number]? = some old) (going : old ≠ .finished) (quiet : ¬next.stops)
    {place set : Nat} {kinds : List Kind}
    (here : (world.calls.set number next)[place]? = some (.aborting set kinds)) :
    (world.calls.set number next)[set]? = some .finished ∧ world.idle = false ∧
      ∀ (other : Nat) (call : Call), (world.calls.set number next)[other]? = some call →
        call.stops → other = place := by
  rcases Slots.getElem?_set_cases here with ⟨-, rfl⟩ | ⟨-, before⟩
  · exact absurd rfl quiet
  · obtain ⟨recorded, busy, lone⟩ := invariant.taken place set kinds before
    refine ⟨Slots.getElem?_set_of_ne found recorded going.symm next, busy,
      fun other call listed stops => ?_⟩
    rcases Slots.getElem?_set_cases listed with ⟨-, rfl⟩ | ⟨-, old⟩
    · exact absurd stops quiet
    · exact lone other call old stops

theorem World.Invariant.stopping_set (invariant : Invariant world) {next : Call}
    (quiet : ¬next.stops) {call : Call} (member : call ∈ world.calls.set number next)
    (stops : call.stops) : world.active = none := by
  rcases List.mem_or_eq_of_mem_set member with old | rfl
  · exact invariant.stopping call old stops
  · exact absurd stops quiet

/-! ## The steps -/

/-- What is neither a call, nor active, nor there has no part in the tasks. -/
theorem World.Invariant.setTask (invariant : Invariant world) (number : Nat)
    {update : Task → Task} (set : ∀ task, (update task).set = task.set)
    (kind : ∀ task, (update task).kind = task.kind)
    (runs : ∀ task, (update task).runs → task.runs) : Invariant (world.setTask number update) := by
  have before (task : Task) (member : task ∈ world.tasks.modify number update) (run : task.runs) :
      ∃ old ∈ world.tasks, old.runs ∧ old.set = task.set ∧ old.kind = task.kind := by
    obtain ⟨place, here⟩ := List.mem_iff_getElem?.mp member
    rw [List.getElem?_modify] at here
    obtain ⟨old, found, rfl⟩ := Option.map_eq_some_iff.mp here
    refine ⟨old, List.mem_of_getElem? found, ?_⟩
    split at run
    · rename_i same
      rw [if_pos same]
      exact ⟨runs old run, (set old).symm, (kind old).symm⟩
    · rename_i different
      rw [if_neg different]
      exact ⟨run, rfl, rfl⟩
  refine ⟨fun task member run => ?_, fun task member run other there runs => ?_,
    invariant.recorded, invariant.taken, invariant.stopping, invariant.resting, invariant.due⟩
  · obtain ⟨old, listed, ran, set_eq, kind_eq⟩ := before task member run
    have owned := invariant.owned old listed ran
    rwa [Owned, set_eq, kind_eq] at owned
  · obtain ⟨old, listed, ran, set_eq, -⟩ := before task member run
    obtain ⟨older, found, run_too, other_eq, -⟩ := before other there runs
    rw [← set_eq, ← other_eq]
    exact invariant.single old listed ran older found run_too

variable {resource : Resource}

theorem World.Invariant.put (invariant : Invariant world) {there : Bool}
    (due : there → world.Due resource) : Invariant (world.put resource there) := by
  refine ⟨invariant.owned, invariant.single, invariant.recorded, invariant.taken,
    invariant.stopping, invariant.resting, fun other present => ?_⟩
  simp only [World.put, Function.update_apply] at present
  split at present
  · rename_i same
    exact same ▸ due present
  · exact invariant.due other present

theorem World.Invariant.spawn (invariant : Invariant world)
    (found : world.calls[number]? = some (.activating stage)) (past : stage ≠ .bindDns)
    (alone : world.Alone number) (kind : Kind) : Invariant (world.spawn number kind) := by
  have cases_of {task : Task} (member : task ∈ (world.spawn number kind).tasks) :
      task ∈ world.tasks ∨ task = { set := number, kind } :=
    (List.mem_append.mp member).imp_right List.mem_singleton.mp
  have set_eq {task : Task} (member : task ∈ (world.spawn number kind).tasks) (run : task.runs) :
      task.set = number := by
    rcases cases_of member with old | rfl
    · exact alone task old run
    · rfl
  refine ⟨fun task member run => ?_, fun task member run other there runs => ?_,
    invariant.recorded, invariant.taken, invariant.stopping, invariant.resting, invariant.due⟩
  · refine .inl ⟨stage, ?_, past⟩
    rw [set_eq member run]
    exact found
  · rw [set_eq member run, set_eq there runs]

/-- A call to `activate` has its DNS socket and goes on. -/
theorem World.Invariant.advance (invariant : Invariant world)
    (found : world.calls[number]? = some (.activating stage)) {next : Stage}
    (past : next ≠ .bindDns) : Invariant (world.setCall number (.activating next)) := by
  have there := Slots.getElem?_set_self found (.activating next)
  have quiet : ¬(Call.activating next).stops := Bool.false_ne_true
  refine ⟨fun task member run => ?_, invariant.single,
    fun set active => Slots.getElem?_set_of_ne found (invariant.recorded set active) (by simp) _,
    fun place set kinds here => invariant.taken_set found (by simp) quiet here,
    fun call member stops => invariant.stopping_set quiet member stops, invariant.resting,
    fun resource _ => .inr (.inl (acquires_of there past))⟩
  rcases invariant.owned task member run with ⟨held, before, passed⟩ | active |
    ⟨kinds, aborting, listed⟩
  · by_cases same : number = task.set
    · exact .inl ⟨next, same ▸ there, past⟩
    · exact .inl ⟨held, (List.getElem?_set_ne same).trans before, passed⟩
  · exact .inr (.inl active)
  · exact .inr (.inr ⟨kinds, Slots.mem_set_of_ne found aborting (by simp) _, listed⟩)

/-- A call to `activate` fails before it has anything. -/
theorem World.Invariant.fail (invariant : Invariant world)
    (found : world.calls[number]? = some (.activating .bindDns)) :
    Invariant (world.setCall number .failed) := by
  have quiet : ¬Call.failed.stops := Bool.false_ne_true
  refine ⟨fun task member run => ?_, invariant.single,
    fun set active => Slots.getElem?_set_of_ne found (invariant.recorded set active) (by simp) _,
    fun place set kinds here => invariant.taken_set found (by simp) quiet here,
    fun call member stops => invariant.stopping_set quiet member stops, invariant.resting,
    fun resource present => ?_⟩
  · exact owned_set (invariant.owned task member run) found (by simp [Call.acquires])
      fun kinds aborting among => ⟨kinds, Slots.mem_set_of_ne found aborting (by simp) _, among⟩
  · rcases invariant.due resource present with active | acquires | ⟨busy, clearing⟩
    · exact .inl active
    · exact .inr (.inl (acquires_set acquires found (by simp [Call.acquires]) _))
    · refine .inr (.inr ⟨busy, fun call member => ?_⟩)
      rcases List.mem_or_eq_of_mem_set member with old | rfl
      · exact clearing call old
      · rfl

/-- What a call to `activate` has is recorded. -/
theorem World.Invariant.record (invariant : Invariant world)
    (found : world.calls[number]? = some (.activating stage)) (alone : world.Alone number)
    (quiet : ∀ other ∈ world.calls, ¬other.stops) :
    Invariant { world.setCall number .finished with active := some number, idle := false } := by
  have still {call : Call} (member : call ∈ world.calls.set number .finished) : ¬call.stops := by
    rcases List.mem_or_eq_of_mem_set member with old | rfl
    · exact quiet call old
    · exact Bool.false_ne_true
  refine ⟨fun task member run => .inr (.inl ?_), invariant.single, fun set active => ?_,
    fun place set kinds here => absurd rfl (still (List.mem_of_getElem? here)),
    fun call member stops => absurd stops (still member), ?_, fun _ _ => .inl rfl⟩
  · rw [alone task member run]
  · cases active
    exact Slots.getElem?_set_self found .finished
  · rintro ⟨⟩

/-- Another call starts that stops nothing yet. -/
theorem World.Invariant.start (invariant : Invariant world) (call : Call)
    (quiet : ¬call.stops) : Invariant { world with calls := world.calls ++ [call] } := by
  have old_of {other : Call} (member : other ∈ world.calls ++ [call]) (stops : other.stops) :
      other ∈ world.calls := by
    rcases List.mem_append.mp member with old | new
    · exact old
    · exact absurd stops (List.mem_singleton.mp new ▸ quiet)
  refine ⟨fun task member run => ?_, invariant.single,
    fun set active => Slots.getElem?_append_of (invariant.recorded set active) _,
      fun place set kinds here => ?_,
    fun other member stops => invariant.stopping other (old_of member stops) stops,
    invariant.resting, fun resource present => ?_⟩
  · rcases invariant.owned task member run with ⟨held, before, past⟩ | active |
      ⟨kinds, aborting, listed⟩
    · exact .inl ⟨held, Slots.getElem?_append_of before _, past⟩
    · exact .inr (.inl active)
    · exact .inr (.inr ⟨kinds, List.mem_append_left _ aborting, listed⟩)
  · rcases Slots.getElem?_concat_cases here with before | ⟨-, rfl⟩
    · obtain ⟨recorded, busy, lone⟩ := invariant.taken place set kinds before
      refine ⟨Slots.getElem?_append_of recorded _, busy, fun other call listed stops => ?_⟩
      rcases Slots.getElem?_concat_cases listed with old | ⟨-, rfl⟩
      · exact lone other call old stops
      · exact absurd stops quiet
    · exact absurd rfl quiet
  · rcases invariant.due resource present with active | ⟨held, member, acquires⟩ | ⟨busy, clearing⟩
    · exact .inl active
    · exact .inr (.inl ⟨held, List.mem_append_left _ member, acquires⟩)
    · refine .inr (.inr ⟨busy, fun other member => ?_⟩)
      by_cases stops : other.stops
      · exact clearing other (old_of member stops)
      · exact awaits_of_not_stops stops resource

theorem World.Invariant.noop (invariant : Invariant world) (active : world.active.isSome) :
    Invariant { world with idle := false } where
  owned := invariant.owned
  single := invariant.single
  recorded := invariant.recorded
  taken number set kinds here :=
    have ⟨recorded, _, lone⟩ := invariant.taken number set kinds here
    ⟨recorded, rfl, lone⟩
  stopping := invariant.stopping
  resting := by rintro ⟨⟩
  due _ _ := .inl active

theorem World.Invariant.activate (invariant : Invariant world) : Invariant world.activate := by
  rw [World.activate]
  split
  · exact invariant
  · split
    · rename_i active
      exact (invariant.noop active).start .finished Bool.false_ne_true
    · exact invariant.start _ Bool.false_ne_true

/-- What is active is taken and is to be aborted. -/
theorem World.Invariant.take (invariant : Invariant world) (unlocked : ¬world.locked)
    (active : world.active = some set) :
    Invariant { world with active := none, calls := world.calls ++ [.aborting set kinds] } := by
  have quiet {call : Call} (member : call ∈ world.calls) : ¬call.stops := by
    intro stops
    rw [invariant.stopping call member stops] at active
    cases active
  have busy : world.idle = false := by
    cases idle : world.idle with
    | false => rfl
    | true =>
        rw [invariant.resting idle] at active
        cases active
  have recorded : (world.calls ++ [.aborting set kinds])[set]? = some .finished :=
    Slots.getElem?_append_of (invariant.recorded set active) _
  refine ⟨fun task member run => ?_, invariant.single, ?_, fun place other more here => ?_,
    fun _ _ _ => rfl, fun _ => rfl, fun resource present => ?_⟩
  · rcases invariant.owned task member run with ⟨held, before, past⟩ | owner | ⟨more, aborting, -⟩
    · exact .inl ⟨held, Slots.getElem?_append_of before _, past⟩
    · rw [active] at owner
      cases owner
      exact .inr (.inr ⟨kinds, List.mem_append_right _ List.mem_cons_self, mem_kinds task.kind⟩)
    · exact absurd aborting (Activation.not_aborting unlocked)
  · rintro _ ⟨⟩
  · rcases Slots.getElem?_concat_cases here with before | ⟨rfl, same⟩
    · exact absurd (List.mem_of_getElem? before) (Activation.not_aborting unlocked)
    · cases same
      refine ⟨recorded, busy, fun other call listed stops => ?_⟩
      rcases Slots.getElem?_concat_cases listed with old | ⟨last, -⟩
      · exact absurd stops (quiet (List.mem_of_getElem? old))
      · exact last
  · refine .inr (.inr ⟨busy, fun call member => ?_⟩)
    rcases List.mem_append.mp member with old | new
    · exact awaits_of_not_stops (quiet old) resource
    · cases List.mem_singleton.mp new
      rfl

/-- Another call to `deactivate` clears once more. -/
theorem World.Invariant.sweep (invariant : Invariant world) (unlocked : ¬world.locked)
    (none_active : world.active = none) :
    Invariant { world with calls := world.calls ++ [.clearing resources] } := by
  refine ⟨fun task member run => ?_, invariant.single,
    fun set active => Slots.getElem?_append_of (invariant.recorded set active) _,
      fun place set kinds here => ?_,
    fun _ _ _ => none_active, invariant.resting, fun resource present => ?_⟩
  · rcases invariant.owned task member run with ⟨held, before, past⟩ | active | ⟨kinds, aborting, -⟩
    · exact .inl ⟨held, Slots.getElem?_append_of before _, past⟩
    · exact .inr (.inl active)
    · exact absurd aborting (Activation.not_aborting unlocked)
  · rcases Slots.getElem?_concat_cases here with before | ⟨-, wrong⟩
    · exact absurd (List.mem_of_getElem? before) (Activation.not_aborting unlocked)
    · cases wrong
  · rcases invariant.due resource present with active | ⟨held, member, acquires⟩ | ⟨busy, clearing⟩
    · exact .inl active
    · exact .inr (.inl ⟨held, List.mem_append_left _ member, acquires⟩)
    · refine .inr (.inr ⟨busy, fun call member => ?_⟩)
      rcases List.mem_append.mp member with old | new
      · exact clearing call old
      · cases List.mem_singleton.mp new
        exact awaits_resources resource

theorem World.Invariant.deactivate (invariant : Invariant world) : Invariant world.deactivate := by
  rw [World.deactivate]
  split
  · exact invariant
  · rename_i unlocked
    split
    · rename_i set active
      exact invariant.take unlocked active
    · rename_i none_active
      exact invariant.sweep unlocked none_active

/-- One more of the tasks that were taken is aborted. -/
theorem World.Invariant.abort (invariant : Invariant world) {kind : Kind} {kinds : List Kind}
    (found : world.calls[number]? = some (.aborting set (kind :: kinds))) :
    Invariant ((world.abort set kind).setCall number (.aborting set kinds)) := by
  obtain ⟨recorded, busy, lone⟩ := invariant.taken number set _ found
  have finished {other : Nat} (before : world.calls[other]? = some .finished) :=
    Slots.getElem?_set_of_ne found before (by simp) (.aborting set kinds)
  have before {task : Task} (member : task ∈ (world.abort set kind).tasks) (run : task.runs) :
      task ∈ world.tasks ∧ ¬(task.set = set ∧ task.kind = kind) := by
    obtain ⟨old, listed, rfl⟩ := List.mem_map.mp member
    split at run
    · cases run
    · rename_i different
      rw [if_neg different]
      exact ⟨listed, different⟩
  refine ⟨fun task member run => ?_, fun task member run other there runs =>
      invariant.single task (before member run).1 run other (before there runs).1 runs,
    fun held active => finished (invariant.recorded held active), fun place held more here => ?_,
    fun call _ _ => invariant.stopping _ (List.mem_of_getElem? found) rfl, invariant.resting,
    fun resource _ => ?_⟩
  · obtain ⟨listed, different⟩ := before member run
    refine owned_set (invariant.owned task listed run) found Bool.false_ne_true
      fun more aborting among => ?_
    obtain ⟨same, rfl⟩ := invariant.aborting_eq found aborting
    refine ⟨kinds, ?_, (List.mem_cons.mp among).resolve_left fun kind => different ⟨same, kind⟩⟩
    rw [same]
    exact List.mem_of_getElem? (Slots.getElem?_set_self found (.aborting set kinds))
  · have lone_now (other : Nat) (call : Call)
        (listed : (world.calls.set number (.aborting set kinds))[other]? = some call)
        (stops : call.stops) : other = number := by
      rcases Slots.getElem?_set_cases listed with ⟨rfl, -⟩ | ⟨-, old⟩
      · rfl
      · exact lone other call old stops
    obtain rfl := lone_now place _ here rfl
    have new := Slots.getElem?_set_self found (Call.aborting set kinds)
    cases Option.some.inj (new.symm.trans here)
    exact ⟨finished recorded, busy, lone_now⟩
  · refine .inr (.inr ⟨busy, fun call member => ?_⟩)
    rcases List.mem_or_eq_of_mem_set member with old | rfl
    · exact invariant.awaits found old resource
    · rfl

/-- Everything that was taken is aborted, and the clean-up starts. -/
theorem World.Invariant.release (invariant : Invariant world)
    (found : world.calls[number]? = some (.aborting set [])) :
    Invariant (world.setCall number (.clearing resources)) := by
  obtain ⟨-, busy, lone⟩ := invariant.taken number set _ found
  refine ⟨fun task member run => ?_, invariant.single,
    fun held active => Slots.getElem?_set_of_ne found (invariant.recorded held active) (by simp) _,
    fun place held more here => ?_,
    fun _ _ _ => invariant.stopping _ (List.mem_of_getElem? found) rfl, invariant.resting,
    fun resource _ => .inr (.inr ⟨busy, fun call member => ?_⟩)⟩
  · refine owned_set (invariant.owned task member run) found Bool.false_ne_true
      fun more aborting among => ?_
    obtain ⟨-, rfl⟩ := invariant.aborting_eq found aborting
    cases among
  · rcases Slots.getElem?_set_cases here with ⟨-, wrong⟩ | ⟨different, before⟩
    · cases wrong
    · exact absurd (lone place _ before rfl).symm different
  · rcases List.mem_or_eq_of_mem_set member with old | rfl
    · exact invariant.awaits found old resource
    · exact awaits_resources resource

/-- A call that clears goes on or completes. -/
theorem World.Invariant.settle (invariant : Invariant world)
    (found : world.calls[number]? = some (.clearing rest)) {next : Call} (frees : ¬next.locks)
    {idle : Bool}
    (due : ∀ resource, world.present resource →
      World.Due { world.setCall number next with idle } resource) :
    Invariant { world.setCall number next with idle } := by
  have none_active := invariant.stopping _ (List.mem_of_getElem? found) rfl
  refine ⟨fun task member run => ?_, invariant.single,
    fun held active => Slots.getElem?_set_of_ne found (invariant.recorded held active) (by simp) _,
    fun place held more here => ?_, fun _ _ _ => none_active, fun _ => none_active, due⟩
  · exact owned_set (invariant.owned task member run) found Bool.false_ne_true
      fun kinds aborting _ => absurd aborting (invariant.not_aborting found)
  · rcases Slots.getElem?_set_cases here with ⟨-, rfl⟩ | ⟨-, before⟩
    · exact absurd rfl frees
    · exact absurd (List.mem_of_getElem? before) (invariant.not_aborting found)

/-- One more resource is cleared, or could not be while `activate` goes on. -/
theorem World.Invariant.pass (invariant : Invariant world)
    (found : world.calls[number]? = some (.clearing (resource :: rest)))
    (gone : world.present resource → world.Acquires) :
    Invariant (world.setCall number (.clearing rest)) := by
  have frees : ¬(Call.clearing rest).locks := Bool.false_ne_true
  refine invariant.settle found frees fun other present => ?_
  rcases invariant.due other present with active | acquires | ⟨busy, awaiting⟩
  · exact .inl active
  · exact .inr (.inl (acquires_set acquires found Bool.false_ne_true _))
  · have listed := of_decide_eq_true (awaiting _ (List.mem_of_getElem? found))
    rcases List.mem_cons.mp listed with rfl | later
    · exact .inr (.inl (acquires_set (gone present) found Bool.false_ne_true _))
    · refine .inr (.inr ⟨busy, fun call member => ?_⟩)
      rcases List.mem_or_eq_of_mem_set member with old | rfl
      · exact awaiting call old
      · exact decide_eq_true later

/-- The last is cleared, and the call to `deactivate` has completed. -/
theorem World.Invariant.complete (invariant : Invariant world)
    (found : world.calls[number]? = some (.clearing [resource]))
    (gone : world.present resource → world.Acquires) :
    Invariant { world.setCall number .finished with idle := true } := by
  have frees : ¬Call.finished.locks := Bool.false_ne_true
  refine invariant.settle found frees fun other present => ?_
  rcases invariant.due other present with active | acquires | ⟨-, awaiting⟩
  · exact .inl active
  · exact .inr (.inl (acquires_set acquires found Bool.false_ne_true _))
  · have listed := of_decide_eq_true (awaiting _ (List.mem_of_getElem? found))
    obtain rfl := List.mem_singleton.mp listed
    exact .inr (.inl (acquires_set (gone present) found Bool.false_ne_true _))

theorem World.Invariant.cleared (invariant : Invariant world)
    (found : world.calls[number]? = some (.clearing (resource :: rest)))
    (gone : world.present resource → world.Acquires) :
    Invariant (if rest.isEmpty then { world.setCall number .finished with idle := true }
      else world.setCall number (.clearing rest)) := by
  split
  · rename_i last
    obtain rfl := List.isEmpty_iff.mp last
    exact invariant.complete found gone
  · exact invariant.pass found gone

theorem World.Invariant.clear (invariant : Invariant world)
    (found : world.calls[number]? = some (.clearing (resource :: rest))) {ok : Bool}
    (clears : ok ∨ world.present resource = false ∨ world.Acquires) :
    Invariant (world.clear number resource rest ok) := by
  cases ok with
  | true =>
      have put : Invariant (world.put resource false) :=
        invariant.put fun wrong => absurd wrong Bool.false_ne_true
      exact put.cleared found fun present => by simp [World.put] at present
  | false =>
      refine invariant.cleared found fun present => ?_
      rcases clears with wrong | absent | acquires
      · cases wrong
      · rw [absent] at present
        cases present
      · exact acquires

theorem World.Invariant.converge (invariant : Invariant world) {there : Bool}
    (orderly : world.Orderly (.converge number there)) :
    Invariant (world.converge number there) := by
  rw [World.converge]
  split
  · rename_i task found
    split
    · rename_i resource writes
      split
      · rename_i busy
        refine invariant.put fun present => ?_
        by_cases aborted : task.aborted
        · exact orderly task found aborted present resource writes
        · have run : task.runs := by simp_all [Task.runs]
          exact invariant.due_of_owned (invariant.owned task (List.mem_of_getElem? found) run) _
      · exact invariant
    · exact invariant
  · exact invariant

theorem World.Invariant.acquire (invariant : Invariant world)
    (found : world.calls[number]? = some (.activating stage)) {ok : Bool}
    (orderly : world.Orderly (.proceed number ok)) :
    Invariant (world.acquire number stage ok) := by
  replace orderly : world.Ready number ok stage := orderly _ found
  rw [Ready.eq_def] at orderly
  cases stage with
  | bindDns =>
      rw [World.acquire]
      split
      · exact invariant.advance found (by simp)
      · exact invariant.fail found
  | spawnDns => exact (invariant.spawn found (by simp) orderly .dns).advance found (by simp)
  | addAlias =>
      rw [World.acquire, if_pos orderly]
      have put : Invariant (world.put .proxyAlias true) :=
        invariant.put fun _ => .inr (.inl (acquires_of found (by simp)))
      exact put.advance found (by simp)
  | bindHttp =>
      rw [World.acquire, if_pos orderly]
      exact invariant.advance found (by simp)
  | bindHttps =>
      rw [World.acquire, if_pos orderly]
      exact invariant.advance found (by simp)
  | spawn left =>
      cases left with
      | nil =>
          rw [World.acquire]
          split
          · exact invariant
          · exact invariant.record found orderly.1 orderly.2
      | cons kind left =>
          exact (invariant.spawn found (by simp) orderly kind).advance found (by simp)

theorem World.Invariant.proceed (invariant : Invariant world) {ok : Bool}
    (orderly : world.Orderly (.proceed number ok)) : Invariant (world.proceed number ok) := by
  rw [World.proceed]
  split
  · rename_i stage found
    exact invariant.acquire found orderly
  · rename_i set kind left found
    exact invariant.abort found
  · rename_i set found
    exact invariant.release found
  · rename_i resource rest found
    exact invariant.clear found (orderly _ found)
  · exact invariant

theorem World.Invariant.step (invariant : Invariant world) {event : Event}
    (orderly : world.Orderly event) : Invariant (step world event) := by
  cases event with
  | activate => exact invariant.activate
  | deactivate => exact invariant.deactivate
  | proceed number ok => exact invariant.proceed orderly
  | wake number => exact invariant.setTask number (fun _ => rfl) (fun _ => rfl) fun _ => id
  | converge number present => exact invariant.converge orderly
  | park number => exact invariant.setTask number (fun _ => rfl) (fun _ => rfl) fun _ => id
  | finish number =>
      refine invariant.setTask number (fun _ => rfl) (fun _ => rfl) fun task run => ?_
      simp_all [Task.runs]

theorem Invariant.init : World.Invariant {} := by
  constructor <;> simp

/-! ## Every run -/

theorem World.Invariant.idleMeansIdle (invariant : Invariant world) : IdleMeansIdle world where
  failed task member run failed := by
    rcases invariant.owned task member run with ⟨stage, found, -⟩ | active | ⟨kinds, aborting, -⟩
    · rw [failed] at found
      cases found
    · have recorded := invariant.recorded task.set active
      rw [failed] at recorded
      cases recorded
    · obtain ⟨number, here⟩ := List.mem_iff_getElem?.mp aborting
      have recorded := (invariant.taken number task.set kinds here).1
      rw [failed] at recorded
      cases recorded
  stopped idle task member run := by
    rcases invariant.owned task member run with ⟨stage, found, -⟩ | active | ⟨kinds, aborting, -⟩
    · exact ⟨stage, found⟩
    · rw [invariant.resting idle] at active
      cases active
    · obtain ⟨number, here⟩ := List.mem_iff_getElem?.mp aborting
      have busy := (invariant.taken number task.set kinds here).2.1
      rw [idle] at busy
      cases busy
  gone idle quiet _ resource := by
    rw [← Bool.not_eq_true]
    intro present
    rcases invariant.due resource present with active | ⟨call, member, has⟩ | ⟨busy, -⟩
    · rw [invariant.resting idle] at active
      cases active
    · cases call with
      | activating stage => exact quiet stage member
      | _ => cases has
    · rw [idle] at busy
      cases busy
  single := invariant.single

/-- In every run whose steps are orderly, idle means idle. -/
theorem idle_means_idle {events : List Event}
    (orderly : Execution.Along step World.Orderly {} events) :
    IdleMeansIdle (Execution.run step {} events) :=
  (Execution.run_invariant step World.Orderly World.Invariant
    (fun _ _ invariant orderly => invariant.step orderly) Invariant.init orderly).idleMeansIdle

end Invariant

/-- The call takes this many steps, none of which fails. -/
def proceeds (call count : Nat) : List Event := List.replicate count (.proceed call true)

/-- Activated, converged and deactivated, while the resolver's effect converges once more. -/
def stopped : List Event :=
  [.activate] ++ proceeds 0 11 ++ [.wake 4, .converge 4 true, .park 4, .wake 4, .deactivate] ++
    proceeds 1 7 ++ [.converge 4 true, .park 4, .finish 4] ++ proceeds 1 4

theorem idle_means_idle_stopped :
    IdleMeansIdle (Execution.run step {} stopped) ∧ (Execution.run step {} stopped).idle :=
  ⟨idle_means_idle (by decide), by decide⟩

/-- The proxy's alias cannot be added. -/
def aliasFails : List Event := [.activate] ++ proceeds 0 2 ++ [.proceed 0 false]

/-- Two calls to `activate` find nothing active. -/
def bothActivate : List Event := [.activate, .activate] ++ proceeds 0 2 ++ proceeds 1 2

/-- The resolver's effect is aborted while it converges, and writes after the clean-up. -/
def writesLate : List Event :=
  [.activate] ++ proceeds 0 11 ++ [.wake 4, .deactivate] ++ proceeds 1 11 ++
    [.converge 4 true, .park 4] ++ (List.range 6).map .finish

/-- What `activate` has is recorded while `deactivate`, which found nothing, clears. -/
def recordedMeanwhile : List Event := [.deactivate, .activate] ++ proceeds 1 11 ++ proceeds 0 4

/-- The hosts block is there and cannot be cleared. -/
def blockStays : List Event :=
  [.activate] ++ proceeds 0 11 ++ [.wake 5, .converge 5 true, .park 5, .deactivate] ++
    proceeds 1 8 ++ [.proceed 1 false] ++ proceeds 1 2 ++ (List.range 6).map .finish

theorem not_idle_means_idle :
    ¬IdleMeansIdle (Execution.run step {} aliasFails) ∧
      ¬IdleMeansIdle (Execution.run step {} bothActivate) ∧
      ¬IdleMeansIdle (Execution.run step {} writesLate) ∧
      ¬IdleMeansIdle (Execution.run step {} recordedMeanwhile) ∧
      ¬IdleMeansIdle (Execution.run step {} blockStays) := by
  refine ⟨fun idle => ?_, fun idle => ?_, fun idle => ?_, fun idle => ?_, fun idle => ?_⟩
  · exact absurd idle.failed (by decide)
  · exact absurd idle.single (by decide)
  · have calls : (Execution.run step {} writesLate).calls = [.finished, .finished] := by
      decide
    have gone := idle.gone (by decide) (by simp [calls]) (by decide) .resolver
    exact absurd gone (by decide)
  · have calls : (Execution.run step {} recordedMeanwhile).calls = [.finished, .finished] := by
      decide
    obtain ⟨stage, found⟩ := idle.stopped (by decide) { set := 1, kind := .dns }
      (by decide) rfl
    rw [calls] at found
    cases found
  · have calls : (Execution.run step {} blockStays).calls = [.finished, .finished] := by
      decide
    have gone := idle.gone (by decide) (by simp [calls]) (by decide) .hostsBlock
    exact absurd gone (by decide)

end Activation
end Fghj
