import Fghj.Library.Execution
import Fghj.Library.OrderedMap
import Fghj.Library.Slots
import Fghj.Naming

/-!
# The registry of wired workspaces

The daemon keeps the workspaces wired to it, an actor and a converge task for each, and two files:
the index of what is wired and the list of removals that have not finished. A wire checks the
registry, waits, and only then enters the workspace; a remove marks the workspace, takes it out and
leaves the rest to a teardown in the background.
-/

namespace Fghj
namespace Registry

open Std (ExtTreeMap)

/-- A canonical path, by its components. -/
abbrev Path := List String

/-- The last component, or the name of a workspace that has none. -/
def fileName (path : Path) : String := path.getLast?.getD "workspace"

def domainLabel (path : Path) : String := sanitizeLabel (fileName path)

/-- The text of a path. -/
def display (path : Path) : String := "/" ++ "/".intercalate path

/-- The FNV-1a hash of a text, over its bytes. -/
def fnv1a (text : String) : UInt64 :=
  text.toUTF8.data.toList.foldl (fun hash byte => (hash ^^^ byte.toUInt64) * 0x100000001b3)
    0xcbf29ce484222325

def slugChar (char : Char) : Char := if char.isAlphanum then char.toLower else '-'

/-- A number in hexadecimal digits, at least twelve of them. -/
def hex12 (number : UInt64) : List Char :=
  let digits := Nat.toDigits 16 number.toNat
  List.replicate (12 - digits.length) '0' ++ digits

def workspaceId (path : Path) : String :=
  String.ofList ((fileName path).toList.map slugChar ++ '-' :: hex12 (fnv1a (display path)))

inductive WireError where
  | inside (candidate existing : Path)
  | contains (candidate existing : Path)
  | sameLabel (candidate existing : Path)
  | beingRemoved (removing candidate : Path)
  deriving DecidableEq

/-- One of two different paths holds the other. -/
def nestingConflict (candidate existing : Path) : Option WireError :=
  if candidate = existing then none
  else if existing.isPrefixOf candidate then some (.inside candidate existing)
  else if candidate.isPrefixOf existing then some (.contains candidate existing)
  else none

/-- Two different paths give one domain label. -/
def labelConflict (candidate existing : Path) : Option WireError :=
  if candidate ≠ existing ∧ domainLabel candidate = domainLabel existing then
    some (.sameLabel candidate existing)
  else none

/-- Where a wire is between two awaits. -/
inductive Call where
  | resolving
  | creating (id : String) (canonical : Path)
  | owning
  | returned
  deriving DecidableEq

end Registry

/-- The daemon: its two files, its maps by workspace, the converge tasks that run, the wires and the
teardowns in progress. -/
structure Registry where
  index : OrderedMap String Registry.Path
  removing : OrderedMap String Registry.Path
  byId : OrderedMap String Registry.Path
  actors : OrderedMap String Nat
  convergeTasks : OrderedMap String Nat
  running : List (Nat × String)
  spawned : Nat
  calls : List Registry.Call
  teardowns : List String

namespace Registry

open Std (ExtTreeMap)

/-- What a wire or a remove does between two awaits. Whether a file could be written, a workspace
opened or a path resolved comes with the event. -/
inductive Event where
  | wire (workspace : Option Path)
  | resolved (call : Nat) (canonical : Option Path)
  | created (call : Nat) (opened saved : Bool)
  | owned (call : Nat)
  | remove (id : String) (marked saved : Bool)
  | tornDown (id : String) (emptied saved : Bool)

/-- What others get to know of an event. -/
inductive Report where
  | nothing
  | wired (id : String) (path : Path) (saved : Bool)
  | already (id : String) (path : Path)
  | removed (id : String)
  | unknown (id : String)
  | finished (id : String)
  deriving DecidableEq

/-- A path is checked against the wired workspaces before anything is created for it. -/
def checkNesting (registry : Registry) (canonical : Path) : Option WireError :=
  registry.byId.toList.findSome? fun entry => nestingConflict canonical entry.2

/-- The checks of a canonical path against the wired workspaces. -/
def checkWired (registry : Registry) (canonical : Path) : Option WireError :=
  registry.byId.toList.findSome? fun entry =>
    (nestingConflict canonical entry.2).or (labelConflict canonical entry.2)

/-- The check of a canonical path against the removals in progress. -/
def checkRemoving (registry : Registry) (canonical : Path) : Option WireError :=
  (registry.removing.toList.find? fun entry => domainLabel entry.2 = domainLabel canonical).map
    fun entry => .beingRemoved entry.2 canonical

def setCall (registry : Registry) (number : Nat) (call : Call) : Registry :=
  { registry with calls := registry.calls.set number call }

/-- Spawns the actor and the converge task of a workspace. -/
def wireActor (registry : Registry) (id : String) : Registry :=
  { registry with
    actors := registry.actors.insert id registry.spawned
    convergeTasks := registry.convergeTasks.insert id registry.spawned
    running := registry.running ++ [(registry.spawned, id)]
    spawned := registry.spawned + 1 }

/-- Enters a workspace, and writes it into the index. -/
def enter (registry : Registry) (id : String) (canonical : Path) (saved : Bool) : Registry :=
  let entered := { registry with byId := registry.byId.insert id canonical }.wireActor id
  { entered with
    index := if saved then registry.index.insert id canonical else registry.index }

/-- A teardown starts, or one that runs is joined. -/
def spawnTeardown (registry : Registry) (id : String) : Registry :=
  if id ∈ registry.teardowns then registry
  else { registry with teardowns := registry.teardowns ++ [id] }

/-- Takes a workspace off the registry and the index. -/
def takeOut (registry : Registry) (id : String) (saved : Bool) : Registry :=
  { registry with
    byId := registry.byId.erase id
    actors := registry.actors.erase id
    convergeTasks := registry.convergeTasks.erase id
    running :=
      match registry.convergeTasks[id]? with
      | some task => registry.running.filter fun entry => entry.1 != task
      | none => registry.running
    index := if saved then registry.index.erase id else registry.index }

/-- The first piece of a wire: a folder that was named is checked before it is made. -/
def wire (registry : Registry) (workspace : Option Path) : Registry :=
  match workspace.bind registry.checkNesting with
  | some _ => registry
  | none => { registry with calls := registry.calls ++ [.resolving] }

/-- The second piece: the checks on the canonical path. -/
def checked (registry : Registry) (call : Nat) (canonical : Path) : Registry × Report :=
  if (registry.checkWired canonical).isSome || (registry.checkRemoving canonical).isSome then
    (registry.setCall call .returned, .nothing)
  else
    let id := workspaceId canonical
    match registry.byId[id]? with
    | some _ => (registry.setCall call .owning, .already id canonical)
    | none => (registry.setCall call (.creating id canonical), .nothing)

def resolved (registry : Registry) (call : Nat) : Option Path → Registry × Report
  | some canonical => registry.checked call canonical
  | none => (registry.setCall call .returned, .nothing)

/-- The third piece: the workspace is opened and entered. -/
def created (registry : Registry) (call : Nat) (id : String) (canonical : Path)
    (opened saved : Bool) : Registry × Report :=
  if opened then
    ((registry.enter id canonical saved).setCall call (if saved then .owning else .returned),
      .wired id canonical saved)
  else (registry.setCall call .returned, .nothing)

def remove (registry : Registry) (id : String) (marked saved : Bool) : Registry × Report :=
  match registry.byId[id]? with
  | some path =>
      if marked then
        let listed := { registry with removing := registry.removing.insert id path }
        ((listed.takeOut id saved).spawnTeardown id, .removed id)
      else (registry, .nothing)
  | none =>
      if registry.removing.contains id then (registry.spawnTeardown id, .removed id)
      else (registry, .unknown id)

/-- A teardown ends, and takes the removal off the list when it has succeeded. -/
def tornDown (registry : Registry) (id : String) (emptied saved : Bool) : Registry × Report :=
  if id ∈ registry.teardowns then
    let ended := { registry with teardowns := registry.teardowns.filter fun held => held != id }
    if emptied && saved then
      ({ ended with removing := registry.removing.erase id }, .finished id)
    else (ended, .nothing)
  else (registry, .nothing)

/-- One event of the daemon, and what it reports. -/
def react (registry : Registry) : Event → Registry × Report
  | .wire workspace => (registry.wire workspace, .nothing)
  | .resolved call canonical =>
      match registry.calls[call]? with
      | some .resolving => registry.resolved call canonical
      | _ => (registry, .nothing)
  | .created call opened saved =>
      match registry.calls[call]? with
      | some (.creating id canonical) => registry.created call id canonical opened saved
      | _ => (registry, .nothing)
  | .owned call =>
      match registry.calls[call]? with
      | some .owning => (registry.setCall call .returned, .nothing)
      | _ => (registry, .nothing)
  | .remove id marked saved => registry.remove id marked saved
  | .tornDown id emptied saved => registry.tornDown id emptied saved

def step (registry : Registry) (event : Event) : Registry := (registry.react event).1

/-- The daemon starts on its files. Removals that had not finished leave the index, workspaces whose
folder is gone or that cannot be opened are passed over, and the teardowns start again. -/
def loadFrom (index removing : OrderedMap String Path) (exists_ opens : Path → Bool)
    (saved : Bool) : Registry :=
  let kept := index.filter fun id _ => !removing.contains id
  let stale := index.keys.any fun id => removing.contains id
  let byId := kept.filter fun _ path => exists_ path && opens path
  let loaded : Registry :=
    { index := if stale && saved then kept else index
      removing := removing
      byId := byId
      actors := ∅
      convergeTasks := ∅
      running := []
      spawned := 0
      calls := []
      teardowns := removing.keys }
  byId.keys.foldl wireActor loaded

end Registry
end Fghj
