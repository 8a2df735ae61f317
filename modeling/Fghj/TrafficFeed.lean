import Fghj.Library.Feed
import Fghj.Traffic
import Mathlib.Logic.Function.Basic

/-!
# Clearing recorded traffic

The calls on a traffic log take its ring's lock for a moment and tell its followers after they let
go of it, and a recording reads the clock before it takes the lock at all. Between the steps of one
call come those of others. An exchange is of the time before a clear if its clock was read before,
whatever is done with it later.
-/

namespace Fghj
namespace TrafficFeed

open Traffic

/-- What the followers of a log are told; of an exchange only its id matters here. -/
inductive Update where
  | upsert (id : Nat)
  | mode (mode : Option BodyMode)
  | cleared
  deriving DecidableEq

def Update.effect : Update → Feed.Effect Nat
  | .upsert id => .upsert id
  | .mode _ => .none
  | .cleared => .cleared

/-- An exchange that a sidecar records, by the sidecar's origin and its id there. -/
structure Remote where
  log : Nat
  key : Nat × Nat
  startedAtMs : Nat
  /-- How often the log had been cleared when it began. The code does not keep it. -/
  born : Nat

/-- What a call still has to do. -/
inductive Call where
  /-- To push an exchange: how often the log had been cleared when the call began, and when the
  exchange did. The code keeps neither. -/
  | pushing (log : Nat) (data : Data) (remote : Option (Nat × Nat)) (since born : Nat)
  | accounting (number : Nat)
  | publishing (number : Nat)
  /-- To say that the ring was cleared. -/
  | clearing (log : Nat)
  | done

/-- A follower of a log, with what it shows once it took its first snapshot. -/
structure Subscriber where
  log : Nat
  /-- How many of the updates it has read. -/
  position : Nat
  view : Option (List Nat) := none

/-- The store of fghjd among its calls. The sidecar has the same clock. -/
structure World where
  store : Store := {}
  clock : Nat := 0
  remotes : List Remote := []
  calls : List Call := []
  sent : Nat → List Update := fun _ => []
  subscribers : List Subscriber := []
  /-- How often each log was cleared. The code does not keep it. -/
  eras : Nat → Nat := fun _ => 0
  /-- How often its log had been cleared when each exchange began. -/
  born : List Nat := []

inductive Event where
  | tick (ms : Nat)
  /-- A node's log is asked for the first time. -/
  | opened
  | setMode (log : Nat) (mode : Option BodyMode)
  | begin (log : Nat) (headers : Headers)
  | response (number status : Nat) (headers : Headers) (upgraded : Bool)
  | fail (number : Nat) (error : String)
  | closed (number : Nat)
  | chunk (number : Nat) (side : Side) (bytes : List UInt8)
  | finish (number : Nat) (side : Side) (state : BodyState)
  | clear (log : Nat)
  /-- A sidecar begins to record an exchange. -/
  | remoteBegin (log : Nat) (key : Nat × Nat)
  /-- A line of a sidecar, with the exchange as it was when the line was written. -/
  | ingest (log : Nat) (key : Nat × Nat) (data : Data)
  /-- A call takes its next step. -/
  | proceed (call : Nat)
  | subscribe (log : Nat)
  | snapshot (subscriber : Nat)
  /-- A follower has fallen behind, and the oldest updates it had not read are gone. -/
  | lag (subscriber skipped : Nat)
  | receive (subscriber : Nat)

/-- The ring of a log, empty before the log is asked for. -/
def entriesOf (store : Store) (log : Nat) : List Nat :=
  (store.logs[log]?).elim [] TrafficLog.entries

namespace World

variable (world : World)

def ring (log : Nat) : List Nat := entriesOf world.store log

def tell (log : Nat) (update : Update) : World :=
  { world with sent := Function.update world.sent log (world.sent log ++ [update]) }

def call (call : Call) : World := { world with calls := world.calls ++ [call] }

def setCall (number : Nat) (call : Call) : World :=
  { world with calls := world.calls.set number call }

def setSubscriber (number : Nat) (subscriber : Subscriber) : World :=
  { world with subscribers := world.subscribers.set number subscriber }

def remoteAt (log : Nat) (key : Nat × Nat) : Option Remote :=
  world.remotes.find? fun remote => remote.log == log && remote.key == key

/-! ## Calls -/

/-- The mode and the clock are read before the lock is taken. -/
def begin (log : Nat) (headers : Headers) : World :=
  match (world.store.logs[log]?).bind TrafficLog.mode with
  | none => world
  | some mode =>
      world.call (.pushing log
        { startedAtMs := world.clock
          mode
          requestHeaders := headers
          request := .new mode headers
          accounted := headersWeight headers } none (world.eras log) (world.eras log))

/-- Something more is recorded of an exchange. -/
def record (number : Nat) (update : Data → Data) (next : Call) : World :=
  if number < world.store.exchanges.length then
    { world with store := world.store.updateData number update }.call next
  else world

/-- The ring is drained and the clock read under the lock. -/
def clear (log : Nat) : World :=
  match world.store.clear log world.clock with
  | none => world
  | some store =>
      { world with
        store
        eras := Function.update world.eras log (world.eras log + 1) }.call (.clearing log)

/-- A known exchange is updated and published under the lock; a new one is pushed after the lock was
let go. -/
def ingest (log : Nat) (key : Nat × Nat) (data : Data) : World :=
  match world.remoteAt log key, world.store.logs[log]? with
  | some remote, some ring =>
      let data := { data with startedAtMs := remote.startedAtMs }
      if ring.mode.isNone then world
      else
        match world.store.known ring.entries key with
        | some number =>
            match world.store.exchanges[number]? with
            | none => world
            | some exchange =>
                { world with
                  store := ((world.store.recount number exchange data).bind fun store =>
                    store.evict log).getD world.store
                  born := world.born.set number remote.born }.tell log (.upsert exchange.id)
        | none =>
            if data.startedAtMs < ring.clearedAtMs then world
            else
              world.call (.pushing log { data with accounted := data.weight, inRing := true }
                (some key) (world.eras log) remote.born)
  | _, _ => world

def push (number log : Nat) (data : Data) (remote : Option (Nat × Nat)) (born : Nat) : World :=
  match world.store.push log data remote with
  | none => world.setCall number .done
  | some store =>
      { world with store, born := world.born ++ [born] }.setCall number
        (.publishing world.store.exchanges.length)

def publish (number exchange : Nat) : World :=
  match world.store.exchanges[exchange]? with
  | none => world.setCall number .done
  | some held => (world.setCall number .done).tell held.log (.upsert held.id)

/-- The next step of a call. -/
def proceed (number : Nat) : World :=
  match world.calls[number]? with
  | some (.pushing log data remote _ born) => world.push number log data remote born
  | some (.accounting exchange) =>
      { world with store := (world.store.account exchange).getD world.store }.setCall number
        (.publishing exchange)
  | some (.publishing exchange) => world.publish number exchange
  | some (.clearing log) => (world.setCall number .done).tell log .cleared
  | some .done | none => world

/-- The next update, once there is a snapshot to apply it to. -/
def receive (number : Nat) : World :=
  match world.subscribers[number]? with
  | none => world
  | some subscriber =>
      match subscriber.view, (world.sent subscriber.log)[subscriber.position]? with
      | some view, some update =>
          world.setSubscriber number
            { subscriber with
              position := subscriber.position + 1
              view := some (Feed.apply Update.effect view update) }
      | _, _ => world

end World

section Run

variable (contents : Contents)

def step (world : World) : Event → World
  | .tick ms => { world with clock := world.clock + ms }
  | .opened => { world with store := { world.store with logs := world.store.logs ++ [{}] } }
  | .setMode log mode =>
      { world with store := world.store.setMode log mode }.tell log (.mode mode)
  | .begin log headers => world.begin log headers
  | .response number status headers upgraded =>
      world.record number (fun data =>
        { data with
          status := some status
          responseHeaders := headers
          response := .new data.mode headers
          upgraded }) (.accounting number)
  | .fail number error =>
      world.record number (fun data => { data with status := some 502, error := some error })
        (.publishing number)
  | .closed number => world.record number id (.publishing number)
  | .chunk number side bytes => world.record number (Data.chunk side bytes) .done
  | .finish number side state =>
      world.record number (Data.finish contents side state) (.accounting number)
  | .clear log => world.clear log
  | .remoteBegin log key =>
      if (world.remoteAt log key).isSome then world
      else
        { world with
          remotes := world.remotes ++
            [{ log, key, startedAtMs := world.clock, born := world.eras log }] }
  | .ingest log key data => world.ingest log key data
  | .proceed call => world.proceed call
  | .subscribe log =>
      { world with
        subscribers := world.subscribers ++ [{ log, position := (world.sent log).length }] }
  | .snapshot number =>
      match world.subscribers[number]? with
      | none => world
      | some subscriber =>
          world.setSubscriber number
            { subscriber with view := some ((world.ring subscriber.log).map world.store.idOf) }
  | .lag number skipped =>
      match world.subscribers[number]? with
      | none => world
      | some subscriber =>
          world.setSubscriber number
            { subscriber with
              position := min (subscriber.position + skipped) (world.sent subscriber.log).length
              view := none }
  | .receive number => world.receive number

def after (events : List Event) : World := Execution.run (step contents) {} events

end Run

/-! ## What must stay cleared -/

/-- The call has to say that the log was cleared. -/
def Call.isClearing (log : Nat) : Call → Bool
  | .clearing other => other == log
  | _ => false

namespace World

variable (world : World)

/-- A clear of the log has not yet been told. -/
def Clears (log : Nat) : Prop := Call.clearing log ∈ world.calls

/-- An exchange is yet to be published. -/
def Owes (number : Nat) : Prop := Call.publishing number ∈ world.calls

instance (log : Nat) : Decidable (world.Clears log) :=
  decidable_of_iff (world.calls.any (Call.isClearing log)) <| by
    rw [List.any_eq_true]
    constructor
    · rintro ⟨call, listed, clears⟩
      cases call with
      | clearing other =>
          obtain rfl := eq_of_beq clears
          exact listed
      | _ => cases clears
    · exact fun listed => ⟨_, listed, beq_self_eq_true log⟩

/-- What was cleared is gone for good, and every follower that has read everything sent shows
exactly the ring. -/
structure StaysCleared : Prop where
  /-- No exchange of a ring began before its last clear. -/
  gone : ∀ log, ∀ number ∈ world.ring log, world.born[number]? = some (world.eras log)
  followed : ∀ subscriber ∈ world.subscribers, ∀ view, subscriber.view = some view →
    subscriber.position = (world.sent subscriber.log).length → ¬world.Clears subscriber.log →
      (∀ number ∈ world.ring subscriber.log, ¬world.Owes number) →
        ∀ id, id ∈ view ↔ id ∈ (world.ring subscriber.log).map world.store.idOf

/-- A new exchange fits into a ring without any eviction. -/
def pushFits (log : Nat) (data : Data) (remote : Option (Nat × Nat)) : Bool :=
  (world.store.logs[log]?).all fun ring =>
    !(world.store.pushBack log ring data remote).overfull log

/-- An exchange fits into its ring with other data. -/
def recountFits (number : Nat) (exchange : Exchange) (data : Data) : Bool :=
  (world.store.recount number exchange data).all fun store => !store.overfull exchange.log

/-- The next step of a call is taken in time: no clear came between the start of the call and its
push, nothing is evicted, and what is published is in its ring, whose last clear has been told. -/
def ProceedsInTime : Call → Prop
  | .pushing log data remote since _ =>
      since = world.eras log ∧ world.pushFits log data remote
  | .accounting number =>
      ∀ exchange ∈ world.store.exchanges[number]?,
        exchange.data.inRing → world.recountFits number exchange exchange.data
  | .publishing number =>
      ∀ exchange ∈ world.store.exchanges[number]?,
        number ∈ world.ring exchange.log ∧ ¬world.Clears exchange.log
  | .clearing _ | .done => True

/-- A shipped exchange is told from one before the clear by its millisecond, or updates one in the
ring without any eviction and once the last clear has been told. -/
def IngestsInTime (remote : Remote) (ring : TrafficLog) (data : Data) : Prop :=
  match world.store.known ring.entries remote.key with
  | some number =>
      ¬world.Clears remote.log ∧ ∀ exchange ∈ world.store.exchanges[number]?,
        world.recountFits number exchange { data with startedAtMs := remote.startedAtMs }
  | none =>
      remote.startedAtMs = ring.clearedAtMs → remote.born = world.eras remote.log

/-- The step is not one of those that let something cleared back in, or a follower astray. -/
def InTime : Event → Prop
  | .proceed number => ∀ call ∈ world.calls[number]?, world.ProceedsInTime call
  | .ingest log key data =>
      ∀ remote ∈ world.remoteAt log key, ∀ ring ∈ world.store.logs[log]?,
        ring.mode.isSome → world.IngestsInTime remote ring data
  | _ => True

instance (call : Call) : Decidable (world.ProceedsInTime call) := by
  cases call <;> unfold ProceedsInTime <;> infer_instance

instance (remote : Remote) (ring : TrafficLog) (data : Data) :
    Decidable (world.IngestsInTime remote ring data) := by
  unfold IngestsInTime
  split <;> infer_instance

instance (event : Event) : Decidable (world.InTime event) := by
  cases event <;> unfold InTime <;> infer_instance

end World

/-! ## What the store's operations leave -/

/-- When a log was last cleared. -/
def clearedAt (store : Store) (log : Nat) : Nat := (store.logs[log]?).elim 0 TrafficLog.clearedAtMs

/-- What tells an exchange from the others. -/
def label (exchange : Exchange) : Nat × Option (Nat × Nat) × Nat :=
  (exchange.id, exchange.remote, exchange.log)

/-- The total counts the rings. -/
def Counted (store : Store) : Prop := store.total = (store.logs.map TrafficLog.bytes).sum

/-- The rings, their exchanges and the times of their clears are the same. -/
structure Steady (store next : Store) : Prop where
  entries : ∀ log, entriesOf next log = entriesOf store log
  cleared : ∀ log, clearedAt next log = clearedAt store log
  length : next.exchanges.length = store.exchanges.length
  labels : ∀ number : Nat,
    (next.exchanges[number]?).map label = (store.exchanges[number]?).map label
  counted : Counted store → Counted next

variable {data : Data}

section Store

variable {store next : Store} {log other number : Nat} {ring changed : TrafficLog}

theorem Steady.refl (store : Store) : Steady store store :=
  ⟨fun _ => rfl, fun _ => rfl, rfl, fun _ => rfl, id⟩

/-- One log is changed. -/
theorem elim_set {β : Type} (found : store.logs[log]? = some ring) (changed : TrafficLog)
    (default : β) (read : TrafficLog → β) (other : Nat) :
    ((store.logs.set log changed)[other]?).elim default read =
      if log = other then read changed else (store.logs[other]?).elim default read := by
  split
  · rename_i same
    subst same
    rw [Slots.getElem?_set_self found, Option.elim_some]
  · rename_i different
    rw [List.getElem?_set_ne different]

/-- One log is changed in what the ring and the clears do not show. -/
theorem Steady.of_set (found : store.logs[log]? = some ring)
    (logs : next.logs = store.logs.set log changed) (entries : changed.entries = ring.entries)
    (cleared : changed.clearedAtMs = ring.clearedAtMs)
    (length : next.exchanges.length = store.exchanges.length)
    (labels : ∀ number : Nat,
      (next.exchanges[number]?).map label = (store.exchanges[number]?).map label)
    (total : next.total + ring.bytes = store.total + changed.bytes) : Steady store next where
  entries := by
    intro other
    rw [entriesOf, logs, elim_set found]
    split
    · rename_i same
      subst same
      rw [entries, entriesOf, found, Option.elim_some]
    · rfl
  cleared := by
    intro other
    rw [clearedAt, logs, elim_set found]
    split
    · rename_i same
      subst same
      rw [cleared, clearedAt, found, Option.elim_some]
    · rfl
  length := length
  labels := labels
  counted := by
    intro counted
    have sums := Slots.sum_map_set found TrafficLog.bytes changed
    rw [Counted] at counted
    rw [Counted, logs]
    omega

variable {exchange : Exchange}

theorem label_set (lookup : store.exchanges[number]? = some exchange) {changed : Exchange}
    (same : label changed = label exchange) (other : Nat) :
    ((store.exchanges.set number changed)[other]?).map label =
      (store.exchanges[other]?).map label := by
  by_cases here : number = other
  · subst here
    rw [Slots.getElem?_set_self lookup, lookup, Option.map_some, Option.map_some, same]
  · rw [List.getElem?_set_ne here]

theorem steady_updateData (store : Store) (number : Nat) (update : Data → Data) :
    Steady store (store.updateData number update) := by
  rw [Store.updateData]
  split
  · exact .refl store
  · rename_i exchange lookup
    exact ⟨fun _ => rfl, fun _ => rfl, List.length_set, label_set lookup rfl, id⟩

theorem steady_setMode (store : Store) (log : Nat) (mode : Option BodyMode) :
    Steady store (store.setMode log mode) := by
  rw [Store.setMode]
  split
  · exact .refl store
  · rename_i ring found
    exact .of_set found rfl rfl rfl rfl (fun _ => rfl) rfl

/-- A log that was never asked for is empty, and so is a new one. -/
theorem elim_opened {β : Type} (default : β) (read : TrafficLog → β) (blank : read {} = default)
    (logs : List TrafficLog) (log : Nat) :
    ((logs ++ [({} : TrafficLog)])[log]?).elim default read = (logs[log]?).elim default read := by
  rw [List.getElem?_append]
  split
  · rfl
  · rename_i beyond
    rw [List.getElem?_eq_none (Nat.le_of_not_lt beyond)]
    cases found : [({} : TrafficLog)][log - logs.length]? with
    | none => rfl
    | some ring =>
        rw [List.mem_singleton.mp (List.mem_of_getElem? found)]
        exact blank

theorem steady_opened (store : Store) : Steady store { store with logs := store.logs ++ [{}] } where
  entries := elim_opened [] TrafficLog.entries rfl store.logs
  cleared := elim_opened 0 TrafficLog.clearedAtMs rfl store.logs
  length := rfl
  labels := fun _ => rfl
  counted := by
    intro counted
    rw [Counted] at counted ⊢
    simpa using counted

theorem sub?_eq_some {whole part rest : Nat} (found : sub? whole part = some rest) :
    part ≤ whole ∧ rest = whole - part := by
  rw [sub?] at found
  split at found
  · rename_i fits
    exact ⟨fits, (Option.some.inj found).symm⟩
  · cases found

theorem steady_recount (lookup : store.exchanges[number]? = some exchange)
    (recounts : store.recount number exchange data = some next) : Steady store next := by
  simp only [Store.recount, Option.bind_eq_bind, Option.bind_eq_some_iff, Option.some.injEq]
    at recounts
  obtain ⟨ring, found, bytes, ringFits, total, fits, rfl⟩ := recounts
  obtain ⟨ringFits, rfl⟩ := sub?_eq_some ringFits
  obtain ⟨fits, rfl⟩ := sub?_eq_some fits
  refine .of_set found rfl rfl rfl List.length_set (label_set lookup rfl) ?_
  dsimp only
  omega

/-- An exchange that fits into its ring when it is counted anew evicts nothing. -/
theorem steady_recounted (lookup : store.exchanges[number]? = some exchange)
    (fits : (store.recount number exchange data).all fun next => !next.overfull log) :
    Steady store
      (((store.recount number exchange data).bind fun next => next.evict log).getD store) := by
  cases recounts : store.recount number exchange data with
  | none => exact .refl store
  | some next =>
      rw [recounts, Option.all_some, Bool.not_eq_true'] at fits
      rw [Option.bind_some, evict_of_fits fits]
      exact steady_recount lookup recounts

theorem steady_account (fits : ∀ exchange ∈ store.exchanges[number]?, exchange.data.inRing →
      (store.recount number exchange exchange.data).all fun next => !next.overfull exchange.log) :
    Steady store ((store.account number).getD store) := by
  rw [Store.account]
  cases lookup : store.exchanges[number]? with
  | none => exact .refl store
  | some exchange =>
      simp only [Option.bind_eq_bind, Option.bind_some]
      split
      · rename_i inside
        exact steady_recounted lookup (fits exchange lookup inside)
      · exact .refl store

/-- A push that evicts nothing. -/
theorem push_of_fits (found : store.logs[log]? = some ring) {remote : Option (Nat × Nat)}
    (fits : (store.pushBack log ring data remote).overfull log = false) :
    store.push log data remote = some (store.pushBack log ring data remote) := by
  rw [Store.push, found]
  exact evict_of_fits fits

theorem entriesOf_pushBack (found : store.logs[log]? = some ring) (data : Data)
    (remote : Option (Nat × Nat)) (other : Nat) :
    entriesOf (store.pushBack log ring data remote) other =
      if log = other then entriesOf store log ++ [store.exchanges.length]
      else entriesOf store other := by
  rw [entriesOf, Store.pushBack, elim_set found, entriesOf, found]
  rfl

theorem clearedAt_pushBack (found : store.logs[log]? = some ring) (data : Data)
    (remote : Option (Nat × Nat)) (other : Nat) :
    clearedAt (store.pushBack log ring data remote) other = clearedAt store other := by
  rw [clearedAt, Store.pushBack, elim_set found]
  split
  · rename_i same
    rw [← same, clearedAt, found, Option.elim_some]
  · rfl

theorem counted_pushBack (found : store.logs[log]? = some ring) (data : Data)
    (remote : Option (Nat × Nat)) (counted : Counted store) :
    Counted (store.pushBack log ring data remote) := by
  have sums := Slots.sum_map_set found TrafficLog.bytes
    { ring with
      entries := ring.entries ++ [store.exchanges.length]
      bytes := ring.bytes + data.accounted
      nextId := (ring.nextId + 1) % 2 ^ 64 }
  rw [Counted] at counted
  rw [Counted, Store.pushBack]
  dsimp only at sums ⊢
  omega

/-- A log that is counted in the total can be cleared. -/
theorem clear_eq (counted : Counted store) (found : store.logs[log]? = some ring) (nowMs : Nat) :
    store.clear log nowMs = some (store.cleared log ring nowMs) := by
  have fits : ring.bytes ≤ store.total := by
    rw [counted]
    exact Slots.weight_le_sum found TrafficLog.bytes
  simp [Store.clear, found, sub?_eq fits, Store.cleared]

theorem entriesOf_cleared (found : store.logs[log]? = some ring) (nowMs other : Nat) :
    entriesOf (store.cleared log ring nowMs) other =
      if log = other then [] else entriesOf store other := by
  rw [entriesOf, Store.cleared, elim_set found]
  rfl

theorem clearedAt_cleared (found : store.logs[log]? = some ring) (nowMs other : Nat) :
    clearedAt (store.cleared log ring nowMs) other =
      if log = other then nowMs else clearedAt store other := by
  rw [clearedAt, Store.cleared, elim_set found]
  rfl

theorem labels_cleared (store : Store) (log : Nat) (ring : TrafficLog) (nowMs number : Nat) :
    ((store.cleared log ring nowMs).exchanges[number]?).map label =
      (store.exchanges[number]?).map label := by
  rw [Store.cleared, getElem?_foldl_modify, Option.map_map]
  congr 1
  funext exchange
  rw [Function.comp]
  split <;> rfl

theorem counted_cleared (found : store.logs[log]? = some ring) (nowMs : Nat)
    (counted : Counted store) : Counted (store.cleared log ring nowMs) := by
  have sums := Slots.sum_map_set found TrafficLog.bytes
    { ring with entries := [], bytes := 0, clearedAtMs := nowMs }
  rw [Counted] at counted
  rw [Counted, Store.cleared]
  dsimp only at sums ⊢
  omega

/-- Exchanges with the same label. -/
theorem exists_of_label {left right : Option Exchange} (same : left.map label = right.map label)
    (found : left = some exchange) :
    ∃ other, right = some other ∧ label other = label exchange := by
  rw [found, Option.map_some] at same
  exact Option.map_eq_some_iff.mp same.symm

theorem log_eq {exchange changed : Exchange} (same : label changed = label exchange) :
    changed.log = exchange.log :=
  congrArg (fun label => label.2.2) same

theorem remote_eq {exchange changed : Exchange} (same : label changed = label exchange) :
    changed.remote = exchange.remote :=
  congrArg (fun label => label.2.1) same

theorem idOf_of_label
    (same : (next.exchanges[number]?).map label = (store.exchanges[number]?).map label) :
    next.idOf number = store.idOf number := by
  rw [Store.idOf, Store.idOf]
  cases now : next.exchanges[number]? with
  | none =>
      rw [now, Option.map_none] at same
      rw [Option.map_eq_none_iff.mp same.symm]
  | some changed =>
      obtain ⟨exchange, before, label_eq⟩ := exists_of_label same now
      rw [before]
      exact congrArg Prod.fst label_eq.symm

theorem Steady.idOf_eq (steady : Steady store next) (number : Nat) :
    next.idOf number = store.idOf number :=
  idOf_of_label (steady.labels number)

theorem length_cleared (store : Store) (log : Nat) (ring : TrafficLog) (nowMs : Nat) :
    (store.cleared log ring nowMs).exchanges.length = store.exchanges.length := by
  have each : ∀ (numbers : List Nat) (exchanges : List Exchange),
      (numbers.foldl (fun exchanges number => exchanges.modify number fun exchange =>
        { exchange with data := { exchange.data with inRing := false } }) exchanges).length =
          exchanges.length := by
    intro numbers
    induction numbers with
    | nil => exact fun _ => rfl
    | cons number numbers ih => exact fun exchanges => (ih _).trans (List.length_modify _ _ _)
  exact each ring.entries store.exchanges

end Store

/-! ## What is kept among the calls -/

namespace World

/-- The exchanges and the calls under way are of the time they are taken for. -/
structure Kept (world : World) : Prop where
  counted : Counted world.store
  length : world.born.length = world.store.exchanges.length
  /-- A ring has exchanges of its own log. -/
  own : ∀ log, ∀ number ∈ world.ring log, ∃ exchange,
    world.store.exchanges[number]? = some exchange ∧ exchange.log = log
  gone : ∀ log, ∀ number ∈ world.ring log, world.born[number]? = some (world.eras log)
  /-- An exchange that is pushed began after the last clear before the call. -/
  pushes : ∀ log data remote since born, Call.pushing log data remote since born ∈ world.calls →
    since = born ∧ ∀ key ∈ remote, ∃ shipped, world.remoteAt log key = some shipped ∧
      shipped.born = born
  /-- What a sidecar began before the last clear has a time no later than the clear. -/
  past : ∀ remote ∈ world.remotes, remote.startedAtMs ≤ world.clock ∧
    remote.born ≤ world.eras remote.log ∧
      (remote.born < world.eras remote.log → remote.startedAtMs ≤ clearedAt world.store remote.log)
  /-- A shipped exchange began when the sidecar began it. -/
  shipped : ∀ (number : Nat) (exchange : Exchange),
    world.store.exchanges[number]? = some exchange → ∀ key ∈ exchange.remote,
      ∃ remote, world.remoteAt exchange.log key = some remote ∧
        world.born[number]? = some remote.born

/-- A follower that shows this is up to date but for what is yet to be told. -/
abbrev Mirrored (world : World) (log : Nat) (shown : List Nat) : Prop :=
  Feed.Mirrors (world.ring log) world.store.idOf world.Owes (world.Clears log) shown

/-- Whoever reads what was sent is up to date: from the start, or after a snapshot. -/
structure Fed (world : World) : Prop where
  stream : ∀ log, world.Mirrored log (Feed.applied Update.effect [] (world.sent log))
  followers : ∀ subscriber ∈ world.subscribers,
    subscriber.position ≤ (world.sent subscriber.log).length ∧ ∀ view ∈ subscriber.view,
      world.Mirrored subscriber.log
        (Feed.applied Update.effect view ((world.sent subscriber.log).drop subscriber.position))

/-- What holds while every step is in time. -/
structure Invariant (world : World) : Prop extends Kept world, Fed world

variable {world next : World} {log : Nat} {update : Update}

/-- What is kept is what was claimed. -/
theorem Invariant.staysCleared (invariant : Invariant world) : world.StaysCleared where
  gone := invariant.gone
  followed := by
    intro subscriber listed view viewed position told settled
    have mirrors := (invariant.followers subscriber listed).2 view viewed
    rw [position, List.drop_length] at mirrors
    exact mirrors.mem_iff told settled

theorem Invariant.init : Invariant {} where
  counted := rfl
  length := rfl
  own := by simp [ring, entriesOf]
  gone := by simp [ring, entriesOf]
  pushes := by simp
  past := by simp
  shipped := by simp
  stream := fun log => .empty _ _ _
  followers := by simp

/-! ### Followers -/

/-- Nothing is told, and whoever was up to date is. -/
theorem Fed.mono (fed : Fed world) (sent : next.sent = world.sent)
    (subscribers : next.subscribers = world.subscribers)
    (still : ∀ log shown, world.Mirrored log shown → next.Mirrored log shown) : Fed next where
  stream := fun log => sent ▸ still log _ (fed.stream log)
  followers := by
    intro subscriber listed
    rw [subscribers] at listed
    obtain ⟨position, viewed⟩ := fed.followers subscriber listed
    rw [sent]
    exact ⟨position, fun view shown => still _ _ (viewed view shown)⟩

/-- One log is told something, and whoever was up to date is once it is applied. -/
theorem Fed.tells (fed : Fed world)
    (sent : next.sent = Function.update world.sent log (world.sent log ++ [update]))
    (subscribers : next.subscribers = world.subscribers)
    (here : ∀ shown, world.Mirrored log shown →
      next.Mirrored log (Feed.apply Update.effect shown update))
    (still : ∀ other shown, other ≠ log → world.Mirrored other shown → next.Mirrored other shown) :
    Fed next where
  stream := by
    intro other
    rw [sent, Function.update_apply]
    split
    · rename_i same
      subst same
      rw [Feed.applied_concat]
      exact here _ (fed.stream other)
    · rename_i different
      exact still other _ different (fed.stream other)
  followers := by
    intro subscriber listed
    rw [subscribers] at listed
    obtain ⟨position, viewed⟩ := fed.followers subscriber listed
    rw [sent, Function.update_apply]
    split
    · rename_i same
      subst same
      refine ⟨Nat.le_trans position (by simp), fun view shown => ?_⟩
      rw [List.drop_append_of_le_length position, Feed.applied_concat]
      exact here _ (viewed view shown)
    · rename_i different
      exact ⟨position, fun view shown => still _ _ different (viewed view shown)⟩

variable {number : Nat}

/-- One follower reads on, skips or takes a snapshot. -/
theorem Fed.setSubscriber (fed : Fed world) {subscriber : Subscriber}
    (position : subscriber.position ≤ (world.sent subscriber.log).length)

    (viewed : ∀ view ∈ subscriber.view, world.Mirrored subscriber.log
      (Feed.applied Update.effect view ((world.sent subscriber.log).drop subscriber.position))) :
    Fed (world.setSubscriber number subscriber) where
  stream := fed.stream
  followers := by
    intro other listed
    rcases List.mem_or_eq_of_mem_set listed with before | rfl
    · exact fed.followers other before
    · exact ⟨position, viewed⟩

theorem Fed.subscribe (fed : Fed world) (log : Nat) :
    Fed { world with
      subscribers := world.subscribers ++ [{ log, position := (world.sent log).length }] } where
  stream := fed.stream
  followers := by
    intro subscriber listed
    rcases List.mem_append.mp listed with before | last
    · exact fed.followers subscriber before
    · rw [List.mem_singleton.mp last]
      exact ⟨Nat.le_refl _, fun view viewed => by cases viewed⟩

/-- A snapshot stands in for everything that was read. -/
theorem Fed.snapshot (fed : Fed world) (subscriber : Subscriber) :
    world.Mirrored subscriber.log (Feed.applied Update.effect
      ((world.ring subscriber.log).map world.store.idOf)
      ((world.sent subscriber.log).drop subscriber.position)) := by
  have stream := fed.stream subscriber.log
  rw [← List.take_append_drop subscriber.position (world.sent subscriber.log),
    Feed.applied_append] at stream
  exact stream.copied

theorem Fed.receive (fed : Fed world) (number : Nat) : Fed (world.receive number) := by
  rw [World.receive]
  cases found : world.subscribers[number]? with
  | none => exact fed
  | some subscriber =>
      obtain ⟨-, viewed⟩ := fed.followers subscriber (List.mem_of_getElem? found)
      dsimp only
      split
      · rename_i view update shown next
        obtain ⟨inside, rfl⟩ := List.getElem?_eq_some_iff.mp next
        refine fed.setSubscriber inside fun applied same => ?_
        obtain rfl := Option.some.inj same
        have rest := viewed view shown
        rw [List.drop_eq_getElem_cons inside] at rest
        exact rest
      · exact fed

/-! ### Single steps -/

/-- The store keeps its rings, and the calls under way are not fewer. -/
theorem Mirrored.steady {shown : List Nat} (mirrored : world.Mirrored log shown)
    (steady : Steady world.store next.store)
    (owes : ∀ number, world.Owes number → next.Owes number)
    (clears : next.Clears log ↔ world.Clears log) : next.Mirrored log shown := by
  rw [Mirrored, ring, steady.entries log]
  exact mirrored.congr (fun number _ => steady.idOf_eq number) (fun number _ => owes number) clears

/-- The store keeps its rings, and no new exchange is to be pushed. -/
theorem Kept.steady (kept : Kept world) (steady : Steady world.store next.store)
    (clock : world.clock ≤ next.clock) (remotes : next.remotes = world.remotes)
    (eras : next.eras = world.eras) (born : next.born = world.born)
    (calls : ∀ log data remote since born, Call.pushing log data remote since born ∈ next.calls →
      Call.pushing log data remote since born ∈ world.calls) : Kept next where
  counted := steady.counted kept.counted
  length := by rw [born, kept.length, steady.length]
  own := by
    intro log number member
    rw [ring, steady.entries] at member
    obtain ⟨exchange, lookup, owned⟩ := kept.own log number member
    obtain ⟨changed, found, same⟩ := exists_of_label (steady.labels number).symm lookup
    exact ⟨changed, found, (log_eq same).trans owned⟩
  gone := by
    intro log number member
    rw [ring, steady.entries] at member
    rw [born, eras, kept.gone log number member]
  pushes := by
    intro log data remote since born listed
    simpa only [remoteAt, remotes] using
      kept.pushes log data remote since born (calls log data remote since born listed)
  past := by
    intro remote listed
    rw [remotes] at listed
    obtain ⟨started, since, before⟩ := kept.past remote listed
    rw [eras, steady.cleared]
    exact ⟨Nat.le_trans started clock, since, before⟩
  shipped := by
    intro number changed found key keyed
    obtain ⟨exchange, lookup, same⟩ := exists_of_label (steady.labels number) found
    rw [← log_eq same, remoteAt, remotes, born]
    exact kept.shipped number exchange lookup key (remote_eq same ▸ keyed)

/-- A call that is neither a push nor a clear is under way besides the others. -/
theorem Invariant.call (invariant : Invariant world) {call : Call}
    (other : ∀ log, call ≠ .clearing log)
    (unlike : ∀ log data remote since born, call ≠ .pushing log data remote since born) :
    Invariant (world.call call) where
  toKept := by
    refine invariant.toKept.steady (.refl _) (Nat.le_refl _) rfl rfl rfl ?_
    intro log data remote since born listed
    exact (List.mem_append.mp listed).resolve_right fun last =>
      unlike log data remote since born (List.mem_singleton.mp last).symm
  toFed := by
    refine invariant.toFed.mono rfl rfl fun log shown mirrored => ?_
    refine Mirrored.steady mirrored (.refl _) (fun _ => List.mem_append_left _) ?_
    refine ⟨fun listed => ?_, List.mem_append_left _⟩
    exact (List.mem_append.mp listed).resolve_right fun last =>
      other log (List.mem_singleton.mp last).symm

/-- Something changes in the store that neither the rings nor the clears show. -/
theorem Invariant.steady (invariant : Invariant world) {store : Store}
    (steady : Steady world.store store) : Invariant { world with store } where
  toKept := invariant.toKept.steady steady (Nat.le_refl _) rfl rfl rfl
    fun _ _ _ _ _ listed => listed
  toFed := invariant.toFed.mono rfl rfl fun _ _ mirrored =>
    Mirrored.steady mirrored steady (fun _ owes => owes) .rfl

theorem Invariant.record (invariant : Invariant world) (number : Nat) (update : Data → Data)
    {call : Call} (other : ∀ log, call ≠ .clearing log)
    (unlike : ∀ log data remote since born, call ≠ .pushing log data remote since born) :
    Invariant (world.record number update call) := by
  rw [World.record]
  split
  · exact (invariant.steady (steady_updateData world.store number update)).call other unlike
  · exact invariant

theorem Invariant.tick (invariant : Invariant world) (ms : Nat) :
    Invariant { world with clock := world.clock + ms } where
  toKept := invariant.toKept.steady (.refl _) (Nat.le_add_right _ _) rfl rfl rfl
    fun _ _ _ _ _ listed => listed
  toFed := invariant.toFed.mono rfl rfl fun _ _ mirrored => mirrored

/-- An update that names nothing changes no view. -/
theorem Invariant.tell (invariant : Invariant world) (passes : update.effect = .none) :
    Invariant (world.tell log update) where
  toKept := invariant.toKept.steady (.refl _) (Nat.le_refl _) rfl rfl rfl
    fun _ _ _ _ _ listed => listed
  toFed := by
    refine invariant.toFed.tells rfl rfl (fun shown mirrored => ?_) fun _ _ _ mirrored => mirrored
    rw [Feed.apply_none passes]
    exact mirrored

/-- An exchange is about to be pushed whose log was not cleared since it began. -/
theorem Invariant.pushing (invariant : Invariant world) (log : Nat) (data : Data)
    {remote : Option (Nat × Nat)} {born : Nat}
    (begun : ∀ key ∈ remote, ∃ shipped, world.remoteAt log key = some shipped ∧
      shipped.born = born) : Invariant (world.call (.pushing log data remote born born)) where
  toKept := by
    refine { invariant.toKept with pushes := ?_ }
    intro other data remote since born listed
    rcases List.mem_append.mp listed with before | last
    · exact invariant.pushes other data remote since born before
    · cases List.mem_singleton.mp last
      exact ⟨rfl, begun⟩
  toFed := by
    refine invariant.toFed.mono rfl rfl fun log shown mirrored => ?_
    refine Mirrored.steady mirrored (.refl _) (fun _ => List.mem_append_left _) ?_
    simp [Clears, World.call]

theorem Invariant.begin (invariant : Invariant world) (log : Nat) (headers : Headers) :
    Invariant (world.begin log headers) := by
  rw [World.begin]
  split
  · exact invariant
  · exact invariant.pushing log _ fun key keyed => by cases keyed

/-- Whoever follows a log that is cleared is about to be told. -/
theorem Invariant.clear (invariant : Invariant world) (log : Nat) :
    Invariant (world.clear log) := by
  rw [World.clear]
  cases found : world.store.logs[log]? with
  | none => simpa [Store.clear, found] using invariant
  | some ring =>
      rw [clear_eq invariant.counted found]
      dsimp only
      refine { counted := ?_, length := ?_, own := ?_, gone := ?_, pushes := ?_, past := ?_,
               shipped := ?_, toFed := ?_ }
      · exact counted_cleared found world.clock invariant.counted
      · exact invariant.length.trans (length_cleared world.store log ring world.clock).symm
      · intro other number member
        rw [World.ring, World.call, entriesOf_cleared found] at member
        split at member
        · cases member
        · obtain ⟨exchange, lookup, owned⟩ := invariant.own other number member
          obtain ⟨changed, now, same⟩ :=
            exists_of_label (labels_cleared world.store log ring world.clock number).symm lookup
          exact ⟨changed, now, (log_eq same).trans owned⟩
      · intro other number member
        rw [World.ring, World.call, entriesOf_cleared found] at member
        split at member
        · cases member
        · rename_i different
          simp only [World.call]
          rw [Function.update_of_ne (Ne.symm different)]
          exact invariant.gone other number member
      · intro other data remote since born listed
        have before : Call.pushing other data remote since born ∈ world.calls :=
          (List.mem_append.mp listed).resolve_right fun last => by
            cases List.mem_singleton.mp last
        exact invariant.pushes other data remote since born before
      · intro remote listed
        obtain ⟨started, since, before⟩ := invariant.past remote listed
        refine ⟨started, ?_⟩
        simp only [World.call]
        rw [clearedAt_cleared found, Function.update_apply]
        split
        · rename_i same
          subst same
          rw [if_pos rfl]
          exact ⟨Nat.le_succ_of_le since, fun _ => started⟩
        · rename_i different
          rw [if_neg (Ne.symm different)]
          exact ⟨since, before⟩
      · intro number changed now key keyed
        obtain ⟨exchange, lookup, same⟩ :=
          exists_of_label (labels_cleared world.store log ring world.clock number) now
        rw [← log_eq same]
        exact invariant.shipped number exchange lookup key (remote_eq same ▸ keyed)
      · refine invariant.toFed.mono rfl rfl fun other shown mirrored => ?_
        rw [Mirrored, World.ring, World.call, entriesOf_cleared found]
        split
        · rename_i same
          subst same
          exact .dropped _ _ (List.mem_append_right _ (List.mem_singleton_self _)) shown
        · rename_i different
          refine mirrored.congr (fun number _ => ?_) (fun _ _ => List.mem_append_left _) ?_
          · exact idOf_of_label (labels_cleared world.store log ring world.clock number)
          · simp [Clears, Ne.symm different]

/-- A sidecar begins an exchange, at a time no clear is later than. -/
theorem Invariant.remoteBegin (invariant : Invariant world) (log : Nat) (key : Nat × Nat) :
    Invariant { world with
      remotes := world.remotes ++
        [{ log, key, startedAtMs := world.clock, born := world.eras log }] } where
  toKept := by
    have still : ∀ (old : Nat) (name : Nat × Nat) (remote : Remote),
        world.remoteAt old name = some remote →
          ((world.remotes ++ [({ log, key, startedAtMs := world.clock, born := world.eras log } :
              Remote)]).find? fun remote => remote.log == old && remote.key == name) =
            some remote := by
      intro old name remote found
      rw [List.find?_append]
      exact congrArg (Option.or · _) found
    refine { invariant.toKept with pushes := ?_, past := ?_, shipped := ?_ }
    · intro old data remote since born listed
      obtain ⟨same, begun⟩ := invariant.pushes old data remote since born listed
      refine ⟨same, fun name named => ?_⟩
      obtain ⟨shipped, found, when⟩ := begun name named
      exact ⟨shipped, still old name shipped found, when⟩
    · intro remote listed
      rcases List.mem_append.mp listed with before | last
      · exact invariant.past remote before
      · rw [List.mem_singleton.mp last]
        exact ⟨Nat.le_refl _, Nat.le_refl _, fun less => absurd less (Nat.lt_irrefl _)⟩
    · intro number exchange lookup name named
      obtain ⟨remote, found, when⟩ := invariant.shipped number exchange lookup name named
      exact ⟨remote, still exchange.log name remote found, when⟩
  toFed := invariant.toFed.mono rfl rfl fun _ _ mirrored => mirrored

/-- An exchange of a ring is named whose last clear has been told. -/
theorem Invariant.upsert (invariant : Invariant world) (inside : number ∈ world.ring log)
    (calm : ¬world.Clears log) :
    Invariant (world.tell log (.upsert (world.store.idOf number))) where
  toKept := invariant.toKept.steady (.refl _) (Nat.le_refl _) rfl rfl rfl
    fun _ _ _ _ _ listed => listed
  toFed := invariant.toFed.tells rfl rfl
    (fun _ mirrored => mirrored.upsert inside calm rfl (fun _ _ => .inl) .rfl)
    fun _ _ _ mirrored => mirrored

theorem mem_of_remoteAt {key : Nat × Nat} {remote : Remote}
    (found : world.remoteAt log key = some remote) :
    remote ∈ world.remotes ∧ remote.log = log ∧ remote.key = key := by
  refine ⟨List.mem_of_find?_eq_some found, ?_⟩
  simpa using List.find?_some found

/-- A line of a sidecar in time. -/
theorem Invariant.ingest (invariant : Invariant world) {log : Nat} {key : Nat × Nat}
    (inTime : world.InTime (.ingest log key data)) : Invariant (world.ingest log key data) := by
  rw [World.ingest]
  split
  · rename_i remote ring shipped found
    dsimp only
    split
    · exact invariant
    · rename_i records
      have timely := inTime remote shipped ring found
        (by rw [Option.isSome_iff_ne_none]; simpa using records)
      obtain ⟨listed, rfl, rfl⟩ := mem_of_remoteAt shipped
      obtain ⟨-, since, before⟩ := invariant.past remote listed
      split
      · rename_i number known
        simp only [IngestsInTime, known] at timely
        obtain ⟨calm, fits⟩ := timely
        have member : number ∈ world.ring remote.log := by
          rw [World.ring, entriesOf, found]
          exact mem_of_known known
        obtain ⟨exchange, lookup, owned⟩ := invariant.own remote.log number member
        have keyed : exchange.remote = some remote.key := by
          have keyed := List.find?_some known
          rw [lookup] at keyed
          exact eq_of_beq keyed
        rw [lookup]
        dsimp only
        -- The exchange was recorded when the sidecar began it, so its time is the same.
        obtain ⟨begun, found_begun, born⟩ :=
          invariant.shipped number exchange lookup remote.key keyed
        rw [owned, shipped] at found_begun
        obtain rfl := Option.some.inj found_begun
        obtain ⟨inside, born⟩ := List.getElem?_eq_some_iff.mp born
        rw [← born, List.set_getElem_self]
        have fits := fits exchange lookup
        rw [recountFits, owned] at fits
        have steady := steady_recounted lookup fits
        have id_eq : exchange.id = world.store.idOf number := by
          rw [Store.idOf, lookup, Option.elim_some]
        rw [id_eq, ← steady.idOf_eq number]
        refine (invariant.steady steady).upsert ?_ calm
        rw [World.ring, steady.entries]
        exact member
      · rename_i unknown
        simp only [IngestsInTime, unknown] at timely
        split
        · exact invariant
        · rename_i late
          have same : world.eras remote.log = remote.born := by
            refine (Nat.eq_or_lt_of_le since).elim Eq.symm fun earlier => ?_
            have no_later := before earlier
            rw [clearedAt, found, Option.elim_some] at no_later
            exact (timely (Nat.le_antisymm no_later (Nat.le_of_not_lt late))).symm
          rw [same]
          refine invariant.pushing remote.log _ fun key keyed => ?_
          cases keyed
          exact ⟨remote, shipped, rfl⟩
  · exact invariant

/-- A call goes on to do something else. -/
theorem Invariant.setCall (invariant : Invariant world) {call later : Call}
    (found : world.calls[number]? = some call) (owes : ∀ exchange, call ≠ .publishing exchange)
    (clears : ∀ log, call ≠ .clearing log) (calm : ∀ log, later ≠ .clearing log)
    (unlike : ∀ log data remote since born, later ≠ .pushing log data remote since born) :
    Invariant (world.setCall number later) where
  toKept := by
    refine invariant.toKept.steady (.refl _) (Nat.le_refl _) rfl rfl rfl ?_
    intro log data remote since born listed
    exact (List.mem_or_eq_of_mem_set listed).resolve_right fun same =>
      unlike log data remote since born same.symm
  toFed := by
    refine invariant.toFed.mono rfl rfl fun log shown mirrored => ?_
    refine Mirrored.steady mirrored (.refl _) (fun exchange owed => ?_)
      ⟨fun listed => ?_, fun listed => ?_⟩
    · exact Slots.mem_set_of_ne found owed (owes exchange).symm later
    · exact (List.mem_or_eq_of_mem_set listed).resolve_right fun same => calm log same.symm
    · exact Slots.mem_set_of_ne found listed (clears log).symm later

/-- An exchange comes into a ring that is yet to be published, and that began after the ring's last
clear. -/
theorem Invariant.pushBack (invariant : Invariant world) {ring : TrafficLog}
    (found : world.store.logs[log]? = some ring) (data : Data) {remote : Option (Nat × Nat)}
    (owes : world.Owes world.store.exchanges.length)
    (begun : ∀ key ∈ remote, ∃ shipped, world.remoteAt log key = some shipped ∧
      shipped.born = world.eras log) :
    Invariant { world with
      store := world.store.pushBack log ring data remote
      born := world.born ++ [world.eras log] } := by
  have old_lookup : ∀ {number : Nat} {exchange : Exchange},
      world.store.exchanges[number]? = some exchange →
        (world.store.pushBack log ring data remote).exchanges[number]? = some exchange := by
    intro number exchange lookup
    exact Slots.getElem?_append_of lookup _
  have old_born : ∀ {number born : Nat}, world.born[number]? = some born →
      (world.born ++ [world.eras log])[number]? = some born := by
    intro number born lookup
    exact Slots.getElem?_append_of lookup _
  have new_born : (world.born ++ [world.eras log])[world.store.exchanges.length]? =
      some (world.eras log) := by
    rw [← invariant.length, List.getElem?_concat_length]
  refine { counted := ?_, length := ?_, own := ?_, gone := ?_, pushes := invariant.pushes,
           past := ?_, shipped := ?_, toFed := ?_ }
  · exact counted_pushBack found data remote invariant.counted
  · simp [Store.pushBack, invariant.length]
  · intro other number member
    rw [World.ring, entriesOf_pushBack found] at member
    split at member
    · rename_i same
      subst same
      rcases List.mem_append.mp member with before | last
      · obtain ⟨exchange, lookup, owned⟩ := invariant.own log number before
        exact ⟨exchange, old_lookup lookup, owned⟩
      · rw [List.mem_singleton.mp last]
        exact ⟨_, List.getElem?_concat_length, rfl⟩
    · obtain ⟨exchange, lookup, owned⟩ := invariant.own other number member
      exact ⟨exchange, old_lookup lookup, owned⟩
  · intro other number member
    rw [World.ring, entriesOf_pushBack found] at member
    split at member
    · rename_i same
      subst same
      rcases List.mem_append.mp member with before | last
      · exact old_born (invariant.gone log number before)
      · rw [List.mem_singleton.mp last]
        exact new_born
    · exact old_born (invariant.gone other number member)
  · intro old listed
    rw [clearedAt_pushBack found]
    exact invariant.past old listed
  · intro number exchange lookup key keyed
    rcases Slots.getElem?_concat_cases lookup with before | ⟨rfl, rfl⟩
    · obtain ⟨shipped, at_key, when⟩ := invariant.shipped number exchange before key keyed
      exact ⟨shipped, at_key, old_born when⟩
    · obtain ⟨shipped, at_key, when⟩ := begun key keyed
      exact ⟨shipped, at_key, when ▸ new_born⟩
  · refine invariant.toFed.mono rfl rfl fun other shown mirrored => ?_
    have names : ∀ number ∈ world.ring other,
        (world.store.pushBack log ring data remote).idOf number = world.store.idOf number := by
      intro number member
      obtain ⟨exchange, lookup, -⟩ := invariant.own other number member
      rw [Store.idOf, Store.idOf, old_lookup lookup, lookup]
    rw [Mirrored, World.ring, entriesOf_pushBack found]
    split
    · rename_i same
      subst same
      exact mirrored.concat names (fun _ _ owed => owed) owes .rfl
    · exact mirrored.congr names (fun _ _ owed => owed) .rfl

/-- A push that evicts nothing and comes before the next clear. -/
theorem Invariant.push (invariant : Invariant world) {remote : Option (Nat × Nat)}
    {since born : Nat} (found : world.calls[number]? = some (.pushing log data remote since born))
    (inTime : world.ProceedsInTime (.pushing log data remote since born)) :
    Invariant (world.push number log data remote born) := by
  obtain ⟨current, fits⟩ := inTime
  obtain ⟨rfl, begun⟩ := invariant.pushes log data remote since born (List.mem_of_getElem? found)
  subst current
  have goes_on (later : Call) (calm : ∀ log, later ≠ .clearing log)
      (unlike : ∀ log data remote since born, later ≠ .pushing log data remote since born) :
      Invariant (world.setCall number later) :=
    invariant.setCall found (fun _ same => by cases same) (fun _ same => by cases same) calm unlike
  rw [World.push]
  cases at_log : world.store.logs[log]? with
  | none =>
      have nothing : world.store.push log data remote = none := by
        rw [Store.push, at_log]
        rfl
      rw [nothing]
      exact goes_on .done (fun _ same => by cases same) fun _ _ _ _ _ same => by cases same
  | some ring =>
      rw [pushFits, at_log, Option.all_some, Bool.not_eq_true'] at fits
      rw [push_of_fits at_log fits]
      have waiting := goes_on (.publishing world.store.exchanges.length)
        (fun _ same => by cases same) fun _ _ _ _ _ same => by cases same
      exact waiting.pushBack at_log data
        (List.mem_of_getElem? (Slots.getElem?_set_self found _)) begun

/-- An exchange in its ring is published after the ring's last clear was. -/
theorem Invariant.publish (invariant : Invariant world) {number exchange : Nat}
    (found : world.calls[number]? = some (.publishing exchange))
    (inTime : world.ProceedsInTime (.publishing exchange)) :
    Invariant (world.publish number exchange) := by
  have kept : Kept (world.setCall number .done) :=
    invariant.toKept.steady (.refl _) (Nat.le_refl _) rfl rfl rfl fun _ _ _ _ _ listed =>
      (List.mem_or_eq_of_mem_set listed).resolve_right fun same => by cases same
  have clears (log : Nat) : (world.setCall number .done).Clears log ↔ world.Clears log := by
    refine ⟨fun listed => ?_, fun listed => ?_⟩
    · exact (List.mem_or_eq_of_mem_set listed).resolve_right fun same => by cases same
    · exact Slots.mem_set_of_ne found listed (fun same => by cases same) .done
  have owes {other : Nat} (owed : world.Owes other) (different : other ≠ exchange) :
      (world.setCall number .done).Owes other :=
    Slots.mem_set_of_ne found owed (fun same => different (Call.publishing.inj same)) .done
  rw [World.publish]
  cases lookup : world.store.exchanges[exchange]? with
  | none =>
      refine ⟨kept, invariant.toFed.mono rfl rfl fun log shown mirrored => ?_⟩
      refine mirrored.congr (fun _ _ => rfl) (fun other member owed => owes owed ?_) (clears log)
      rintro rfl
      obtain ⟨held, there, -⟩ := invariant.own log other member
      rw [lookup] at there
      cases there
  | some held =>
      obtain ⟨inside, calm⟩ := inTime held lookup
      refine ⟨kept.steady (.refl _) (Nat.le_refl _) rfl rfl rfl fun _ _ _ _ _ listed => listed, ?_⟩
      refine invariant.toFed.tells rfl rfl (fun shown mirrored => ?_)
        fun log shown different mirrored => ?_
      · have names : world.store.idOf exchange = held.id := by
          rw [Store.idOf, lookup, Option.elim_some]
        refine mirrored.upsert inside calm (names ▸ rfl) (fun other _ owed => ?_) (clears held.log)
        exact or_iff_not_imp_right.mpr (owes owed)
      · refine mirrored.congr (fun _ _ => rfl) (fun other member owed => owes owed ?_) (clears log)
        rintro rfl
        obtain ⟨same, there, owned⟩ := invariant.own log other member
        rw [lookup] at there
        obtain rfl := Option.some.inj there
        exact different owned.symm

/-- That a ring was cleared is told. -/
theorem Invariant.cleared (invariant : Invariant world)
    (found : world.calls[number]? = some (.clearing log)) :
    Invariant ((world.setCall number .done).tell log .cleared) where
  toKept := by
    refine invariant.toKept.steady (.refl _) (Nat.le_refl _) rfl rfl rfl fun _ _ _ _ _ listed => ?_
    exact (List.mem_or_eq_of_mem_set listed).resolve_right fun same => by cases same
  toFed := by
    have owes (other : Nat) (owed : world.Owes other) : (world.setCall number .done).Owes other :=
      Slots.mem_set_of_ne found owed (fun same => by cases same) .done
    refine invariant.toFed.tells rfl rfl (fun shown mirrored => ?_)
      fun other shown different mirrored => ?_
    · exact mirrored.cleared (List.mem_of_getElem? found) rfl fun entry _ => owes entry
    · refine mirrored.congr (fun _ _ => rfl) (fun entry _ => owes entry)
        ⟨fun listed => ?_, fun listed => ?_⟩
      · exact (List.mem_or_eq_of_mem_set listed).resolve_right fun same => by cases same
      · exact Slots.mem_set_of_ne found listed
          (fun same => different (Call.clearing.inj same)) .done

theorem Invariant.proceed (invariant : Invariant world) (inTime : world.InTime (.proceed number)) :
    Invariant (world.proceed number) := by
  rw [World.proceed]
  split
  · rename_i found
    exact invariant.push found (inTime _ found)
  · rename_i exchange found
    have store := invariant.steady (steady_account (inTime _ found))
    exact store.setCall found (fun _ same => by cases same) (fun _ same => by cases same)
      (fun _ same => by cases same) fun _ _ _ _ _ same => by cases same
  · rename_i found
    exact invariant.publish found (inTime _ found)
  · rename_i found
    exact invariant.cleared found
  · exact invariant
  · exact invariant

/-- What only followers do leaves the log as it is. -/
theorem Invariant.follow (invariant : Invariant world) {subscribers : List Subscriber}
    (fed : Fed { world with subscribers }) : Invariant { world with subscribers } where
  toKept := invariant.toKept.steady (.refl _) (Nat.le_refl _) rfl rfl rfl
    fun _ _ _ _ _ listed => listed
  toFed := fed

theorem Invariant.receive (invariant : Invariant world) (number : Nat) :
    Invariant (world.receive number) := by
  refine ⟨?_, invariant.toFed.receive number⟩
  rw [World.receive]
  split
  · exact invariant.toKept
  · split
    · exact invariant.toKept.steady (.refl _) (Nat.le_refl _) rfl rfl rfl
        fun _ _ _ _ _ listed => listed
    · exact invariant.toKept

/-- A step in time keeps the invariant. -/
theorem Invariant.step (invariant : Invariant world) (contents : Contents) {event : Event}
    (inTime : world.InTime event) : Invariant (step contents world event) := by
  cases event with
  | tick ms => exact invariant.tick ms
  | opened => exact invariant.steady (steady_opened world.store)
  | setMode log mode =>
      exact (invariant.steady (steady_setMode world.store log mode)).tell rfl
  | begin log headers => exact invariant.begin log headers
  | response number status headers upgraded =>
      exact invariant.record number _ (fun _ same => by cases same)
        fun _ _ _ _ _ same => by cases same
  | fail number error =>
      exact invariant.record number _ (fun _ same => by cases same)
        fun _ _ _ _ _ same => by cases same
  | closed number =>
      exact invariant.record number _ (fun _ same => by cases same)
        fun _ _ _ _ _ same => by cases same
  | chunk number side bytes =>
      exact invariant.record number _ (fun _ same => by cases same)
        fun _ _ _ _ _ same => by cases same
  | finish number side state =>
      exact invariant.record number _ (fun _ same => by cases same)
        fun _ _ _ _ _ same => by cases same
  | clear log => exact invariant.clear log
  | remoteBegin log key =>
      rw [TrafficFeed.step]
      split
      · exact invariant
      · exact invariant.remoteBegin log key
  | ingest log key data => exact invariant.ingest inTime
  | proceed call => exact invariant.proceed inTime
  | subscribe log => exact invariant.follow (invariant.toFed.subscribe log)
  | snapshot number =>
      rw [TrafficFeed.step]
      split
      · exact invariant
      · rename_i subscriber found
        obtain ⟨position, -⟩ := invariant.followers subscriber (List.mem_of_getElem? found)
        refine invariant.follow (invariant.toFed.setSubscriber position fun view same => ?_)
        obtain rfl := Option.some.inj same
        exact invariant.toFed.snapshot subscriber
  | lag number skipped =>
      rw [TrafficFeed.step]
      split
      · exact invariant
      · exact invariant.follow (invariant.toFed.setSubscriber (Nat.min_le_right _ _)
          fun view same => by cases same)
  | receive number => exact invariant.receive number

end World

/-- In every run whose steps are in time, what was cleared stays cleared, and whoever follows a log
shows its ring. -/
theorem stays_cleared (contents : Contents) (events : List Event)
    (inTime : Execution.Along (step contents) World.InTime {} events) :
    (after contents events).StaysCleared :=
  (Execution.run_invariant (step contents) World.InTime World.Invariant
    (fun _ _ invariant inTime => invariant.step contents inTime) .init inTime).staysCleared

/-- A recording, a clear, and an exchange of a sidecar that began after it. -/
def clearedOnce : List Event :=
  [.opened, .setMode 0 (some .text), .subscribe 0, .snapshot 0, .begin 0 [], .proceed 0, .proceed 0,
    .receive 0, .clear 0, .proceed 1, .receive 0, .tick 1, .remoteBegin 0 (7, 1),
    .ingest 0 (7, 1) { startedAtMs := 0, mode := .text, requestHeaders := [], request := .pending },
    .proceed 2, .proceed 2, .receive 0]

theorem stays_cleared_once :
    Execution.Along (step ⟨fun _ _ => true, fun _ _ => []⟩) World.InTime {} clearedOnce ∧
      (after ⟨fun _ _ => true, fun _ _ => []⟩ clearedOnce).StaysCleared :=
  ⟨by decide, stays_cleared _ clearedOnce (by decide)⟩

/-- A clear between the start of a recording and its push: the exchange is in the ring although it
began before the clear. -/
theorem pushed_after_clear :
    ¬∀ (contents : Contents) (events : List Event), (after contents events).StaysCleared := by
  intro holds
  have cleared := holds ⟨fun _ _ => true, fun _ _ => []⟩
    [.opened, .setMode 0 (some .text), .begin 0 [], .clear 0, .proceed 1, .proceed 0]
  exact absurd (cleared.gone 0 0 (by decide)) (by decide)

end TrafficFeed
end Fghj
