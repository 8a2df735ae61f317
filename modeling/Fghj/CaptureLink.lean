import Fghj.Library.Relay
import Fghj.TrafficFeed
import Mathlib.Data.List.Pairwise

/-!
# The capture link

A sidecar records exchanges in its own store and ships them to fghjd: everything in its rings when a
session begins and again when the session has fallen behind, and every exchange again that it
publishes. A line carries the exchange as it is when the line is written.  fghjd takes the lines in
order into a store of its own. What fghjd has of an exchange never gets older, and it is the newest
once nothing is left to publish or to send.
-/

namespace Fghj
namespace CaptureLink

open Traffic TrafficFeed

/-! ## What the stores' operations leave -/

/-- What is recorded of an exchange, whatever it is counted as and wherever it is. -/
def content (data : Data) : Data := { data with accounted := 0, inRing := true }

def contentOf (store : Store) (number : Nat) : Option Data :=
  (store.exchanges[number]?).map fun exchange => content exchange.data

/-- A log but for its ring. -/
def setting (ring : TrafficLog) : Option BodyMode × Nat × Nat :=
  (ring.mode, ring.clearedAtMs, ring.nextId)

/-- Exchanges may leave their rings and be counted anew, and some have new contents. -/
structure Alters (touched : Nat → Prop) (store next : Store) : Prop where
  length : next.exchanges.length = store.exchanges.length
  labels : ∀ number : Nat,
    (next.exchanges[number]?).map label = (store.exchanges[number]?).map label
  contents : ∀ number, ¬touched number → contentOf next number = contentOf store number
  rings : ∀ log, ∀ number ∈ entriesOf next log, number ∈ entriesOf store log
  settings : ∀ log : Nat, (next.logs[log]?).map setting = (store.logs[log]?).map setting

variable {data : Data}

section Store

variable {store next last : Store} {log number : Nat} {ring changed : TrafficLog}
  {touched : Nat → Prop} {exchange : Exchange}

theorem Alters.refl (touched : Nat → Prop) (store : Store) : Alters touched store store :=
  ⟨rfl, fun _ => rfl, fun _ _ => rfl, fun _ _ => id, fun _ => rfl⟩

theorem Alters.trans (first : Alters touched store next) (second : Alters touched next last) :
    Alters touched store last where
  length := second.length.trans first.length
  labels number := (second.labels number).trans (first.labels number)
  contents number apart := (second.contents number apart).trans (first.contents number apart)
  rings log number inside := first.rings log number (second.rings log number inside)
  settings log := (second.settings log).trans (first.settings log)

/-- One log is changed in its ring alone, and one exchange. -/
theorem alters_set (found : store.logs[log]? = some ring)
    (logs : next.logs = store.logs.set log changed)
    (entries : ∀ number ∈ changed.entries, number ∈ ring.entries)
    (same : setting changed = setting ring) (lookup : store.exchanges[number]? = some exchange)
    (exchanges : next.exchanges = store.exchanges.set number { exchange with data })
    (fresh : ¬touched number → content data = content exchange.data) :
    Alters touched store next where
  length := by rw [exchanges, List.length_set]
  labels := by
    rw [exchanges]
    exact label_set lookup rfl
  contents := by
    intro other apart
    rw [contentOf, contentOf, exchanges]
    by_cases here : number = other
    · subst here
      rw [Slots.getElem?_set_self lookup, lookup, Option.map_some, Option.map_some, fresh apart]
    · rw [List.getElem?_set_ne here]
  rings := by
    intro other member inside
    rw [entriesOf, logs, elim_set found] at inside
    split at inside
    · rename_i here
      subst here
      rw [entriesOf, found]
      exact entries member inside
    · exact inside
  settings := by
    intro other
    rw [logs]
    by_cases here : log = other
    · subst here
      rw [Slots.getElem?_set_self found, found, Option.map_some, Option.map_some, same]
    · rw [List.getElem?_set_ne here]

theorem alters_popFront (touched : Nat → Prop) (pops : store.popFront log = some next) :
    Alters touched store next := by
  simp only [Store.popFront, Option.bind_eq_bind, Option.bind_eq_some_iff, Option.some.injEq]
    at pops
  obtain ⟨ring, found, old, first, exchange, lookup, bytes, -, total, -, rfl⟩ := pops
  exact alters_set found rfl (fun _ => List.mem_of_mem_tail) rfl lookup rfl fun _ => rfl

theorem alters_evictWithin (touched : Nat → Prop) {fuel : Nat}
    (evicts : Store.evictWithin log fuel store = some next) : Alters touched store next := by
  induction fuel generalizing store with
  | zero =>
      cases evicts
      exact .refl touched _
  | succ fuel ih =>
      rw [Store.evictWithin] at evicts
      split at evicts
      · obtain ⟨popped, pops, rest⟩ := Option.bind_eq_some_iff.mp evicts
        exact (alters_popFront touched pops).trans (ih rest)
      · cases evicts
        exact .refl touched _

theorem alters_evict (touched : Nat → Prop) (evicts : store.evict log = some next) :
    Alters touched store next :=
  alters_evictWithin touched evicts

theorem alters_recount (lookup : store.exchanges[number]? = some exchange)
    (fresh : ¬touched number → content data = content exchange.data)
    (recounts : store.recount number exchange data = some next) : Alters touched store next := by
  simp only [Store.recount, Option.bind_eq_bind, Option.bind_eq_some_iff, Option.some.injEq]
    at recounts
  obtain ⟨ring, found, bytes, -, total, -, rfl⟩ := recounts
  exact alters_set found rfl (fun _ => id) rfl lookup rfl fresh

theorem alters_updateData (store : Store) (number : Nat) (update : Data → Data) :
    Alters (· = number) store (store.updateData number update) := by
  rw [Store.updateData]
  split
  · exact .refl _ store
  · rename_i exchange lookup
    refine ⟨List.length_set, label_set lookup rfl, fun other apart => ?_, fun _ _ => id,
      fun _ => rfl⟩
    rw [contentOf, contentOf, List.getElem?_set_ne (Ne.symm apart)]

theorem alters_account (touched : Nat → Prop) (store : Store) (number : Nat) :
    Alters touched store ((store.account number).getD store) := by
  cases accounts : store.account number with
  | none => exact .refl touched store
  | some next =>
      simp only [Store.account, Option.bind_eq_bind, Option.bind_eq_some_iff] at accounts
      obtain ⟨exchange, lookup, accounts⟩ := accounts
      split at accounts
      · obtain ⟨counted, recounts, evicts⟩ := Option.bind_eq_some_iff.mp accounts
        exact (alters_recount lookup (fun _ => rfl) recounts).trans (alters_evict touched evicts)
      · cases accounts
        exact .refl touched store

/-- A new exchange at the end of its ring, some of the oldest of which may leave it. -/
theorem push_eq_some {remote : Option (Nat × Nat)} (pushes : store.push log data remote = some next)
    (touched : Nat → Prop) :
    ∃ ring, store.logs[log]? = some ring ∧
      Alters touched (store.pushBack log ring data remote) next := by
  obtain ⟨ring, found, evicts⟩ := Option.bind_eq_some_iff.mp pushes
  exact ⟨ring, found, alters_evict touched evicts⟩

end Store

variable {ring : TrafficLog} {store : Store}

/-- A ring has at most one exchange of another proxy's id. -/
theorem remote_inj {log : Nat} (books : RingBooks store log ring) {first second : Nat}
    {key : Nat × Nat} (first_in : first ∈ ring.entries) (second_in : second ∈ ring.entries)
    (first_key : store.remoteOf first = some key) (second_key : store.remoteOf second = some key) :
    first = second := by
  by_contra different
  have symmetric : Std.Symm fun a b => ∀ key, store.remoteOf a = some key → ∀ other,
      store.remoteOf b = some other → key ≠ other :=
    ⟨fun _ _ unlike key at_b other at_a => (unlike other at_a key at_b).symm⟩
  have apart := (List.pairwise_filterMap.mp books.remotes).forall first_in second_in different
  exact apart key first_key key second_key rfl

/-! ## The link -/

/-- One line of the stream: the node's log, the exchange's id and its data. Which exchange it is
and how many states that has had by then are not part of what is sent. -/
structure Line where
  log : Nat
  id : Nat
  data : Data
  number : Nat
  version : Nat

/-- How far the stream of a session is. -/
inductive Stream where
  | idle
  /-- A snapshot is taken: the logs still to copy, once they are listed, and what was copied. -/
  | copying (position : Nat) (logs : Option (List Nat)) (queue : List Nat)
  | shipping (position : Nat) (queue : List Nat)

/-- How much of the feed the stream has read. -/
def Stream.position : Stream → Option Nat
  | .idle => none
  | .copying position _ _ | .shipping position _ => some position

def Stream.queue : Stream → List Nat
  | .idle => []
  | .copying _ _ queue | .shipping _ queue => queue

/-- What is recorded of an exchange on its way. -/
inductive Change where
  | response (status : Nat) (headers : Headers) (upgraded : Bool)
  | fail (error : String)
  | closed
  | chunk (side : Side) (bytes : List UInt8)
  | finish (side : Side) (state : BodyState)

def Change.apply (contents : Contents) (data : Data) : Change → Data
  | .response status headers upgraded =>
      { data with
        status := some status
        responseHeaders := headers
        response := .new data.mode headers
        upgraded }
  | .fail error => { data with status := some 502, error := some error }
  | .closed => data
  | .chunk side bytes => data.chunk side bytes
  | .finish side state => data.finish contents side state

/-- The sidecar, the stream of one session, and fghjd. -/
structure World where
  side : Store := {}
  home : Store := {}
  /-- The exchanges published to the feed. -/
  sent : List Nat := []
  stream : Stream := .idle
  /-- The lines fghjd has not taken yet. -/
  wire : List Line := []
  /-- The exchange of the next line was not known and is about to be pushed. -/
  pushing : Bool := false
  /-- The states each exchange has had. The code does not keep them. -/
  past : Nat → List Data := fun _ => []
  /-- The exchanges that have changed since they were last published. The code does not keep
  them. -/
  dirty : List Nat := []
  /-- The version of the line last taken of each exchange. The code does not keep it. -/
  seen : Nat → Nat := fun _ => 0

inductive Event where
  | opened
  | setMode (log : Nat) (mode : Option BodyMode)
  | clear (log : Nat) (nowMs : Nat)
  | begin (log : Nat) (headers : Headers) (nowMs : Nat)
  | change (number : Nat) (change : Change)
  | account (number : Nat)
  | publish (number : Nat)
  | subscribe
  /-- The logs of the store are listed for a snapshot. -/
  | list
  /-- The ring of the next log is copied. -/
  | copy
  | receive
  /-- The feed has dropped the oldest events the stream had not read. -/
  | lag (skipped : Nat)
  | ship
  /-- fghjd looks up the exchange of the next line. -/
  | look
  | push
  /-- Anything else that happens to the store of fghjd. -/
  | elsewhere (event : Traffic.Event)

section Step

variable (contents : Contents) (origin : Nat) (place : Nat → Nat)

namespace World

variable (world : World)

def begin (log : Nat) (headers : Headers) (nowMs : Nat) : World :=
  match (world.side.logs[log]?).bind TrafficLog.mode with
  | none => world
  | some mode =>
      let data : Data :=
        { startedAtMs := nowMs
          mode
          requestHeaders := headers
          request := .new mode headers
          accounted := headersWeight headers }
      match world.side.push log data none with
      | none => world
      | some side =>
          let number := world.side.exchanges.length
          { world with
            side
            past := Function.update world.past number [content data]
            dirty := number :: world.dirty }

def change (number : Nat) (change : Change) : World :=
  match world.side.exchanges[number]? with
  | none => world
  | some exchange =>
      { world with
        side := world.side.updateData number (change.apply contents)
        past := Function.update world.past number
          (world.past number ++ [content (change.apply contents exchange.data)])
        dirty := number :: world.dirty }

/-- Nothing is sent while nobody listens. -/
def publish (number : Nat) : World :=
  if number < world.side.exchanges.length then
    { world with
      dirty := world.dirty.filter (· ≠ number)
      sent := if world.stream.position.isSome then world.sent ++ [number] else world.sent }
  else world

/-- Subscribed before the snapshot. -/
def subscribe : World :=
  match world.stream with
  | .idle => { world with stream := .copying world.sent.length none [] }
  | _ => world

def list : World :=
  match world.stream with
  | .copying position none queue =>
      { world with
        stream := .copying position (some (List.range world.side.logs.length)) queue }
  | _ => world

def copy : World :=
  match world.stream with
  | .copying position (some (log :: logs)) queue =>
      { world with
        stream := .copying position (some logs) (queue ++ entriesOf world.side log) }
  | .copying position (some []) queue => { world with stream := .shipping position queue }
  | _ => world

/-- The feed is read only when the queue is empty. -/
def receive : World :=
  match world.stream with
  | .shipping position [] =>
      match world.sent[position]? with
      | none => world
      | some number => { world with stream := .shipping (position + 1) [number] }
  | _ => world

def lag (skipped : Nat) : World :=
  match world.stream with
  | .shipping position [] =>
      { world with
        stream := .copying (min (position + skipped) world.sent.length) none [] }
  | _ => world

/-- The line of an exchange, with the data of this moment. -/
def line (number : Nat) (exchange : Exchange) : Line where
  log := exchange.log
  id := exchange.id
  data := exchange.data
  number
  version := (world.past number).length

def ship : World :=
  match world.stream with
  | .shipping position (number :: queue) =>
      match world.side.exchanges[number]? with
      | none => { world with stream := .shipping position queue }
      | some exchange =>
          { world with
            stream := .shipping position queue
            wire := world.wire ++ [world.line number exchange] }
  | _ => world

/-- The next line is done with and was not taken. -/
def drop : World := { world with wire := world.wire.tail, pushing := false }

/-- The next line is taken. -/
def take (line : Line) (home : Store) : World :=
  { world with
    home
    wire := world.wire.tail
    pushing := false
    seen := Function.update world.seen line.number line.version }

/-- The first half of `ingest`: an exchange that is known is updated. -/
def look : World :=
  match world.wire, world.pushing with
  | line :: _, false =>
      match world.home.logs[place line.log]? with
      | none => world.drop
      | some ring =>
          if ring.mode.isNone then world.drop
          else
            match world.home.known ring.entries (origin, line.id) with
            | some copy =>
                match world.home.exchanges[copy]? with
                | none => world.drop
                | some exchange =>
                    world.take line (((world.home.recount copy exchange line.data).bind
                      fun home => home.evict (place line.log)).getD world.home)
            | none =>
                if line.data.startedAtMs < ring.clearedAtMs then world.drop
                else { world with pushing := true }
  | _, _ => world

/-- The second half: a new one is pushed after the lock was let go. -/
def push : World :=
  match world.wire, world.pushing with
  | line :: _, true =>
      match world.home.push (place line.log)
          { line.data with accounted := line.data.weight, inRing := true }
          (some (origin, line.id)) with
      | none => world.drop
      | some home => world.take line home
  | _, _ => world

end World

def step (world : World) : Event → World
  | .opened => { world with side := { world.side with logs := world.side.logs ++ [{}] } }
  | .setMode log mode => { world with side := world.side.setMode log mode }
  | .clear log nowMs => { world with side := (world.side.clear log nowMs).getD world.side }
  | .begin log headers nowMs => world.begin log headers nowMs
  | .change number change => world.change contents number change
  | .account number => { world with side := (world.side.account number).getD world.side }
  | .publish number => world.publish number
  | .subscribe => world.subscribe
  | .list => world.list
  | .copy => world.copy
  | .receive => world.receive
  | .lag skipped => world.lag skipped
  | .ship => world.ship
  | .look => world.look origin place
  | .push => world.push origin place
  | .elsewhere event => { world with home := Traffic.step contents world.home event }

end Step

/-! ## What fghjd ends up with -/

/-- The exchange is one of the log, with this id. -/
def IsExchange (store : Store) (log number id : Nat) : Prop :=
  ∃ exchange, store.exchanges[number]? = some exchange ∧ exchange.log = log ∧ exchange.id = id

/-- The log's node is recorded. -/
def Records (store : Store) (log : Nat) : Prop :=
  ∃ ring, store.logs[log]? = some ring ∧ ring.mode.isSome

def startedAt (store : Store) (number : Nat) : Nat :=
  (store.exchanges[number]?).elim 0 fun exchange => exchange.data.startedAtMs

/-- Nothing waits to be published, sent or taken. -/
structure Drained (world : World) : Prop where
  published : world.dirty = []
  shipped : world.stream = .shipping world.sent.length []
  taken : world.wire = []

section Newest

variable (origin : Nat) (place : Nat → Nat) (log : Nat) (world : World)

/-- fghjd has the exchange as it is in the sidecar: in its ring, under one id, or evicted from
it. -/
inductive Newest (number : Nat) : Prop where
  | held (copy : Nat) (inside : copy ∈ entriesOf world.home (place log))
      (keyed : world.home.remoteOf copy = some (origin, world.side.idOf number))
      (same : contentOf world.home copy = contentOf world.side number)
      (only : ∀ other ∈ entriesOf world.home (place log),
        world.home.remoteOf other = some (origin, world.side.idOf number) → other = copy)
  | evicted (copy : Nat) (exchange : Exchange)
      (lookup : world.home.exchanges[copy]? = some exchange) (there : exchange.log = place log)
      (keyed : exchange.remote = some (origin, world.side.idOf number))
      (same : some (content exchange.data) = contentOf world.side number)
      (out : exchange.data.inRing = false)
      (absent : ∀ other ∈ entriesOf world.home (place log),
        world.home.remoteOf other ≠ some (origin, world.side.idOf number))

/-- What fghjd has of the node's exchanges are the states they had when they were last taken. -/
structure Shows : Prop where
  /-- Every exchange that was taken has come. -/
  come : ∀ number id, IsExchange world.side log number id → 0 < world.seen number →
    ∃ (copy : Nat) (exchange : Exchange), world.home.exchanges[copy]? = some exchange ∧
      exchange.log = place log ∧ exchange.remote = some (origin, id) ∧
      (world.past number)[world.seen number - 1]? = some (content exchange.data)
  /-- Every copy in the ring is of an exchange that was taken. -/
  copies : ∀ copy ∈ entriesOf world.home (place log), ∀ id,
    world.home.remoteOf copy = some (origin, id) →
      ∃ number, IsExchange world.side log number id ∧ 0 < world.seen number ∧
        (world.past number)[world.seen number - 1]? = contentOf world.home copy

/-- The sidecar gives the log's exchanges their ids in order. -/
structure Numbered : Prop where
  below : ∀ number id, IsExchange world.side log number id →
    ∃ ring, world.side.logs[log]? = some ring ∧ id < ring.nextId
  distinct : ∀ number other id, IsExchange world.side log number id →
    IsExchange world.side log other id → number = other
  ring : ∀ number ∈ entriesOf world.side log, ∃ id, IsExchange world.side log number id

/-- Whatever fghjd showed of an exchange at first, it shows nothing older at last. -/
def NeverBack (first last : World) : Prop :=
  ∀ copy ∈ entriesOf first.home (place log), ∀ later ∈ entriesOf last.home (place log), ∀ id,
    first.home.remoteOf copy = some (origin, id) → last.home.remoteOf later = some (origin, id) →
      ∃ number, IsExchange last.side log number id ∧ first.seen number ≤ last.seen number ∧
        (last.past number)[first.seen number - 1]? = contentOf first.home copy ∧
        (last.past number)[last.seen number - 1]? = contentOf last.home later

/-- A session begins while fghjd records the node. -/
structure Begins : Prop where
  home : Sound world.home
  recording : Records world.home (place log)
  idle : world.stream = .idle
  wire : world.wire = []
  still : world.pushing = false
  sent : ∀ number ∈ world.sent, number < world.side.exchanges.length
  numbered : Numbered log world
  past : ∀ number, (world.past number).getLast? = contentOf world.side number
  seen : ∀ number, world.seen number ≤ (world.past number).length
  shows : Shows origin place log world

/-- Nobody else has to do with what fghjd has of the sidecar, and fghjd goes on recording the node
and does not clear it. -/
def Apart : Traffic.Event → Prop
  | .setMode other mode => other = place log → mode.isSome
  | .clear other _ => other ≠ place log
  | .response number .. | .fail number _ | .chunk number .. | .finish number .. =>
      ∀ exchange, world.home.exchanges[number]? = some exchange → exchange.remote = none
  | .ingest _ source _ _ => source ≠ origin
  | .opened | .begin .. => True

/-- The session goes on, and the sidecar does not run out of ids for the node. -/
def Session : Event → Prop
  | .begin other _ _ =>
      other = log → ∀ ring, world.side.logs[log]? = some ring → ring.nextId + 1 < 2 ^ 64
  | .elsewhere event => Apart origin place log world event
  | _ => True

end Newest

/-! ## The invariant -/

/-- The stream has yet to copy the log's ring. -/
def Stream.awaits (log : Nat) : Stream → Prop
  | .idle | .copying _ none _ => True
  | .copying _ (some logs) _ => log ∈ logs
  | .shipping .. => False

/-- What the stream has yet to read of the feed. -/
def World.unread (world : World) : List Nat := world.stream.position.elim [] world.sent.drop

/-- Something leads to a line of the exchange being written. -/
def World.Announced (world : World) (log number : Nat) : Prop :=
  number ∈ world.dirty ∨ world.stream.awaits log ∨ number ∈ world.stream.queue ∨
    number ∈ world.unread

/-- How many states an exchange has had. -/
def World.current (world : World) (number : Nat) : Nat := (world.past number).length

/-- The exchanges and versions of the lines under way. -/
def World.versions (world : World) : List (Nat × Nat) :=
  world.wire.map fun line => (line.number, line.version)

/-- The line carries a state the exchange has had. -/
def World.Carries (world : World) (line : Line) : Prop :=
  IsExchange world.side line.log line.number line.id ∧
    startedAt world.side line.number = line.data.startedAtMs ∧ 0 < line.version ∧
      (world.past line.number)[line.version - 1]? = some (content line.data)

/-- The exchange is none of those in the log's ring at fghjd. -/
def Unknown (origin : Nat) (place : Nat → Nat) (home : Store) (line : Line) : Prop :=
  ∀ number ∈ entriesOf home (place line.log), home.remoteOf number ≠ some (origin, line.id)

structure Invariant (origin : Nat) (place : Nat → Nat) (log : Nat) (world : World) : Prop where
  home : Sound world.home
  recording : Records world.home (place log)
  numbered : Numbered log world
  past : ∀ number, (world.past number).getLast? = contentOf world.side number
  sent : ∀ number ∈ world.sent, number < world.side.exchanges.length
  read : ∀ position, world.stream.position = some position → position ≤ world.sent.length
  order : Relay.InOrder world.current world.seen world.versions
  carries : ∀ line ∈ world.wire, world.Carries line
  pushing : world.pushing → ∃ line lines, world.wire = line :: lines ∧
    Unknown origin place world.home line
  shows : Shows origin place log world
  covered : ∀ number ∈ entriesOf world.side log,
    clearedAt world.home (place log) ≤ startedAt world.side number →
      Relay.Covered (world.Announced log) world.current world.seen world.versions number

section Invariant

variable {origin : Nat} {place : Nat → Nat} {log : Nat} {world next : World}

theorem isExchange_id {number id : Nat} (is : IsExchange store log number id) :
    store.idOf number = id := by
  obtain ⟨exchange, lookup, -, rfl⟩ := is
  simp [Store.idOf, lookup]

/-- An exchange has had a state if and only if it is there. -/
theorem Invariant.current_pos (invariant : Invariant origin place log world) {number : Nat} :
    0 < world.current number ↔ ∃ exchange, world.side.exchanges[number]? = some exchange := by
  rw [World.current, List.length_pos_iff, ← List.getLast?_isSome, invariant.past, contentOf,
    Option.isSome_map, Option.isSome_iff_exists]

/-- The newest version of an exchange is what it holds now. -/
theorem Invariant.newest_state (invariant : Invariant origin place log world) (number : Nat) :
    (world.past number)[world.current number - 1]? = contentOf world.side number := by
  rw [← invariant.past, List.getLast?_eq_getElem?]
  rfl

/-- What was seen in its newest version is at fghjd, or was evicted there. -/
theorem Invariant.newest (invariant : Invariant origin place log world) {number : Nat}
    (inside : number ∈ entriesOf world.side log)
    (seen : world.seen number = world.current number) : Newest origin place log world number := by
  obtain ⟨id, is⟩ := invariant.numbered.ring number inside
  have known := isExchange_id is
  have taken : 0 < world.seen number := by
    obtain ⟨exchange, lookup, -⟩ := is
    exact seen ▸ invariant.current_pos.mpr ⟨exchange, lookup⟩
  have state := invariant.newest_state number
  rw [← seen] at state
  obtain ⟨came, twin, found, there, keyed, same⟩ := invariant.shows.come number id is taken
  obtain ⟨ring, ring_eq, -⟩ := invariant.recording
  have entries : entriesOf world.home (place log) = ring.entries := by
    simp [entriesOf, ring_eq]
  by_cases held : ∃ copy ∈ ring.entries, world.home.remoteOf copy = some (origin, id)
  · obtain ⟨copy, member, remote⟩ := held
    obtain ⟨source, same_id, -, copied⟩ := invariant.shows.copies copy (entries ▸ member) id remote
    obtain rfl := invariant.numbered.distinct number source id is same_id
    refine .held copy (entries ▸ member) (known ▸ remote) (copied.symm.trans state) ?_
    rw [entries, known]
    exact fun other listed key =>
      remote_inj (invariant.home.books.rings _ ring ring_eq) listed member key remote
  · have absent : ∀ other ∈ entriesOf world.home (place log),
        world.home.remoteOf other ≠ some (origin, world.side.idOf number) := by
      rw [known, entries]
      exact fun other member key => held ⟨other, member, key⟩
    refine .evicted came twin found there (known ▸ keyed) (same.symm.trans state) ?_ absent
    cases out : twin.data.inRing with
    | false => rfl
    | true =>
        obtain ⟨home, home_eq, member⟩ := invariant.home.books.there came twin found out
        rw [there, ring_eq] at home_eq
        cases home_eq
        exact absurd ⟨came, member, by simp [Store.remoteOf, found, keyed]⟩ held

/-! ## The stream -/

/-- What leads to a line may change its place. -/
theorem Invariant.announce (invariant : Invariant origin place log world) (dirty : List Nat)
    {sent : List Nat} {stream : Stream}
    (valid : ∀ number ∈ sent, number < world.side.exchanges.length)
    (read : ∀ position, stream.position = some position → position ≤ sent.length)
    (announces : ∀ number ∈ entriesOf world.side log, world.Announced log number →
      { world with sent, dirty, stream }.Announced log number) :
    Invariant origin place log { world with sent, dirty, stream } where
  home := invariant.home
  recording := invariant.recording
  numbered := ⟨invariant.numbered.below, invariant.numbered.distinct, invariant.numbered.ring⟩
  past := invariant.past
  sent := valid
  read := read
  order := invariant.order
  carries := invariant.carries
  pushing := invariant.pushing
  shows := ⟨invariant.shows.come, invariant.shows.copies⟩
  covered := fun number inside since =>
    (invariant.covered number inside since).mono rfl (announces number inside)

theorem Invariant.publish (invariant : Invariant origin place log world) (number : Nat) :
    Invariant origin place log (world.publish number) := by
  rw [World.publish]
  split
  · rename_i bound
    refine invariant.announce _ ?_ ?_ ?_
    · intro other listed
      split at listed
      · rcases List.mem_append.mp listed with old | new
        · exact invariant.sent other old
        · exact List.mem_singleton.mp new ▸ bound
      · exact invariant.sent other listed
    · intro position position_eq
      rw [position_eq, Option.isSome_some, if_pos rfl, List.length_append]
      exact Nat.le_add_right_of_le (invariant.read position position_eq)
    · intro other inside announced
      cases listens : world.stream.position with
      | none =>
          -- nobody listens yet, so the snapshot is still to come
          have idle : world.stream = .idle := by
            cases stream : world.stream with
            | idle => rfl
            | copying => simp [stream, Stream.position] at listens
            | shipping => simp [stream, Stream.position] at listens
          exact .inr (.inl (by simp [idle, Stream.awaits]))
      | some position =>
          have read : (world.sent ++ [number]).drop position =
              world.sent.drop position ++ [number] :=
            List.drop_append_of_le_length (invariant.read position listens)
          simp only [World.Announced, World.unread, listens, Option.isSome_some, if_true,
            Option.elim_some, read, List.mem_append, List.mem_filter, List.mem_singleton,
            decide_eq_true_eq] at announced ⊢
          by_cases same : other = number
          · exact .inr (.inr (.inr (.inr same)))
          · rcases announced with changed | awaited | queued | unread
            · exact .inl ⟨changed, same⟩
            · exact .inr (.inl awaited)
            · exact .inr (.inr (.inl queued))
            · exact .inr (.inr (.inr (.inl unread)))
  · exact invariant

theorem Invariant.subscribe (invariant : Invariant origin place log world) :
    Invariant origin place log world.subscribe := by
  rw [World.subscribe]
  split
  · refine invariant.announce world.dirty invariant.sent ?_ fun _ _ _ => ?_
    · rintro position ⟨⟩
      exact Nat.le_refl _
    · exact .inr (.inl trivial)
  · exact invariant

theorem Invariant.list (invariant : Invariant origin place log world) :
    Invariant origin place log world.list := by
  rw [World.list]
  split
  · rename_i position queue stream_eq
    refine invariant.announce world.dirty invariant.sent ?_ fun number inside _ => ?_
    · rintro _ ⟨⟩
      exact invariant.read position (by rw [stream_eq, Stream.position])
    · -- the log of an exchange is there to be listed
      refine .inr (.inl (List.mem_range.mpr ?_))
      by_contra beyond
      rw [entriesOf, List.getElem?_eq_none (Nat.le_of_not_lt beyond)] at inside
      cases inside
  · exact invariant

theorem Invariant.copy (invariant : Invariant origin place log world) :
    Invariant origin place log world.copy := by
  rw [World.copy]
  split
  · rename_i position first logs queue stream_eq
    have read := invariant.read position (by rw [stream_eq, Stream.position])
    refine invariant.announce world.dirty invariant.sent ?_ fun number inside announced => ?_
    · rintro _ ⟨⟩
      exact read
    · simp only [World.Announced, World.unread, stream_eq, Stream.position, Stream.queue,
        Stream.awaits, Option.elim_some, List.mem_cons, List.mem_append] at announced ⊢
      rcases announced with changed | (rfl | awaited) | queued | unread
      · exact .inl changed
      · exact .inr (.inr (.inl (.inr inside)))
      · exact .inr (.inl awaited)
      · exact .inr (.inr (.inl (.inl queued)))
      · exact .inr (.inr (.inr unread))
  · rename_i position queue stream_eq
    refine invariant.announce world.dirty invariant.sent ?_ fun number inside announced => ?_
    · rintro _ ⟨⟩
      exact invariant.read position (by rw [stream_eq, Stream.position])
    · simpa [World.Announced, World.unread, stream_eq, Stream.position, Stream.queue,
        Stream.awaits] using announced
  · exact invariant

theorem Invariant.receive (invariant : Invariant origin place log world) :
    Invariant origin place log world.receive := by
  rw [World.receive]
  split
  · rename_i position stream_eq
    split
    · exact invariant
    · rename_i number next
      obtain ⟨bound, at_position⟩ := List.getElem?_eq_some_iff.mp next
      have unread : world.sent.drop position = number :: world.sent.drop (position + 1) := by
        rw [← at_position]
        exact List.drop_eq_getElem_cons bound
      refine invariant.announce world.dirty invariant.sent ?_ fun other inside announced => ?_
      · rintro _ ⟨⟩
        exact bound
      · simpa [World.Announced, World.unread, stream_eq, Stream.position, Stream.queue,
          Stream.awaits, unread] using announced
  · exact invariant

theorem Invariant.lag (invariant : Invariant origin place log world) (skipped : Nat) :
    Invariant origin place log (world.lag skipped) := by
  rw [World.lag]
  split
  · refine invariant.announce world.dirty invariant.sent ?_ fun _ _ _ => .inr (.inl trivial)
    rintro _ ⟨⟩
    exact Nat.min_le_right ..
  · exact invariant

theorem Invariant.ship (invariant : Invariant origin place log world) :
    Invariant origin place log world.ship := by
  rw [World.ship]
  split
  · rename_i position number queue stream_eq
    have read := invariant.read position (by rw [stream_eq, Stream.position])
    cases lookup : world.side.exchanges[number]? with
    | none =>
        refine invariant.announce world.dirty invariant.sent ?_ fun other inside announced => ?_
        · rintro _ ⟨⟩
          exact read
        · have different : other ≠ number := by
            rintro rfl
            obtain ⟨id, exchange, found, -⟩ := invariant.numbered.ring _ inside
            rw [lookup] at found
            cases found
          simpa [World.Announced, World.unread, stream_eq, Stream.position, Stream.queue,
            Stream.awaits, different] using announced
    | some exchange =>
        have state := invariant.newest_state number
        have versions : (world.wire ++ [world.line number exchange]).map
            (fun line => (line.number, line.version)) =
              world.versions ++ [(number, world.current number)] := List.map_append
        refine ⟨invariant.home, invariant.recording,
          ⟨invariant.numbered.below, invariant.numbered.distinct, invariant.numbered.ring⟩,
          invariant.past, invariant.sent, ?_, ?_, ?_, ?_,
          ⟨invariant.shows.come, invariant.shows.copies⟩, ?_⟩
        · rintro _ ⟨⟩
          exact read
        · rw [World.versions, versions]
          exact invariant.order.send number
        · intro line listed
          rcases List.mem_append.mp listed with old | new
          · exact invariant.carries line old
          · rw [List.mem_singleton.mp new]
            refine ⟨⟨exchange, lookup, rfl, rfl⟩, by simp [startedAt, World.line, lookup],
              invariant.current_pos.mpr ⟨exchange, lookup⟩, ?_⟩
            exact state.trans (by simp [contentOf, World.line, lookup])
        · intro pushing
          obtain ⟨line, lines, wire_eq, unknown⟩ := invariant.pushing pushing
          exact ⟨line, lines ++ [world.line number exchange], by simp [wire_eq], unknown⟩
        · intro other inside since
          rw [World.versions, versions]
          apply (invariant.covered other inside since).send number
          intro announced
          by_cases same : other = number
          · exact .inr same
          · refine .inl ?_
            simpa [World.Announced, World.unread, stream_eq, Stream.position, Stream.queue,
              Stream.awaits, same] using announced
  · exact invariant

/-! ## The sidecar -/

/-- The sidecar's store changes: exchanges stay what they are, and one that is new or changed waits
to be published. -/
structure Grows (log : Nat) (world next : World) : Prop where
  home : next.home = world.home
  sent : next.sent = world.sent
  stream : next.stream = world.stream
  wire : next.wire = world.wire
  pushing : next.pushing = world.pushing
  seen : next.seen = world.seen
  length : world.side.exchanges.length ≤ next.side.exchanges.length
  kept : ∀ other number id, IsExchange world.side other number id →
    IsExchange next.side other number id ∧ startedAt next.side number = startedAt world.side number
  numbered : Numbered log next
  past : ∀ number, (next.past number).getLast? = contentOf next.side number
  before : ∀ number, world.past number <+: next.past number
  dirty : ∀ number ∈ world.dirty, number ∈ next.dirty
  ring : ∀ number ∈ entriesOf next.side log, number ∈ next.dirty ∨
    number ∈ entriesOf world.side log ∧ next.past number = world.past number

/-- What an exchange was at some time it stays to have been. -/
theorem getElem?_of_before {first second : List Data} (before : first <+: second) {place : Nat}
    (found : first[place]? = some data) : second[place]? = some data := by
  obtain ⟨rest, rfl⟩ := before
  rw [List.getElem?_append_left (List.getElem?_eq_some_iff.mp found).1, found]

theorem Invariant.grow (invariant : Invariant origin place log world)
    (grows : Grows log world next) : Invariant origin place log next := by
  have versions : next.versions = world.versions := by
    rw [World.versions, grows.wire, World.versions]
  have announced (number : Nat) (before : world.Announced log number) :
      next.Announced log number := by
    rw [World.Announced, World.unread, grows.stream, grows.sent]
    exact before.imp_left (grows.dirty number)
  have seen_exchange (number id : Nat) (is : IsExchange next.side log number id)
      (taken : 0 < world.seen number) : IsExchange world.side log number id := by
    obtain ⟨old, lookup⟩ := invariant.current_pos.mp
      (Nat.lt_of_lt_of_le taken (invariant.order.behind number))
    obtain ⟨⟨same, found, there, named⟩, -⟩ :=
      grows.kept old.log number old.id ⟨old, lookup, rfl, rfl⟩
    obtain ⟨exchange, found', rfl, rfl⟩ := is
    rw [found] at found'
    cases found'
    exact ⟨old, lookup, there.symm, named.symm⟩
  constructor
  · rw [grows.home]
    exact invariant.home
  · rw [grows.home]
    exact invariant.recording
  · exact grows.numbered
  · exact grows.past
  · rw [grows.sent]
    exact fun number listed => Nat.lt_of_lt_of_le (invariant.sent number listed) grows.length
  · rw [grows.stream, grows.sent]
    exact invariant.read
  · rw [grows.seen, versions]
    exact invariant.order.grow fun number => (grows.before number).length_le
  · rw [grows.wire]
    intro line listed
    obtain ⟨is, started, positive, state⟩ := invariant.carries line listed
    obtain ⟨still, same⟩ := grows.kept _ _ _ is
    exact ⟨still, same.trans started, positive, getElem?_of_before (grows.before _) state⟩
  · rw [grows.pushing, grows.wire, grows.home]
    exact invariant.pushing
  · constructor
    · rw [grows.seen, grows.home]
      intro number id is taken
      obtain ⟨copy, exchange, found, there, keyed, state⟩ :=
        invariant.shows.come number id (seen_exchange number id is taken) taken
      exact ⟨copy, exchange, found, there, keyed, getElem?_of_before (grows.before _) state⟩
    · rw [grows.seen, grows.home]
      intro copy inside id keyed
      obtain ⟨number, is, taken, state⟩ := invariant.shows.copies copy inside id keyed
      refine ⟨number, (grows.kept _ _ _ is).1, taken, ?_⟩
      obtain ⟨exchange, lookup, -⟩ := Option.bind_eq_some_iff.mp keyed
      have here : contentOf world.home copy = some (content exchange.data) := by
        simp [contentOf, lookup]
      rw [here] at state ⊢
      exact getElem?_of_before (grows.before _) state
  · rw [grows.home, grows.seen, versions]
    intro number inside since
    rcases grows.ring number inside with changed | ⟨old, unchanged⟩
    · exact .inl (.inl changed)
    · obtain ⟨id, is⟩ := invariant.numbered.ring number old
      rw [(grows.kept _ _ _ is).2] at since
      exact (invariant.covered number old since).mono (congrArg List.length unchanged)
        (announced number)

theorem Invariant.unchanged (invariant : Invariant origin place log world) :
    Grows log world world where
  home := rfl
  sent := rfl
  stream := rfl
  wire := rfl
  pushing := rfl
  seen := rfl
  length := Nat.le_refl _
  kept := fun _ _ _ is => ⟨is, rfl⟩
  numbered := invariant.numbered
  past := invariant.past
  before := fun _ => List.prefix_rfl
  dirty := fun _ => id
  ring := fun _ inside => .inr ⟨inside, rfl⟩

theorem startedAt_eq (store : Store) (number : Nat) :
    startedAt store number = (contentOf store number).elim 0 Data.startedAtMs := by
  rw [startedAt, contentOf]
  cases store.exchanges[number]? <;> rfl

/-- Exchanges with the same labels are the same exchanges. -/
theorem isExchange_of_label {store next : Store} {other number id : Nat}
    (same : (next.exchanges[number]?).map label = (store.exchanges[number]?).map label)
    (is : IsExchange store other number id) : IsExchange next other number id := by
  obtain ⟨exchange, lookup, rfl, rfl⟩ := is
  rw [lookup] at same
  obtain ⟨changed, found, labels⟩ := Option.map_eq_some_iff.mp same
  exact ⟨changed, found, log_eq labels, congrArg Prod.fst labels⟩

variable {side : Store}

/-- Numbering depends on the labels, the next id and the ring, which may get shorter. -/
theorem Numbered.still (numbered : Numbered log world)
    (labels : ∀ number : Nat,
      (side.exchanges[number]?).map label = (world.side.exchanges[number]?).map label)
    (rings : ∀ number ∈ entriesOf side log, number ∈ entriesOf world.side log)
    (ids : ∀ ring, world.side.logs[log]? = some ring →
      ∃ left, side.logs[log]? = some left ∧ left.nextId = ring.nextId)
    (next : World) (side_eq : next.side = side) : Numbered log next := by
  subst side_eq
  constructor
  · intro number id is
    obtain ⟨ring, found, below⟩ :=
      numbered.below number id (isExchange_of_label (labels number).symm is)
    obtain ⟨left, held, same⟩ := ids ring found
    exact ⟨left, held, same ▸ below⟩
  · exact fun number other id first second => numbered.distinct number other id
      (isExchange_of_label (labels number).symm first)
      (isExchange_of_label (labels other).symm second)
  · intro number inside
    obtain ⟨id, is⟩ := numbered.ring number (rings number inside)
    exact ⟨id, isExchange_of_label (labels number) is⟩

/-- The store changes in nothing the link is about, but that exchanges leave the ring. -/
theorem Invariant.still (invariant : Invariant origin place log world)
    (length : side.exchanges.length = world.side.exchanges.length)
    (labels : ∀ number : Nat,
      (side.exchanges[number]?).map label = (world.side.exchanges[number]?).map label)
    (contents : ∀ number, contentOf side number = contentOf world.side number)
    (rings : ∀ number ∈ entriesOf side log, number ∈ entriesOf world.side log)

    (ids : ∀ ring, world.side.logs[log]? = some ring →
      ∃ left, side.logs[log]? = some left ∧ left.nextId = ring.nextId) :
    Grows log world { world with side } := by
  refine
    { home := rfl, sent := rfl, stream := rfl, wire := rfl, pushing := rfl, seen := rfl
      length := length.ge
      kept := fun other number id is => ⟨isExchange_of_label (labels number) is, ?_⟩
      numbered := invariant.numbered.still labels rings ids _ rfl
      past := fun number => (invariant.past number).trans (contents number).symm
      before := fun _ => List.prefix_rfl
      dirty := fun _ => id
      ring := fun number inside => .inr ⟨rings number inside, rfl⟩ }
  rw [startedAt_eq, startedAt_eq, contents]

theorem Invariant.account (invariant : Invariant origin place log world) (number : Nat) :
    Grows log world { world with side := (world.side.account number).getD world.side } := by
  have alters := alters_account (fun _ => False) world.side number
  refine invariant.still alters.length alters.labels (fun other => alters.contents other id)
    (alters.rings log) fun ring found => ?_
  have same := alters.settings log
  rw [found] at same
  obtain ⟨left, held, settings⟩ := Option.map_eq_some_iff.mp same
  exact ⟨left, held, congrArg (fun setting => setting.2.2) settings⟩

theorem Invariant.setMode (invariant : Invariant origin place log world) (other : Nat)
    (mode : Option BodyMode) :
    Grows log world { world with side := world.side.setMode other mode } := by
  have steady := steady_setMode world.side other mode
  have exchanges : (world.side.setMode other mode).exchanges = world.side.exchanges := by
    rw [Store.setMode]
    split <;> rfl
  refine invariant.still steady.length steady.labels (fun number => ?_)
    (fun _ => by rw [steady.entries]; exact id) fun ring found => ?_
  · rw [contentOf, exchanges]
    rfl
  · rw [Store.setMode]
    split
    · exact ⟨ring, found, rfl⟩
    · rename_i changed held
      by_cases same : other = log
      · subst same
        rw [held] at found
        cases found
        exact ⟨_, Slots.getElem?_set_self held _, rfl⟩
      · exact ⟨ring, (List.getElem?_set_ne same).trans found, rfl⟩

theorem Invariant.opened (invariant : Invariant origin place log world) :
    Grows log world { world with side := { world.side with logs := world.side.logs ++ [{}] } } := by
  have steady := steady_opened world.side
  refine invariant.still steady.length steady.labels (fun _ => rfl)
    (fun number => by rw [steady.entries]; exact id) fun ring found => ⟨ring, ?_, rfl⟩
  exact Slots.getElem?_append_of found _

theorem contentOf_cleared (store : Store) (log : Nat) (ring : TrafficLog) (nowMs number : Nat) :
    contentOf (store.cleared log ring nowMs) number = contentOf store number := by
  rw [contentOf, contentOf, Store.cleared, getElem?_foldl_modify, Option.map_map]
  congr 1
  funext exchange
  rw [Function.comp]
  split <;> rfl

theorem Invariant.clear (invariant : Invariant origin place log world) (other nowMs : Nat) :
    Grows log world { world with side := (world.side.clear other nowMs).getD world.side } := by
  cases clears : world.side.clear other nowMs with
  | none => exact invariant.unchanged
  | some side =>
      simp only [Store.clear, Option.bind_eq_bind, Option.bind_eq_some_iff, Option.some.injEq]
        at clears
      obtain ⟨ring, found, total, -, rfl⟩ := clears
      have entries : ∀ number ∈ entriesOf (world.side.cleared other ring nowMs) log,
          number ∈ entriesOf world.side log := by
        intro number inside
        rw [entriesOf_cleared found] at inside
        split at inside
        · cases inside
        · exact inside
      refine invariant.still (length_cleared world.side other ring nowMs)
        (labels_cleared world.side other ring nowMs)
        (contentOf_cleared world.side other ring nowMs) entries fun held lookup => ?_
      by_cases same : other = log
      · subst same
        rw [found] at lookup
        cases lookup
        exact ⟨_, Slots.getElem?_set_self found _, rfl⟩
      · exact ⟨held, (List.getElem?_set_ne same).trans lookup, rfl⟩

theorem startedAtMs_apply (contents : Contents) (data : Data) (change : Change) :
    (change.apply contents data).startedAtMs = data.startedAtMs := by
  cases change with
  | chunk side => cases side <;> rfl
  | finish side => cases side <;> rfl
  | _ => rfl

theorem Invariant.change (invariant : Invariant origin place log world) (contents : Contents)
    (number : Nat) (change : Change) :
    Grows log world (world.change contents number change) := by
  rw [World.change]
  split
  · exact invariant.unchanged
  rename_i exchange lookup
  have alters := alters_updateData world.side number (change.apply contents)
  have changed : contentOf (world.side.updateData number (change.apply contents)) number =
      some (content (change.apply contents exchange.data)) := by
    rw [contentOf, Store.updateData, lookup, Slots.getElem?_set_self lookup]
    rfl
  have started (other : Nat) :
      startedAt (world.side.updateData number (change.apply contents)) other =
        startedAt world.side other := by
    by_cases same : other = number
    · subst same
      rw [startedAt_eq, changed, startedAt, lookup]
      exact startedAtMs_apply contents exchange.data change
    · rw [startedAt_eq, alters.contents other same, startedAt_eq]
  refine
    { home := rfl, sent := rfl, stream := rfl, wire := rfl, pushing := rfl, seen := rfl
      length := alters.length.ge
      kept := fun other named id is => ⟨isExchange_of_label (alters.labels named) is, started named⟩
      numbered := invariant.numbered.still alters.labels (alters.rings log) ?_ _ rfl
      past := fun other => ?_
      before := fun other => ?_
      dirty := fun _ => List.mem_cons_of_mem _
      ring := fun other inside => ?_ }
  · intro ring found
    have same := alters.settings log
    rw [found] at same
    obtain ⟨left, held, settings⟩ := Option.map_eq_some_iff.mp same
    exact ⟨left, held, congrArg (fun setting => setting.2.2) settings⟩
  · by_cases same : other = number
    · subst same
      simp [changed]
    · simp only [Function.update_of_ne same]
      exact (invariant.past other).trans (alters.contents other same).symm
  · by_cases same : other = number
    · subst same
      simp
    · simp [Function.update_of_ne same]
  · by_cases same : other = number
    · exact .inl (same ▸ List.mem_cons_self)
    · exact .inr ⟨alters.rings log other inside, Function.update_of_ne same ..⟩

variable {other : Nat}

/-- The exchanges after one more was pushed are the old ones and the new one. -/
theorem isExchange_pushBack {remote : Option (Nat × Nat)} {home number id : Nat} :
    IsExchange (store.pushBack other ring data remote) home number id ↔
      IsExchange store home number id ∨
        number = store.exchanges.length ∧ other = home ∧ ring.nextId = id := by
  constructor
  · rintro ⟨exchange, lookup, rfl, rfl⟩
    rcases Slots.getElem?_concat_cases lookup with old | ⟨rfl, rfl⟩
    · exact .inl ⟨exchange, old, rfl, rfl⟩
    · exact .inr ⟨rfl, rfl, rfl⟩
  · rintro (⟨exchange, lookup, there, named⟩ | ⟨rfl, rfl, rfl⟩)
    · refine ⟨exchange, ?_, there, named⟩
      exact Slots.getElem?_append_of lookup _
    · exact ⟨_, List.getElem?_concat_length, rfl, rfl⟩

theorem contentOf_pushBack {remote : Option (Nat × Nat)} {number : Nat} :
    contentOf (store.pushBack other ring data remote) number =
      if number = store.exchanges.length then some (content data) else contentOf store number := by
  rw [contentOf, Store.pushBack]
  split
  · rename_i new
    rw [new, List.getElem?_concat_length]
    rfl
  · rename_i old
    rw [contentOf, List.getElem?_append]
    split
    · rfl
    · rename_i beyond
      rw [List.getElem?_eq_none (by simp; omega), List.getElem?_eq_none (by omega)]

/-- A store that got one more exchange, at the end of its log's ring. -/
structure Pushed (store : Store) (other : Nat) (ring : TrafficLog) (data : Data) (after : Store) :
    Prop where
  found : store.logs[other]? = some ring
  length : store.exchanges.length ≤ after.exchanges.length
  labelled : ∀ number id home, IsExchange after home number id ↔
    IsExchange store home number id ∨
      number = store.exchanges.length ∧ other = home ∧ ring.nextId = id
  contents : ∀ number, contentOf after number =
    if number = store.exchanges.length then some (content data) else contentOf store number
  rings : ∀ home, ∀ number ∈ entriesOf after home,
    number ∈ entriesOf store home ∨ number = store.exchanges.length ∧ other = home
  ids : ∀ home held, store.logs[home]? = some held → (other = home → held.nextId + 1 < 2 ^ 64) →
    ∃ left, after.logs[home]? = some left ∧
      left.nextId = if other = home then held.nextId + 1 else held.nextId

theorem pushed_of_push {store after : Store} (pushes : store.push other data none = some after) :
    ∃ ring, Pushed store other ring data after := by
  obtain ⟨ring, found, alters⟩ := push_eq_some pushes fun _ => False
  refine ⟨ring, ⟨found, ?_, fun number id home => ⟨fun is => ?_, fun is => ?_⟩, fun number => ?_,
    fun home number inside => ?_, fun home held lookup room => ?_⟩⟩
  · rw [alters.length, Store.pushBack, List.length_append]
    exact Nat.le_add_right ..
  · exact isExchange_pushBack.mp (isExchange_of_label (alters.labels number).symm is)
  · exact isExchange_of_label (alters.labels number) (isExchange_pushBack.mpr is)
  · exact (alters.contents number id).trans contentOf_pushBack
  · have pushed := alters.rings home number inside
    rw [entriesOf_pushBack found] at pushed
    split at pushed
    · rename_i here
      rw [here, List.mem_append, List.mem_singleton] at pushed
      exact pushed.imp_right fun new => ⟨new, here⟩
    · exact .inl pushed
  · have same := alters.settings home
    have there : ∃ pushed, (store.pushBack other ring data none).logs[home]? = some pushed ∧
        pushed.nextId = if other = home then held.nextId + 1 else held.nextId := by
      rw [Store.pushBack]
      by_cases here : other = home
      · subst here
        rw [found] at lookup
        cases lookup
        refine ⟨_, Slots.getElem?_set_self found _, ?_⟩
        rw [if_pos rfl]
        exact Nat.mod_eq_of_lt (room rfl)
      · exact ⟨held, (List.getElem?_set_ne here).trans lookup, (if_neg here).symm⟩
    obtain ⟨pushed, pushed_eq, next⟩ := there
    rw [pushed_eq] at same
    obtain ⟨left, left_eq, settings⟩ := Option.map_eq_some_iff.mp same
    exact ⟨left, left_eq, (congrArg (fun setting => setting.2.2) settings).trans next⟩

/-- The new exchange gets an id that was given to none before. -/
theorem Numbered.pushed (numbered : Numbered log world)
    (pushed : Pushed world.side other ring data side)
    (room : other = log → ∀ ring, world.side.logs[log]? = some ring → ring.nextId + 1 < 2 ^ 64)
    (next : World) (side_eq : next.side = side) : Numbered log next := by
  subst side_eq
  refine ⟨?_, ?_, ?_⟩
  · intro number id is
    rcases (pushed.labelled number id log).mp is with old | ⟨-, here, named⟩
    · obtain ⟨held, lookup, below⟩ := numbered.below number id old
      obtain ⟨left, left_eq, next⟩ := pushed.ids log held lookup fun here => room here held lookup
      refine ⟨left, left_eq, ?_⟩
      rw [next]
      split <;> omega
    · subst here
      obtain ⟨left, left_eq, next⟩ := pushed.ids other ring pushed.found fun here =>
        room here ring pushed.found
      refine ⟨left, left_eq, ?_⟩
      rw [next, if_pos rfl, named]
      exact Nat.lt_succ_self id
  · have unused {number : Nat} (here : other = log)
        (is : IsExchange world.side log number ring.nextId) : False := by
      obtain ⟨held, lookup, below⟩ := numbered.below number _ is
      rw [← here, pushed.found] at lookup
      cases lookup
      exact Nat.lt_irrefl _ below
    intro number second id first later
    rcases (pushed.labelled number id log).mp first with old | ⟨new, here, named⟩ <;>
      rcases (pushed.labelled second id log).mp later with before | ⟨last, there, same⟩
    · exact numbered.distinct number second id old before
    · exact (unused there (same ▸ old)).elim
    · exact (unused here (named ▸ before)).elim
    · exact new.trans last.symm
  · intro number inside
    rcases pushed.rings log number inside with old | ⟨new, here⟩
    · obtain ⟨id, is⟩ := numbered.ring number old
      exact ⟨id, (pushed.labelled number id log).mpr (.inl is)⟩
    · exact ⟨ring.nextId, (pushed.labelled number _ log).mpr (.inr ⟨new, here, rfl⟩)⟩

/-- An exchange is pushed, which waits to be published. -/
theorem Invariant.pushed (invariant : Invariant origin place log world)
    (pushes : world.side.push other data none = some side)
    (room : other = log → ∀ ring, world.side.logs[log]? = some ring → ring.nextId + 1 < 2 ^ 64) :
    Grows log world
      { world with
        side
        past := Function.update world.past world.side.exchanges.length [content data]
        dirty := world.side.exchanges.length :: world.dirty } := by
  obtain ⟨ring, pushed⟩ := pushed_of_push pushes
  have old_lt {home number id : Nat} (is : IsExchange world.side home number id) :
      number < world.side.exchanges.length := by
    obtain ⟨exchange, lookup, -⟩ := is
    exact (List.getElem?_eq_some_iff.mp lookup).1
  refine
    { home := rfl, sent := rfl, stream := rfl, wire := rfl, pushing := rfl, seen := rfl
      length := pushed.length
      kept := fun home number id is => ⟨(pushed.labelled number id home).mpr (.inl is), ?_⟩
      numbered := invariant.numbered.pushed pushed room _ rfl
      past := fun number => ?_
      before := fun number => ?_
      dirty := fun _ => List.mem_cons_of_mem _
      ring := fun number inside => ?_ }
  · rw [startedAt_eq, pushed.contents, if_neg (Nat.ne_of_lt (old_lt is)), startedAt_eq]
  · simp only [pushed.contents, Function.update_apply]
    split
    · rfl
    · exact invariant.past number
  · simp only [Function.update_apply]
    split
    · rename_i new
      have none_before : world.past number = [] := by
        rw [← List.getLast?_eq_none_iff, invariant.past, contentOf, new,
          List.getElem?_eq_none (Nat.le_refl _), Option.map_none]
      rw [none_before]
      exact List.nil_prefix
    · exact List.prefix_rfl
  · rcases pushed.rings log number inside with old | ⟨new, -⟩
    · obtain ⟨id, is⟩ := invariant.numbered.ring number old
      exact .inr ⟨old, Function.update_of_ne (Nat.ne_of_lt (old_lt is)) ..⟩
    · exact .inl (new ▸ List.mem_cons_self)

theorem Invariant.begin (invariant : Invariant origin place log world) {headers : Headers}
    {nowMs : Nat} (session : Session origin place log world (.begin other headers nowMs)) :
    Grows log world (world.begin other headers nowMs) := by
  rw [World.begin]
  split
  · exact invariant.unchanged
  · extract_lets data number
    split
    · exact invariant.unchanged
    · rename_i side pushes
      exact invariant.pushed pushes session

/-! ## fghjd -/

/-- The exchange is not one this proxy sent. -/
def Foreign (origin : Nat) (store : Store) (number : Nat) : Prop :=
  ∃ exchange, store.exchanges[number]? = some exchange ∧
    ∀ id, exchange.remote ≠ some (origin, id)

/-- What fghjd has of this proxy stays as it is, but for what is touched. -/
structure Follows (origin log : Nat) (touched : Nat → Prop) (home next : Store) : Prop where
  recording : Records home log → Records next log
  cleared : clearedAt next log = clearedAt home log
  labels : ∀ (number : Nat) (exchange : Exchange), home.exchanges[number]? = some exchange →
    ∃ left, next.exchanges[number]? = some left ∧ label left = label exchange
  contents : ∀ number id, home.remoteOf number = some (origin, id) → ¬touched number →
    contentOf next number = contentOf home number
  rings : ∀ other, ∀ number ∈ entriesOf next other,
    number ∈ entriesOf home other ∨ touched number ∨ Foreign origin next number

section Follows

variable {home next last : Store} {touched changed : Nat → Prop} {number id : Nat}

theorem Follows.remoteOf (follows : Follows origin log touched home next)
    {exchange : Exchange} (lookup : home.exchanges[number]? = some exchange) :
    next.remoteOf number = home.remoteOf number := by
  obtain ⟨left, found, same⟩ := follows.labels number exchange lookup
  rw [Store.remoteOf, Store.remoteOf, lookup, found]
  exact remote_eq same

theorem exists_of_remoteOf {key : Nat × Nat} (keyed : store.remoteOf number = some key) :
    ∃ exchange, store.exchanges[number]? = some exchange ∧ exchange.remote = some key :=
  Option.bind_eq_some_iff.mp keyed

theorem Follows.trans (first : Follows origin log touched home next)
    (second : Follows origin log touched next last) : Follows origin log touched home last where
  recording records := second.recording (first.recording records)
  cleared := second.cleared.trans first.cleared
  labels number exchange lookup := by
    obtain ⟨left, found, same⟩ := first.labels number exchange lookup
    obtain ⟨final, there, still⟩ := second.labels number left found
    exact ⟨final, there, still.trans same⟩
  contents number id keyed apart := by
    obtain ⟨exchange, lookup, -⟩ := exists_of_remoteOf keyed
    exact (second.contents number id ((first.remoteOf lookup).trans keyed) apart).trans
      (first.contents number id keyed apart)
  rings other number inside := by
    rcases second.rings other number inside with held | here | foreign
    · rcases first.rings other number held with before | here | ⟨exchange, lookup, unlike⟩
      · exact .inl before
      · exact .inr (.inl here)
      · obtain ⟨left, found, same⟩ := second.labels number exchange lookup
        exact .inr (.inr ⟨left, found, fun id => remote_eq same ▸ unlike id⟩)
    · exact .inr (.inl here)
    · exact .inr (.inr foreign)

theorem Alters.follows (alters : Alters changed home next)
    (within : ∀ number id, home.remoteOf number = some (origin, id) → changed number →
      touched number) : Follows origin log touched home next where
  recording := by
    rintro ⟨ring, found, on⟩
    have same := alters.settings log
    rw [found] at same
    obtain ⟨left, held, settings⟩ := Option.map_eq_some_iff.mp same
    have mode : left.mode = ring.mode := congrArg Prod.fst settings
    exact ⟨left, held, by rwa [mode]⟩
  cleared := by
    have same := congrArg (Option.elim · 0 fun setting => setting.2.1) (alters.settings log)
    simpa [clearedAt, Option.elim_map, setting, Function.comp_def] using same
  labels number exchange lookup := by
    have same := alters.labels number
    rw [lookup] at same
    exact Option.map_eq_some_iff.mp same
  contents number id keyed apart :=
    alters.contents number fun here => apart (within number id keyed here)
  rings other number inside := .inl (alters.rings other number inside)

/-- A new exchange is one that is touched, or comes from elsewhere. -/
theorem follows_pushBack (found : home.logs[other]? = some ring) (data : Data)
    {remote : Option (Nat × Nat)}
    (mine : ∀ id, remote = some (origin, id) → touched home.exchanges.length) :
    Follows origin log touched home (home.pushBack other ring data remote) where
  recording := by
    rintro ⟨held, lookup, on⟩
    rw [Records, Store.pushBack]
    by_cases same : other = log
    · subst same
      rw [found] at lookup
      cases lookup
      exact ⟨_, Slots.getElem?_set_self found _, on⟩
    · exact ⟨held, (List.getElem?_set_ne same).trans lookup, on⟩
  cleared := clearedAt_pushBack found data remote log
  labels number exchange lookup :=
    ⟨exchange, Slots.getElem?_append_of lookup _,
      rfl⟩
  contents number id keyed _ := by
    obtain ⟨exchange, lookup, -⟩ := exists_of_remoteOf keyed
    rw [contentOf_pushBack, if_neg (Nat.ne_of_lt (List.getElem?_eq_some_iff.mp lookup).1)]
  rings held number inside := by
    rw [entriesOf_pushBack found] at inside
    split at inside
    · rename_i same
      subst same
      rcases List.mem_append.mp inside with old | new
      · exact .inl old
      · obtain rfl := List.mem_singleton.mp new
        by_cases own : ∃ id, remote = some (origin, id)
        · obtain ⟨id, keyed⟩ := own
          exact .inr (.inl (mine id keyed))
        · exact .inr (.inr ⟨_, List.getElem?_concat_length, fun id same => own ⟨id, same⟩⟩)
    · exact .inl inside

theorem follows_push {remote : Option (Nat × Nat)}
    (pushes : home.push other data remote = some next)
    (mine : ∀ id, remote = some (origin, id) → touched home.exchanges.length) :
    Follows origin log touched home next := by
  obtain ⟨ring, found, alters⟩ := push_eq_some pushes fun _ => False
  exact (follows_pushBack found data mine).trans (alters.follows fun _ _ _ => False.elim)

/-- A copy of an exchange of this proxy stays as it is. -/
theorem Follows.come (follows : Follows origin log touched home next) {exchange : Exchange}
    (lookup : home.exchanges[number]? = some exchange) (keyed : exchange.remote = some (origin, id))
    (apart : ¬touched number) :
    ∃ left, next.exchanges[number]? = some left ∧ left.log = exchange.log ∧
      left.remote = some (origin, id) ∧ content left.data = content exchange.data := by
  obtain ⟨left, found, same⟩ := follows.labels number exchange lookup
  have contents := follows.contents number id (by simp [Store.remoteOf, lookup, keyed]) apart
  simp only [contentOf, found, lookup, Option.map_some, Option.some.injEq] at contents
  exact ⟨left, found, log_eq same, (remote_eq same).trans keyed, contents⟩

/-- A ring's copy of an exchange of this proxy was there before, as it is. -/
theorem Follows.inside (follows : Follows origin log touched home next) (books : Books home)
    (inside : number ∈ entriesOf next other) (keyed : next.remoteOf number = some (origin, id))
    (apart : ¬touched number) :
    number ∈ entriesOf home other ∧ home.remoteOf number = some (origin, id) ∧
      contentOf next number = contentOf home number := by
  rcases follows.rings other number inside with held | here | ⟨exchange, lookup, unlike⟩
  · obtain ⟨ring, found, member⟩ : ∃ ring, home.logs[other]? = some ring ∧
        number ∈ ring.entries := by
      rw [entriesOf] at held
      cases found : home.logs[other]? with
      | none => rw [found] at held; cases held
      | some ring => rw [found] at held; exact ⟨ring, rfl, held⟩
    obtain ⟨exchange, lookup, -⟩ := (books.rings other ring found).here number member
    have before := (follows.remoteOf lookup).symm.trans keyed
    exact ⟨held, before, follows.contents number id before apart⟩
  · exact absurd here apart
  · obtain ⟨same, found, remote⟩ := exists_of_remoteOf keyed
    rw [lookup] at found
    cases found
    exact absurd remote (unlike id)

end Follows

theorem IsExchange.unique {first second number one other : Nat}
    (is : IsExchange store first number one) (also : IsExchange store second number other) :
    first = second ∧ one = other := by
  obtain ⟨exchange, lookup, rfl, rfl⟩ := is
  obtain ⟨same, found, rfl, rfl⟩ := also
  rw [lookup] at found
  cases found
  exact ⟨rfl, rfl⟩

variable {line : Line}

/-- A line is skipped, for another log's exchange or one from before fghjd's last clear. -/
theorem Invariant.drop (invariant : Invariant origin place log world) {lines : List Line}
    (wire_eq : world.wire = line :: lines)
    (skipped : line.log = log → line.data.startedAtMs < clearedAt world.home (place log)) :
    Invariant origin place log world.drop where
  home := invariant.home
  recording := invariant.recording
  numbered := ⟨invariant.numbered.below, invariant.numbered.distinct, invariant.numbered.ring⟩
  past := invariant.past
  sent := invariant.sent
  read := invariant.read
  order := by
    have order := invariant.order
    rw [World.versions, wire_eq] at order
    rw [World.versions, World.drop, wire_eq]
    exact order.skip
  carries other listed := invariant.carries other (List.mem_of_mem_tail listed)
  pushing := by
    rintro ⟨⟩
  shows := ⟨invariant.shows.come, invariant.shows.copies⟩
  covered number inside since := by
    have covered := invariant.covered number inside since
    rw [World.versions, wire_eq] at covered
    rw [World.versions, World.drop, wire_eq]
    refine covered.skip ?_
    -- an exchange that is owed a line is of the log and is not from before the clear
    rintro rfl
    obtain ⟨is, started, -⟩ := invariant.carries line (wire_eq ▸ List.mem_cons_self)
    obtain ⟨id, same⟩ := invariant.numbered.ring _ inside
    exact Nat.not_le_of_lt (skipped (is.unique same).1) (started ▸ since)

/-- One exchange has what the line carries, under its id, and the others stay. -/
structure Taken (origin : Nat) (place : Nat → Nat) (log : Nat) (world : World) (line : Line)
    (home : Store) (copy : Nat) : Prop where
  sound : Sound home
  follows : Follows origin (place log) (· = copy) world.home home
  copied : ∃ exchange, home.exchanges[copy]? = some exchange ∧ exchange.log = place line.log ∧
    exchange.remote = some (origin, line.id) ∧ content exchange.data = content line.data
  only : ∀ other ∈ entriesOf world.home (place line.log),
    world.home.remoteOf other = some (origin, line.id) → other = copy

variable {home : Store} {copy : Nat}

/-- The exchange of the line has come, and the others are still there. -/
theorem Invariant.come_take (invariant : Invariant origin place log world)
    (injective : Function.Injective place) (listed : line ∈ world.wire)
    (taken : Taken origin place log world line home copy) {number id : Nat}
    (named : IsExchange world.side log number id) (seen : 0 < (world.take line home).seen number) :
    ∃ (copy : Nat) (exchange : Exchange), home.exchanges[copy]? = some exchange ∧
      exchange.log = place log ∧ exchange.remote = some (origin, id) ∧
      (world.past number)[(world.take line home).seen number - 1]? =
        some (content exchange.data) := by
  obtain ⟨exchange, found, there, keyed, same⟩ := taken.copied
  obtain ⟨is, -, positive, state⟩ := invariant.carries line listed
  dsimp only [World.take] at seen ⊢
  by_cases here : number = line.number
  · subst here
    obtain ⟨rfl, rfl⟩ := named.unique is
    refine ⟨copy, exchange, found, there, keyed, ?_⟩
    rw [Function.update_self, same, state]
  · rw [Function.update_of_ne here] at seen ⊢
    obtain ⟨came, old, lookup, owned, remote, before⟩ := invariant.shows.come number id named seen
    have apart : came ≠ copy := by
      rintro rfl
      obtain ⟨_, held, labels⟩ := taken.follows.labels came old lookup
      rw [found] at held
      cases held
      have place_eq : place line.log = place log := there.symm.trans ((log_eq labels).trans owned)
      have id_eq : line.id = id :=
        congrArg Prod.snd (Option.some.inj (keyed.symm.trans ((remote_eq labels).trans remote)))
      rw [injective place_eq, id_eq] at is
      exact here (invariant.numbered.distinct _ _ _ named is)
    obtain ⟨still, held, log_same, remote_same, contents⟩ := taken.follows.come lookup remote apart
    exact ⟨came, still, held, log_same.trans owned, remote_same,
      before.trans (congrArg some contents.symm)⟩

/-- What is in the ring under an id of the sidecar is an exchange that was taken. -/
theorem Invariant.copies_take (invariant : Invariant origin place log world)
    (injective : Function.Injective place) (listed : line ∈ world.wire)
    (taken : Taken origin place log world line home copy) {other id : Nat}
    (inside : other ∈ entriesOf home (place log))
    (remote : home.remoteOf other = some (origin, id)) :
    ∃ number, IsExchange world.side log number id ∧ 0 < (world.take line home).seen number ∧
      (world.past number)[(world.take line home).seen number - 1]? = contentOf home other := by
  obtain ⟨exchange, found, there, keyed, same⟩ := taken.copied
  obtain ⟨is, -, positive, state⟩ := invariant.carries line listed
  dsimp only [World.take]
  by_cases here : other = copy
  · subst here
    have id_eq : line.id = id := by
      rw [Store.remoteOf, found] at remote
      exact congrArg Prod.snd (Option.some.inj (keyed.symm.trans remote))
    obtain ⟨ring, ring_eq, member⟩ : ∃ ring, home.logs[place log]? = some ring ∧
        other ∈ ring.entries := by
      obtain ⟨ring, ring_eq, -⟩ := taken.follows.recording invariant.recording
      exact ⟨ring, ring_eq, by simpa [entriesOf, ring_eq] using inside⟩
    obtain ⟨owned, lookup, log_eq, -⟩ := (taken.sound.books.rings _ ring ring_eq).here other member
    rw [found] at lookup
    cases lookup
    rw [injective (there.symm.trans log_eq), id_eq] at is
    refine ⟨line.number, is, ?_⟩
    rw [Function.update_self]
    exact ⟨positive, by simp [state, contentOf, found, same]⟩
  · obtain ⟨before, old, contents⟩ := taken.follows.inside invariant.home.books inside remote here
    obtain ⟨number, named, seen, shown⟩ := invariant.shows.copies other before id old
    have apart : number ≠ line.number := by
      rintro rfl
      obtain ⟨rfl, rfl⟩ := named.unique is
      exact here (taken.only other before old)
    refine ⟨number, named, ?_⟩
    rw [Function.update_of_ne apart]
    exact ⟨seen, shown.trans contents.symm⟩

/-- A line is taken. -/
theorem Invariant.take (invariant : Invariant origin place log world)
    (injective : Function.Injective place) {lines : List Line}
    (wire_eq : world.wire = line :: lines) (taken : Taken origin place log world line home copy) :
    Invariant origin place log (world.take line home) := by
  have listed : line ∈ world.wire := wire_eq ▸ List.mem_cons_self
  have versions : world.versions = (line.number, line.version) ::
      lines.map fun line => (line.number, line.version) := by
    rw [World.versions, wire_eq]
    rfl
  have left : (world.take line home).versions =
      lines.map fun line => (line.number, line.version) := by
    rw [World.versions, World.take, wire_eq]
    rfl
  have order := invariant.order
  rw [versions] at order
  refine
    { home := taken.sound
      recording := taken.follows.recording invariant.recording
      numbered := ⟨invariant.numbered.below, invariant.numbered.distinct, invariant.numbered.ring⟩
      past := invariant.past
      sent := invariant.sent
      read := invariant.read
      order := left ▸ order.take
      carries := fun other listed => invariant.carries other (List.mem_of_mem_tail listed)
      pushing := ?_
      shows := ⟨fun number id named seen => invariant.come_take injective listed taken named seen,
        fun other inside id remote => invariant.copies_take injective listed taken inside remote⟩
      covered := fun number inside since => ?_ }
  · rintro ⟨⟩
  · have covered := invariant.covered number inside (taken.follows.cleared ▸ since)
    rw [versions] at covered
    rw [left]
    exact covered.take order

/-- Something else happens at fghjd. -/
theorem Invariant.elsewhere (invariant : Invariant origin place log world) (sound : Sound home)
    (follows : Follows origin (place log) (fun _ => False) world.home home) :
    Invariant origin place log { world with home } where
  home := sound
  recording := follows.recording invariant.recording
  numbered := ⟨invariant.numbered.below, invariant.numbered.distinct, invariant.numbered.ring⟩
  past := invariant.past
  sent := invariant.sent
  read := invariant.read
  order := invariant.order
  carries := invariant.carries
  pushing pushing := by
    obtain ⟨line, lines, wire_eq, unknown⟩ := invariant.pushing pushing
    refine ⟨line, lines, wire_eq, fun number inside keyed => ?_⟩
    obtain ⟨before, old, -⟩ := follows.inside invariant.home.books inside keyed id
    exact unknown number before old
  shows := by
    constructor
    · intro number id named seen
      obtain ⟨came, old, lookup, owned, remote, before⟩ := invariant.shows.come number id named seen
      obtain ⟨still, held, log_same, remote_same, contents⟩ := follows.come lookup remote not_false
      exact ⟨came, still, held, log_same.trans owned, remote_same,
        before.trans (congrArg some contents.symm)⟩
    · intro copy inside id keyed
      obtain ⟨before, old, contents⟩ := follows.inside invariant.home.books inside keyed not_false
      obtain ⟨number, named, seen, shown⟩ := invariant.shows.copies copy before id old
      exact ⟨number, named, seen, shown.trans contents.symm⟩
  covered number inside since := invariant.covered number inside (follows.cleared ▸ since)

theorem entriesOf_eq (found : store.logs[other]? = some ring) :
    entriesOf store other = ring.entries := by
  rw [entriesOf, found]
  rfl

theorem Alters.exchange {store next : Store} {touched : Nat → Prop} {number : Nat}
    (alters : Alters touched store next) {exchange : Exchange}
    (lookup : store.exchanges[number]? = some exchange) (apart : ¬touched number) :
    ∃ left, next.exchanges[number]? = some left ∧ label left = label exchange ∧
      content left.data = content exchange.data := by
  have labels := alters.labels number
  have contents := alters.contents number apart
  rw [lookup] at labels
  obtain ⟨left, found, same⟩ := Option.map_eq_some_iff.mp labels
  simp only [contentOf, found, lookup, Option.map_some, Option.some.injEq] at contents
  exact ⟨left, found, same, contents⟩

/-- The line's exchange is in the ring and gets what the line carries. -/
theorem Invariant.takes_known (invariant : Invariant origin place log world)
    (found : world.home.logs[place line.log]? = some ring) (on : ¬ring.mode.isNone)
    {exchange : Exchange} (known : world.home.known ring.entries (origin, line.id) = some copy)
    (lookup : world.home.exchanges[copy]? = some exchange) :
    ∃ next, ((world.home.recount copy exchange line.data).bind
        fun home => home.evict (place line.log)) = some next ∧
      Taken origin place log world line next copy := by
  have member := mem_of_known known
  obtain ⟨_, lookup', owned, -⟩ := (invariant.home.books.rings _ ring found).here copy member
  rw [lookup] at lookup'
  cases lookup'
  have keyed : exchange.remote = some (origin, line.id) := by
    have matching := List.find?_some known
    simpa [Store.remoteOf, lookup] using matching
  obtain ⟨next, ingests, moved⟩ := invariant.home.ingest (place line.log) origin line.id line.data
  have updates : (world.home.recount copy exchange line.data).bind
      (fun home => home.evict (place line.log)) = some next := by
    simpa [Store.ingest, found, on, known, lookup] using ingests
  obtain ⟨counted, recounts, evicts⟩ := Option.bind_eq_some_iff.mp updates
  have recounted : Alters (· = copy) world.home counted :=
    alters_recount lookup (fun apart => absurd rfl apart) recounts
  have evicted := alters_evict (fun _ => False) evicts
  have changed : counted.exchanges[copy]? = some
      { exchange with
        data := { line.data with accounted := line.data.weight, inRing := true } } := by
    simp only [Store.recount, Option.bind_eq_bind, Option.bind_eq_some_iff,
      Option.some.injEq] at recounts
    obtain ⟨_, _, _, _, _, _, rfl⟩ := recounts
    exact Slots.getElem?_set_self lookup _
  obtain ⟨left, held, labels, contents⟩ := evicted.exchange changed not_false
  refine ⟨next, updates, (moved.sound invariant.home).1,
    (recounted.follows fun _ _ _ => id).trans (evicted.follows fun _ _ _ => False.elim),
    ⟨left, held, (log_eq labels).trans owned, (remote_eq labels).trans keyed, contents⟩, ?_⟩
  rw [entriesOf_eq found]
  exact fun other listed key => remote_inj (invariant.home.books.rings _ ring found) listed member
    key (by simpa [Store.remoteOf, lookup] using keyed)

theorem Invariant.look (invariant : Invariant origin place log world)
    (injective : Function.Injective place) :
    Invariant origin place log (world.look origin place) := by
  rw [World.look]
  split
  · rename_i line lines wire_eq idle
    split
    · rename_i missing
      refine invariant.drop wire_eq fun here => ?_
      obtain ⟨held, lookup, -⟩ := invariant.recording
      rw [here, lookup] at missing
      cases missing
    · rename_i ring found
      split
      · rename_i off
        refine invariant.drop wire_eq fun here => ?_
        obtain ⟨held, lookup, on⟩ := invariant.recording
        rw [here, lookup] at found
        cases found
        simp_all
      · rename_i on
        split
        · rename_i copy known
          obtain ⟨exchange, lookup, -⟩ :=
            (invariant.home.books.rings _ ring found).here copy (mem_of_known known)
          obtain ⟨next, updates, taken⟩ := invariant.takes_known found on known lookup
          rw [lookup]
          dsimp only
          rw [updates, Option.getD_some]
          exact invariant.take injective wire_eq taken
        · rename_i unknown
          split
          · rename_i before
            refine invariant.drop wire_eq fun here => ?_
            rw [here] at found
            simpa [clearedAt, found] using before
          · have fresh : Unknown origin place world.home line := by
              intro number inside key
              rw [entriesOf_eq found] at inside
              exact known_eq_none unknown (List.mem_filterMap.mpr ⟨number, inside, key⟩)
            exact
              { invariant with
                numbered := ⟨invariant.numbered.below, invariant.numbered.distinct,
                  invariant.numbered.ring⟩
                shows := ⟨invariant.shows.come, invariant.shows.copies⟩
                pushing := fun _ => ⟨line, lines, wire_eq, fresh⟩ }
  · exact invariant

theorem Invariant.push (invariant : Invariant origin place log world)
    (injective : Function.Injective place) :
    Invariant origin place log (world.push origin place) := by
  rw [World.push]
  split
  · rename_i line lines wire_eq pushing
    obtain ⟨_, _, wire_eq', unknown⟩ := invariant.pushing pushing
    obtain ⟨rfl, rfl⟩ := List.cons.inj (wire_eq.symm.trans wire_eq')
    let data := { line.data with accounted := line.data.weight, inRing := true }
    cases found : world.home.logs[place line.log]? with
    | none =>
        have fails : world.home.push (place line.log) data (some (origin, line.id)) = none := by
          simp [Store.push, found]
        rw [fails]
        refine invariant.drop wire_eq fun here => ?_
        obtain ⟨held, lookup, -⟩ := invariant.recording
        rw [here, lookup] at found
        cases found
    | some ring =>
        have fresh (key : Nat × Nat) (same : some (origin, line.id) = some key) :
            key ∉ ring.entries.filterMap world.home.remoteOf := by
          cases same
          intro member
          obtain ⟨number, listed, keyed⟩ := List.mem_filterMap.mp member
          exact unknown number (entriesOf_eq found ▸ listed) keyed
        let pushed := world.home.pushBack (place line.log) ring data (some (origin, line.id))
        have books : Books pushed := invariant.home.books.pushBack found rfl fresh
        obtain ⟨next, evicts, sound, -⟩ :=
          books.evict_sound (Slots.getElem?_set_self found _) invariant.home.short_set
        have pushes : world.home.push (place line.log) data (some (origin, line.id)) =
            some next := by
          rw [Store.push, found]
          exact evicts
        have last : pushed.exchanges[world.home.exchanges.length]? =
            some ⟨ring.nextId, some (origin, line.id), place line.log, data⟩ :=
          List.getElem?_concat_length
        rw [pushes]
        obtain ⟨left, held, labels, contents⟩ :=
          (alters_evict (fun _ => False) evicts).exchange last not_false
        exact invariant.take injective wire_eq
          { sound
            follows := follows_push pushes fun _ _ => rfl
            copied := ⟨left, held, log_eq labels, remote_eq labels, contents⟩
            only := fun other inside key => absurd key (unknown other inside) }
  · exact invariant

section Elsewhere

variable {home next : Store} {number : Nat}

theorem Follows.refl (origin log : Nat) (touched : Nat → Prop) (home : Store) :
    Follows origin log touched home home :=
  ⟨id, rfl, fun _ exchange lookup => ⟨exchange, lookup, rfl⟩, fun _ _ _ _ => rfl,
    fun _ _ => .inl⟩

theorem follows_getD {attempt : Option Store}
    (follows : ∀ next, attempt = some next → Follows origin log (fun _ => False) home next) :
    Follows origin log (fun _ => False) home (attempt.getD home) := by
  cases attempt with
  | none => exact .refl ..
  | some next => exact follows next rfl

/-- An exchange changes that this proxy did not send. -/
theorem follows_updateData (foreign : ∀ id, home.remoteOf number ≠ some (origin, id))
    (update : Data → Data) :
    Follows origin log (fun _ => False) home (home.updateData number update) :=
  (alters_updateData home number update).follows fun _ id keyed same =>
    foreign id (same ▸ keyed)

theorem follows_account (store : Store) (number : Nat) {next : Store}
    (accounts : store.account number = some next) :
    Follows origin log (fun _ => False) store next := by
  have alters := alters_account (fun _ => False) store number
  rw [accounts] at alters
  exact alters.follows fun _ _ _ => False.elim

theorem follows_opened (home : Store) :
    Follows origin log (fun _ => False) home { home with logs := home.logs ++ [{}] } where
  recording := fun ⟨ring, found, on⟩ =>
    ⟨ring, Slots.getElem?_append_of found _, on⟩
  cleared := (steady_opened home).cleared log
  labels _ exchange lookup := ⟨exchange, lookup, rfl⟩
  contents _ _ _ _ := rfl
  rings other _ inside := .inl ((steady_opened home).entries other ▸ inside)

theorem follows_setMode (home : Store) {mode : Option BodyMode} (on : other = log → mode.isSome) :
    Follows origin log (fun _ => False) home (home.setMode other mode) := by
  have steady := steady_setMode home other mode
  rw [Store.setMode] at steady ⊢
  split
  · exact .refl ..
  · rename_i ring found
    rw [found] at steady
    refine ⟨?_, steady.cleared log, fun _ exchange lookup => ⟨exchange, lookup, rfl⟩,
      fun _ _ _ _ => rfl, fun held number inside => .inl (steady.entries held ▸ inside)⟩
    rintro ⟨held, lookup, recording⟩
    by_cases same : other = log
    · subst same
      exact ⟨_, Slots.getElem?_set_self found _, on rfl⟩
    · exact ⟨held, (List.getElem?_set_ne same).trans lookup, recording⟩

theorem follows_cleared (found : home.logs[other]? = some ring) (nowMs : Nat)
    (apart : other ≠ log) :
    Follows origin log (fun _ => False) home (home.cleared other ring nowMs) where
  recording := fun ⟨held, lookup, on⟩ => ⟨held, (List.getElem?_set_ne apart).trans lookup, on⟩
  cleared := by rw [clearedAt_cleared found, if_neg apart]
  labels number exchange lookup := by
    have same := labels_cleared home other ring nowMs number
    rw [lookup] at same
    exact Option.map_eq_some_iff.mp same
  contents number _ _ _ := contentOf_cleared home other ring nowMs number
  rings held number inside := by
    rw [entriesOf_cleared found] at inside
    split at inside
    · cases inside
    · exact .inl inside

/-- An exchange another proxy sent is dropped, updates its own copy or gets one. -/
theorem follows_ingest (home : Store) {other source id : Nat} (apart : source ≠ origin)
    (ingests : home.ingest other source id data = some next) :
    Follows origin log (fun _ => False) home next := by
  rw [Store.ingest] at ingests
  split at ingests
  · cases ingests
    exact .refl ..
  · split at ingests
    · cases ingests
      exact .refl ..
    · split at ingests
      · rename_i copy known
        simp only [Option.bind_eq_bind, Option.bind_eq_some_iff] at ingests
        obtain ⟨exchange, lookup, counted, recounts, evicts⟩ := ingests
        have keyed : exchange.remote = some (source, id) := by
          have matching := List.find?_some known
          simpa [lookup] using matching
        have recounted : Alters (· = copy) home counted :=
          alters_recount lookup (fun apart => absurd rfl apart) recounts
        have followed : Follows origin log (fun _ => False) home counted := by
          apply recounted.follows
          rintro number id remote rfl
          rw [Store.remoteOf, lookup] at remote
          have same := Option.some.inj (keyed.symm.trans remote)
          exact apart (congrArg Prod.fst same)
        exact followed.trans ((alters_evict _ evicts).follows fun _ _ _ => False.elim)
      · split at ingests
        · cases ingests
          exact .refl ..
        · apply follows_push ingests
          rintro id ⟨⟩
          exact apart rfl

theorem follows_step (contents : Contents) (sound : Sound world.home) {event : Traffic.Event}
    (apart : Apart origin place log world event) :
    Follows origin (place log) (fun _ => False) world.home
      (Traffic.step contents world.home event) := by
  have local_only {number : Nat} (local_to : ∀ exchange,
      world.home.exchanges[number]? = some exchange → exchange.remote = none) (id : Nat) :
      world.home.remoteOf number ≠ some (origin, id) := by
    intro keyed
    obtain ⟨exchange, lookup, remote⟩ := exists_of_remoteOf keyed
    rw [local_to exchange lookup] at remote
    cases remote
  cases event with
  | opened => exact follows_opened world.home
  | setMode other mode => exact follows_setMode world.home apart
  | clear other nowMs =>
      refine follows_getD fun next clears => ?_
      rw [Traffic.attempt] at clears
      split at clears
      · rename_i bound
        have found := List.getElem?_eq_getElem bound
        rw [sound.books.clear_eq found] at clears
        cases clears
        exact follows_cleared found nowMs apart
      · cases clears
        exact .refl ..
  | begin other headers nowMs =>
      refine follows_getD fun next begins => ?_
      rw [Traffic.attempt, Store.begin] at begins
      split at begins
      · cases begins
        exact .refl ..
      · split at begins
        · cases begins
          exact .refl ..
        · apply follows_push begins
          rintro id ⟨⟩
  | response number status headers upgraded =>
      refine follows_getD fun next accounts => ?_
      rw [Traffic.attempt] at accounts
      split at accounts
      · exact (follows_updateData (local_only apart) _).trans (follows_account _ number accounts)
      · cases accounts
        exact .refl ..
  | fail number error =>
      exact follows_updateData (local_only apart) fun data =>
        { data with status := some 502, error := some error }
  | chunk number side bytes => exact follows_updateData (local_only apart) _
  | finish number side state =>
      refine follows_getD fun next accounts => ?_
      rw [Traffic.attempt] at accounts
      split at accounts
      · exact (follows_updateData (local_only apart) _).trans (follows_account _ number accounts)
      · cases accounts
        exact .refl ..
  | ingest other source id data =>
      exact follows_getD fun next ingests => follows_ingest world.home apart ingests

end Elsewhere

/-! ## A session -/

/-- What was recorded stays so, and nothing older is taken. -/
structure Later (world next : World) : Prop where
  kept : ∀ other number id, IsExchange world.side other number id →
    IsExchange next.side other number id
  before : ∀ number, world.past number <+: next.past number
  seen : ∀ number, world.seen number ≤ next.seen number

theorem Later.same (side : next.side = world.side) (past : next.past = world.past)
    (seen : next.seen = world.seen) : Later world next :=
  ⟨fun _ _ _ => side ▸ id, fun _ => past ▸ List.prefix_rfl, fun _ => seen ▸ Nat.le_refl _⟩

theorem Later.trans {last : World} (first : Later world next) (second : Later next last) :
    Later world last where
  kept other number id is := second.kept other number id (first.kept other number id is)
  before number := (first.before number).trans (second.before number)
  seen number := (first.seen number).trans (second.seen number)

theorem Grows.later (grows : Grows log world next) : Later world next where
  kept other number id is := (grows.kept other number id is).1
  before := grows.before
  seen _ := grows.seen ▸ Nat.le_refl _

theorem Invariant.later_take (invariant : Invariant origin place log world) {lines : List Line}
    (wire_eq : world.wire = line :: lines) (home : Store) :
    Later world (world.take line home) where
  kept _ _ _ := id
  before _ := List.prefix_rfl
  seen := by
    have order := invariant.order
    rw [World.versions, wire_eq, List.map_cons] at order
    exact order.le_take

theorem Invariant.later_look (invariant : Invariant origin place log world) :
    Later world (world.look origin place) := by
  rw [World.look]
  split
  · rename_i line lines wire_eq idle
    repeat' split
    all_goals first
      | exact invariant.later_take wire_eq _
      | exact .same rfl rfl rfl
  · exact .same rfl rfl rfl

theorem Invariant.later_push (invariant : Invariant origin place log world) :
    Later world (world.push origin place) := by
  rw [World.push]
  split
  · rename_i line lines wire_eq pushing
    split
    · exact .same rfl rfl rfl
    · exact invariant.later_take wire_eq _
  · exact .same rfl rfl rfl

theorem Invariant.grown (invariant : Invariant origin place log world)
    (grows : Grows log world next) : Invariant origin place log next ∧ Later world next :=
  ⟨invariant.grow grows, grows.later⟩

theorem Invariant.step (invariant : Invariant origin place log world)
    (injective : Function.Injective place) (contents : Contents) {event : Event}
    (session : Session origin place log world event) :
    Invariant origin place log (step contents origin place world event) ∧
      Later world (step contents origin place world event) := by
  cases event with
  | opened => exact invariant.grown invariant.opened
  | setMode other mode => exact invariant.grown (invariant.setMode other mode)
  | clear other nowMs => exact invariant.grown (invariant.clear other nowMs)
  | begin other headers nowMs => exact invariant.grown (invariant.begin session)
  | change number change => exact invariant.grown (invariant.change contents number change)
  | account number => exact invariant.grown (invariant.account number)
  | publish number =>
      refine ⟨invariant.publish number, ?_⟩
      rw [CaptureLink.step, World.publish]
      split <;> exact .same rfl rfl rfl
  | subscribe =>
      refine ⟨invariant.subscribe, ?_⟩
      rw [CaptureLink.step, World.subscribe]
      split <;> exact .same rfl rfl rfl
  | list =>
      refine ⟨invariant.list, ?_⟩
      rw [CaptureLink.step, World.list]
      split <;> exact .same rfl rfl rfl
  | copy =>
      refine ⟨invariant.copy, ?_⟩
      rw [CaptureLink.step, World.copy]
      split <;> exact .same rfl rfl rfl
  | receive =>
      refine ⟨invariant.receive, ?_⟩
      rw [CaptureLink.step, World.receive]
      repeat' split
      all_goals exact .same rfl rfl rfl
  | lag skipped =>
      refine ⟨invariant.lag skipped, ?_⟩
      rw [CaptureLink.step, World.lag]
      split <;> exact .same rfl rfl rfl
  | ship =>
      refine ⟨invariant.ship, ?_⟩
      rw [CaptureLink.step, World.ship]
      repeat' split
      all_goals exact .same rfl rfl rfl
  | look => exact ⟨invariant.look injective, invariant.later_look⟩
  | push => exact ⟨invariant.push injective, invariant.later_push⟩
  | elsewhere event =>
      exact ⟨invariant.elsewhere (invariant.home.step contents event)
        (follows_step contents invariant.home session), .same rfl rfl rfl⟩

theorem Begins.invariant (begins : Begins origin place log world) :
    Invariant origin place log world where
  home := begins.home
  recording := begins.recording
  numbered := begins.numbered
  past := begins.past
  sent := begins.sent
  read position position_eq := by
    rw [begins.idle] at position_eq
    cases position_eq
  order := by
    rw [World.versions, begins.wire]
    exact ⟨List.Pairwise.nil, fun _ listed => absurd listed List.not_mem_nil, begins.seen⟩
  carries line listed := by
    rw [begins.wire] at listed
    cases listed
  pushing pushing := by
    rw [begins.still] at pushing
    cases pushing
  shows := begins.shows
  -- the session starts with a snapshot
  covered number _ _ := .inl (.inr (.inl (begins.idle ▸ trivial)))

/-- When a session is over, whatever it left on the way, the next one can begin. -/
theorem Invariant.begins (invariant : Invariant origin place log world) :
    Begins origin place log { world with stream := .idle, wire := [], pushing := false } where
  home := invariant.home
  recording := invariant.recording
  idle := rfl
  wire := rfl
  still := rfl
  sent := invariant.sent
  numbered := ⟨invariant.numbered.below, invariant.numbered.distinct, invariant.numbered.ring⟩
  past := invariant.past
  seen := invariant.order.behind
  shows := ⟨invariant.shows.come, invariant.shows.copies⟩

/-- The first session begins with a sidecar that has recorded nothing. -/
theorem begins_first (sound : Sound home) (recording : Records home (place log))
    (empty : entriesOf home (place log) = []) : Begins origin place log { home } where
  home := sound
  recording := recording
  idle := rfl
  wire := rfl
  still := rfl
  sent := fun _ listed => absurd listed List.not_mem_nil
  numbered := by
    constructor
    · rintro number id ⟨exchange, lookup, -⟩
      cases lookup
    · rintro number other id ⟨exchange, lookup, -⟩
      cases lookup
    · intro number inside
      cases inside
  past := fun _ => rfl
  seen := fun _ => Nat.le_refl _
  shows := by
    constructor
    · intro number id _ taken
      cases taken
    · intro copy inside
      rw [empty] at inside
      cases inside

theorem Invariant.run (invariant : Invariant origin place log world)
    (injective : Function.Injective place) (contents : Contents) {events : List Event}
    (session : Execution.Along (CaptureLink.step contents origin place) (Session origin place log)
      world events) :
    Invariant origin place log
        (Execution.run (CaptureLink.step contents origin place) world events) ∧
      Later world (Execution.run (CaptureLink.step contents origin place) world events) := by
  refine Execution.run_invariant (CaptureLink.step contents origin place)
    (Session origin place log) (fun last => Invariant origin place log last ∧ Later world last) ?_
    ⟨invariant, .same rfl rfl rfl⟩ session
  rintro last event ⟨kept, later⟩ goes
  obtain ⟨next, further⟩ := kept.step injective contents goes
  exact ⟨next, later.trans further⟩

/-- Both worlds show an exchange as it was when it was last taken. -/
theorem Invariant.neverBack (invariant : Invariant origin place log world)
    (last : Invariant origin place log next) (later : Later world next) :
    NeverBack origin place log world next := by
  intro copy inside other listed id keyed remote
  obtain ⟨number, is, -, shown⟩ := invariant.shows.copies copy inside id keyed
  obtain ⟨same, also, -, shows⟩ := last.shows.copies other listed id remote
  have kept := later.kept log number id is
  obtain rfl := last.numbered.distinct number same id kept also
  refine ⟨number, kept, later.seen number, ?_, shows⟩
  obtain ⟨exchange, lookup, -⟩ := exists_of_remoteOf keyed
  have here : contentOf world.home copy = some (content exchange.data) := by
    simp [contentOf, lookup]
  rw [here] at shown ⊢
  exact getElem?_of_before (later.before number) shown

/-- In every session: once nothing is left to publish, to send or to take, fghjd has every exchange
of the sidecar's ring as it is, but for those from before its last clear, and at no time has it gone
back to an older state of any. -/
theorem shipped_newest (contents : Contents) (injective : Function.Injective place)
    (begins : Begins origin place log world) {events : List Event}
    (session : Execution.Along (step contents origin place) (Session origin place log) world
      events) :
    (Drained (Execution.run (step contents origin place) world events) →
      ∀ number ∈ entriesOf (Execution.run (step contents origin place) world events).side log,
        clearedAt (Execution.run (step contents origin place) world events).home (place log) ≤
            startedAt (Execution.run (step contents origin place) world events).side number →
          Newest origin place log (Execution.run (step contents origin place) world events)
            number) ∧
      ∀ front back, events = front ++ back →
        NeverBack origin place log (Execution.run (step contents origin place) world front)
          (Execution.run (step contents origin place) world events) := by
  constructor
  · intro drained number inside since
    obtain ⟨invariant, -⟩ := begins.invariant.run injective contents session
    have covered := invariant.covered number inside since
    rw [World.versions, drained.taken] at covered
    apply invariant.newest inside
    apply covered.newest
    simp [World.Announced, World.unread, drained.published, drained.shipped, Stream.awaits,
      Stream.queue, Stream.position]
  · rintro front back rfl
    obtain ⟨first, second⟩ := (Execution.along_append _ _ world front back).mp session
    obtain ⟨invariant, -⟩ := begins.invariant.run injective contents first
    obtain ⟨last, later⟩ := invariant.run injective contents second
    rw [Execution.run_append]
    exact invariant.neverBack last later

end Invariant

/-- The bodies do not matter to the link. -/
def plain : Contents := ⟨fun _ _ => true, fun _ _ => []⟩

/-- fghjd records one node, which it has cleared at some time. -/
def recorder (clearedMs : Nat) : Store :=
  Execution.run (Traffic.step plain) {} [.opened, .setMode 0 (some .all), .clear 0 clearedMs]

theorem begins_recorder (clearedMs : Nat) : Begins 9 id 0 { home := recorder clearedMs } :=
  begins_first (sound_run plain _) ⟨_, rfl, rfl⟩ rfl

/-- A request is recorded, shipped, answered while the stream lags, and shipped again. -/
def answered : List Event :=
  [.opened, .setMode 0 (some .all), .begin 0 [] 5, .subscribe, .list, .copy, .copy, .publish 0,
    .ship, .look, .push, .change 0 (.response 200 [] false), .lag 1, .publish 0, .list, .copy,
    .copy, .ship, .look, .receive, .ship, .look]

theorem shipped_newest_answered :
    Newest 9 id 0 (Execution.run (step plain 9 id) { home := recorder 3 } answered) 0 := by
  refine (shipped_newest plain Function.injective_id (begins_recorder 3) ?_).1 ?_ 0 ?_ ?_
  · simp only [answered, Execution.along_cons, Execution.along_nil, Session, and_true, true_and]
    rintro - ring found
    cases found
    decide
  · exact ⟨by decide, rfl, by decide⟩
  · decide
  · decide

/-- A request of an earlier session that began before fghjd's last clear. -/
def stale : World :=
  Execution.run (step plain 9 id) { home := recorder 5 }
    [.opened, .setMode 0 (some .all), .begin 0 [] 3, .publish 0]

/-- It is shipped in the next session too, and dropped. -/
theorem cleared_not_shipped :
    ¬∀ (contents : Contents) (origin : Nat) (place : Nat → Nat) (log : Nat) (world : World)
      (events : List Event), Function.Injective place → Begins origin place log world →
        Execution.Along (step contents origin place) (Session origin place log) world events →
          Drained (Execution.run (step contents origin place) world events) →
            ∀ number ∈ entriesOf (Execution.run (step contents origin place) world events).side log,
              Newest origin place log (Execution.run (step contents origin place) world events)
                number := by
  intro holds
  have earlier : Execution.Along (step plain 9 id) (Session 9 id 0) { home := recorder 5 }
      [.opened, .setMode 0 (some .all), .begin 0 [] 3, .publish 0] := by
    simp only [Execution.along_cons, Execution.along_nil, Session, and_true, true_and]
    rintro - ring found
    cases found
    decide
  have begins : Begins 9 id 0 stale :=
    ((begins_recorder 5).invariant.run Function.injective_id plain earlier).1.begins
  have missing := holds plain 9 id 0 stale [.subscribe, .list, .copy, .copy, .ship, .look]
    Function.injective_id begins (by simp [Session]) ⟨by decide, rfl, by decide⟩ 0
    (by decide)
  cases missing with
  | held copy inside =>
      have empty : entriesOf (Execution.run (step plain 9 id) stale
          [.subscribe, .list, .copy, .copy, .ship, .look]).home 0 = [] := by decide
      rw [id, empty] at inside
      cases inside
  | evicted copy exchange lookup =>
      have none_there : (Execution.run (step plain 9 id) stale
          [.subscribe, .list, .copy, .copy, .ship, .look]).home.exchanges.length = 0 := by
        decide
      rw [List.length_eq_zero_iff.mp none_there] at lookup
      cases lookup

end CaptureLink
end Fghj
