import Fghj.Traffic
import Mathlib.Data.List.Infix

/-!
# What recorded traffic holds

The budgets bound what the older exchanges of the rings are counted as. What they hold is bounded
too as long as none of them takes in more of a body without being counted anew.
-/

namespace Fghj
namespace Traffic

/-- What the exchanges of a ring hold, without the newest. -/
def Store.olderHeld (store : Store) (ring : TrafficLog) : Nat :=
  (ring.entries.dropLast.map store.heldOf).sum

/-- What the exchanges of a ring are counted as, without the newest. -/
def Store.olderCounted (store : Store) (ring : TrafficLog) : Nat :=
  (ring.entries.dropLast.map store.accountedOf).sum

/-- A measure of rings is within the budgets, of each node and of all nodes. -/
def Within (store : Store) (measure : TrafficLog → Nat) : Prop :=
  (∀ ring ∈ store.logs, measure ring ≤ nodeBudget) ∧
    (store.logs.map measure).sum ≤ globalBudget

/-- No older exchange holds more than it is counted as. -/
def Covered (store : Store) : Prop :=
  ∀ (log : Nat) (ring : TrafficLog), store.logs[log]? = some ring →
    ∀ number ∈ ring.entries.dropLast, store.heldOf number ≤ store.accountedOf number

/-- The newest exchange of a ring. -/
def Store.newest (store : Store) (log : Nat) : Option Nat :=
  (store.logs[log]?).bind fun ring => ring.entries.getLast?

/-- More of a body is kept for the newest exchange of a ring alone, and a ring takes in another
exchange when its newest is counted as all it holds. -/
def paced (store : Store) : Event → Bool
  | .chunk number side bytes =>
      (store.exchanges[number]?).all fun exchange =>
        !exchange.data.inRing ||
          decide ((exchange.data.chunk side bytes).weight ≤ exchange.data.weight) ||
          store.newest exchange.log == some number
  | event =>
      (event.pushes store).all fun log =>
        (store.newest log).all fun number =>
          decide (store.heldOf number ≤ store.accountedOf number)

section Budget

variable {store next : Store} {event : Event} {log : Nat} {ring : TrafficLog}

/-- A ring counts its older exchanges among all of them. -/
theorem RingBooks.olderCounted_le (books : RingBooks store log ring) :
    store.olderCounted ring ≤ ring.bytes := by
  rw [books.bytes, Store.olderCounted]
  exact ((List.dropLast_sublist ring.entries).map _).sum_le_sum fun _ _ => Nat.zero_le _

/-- A store whose rings are no heavier is within the budgets too. -/
theorem Within.lighter {measure lighter_measure : TrafficLog → Nat} (within : Within store measure)
    (length : next.logs.length = store.logs.length)
    (lighter : ∀ (log : Nat) (ring changed : TrafficLog), store.logs[log]? = some ring →
      next.logs[log]? = some changed → lighter_measure changed ≤ measure ring) :
    Within next lighter_measure := by
  refine ⟨fun changed member => ?_, Nat.le_trans (Slots.sum_le_sum length lighter) within.2⟩
  obtain ⟨log, found⟩ := List.getElem?_of_mem member
  obtain ⟨ring, before⟩ : ∃ ring, store.logs[log]? = some ring :=
    ⟨_, List.getElem?_eq_getElem (length ▸ (List.getElem?_eq_some_iff.mp found).1)⟩
  exact Nat.le_trans (lighter log ring changed before found)
    (within.1 ring (List.mem_of_getElem? before))

theorem Covered.within (covered : Covered store) (within : Within store store.olderCounted) :
    Within store store.olderHeld := by
  refine within.lighter rfl fun log ring changed found same => ?_
  rw [found] at same
  cases same
  exact List.sum_le_sum fun number member => covered log ring found number member

/-! ## Rings that are counted anew -/

/-- The exchanges of the other rings hold, and are counted as, what they were. -/
def Undisturbed (store next : Store) (log : Nat) : Prop :=
  ∀ (other : Nat) (ring : TrafficLog), log ≠ other → store.logs[other]? = some ring →
    ∀ number ∈ ring.entries, next.accountedOf number = store.accountedOf number ∧
      next.heldOf number = store.heldOf number

theorem undisturbed_pushBack (books : Books store) (log : Nat) (ring : TrafficLog) (data : Data)
    (remote : Option (Nat × Nat)) :
    Undisturbed store (store.pushBack log ring data remote) log := by
  intro other held _ found number member
  have before := (books.rings other held found).number_lt member
  simp only [Store.accountedOf, Store.heldOf, Store.pushBack, List.getElem?_append_left before,
    and_self]

theorem undisturbed_recounted (books : Books store) {number : Nat} {exchange : Exchange}
    (lookup : store.exchanges[number]? = some exchange) (ring : TrafficLog) (data : Data) :
    Undisturbed store (store.recounted number exchange ring data) exchange.log := by
  intro other held different found listed member
  obtain ⟨foreign, there, owned, -⟩ := (books.rings other held found).here listed member
  have apart : number ≠ listed := by
    rintro rfl
    rw [lookup] at there
    cases there
    exact different owned
  simp only [Store.accountedOf, Store.heldOf, Store.recounted, List.getElem?_set_ne apart, and_self]

theorem Undisturbed.trimmed {middle : Store} (undisturbed : Undisturbed store middle log)
    (trimmed : Trimmed middle next log) : Undisturbed store next log := by
  intro other ring different found number member
  rw [trimmed.accounted, trimmed.held]
  exact undisturbed other ring different found number member

/-- Evicting leaves a ring with the last of its exchanges. -/
theorem Trimmed.logs_eq (trimmed : Trimmed store next log)
    (found : store.logs[log]? = some ring) :
    ∃ left, next.logs = store.logs.set log left ∧ left.entries <:+ ring.entries := by
  obtain ⟨left, after, suffix, -⟩ := trimmed.ring ring found
  refine ⟨left, List.ext_getElem? fun other => ?_, suffix⟩
  by_cases same : log = other
  · subst same
    rw [after, Slots.getElem?_set_self found]
  · rw [trimmed.others other same, List.getElem?_set_ne same]

/-- A ring that fits again is within the budgets. -/
theorem Within.refit (within : Within store store.olderCounted)
    (found : store.logs[log]? = some ring) {left : TrafficLog}
    (logs : next.logs = store.logs.set log left) (undisturbed : Undisturbed store next log)
    (sound : Sound next) (fits : Fits next log) : Within next next.olderCounted := by
  have here : next.logs[log]? = some left := by rw [logs, Slots.getElem?_set_self found]
  have length : next.logs.length = store.logs.length := by rw [logs, List.length_set]
  have others {other : Nat} {held : TrafficLog} (different : log ≠ other)
      (lookup : store.logs[other]? = some held) :
      next.olderCounted held = store.olderCounted held := by
    rw [Store.olderCounted, Store.olderCounted]
    congr 1
    exact List.map_congr_left fun number member =>
      (undisturbed other held different lookup number (List.mem_of_mem_dropLast member)).1
  rcases fits left here with single | ⟨-, node, total⟩
  · -- the newest exchange is all there is left of the ring
    refine within.lighter length fun other before after lookup changed => ?_
    rw [logs] at changed
    rcases Slots.getElem?_set_cases changed with ⟨rfl, rfl⟩ | ⟨different, unchanged⟩
    · have none_older : after.entries.dropLast = [] :=
        List.eq_nil_of_length_eq_zero (by rw [List.length_dropLast]; omega)
      rw [Store.olderCounted, none_older]
      exact Nat.zero_le _
    · rw [lookup] at unchanged
      cases unchanged
      rw [others different lookup]
  · constructor
    · intro changed member
      obtain ⟨other, lookup⟩ := List.getElem?_of_mem member
      by_cases same : log = other
      · subst same
        rw [here] at lookup
        cases lookup
        exact Nat.le_trans (sound.books.rings log left here).olderCounted_le node
      · rw [logs, List.getElem?_set_ne same] at lookup
        rw [others same lookup]
        exact within.1 changed (List.mem_of_getElem? lookup)
    · refine Nat.le_trans (Slots.sum_le_sum rfl fun other before after lookup same => ?_)
        (sound.books.total ▸ total)
      rw [lookup] at same
      cases same
      exact (sound.books.rings other before lookup).olderCounted_le

/-! ## Steps and runs -/

theorem accountedOf_updateData (store : Store) (number : Nat) (update : Data → Data) :
    (store.updateData number update).accountedOf = store.accountedOf := by
  funext other
  rw [Store.updateData]
  split
  · rfl
  · rename_i exchange found
    by_cases same : number = other
    · subst same
      simp only [Store.accountedOf, Slots.getElem?_set_self found, found, Option.elim_some]
    · simp only [Store.accountedOf, List.getElem?_set_ne same]

theorem heldOf_updateData_ne (store : Store) {number other : Nat} (different : number ≠ other)
    (update : Data → Data) : (store.updateData number update).heldOf other =
      store.heldOf other := by
  rw [Store.updateData]
  split
  · rfl
  · simp only [Store.heldOf, List.getElem?_set_ne different]

theorem heldOf_updateData {number : Nat} {exchange : Exchange}
    (found : store.exchanges[number]? = some exchange) (update : Data → Data) :
    (store.updateData number update).heldOf number = (update exchange.data).weight := by
  simp only [Store.updateData, found, Store.heldOf, Slots.getElem?_set_self found,
    Option.elim_some]
  rfl

theorem logs_updateData (store : Store) (number : Nat) (update : Data → Data) :
    (store.updateData number update).logs = store.logs := by
  rw [Store.updateData]
  split <;> rfl

/-- Clearing a ring changes nothing its exchanges hold or are counted as. -/
theorem lookups_cleared (store : Store) (log : Nat) (ring : TrafficLog) (nowMs : Nat) :
    (store.cleared log ring nowMs).accountedOf = store.accountedOf ∧
      (store.cleared log ring nowMs).heldOf = store.heldOf := by
  constructor <;> funext number
  · simp only [Store.accountedOf, Store.cleared, getElem?_foldl_modify]
    cases store.exchanges[number]? with
    | none => rfl
    | some exchange => by_cases listed : number ∈ ring.entries <;> simp [listed]
  · simp only [Store.heldOf, Store.cleared, getElem?_foldl_modify]
    cases store.exchanges[number]? with
    | none => rfl
    | some exchange => by_cases listed : number ∈ ring.entries <;> simp [listed, Data.weight]

/-- What an event does keeps the older exchanges within the budgets, as they are counted. -/
theorem Moved.within (moved : Moved store event next) (sound : Sound store)
    (within : Within store store.olderCounted) : Within next next.olderCounted := by
  cases moved with
  | still => exact within
  | opened =>
      refine ⟨fun ring member => ?_, ?_⟩
      · rcases List.mem_append.mp member with before | last
        · exact within.1 ring before
        · rw [List.mem_singleton.mp last]
          exact Nat.zero_le _
      · rw [List.map_append, List.sum_append]
        exact within.2
  | mode quiet log mode =>
      rw [Store.setMode]
      split
      · exact within
      · rename_i ring found
        refine within.lighter (by rw [List.length_set]) fun other before after lookup changed => ?_
        rcases Slots.getElem?_set_cases changed with ⟨rfl, rfl⟩ | ⟨-, unchanged⟩
        · rw [found] at lookup
          cases lookup
          exact Nat.le_refl _
        · rw [lookup] at unchanged
          cases unchanged
          exact Nat.le_refl _
  | @cleared quiet log ring found nowMs =>
      have counted := (lookups_cleared store log ring nowMs).1
      refine within.lighter (by rw [Store.cleared, List.length_set]) ?_
      intro other before after lookup changed
      rcases Slots.getElem?_set_cases changed with ⟨rfl, rfl⟩ | ⟨-, unchanged⟩
      · exact Nat.zero_le _
      · rw [lookup] at unchanged
        cases unchanged
        rw [Store.olderCounted, counted, ← Store.olderCounted]
  | updated quiet number update =>
      refine within.lighter (by rw [logs_updateData]) fun log ring changed found same => ?_
      rw [logs_updateData, found] at same
      cases same
      rw [Store.olderCounted, accountedOf_updateData, ← Store.olderCounted]
  | @pushed log ring data remote next pushes found inside fresh evicts =>
      obtain ⟨last, ends, kept, fits, trimmed⟩ :=
        (sound.books.pushBack found inside fresh).evict_sound (Slots.getElem?_set_self found _)
          sound.short_set
      rw [evicts] at ends
      cases ends
      obtain ⟨left, logs, -⟩ := trimmed.logs_eq (Slots.getElem?_set_self found _)
      rw [Store.pushBack, List.set_set] at logs
      exact within.refit found logs
        ((undisturbed_pushBack sound.books log ring data remote).trimmed trimmed) kept fits
  | recounted data pushes recounts found lookup member evicts =>
      obtain ⟨last, ends, kept, fits, trimmed⟩ :=
        (sound.books.recounted found lookup member data).evict_sound
          (Slots.getElem?_set_self found _) sound.short_set
      rw [evicts] at ends
      cases ends
      obtain ⟨left, logs, -⟩ := trimmed.logs_eq (Slots.getElem?_set_self found _)
      rw [Store.recounted, List.set_set] at logs
      exact within.refit found logs
        ((undisturbed_recounted sound.books lookup _ data).trimmed trimmed) kept fits

theorem mem_dropLast_of_suffix {front back : List Nat} (suffix : front <:+ back) {number : Nat}
    (member : number ∈ front.dropLast) : number ∈ back.dropLast := by
  obtain ⟨rest, rfl⟩ := suffix
  have more : front ≠ [] := by
    rintro rfl
    exact List.not_mem_nil member
  rw [List.dropLast_append_of_ne_nil more]
  exact List.mem_append_right rest member

theorem heldOf_le_of_pushes (kept : paced store event) (pushes : event.pushes store = some log)
    {number : Nat} (newest : store.newest log = some number) :
    store.heldOf number ≤ store.accountedOf number := by
  cases event with
  | chunk => cases pushes
  | _ => simpa [paced, pushes, newest] using kept

/-- Covered exchanges stay covered in every ring but one, and it is enough to look at that one. -/
theorem Covered.refit (covered : Covered store) {left : TrafficLog}
    (logs : next.logs = store.logs.set log left) (undisturbed : Undisturbed store next log)
    (own : ∀ number ∈ left.entries.dropLast, next.heldOf number ≤ next.accountedOf number) :
    Covered next := by
  intro other held found number member
  rw [logs] at found
  rcases Slots.getElem?_set_cases found with ⟨rfl, rfl⟩ | ⟨different, before⟩
  · exact own number member
  · obtain ⟨accounted, holds⟩ :=
      undisturbed other held different before number (List.mem_of_mem_dropLast member)
    rw [accounted, holds]
    exact covered other held before number member

/-- More of a body that is kept at a good pace is not for an older exchange. -/
theorem Covered.updated (covered : Covered store) (sound : Sound store)
    (kept : paced store event) (number : Nat) (update : Data → Data)
    (lighter : ∀ exchange, store.exchanges[number]? = some exchange → exchange.data.inRing →
      (update exchange.data).weight ≤ exchange.data.weight ∨
        ∃ side bytes, event = .chunk number side bytes ∧ update = Data.chunk side bytes) :
    Covered (store.updateData number update) := by
  intro log ring found other member
  rw [logs_updateData] at found
  rw [accountedOf_updateData]
  have before := covered log ring found other member
  by_cases same : number = other
  · subst same
    have books := sound.books.rings log ring found
    obtain ⟨exchange, lookup, owned, inside⟩ := books.here number (List.mem_of_mem_dropLast member)
    have holds : store.heldOf number = exchange.data.weight := by
      rw [Store.heldOf, lookup, Option.elim_some]
    rw [heldOf_updateData lookup]
    suffices light : (update exchange.data).weight ≤ exchange.data.weight by omega
    rcases lighter exchange lookup inside with light | ⟨side, bytes, rfl, rfl⟩
    · exact light
    · have choices : (exchange.data.chunk side bytes).weight ≤ exchange.data.weight ∨
          ring.entries.getLast? = some number := by
        simpa [paced, lookup, inside, owned, Store.newest, found] using kept
      rcases choices with light | newest
      · exact light
      · -- the newest exchange is not among the older ones
        have distinct := books.nodup
        rw [← List.dropLast_append_getLast? number newest, List.nodup_append] at distinct
        exact absurd rfl (distinct.2.2 number member number (List.mem_singleton.mpr rfl))
  · rw [heldOf_updateData_ne store same]
    exact before

/-- What an event does at a good pace keeps the older exchanges covered. -/
theorem Moved.covered (moved : Moved store event next) (sound : Sound store)
    (kept : paced store event) (covered : Covered store) : Covered next := by
  cases moved with
  | still => exact covered
  | opened =>
      intro log ring found number member
      rw [List.getElem?_append] at found
      split at found
      · exact covered log ring found number member
      · rw [List.mem_singleton.mp (List.mem_of_getElem? found)] at member
        exact absurd member List.not_mem_nil
  | mode quiet log mode =>
      rw [Store.setMode]
      split
      · exact covered
      · rename_i ring found
        refine covered.refit rfl (fun _ _ _ _ _ _ => ⟨rfl, rfl⟩) ?_
        exact covered log ring found
  | @cleared quiet log ring found nowMs =>
      obtain ⟨accounted, holds⟩ := lookups_cleared store log ring nowMs
      refine covered.refit rfl (fun _ _ _ _ number _ => ⟨?_, ?_⟩) ?_
      · rw [accounted]
      · rw [holds]
      · intro number member
        exact absurd member List.not_mem_nil
  | updated quiet number update lighter => exact covered.updated sound kept number update lighter
  | @pushed log ring data remote next pushes found inside fresh evicts =>
      obtain ⟨last, ends, -, -, trimmed⟩ :=
        (sound.books.pushBack found inside fresh).evict_sound (Slots.getElem?_set_self found _)
          sound.short_set
      rw [evicts] at ends
      cases ends
      obtain ⟨left, logs, suffix⟩ := trimmed.logs_eq (Slots.getElem?_set_self found _)
      rw [Store.pushBack, List.set_set] at logs
      refine covered.refit logs
        ((undisturbed_pushBack sound.books log ring data remote).trimmed trimmed) ?_
      intro number member
      have older : number ∈ ring.entries := by
        simpa using mem_dropLast_of_suffix suffix member
      have earlier := (sound.books.rings log ring found).number_lt older
      have unchanged : next.heldOf number = store.heldOf number ∧
          next.accountedOf number = store.accountedOf number := by
        rw [trimmed.held, trimmed.accounted]
        simp only [Store.accountedOf, Store.heldOf, Store.pushBack,
          List.getElem?_append_left earlier, and_self]
      rw [unchanged.1, unchanged.2]
      by_cases newest : ring.entries.getLast? = some number
      · exact heldOf_le_of_pushes kept pushes (by simp [Store.newest, found, newest])
      · exact covered log ring found number
          (List.mem_dropLast_of_mem_of_ne_getLast? older fun same => newest same.symm)
  | @recounted number exchange ring next data pushes recounts found lookup member evicts =>
      obtain ⟨last, ends, -, -, trimmed⟩ :=
        (sound.books.recounted found lookup member data).evict_sound
          (Slots.getElem?_set_self found _) sound.short_set
      rw [evicts] at ends
      cases ends
      obtain ⟨left, logs, suffix⟩ := trimmed.logs_eq (Slots.getElem?_set_self found _)
      rw [Store.recounted, List.set_set] at logs
      refine covered.refit logs
        ((undisturbed_recounted sound.books lookup ring data).trimmed trimmed) ?_
      intro other listed
      rw [trimmed.held, trimmed.accounted]
      by_cases same : number = other
      · subst same
        simp only [Store.heldOf, Store.accountedOf, Store.recounted,
          Slots.getElem?_set_self lookup, Option.elim_some]
        exact Nat.le_refl _
      · simp only [Store.heldOf, Store.accountedOf, Store.recounted, List.getElem?_set_ne same]
        exact covered _ ring found other (mem_dropLast_of_suffix suffix listed)

/-- In every run the budgets bound what the older exchanges are counted as, and in a run at a good
pace no older exchange holds more than that. -/
theorem within_run (contents : Contents) {events : List Event}
    (kept : Execution.Along (step contents) (fun store event => paced store event) {} events) :
    Within (Execution.run (step contents) {} events)
      (Execution.run (step contents) {} events).olderHeld := by
  have invariant := Execution.run_invariant (step contents) _
    (fun store => Sound store ∧ Within store store.olderCounted ∧ Covered store)
    (by
      rintro store event ⟨sound, within, covered⟩ kept
      obtain ⟨next, attempts, moved⟩ := sound.attempt contents event
      rw [step, attempts]
      exact ⟨(moved.sound sound).1, moved.within sound within, moved.covered sound kept covered⟩)
    ⟨.empty, ⟨fun _ member => absurd member List.not_mem_nil, Nat.zero_le _⟩,
      fun _ _ found => by cases found⟩ kept
  exact invariant.2.2.within invariant.2.1

end Budget

/-- A request whose body has ended before the next comes in. -/
theorem within_run_in_turn :
    Within (Execution.run (step ⟨fun _ _ => true, fun _ _ => []⟩) {}
        [.opened, .setMode 0 (some .all), .begin 0 [] 0, .chunk 0 .request [104, 105],
          .finish 0 .request .done, .begin 0 [] 1])
      (Execution.run (step ⟨fun _ _ => true, fun _ _ => []⟩) {}
        [.opened, .setMode 0 (some .all), .begin 0 [] 0, .chunk 0 .request [104, 105],
          .finish 0 .request .done, .begin 0 [] 1]).olderHeld :=
  within_run ⟨fun _ _ => true, fun _ _ => []⟩ ⟨rfl, rfl, rfl, rfl, rfl, rfl, trivial⟩

/-- More of every one of the first exchanges. -/
def flood (body : List UInt8) (count : Nat) : List Event :=
  (List.range count).map fun number => .chunk number .request body

theorem exchanges_updateData_ne (store : Store) {number other : Nat} (different : number ≠ other)
    (update : Data → Data) :
    (store.updateData number update).exchanges[other]? = store.exchanges[other]? := by
  rw [Store.updateData]
  split
  · rfl
  · exact List.getElem?_set_ne different

theorem run_flood (contents : Contents) (store : Store) (body : List UInt8) (count : Nat) :
    (Execution.run (step contents) store (flood body count)).logs = store.logs ∧
      (∀ number, count ≤ number →
        (Execution.run (step contents) store (flood body count)).exchanges[number]? =
          store.exchanges[number]?) ∧
      ∀ number exchange, number < count → store.exchanges[number]? = some exchange →
        (Execution.run (step contents) store (flood body count)).heldOf number =
          (exchange.data.chunk .request body).weight := by
  induction count with
  | zero => exact ⟨rfl, fun _ _ => rfl, fun _ _ before => absurd before (Nat.not_lt_zero _)⟩
  | succ count ih =>
      obtain ⟨logs, later, earlier⟩ := ih
      have split_run : Execution.run (step contents) store (flood body (count + 1)) =
          (Execution.run (step contents) store (flood body count)).updateData count
            (Data.chunk .request body) := by
        rw [flood, List.range_succ, List.map_append, Execution.run_append]
        rfl
      rw [split_run]
      refine ⟨by rw [logs_updateData, logs], fun number beyond => ?_, ?_⟩
      · rw [exchanges_updateData_ne _ (Nat.ne_of_lt beyond)]
        exact later number (Nat.le_of_succ_le beyond)
      · intro number exchange within found
        rcases Nat.lt_succ_iff_lt_or_eq.mp within with before | rfl
        · rw [heldOf_updateData_ne _ (Nat.ne_of_gt before)]
          exact earlier number exchange before found
        · exact heldOf_updateData ((later number (Nat.le_refl _)).trans found) _

/-- What is recorded of a request before its body comes in. -/
def asked : Data where
  startedAtMs := 0
  mode := .all
  requestHeaders := []
  request := .new .all []

/-- A node that records everything and has some requests under way. -/
def requested (count : Nat) : Store where
  logs := [{ mode := some .all, entries := List.range count, nextId := count + 1 }]
  exchanges := (List.range count).map fun place =>
    { id := place + 1, remote := none, log := 0, data := asked }

theorem step_requested (contents : Contents) {count : Nat} (few : count < maxExchanges) :
    step contents (requested count) (.begin 0 [] 0) = requested (count + 1) := by
  have pushed : (requested count).pushBack 0
      { mode := some .all, entries := List.range count, nextId := count + 1 } asked none =
        requested (count + 1) := by
    simp only [maxExchanges] at few
    simp [Store.pushBack, requested, List.range_succ, asked]
    omega
  have fits : (requested (count + 1)).overfull 0 = false := by
    simp only [maxExchanges] at few
    simp [Store.overfull, requested, maxExchanges]
    omega
  have through : (requested count).begin 0 [] 0 = some (requested (count + 1)) := by
    show (requested count).push 0 asked none = _
    rw [Store.push]
    show ((requested count).pushBack 0 _ asked none).evict 0 = _
    rw [pushed, evict_of_fits fits]
  rw [step, attempt, through, Option.getD_some]

theorem run_requested (contents : Contents) {count : Nat} (few : count ≤ maxExchanges) :
    Execution.run (step contents) {}
      ([.opened, .setMode 0 (some .all)] ++ List.replicate count (.begin 0 [] 0)) =
      requested count := by
  induction count with
  | zero => rfl
  | succ count ih =>
      rw [List.replicate_succ', ← List.append_assoc, Execution.run_append,
        ih (Nat.le_of_succ_le few)]
      exact step_requested contents few

/-- The body of a request, as far as it is kept. -/
theorem weight_asked_chunk {body : List UInt8} (full : body.length = bodyCap) :
    (asked.chunk .request body).weight = bodyCap := by
  have whole : body.take bodyCap = body := List.take_of_length_le (Nat.le_of_eq full)
  simp only [asked, Data.chunk, Data.weight, Captured.push, Captured.new, classify,
    Captured.weight, headersWeight, Captured.pending, List.map_nil, List.sum_nil, List.length_nil,
    List.nil_append, Nat.sub_zero, whole, full, Nat.add_zero, Nat.zero_add]

/-- Ten requests with large bodies come in at once. -/
theorem within_run_not_always :
    ¬∀ (contents : Contents) (events : List Event),
      Within (Execution.run (step contents) {} events)
        (Execution.run (step contents) {} events).olderHeld := by
  intro holds
  let contents : Contents := ⟨fun _ _ => true, fun _ _ => []⟩
  have within := holds contents
    (([.opened, .setMode 0 (some .all)] ++ List.replicate 10 (.begin 0 [] 0)) ++
      flood (List.replicate bodyCap 0) 9)
  rw [Execution.run_append, run_requested contents (by decide)] at within
  have large : (List.replicate bodyCap (0 : UInt8)).length = bodyCap := List.length_replicate
  generalize List.replicate bodyCap (0 : UInt8) = body at within large
  obtain ⟨logs, -, held⟩ := run_flood contents (requested 10) body 9
  have older : (List.range 9).map (Execution.run (step contents) (requested 10)
      (flood body 9)).heldOf = (List.range 9).map fun _ => bodyCap := by
    refine List.map_congr_left fun number member => ?_
    have early := List.mem_range.mp member
    have found : (requested 10).exchanges[number]? =
        some { id := number + 1, remote := none, log := 0, data := asked } := by
      rw [requested, List.getElem?_map, List.getElem?_range (by omega), Option.map_some]
    rw [held number _ early found]
    exact weight_asked_chunk large
  have budget := within.1 { mode := some .all, entries := List.range 10, nextId := 11 } (by
    rw [logs]
    exact List.mem_singleton.mpr rfl)
  rw [Store.olderHeld, show (List.range 10).dropLast = List.range 9 from rfl, older] at budget
  exact absurd budget (by decide)

end Traffic
end Fghj
