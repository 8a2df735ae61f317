import Fghj.Library.Execution
import Fghj.Library.Slots
import Fghj.Library.Text
import Mathlib.Data.List.Nodup

/-!
# Recorded traffic

Every node has a ring of the exchanges its proxy recorded. What the exchanges of a ring are counted
as is summed up per ring and over all rings, and the oldest go when a ring gets too long or a sum
too large. The count of an exchange is brought up to date when it is answered and when one of its
bodies ends, not while a body comes in.
-/

namespace Fghj
namespace Traffic

/-- The most exchanges a ring keeps. -/
def maxExchanges : Nat := 1000

/-- The most bytes of one node. -/
def nodeBudget : Nat := 64 * 2 ^ 20

/-- The most bytes of all nodes. -/
def globalBudget : Nat := 128 * 2 ^ 20

/-- The most bytes kept of one body. -/
def bodyCap : Nat := 8 * 2 ^ 20

/-! ## Exchanges -/

/-- Which bodies a recording keeps. -/
inductive BodyMode where
  | none
  | text
  | all
  deriving DecidableEq

inductive Omitted where
  | headersOnly
  | binary
  deriving DecidableEq

inductive Keep where
  | full
  /-- Kept, then dropped at the end unless it turned out to be text. -/
  | sniff
  | drop (why : Omitted)
  deriving DecidableEq

inductive BodyState where
  | pending
  | streaming
  | done
  | aborted
  | error
  deriving DecidableEq

/-- A part of a multipart body: a field, or the shape of a file. -/
structure Part where
  name : Option String
  filename : Option String
  contentType : Option String
  size : Nat
  text : Option String

def Part.weight (part : Part) : Nat := part.text.elim 0 String.utf8ByteSize + 64

/-- Names and values, the names in lower case. -/
abbrev Headers := List (String × String)

/-- A header's value if it can be shown as text. -/
def headerStr (headers : Headers) (name : String) : Option String :=
  ((headers.find? fun header => header.1 == name).map Prod.snd).bind fun value =>
    if value.toList.all fun char => char == '\t' || (' ' ≤ char && char ≤ '~') then
      some (String.ofList (Text.trim value.toList))
    else none

def headersWeight (headers : Headers) : Nat :=
  (headers.map fun header => header.1.utf8ByteSize + header.2.utf8ByteSize + 4).sum

/-- The bare `type/subtype` in lower case. -/
def essence (contentType : String) : String :=
  let front := contentType.toList.takeWhile (· ≠ ';')
  (String.ofList (Text.trim front)).toLower

/-- The two sides of a slash. -/
def typeAndSub (contentType : String) : String × String :=
  match Text.splitOnce '/' contentType.toList with
  | some (front, back) => (String.ofList front, String.ofList back)
  | none => (contentType, "")

def isTextual (contentType : String) : Bool :=
  let (ty, sub) := typeAndSub contentType
  ty == "text" ||
    ["json", "x-ndjson", "xml", "x-www-form-urlencoded", "javascript", "x-javascript", "ecmascript",
      "graphql", "problem+json"].contains sub ||
    sub.endsWith "+json" || sub.endsWith "+xml"

def isBinary (contentType : String) : Bool :=
  let (ty, sub) := typeAndSub contentType
  ["image", "video", "audio", "font"].contains ty ||
    ["octet-stream", "zip", "gzip", "x-tar", "pdf", "wasm", "x-protobuf", "protobuf", "grpc",
      "vnd.ms-fontobject"].contains sub

/-- What is to be kept of a body of this type. -/
def classify (mode : BodyMode) (contentType : Option String) : Keep :=
  match mode with
  | .none => .drop .headersOnly
  | .all => .full
  | .text =>
      match contentType.map essence with
      | none => .sniff
      | some essence =>
          if essence = "" then .sniff
          else if isTextual essence || essence.startsWith "multipart/" then .full
          else if isBinary essence then .drop .binary
          else .sniff

/-- The boundary a multipart type declares. -/
def multipartBoundary (contentType : String) : Option String :=
  if !(essence contentType).startsWith "multipart/" then none
  else
    ((contentType.toList.splitOn ';').drop 1).findSome? fun param =>
      (Text.splitOnce '=' param).bind fun (key, value) =>
        if (String.ofList (Text.trim key)).toLower = "boundary" then
          let quoted := (Text.trim value).dropWhile (· = '"')
          some (String.ofList (quoted.reverse.dropWhile (· = '"')).reverse)
        else none

/-- How the contents of bodies are read: by decoders of other packages, and as text. -/
structure Contents where
  looksLikeText : List UInt8 → Option String → Bool
  parseMultipart : List UInt8 → String → List Part

/-- What is kept of one body. -/
structure Captured where
  keep : Keep
  data : List UInt8 := []
  /-- On the wire, past the cap too. -/
  size : Nat := 0
  truncated : Bool := false
  state : BodyState := .pending
  contentType : Option String := none
  contentEncoding : Option String := none
  parts : List Part := []

namespace Captured

def new (mode : BodyMode) (headers : Headers) : Captured :=
  let contentType := headerStr headers "content-type"
  { keep := classify mode contentType
    contentType
    contentEncoding := (headerStr headers "content-encoding").filter fun encoding =>
      encoding.toLower ≠ "identity" }

def pending : Captured := new .none []

/-- More of the body, as far as it is kept. -/
def push (captured : Captured) (chunk : List UInt8) : Captured :=
  let captured := { captured with state := .streaming, size := captured.size + chunk.length }
  match captured.keep with
  | .drop _ => captured
  | _ =>
      let room := bodyCap - captured.data.length
      { captured with
        truncated := captured.truncated || decide (room < chunk.length)
        data := captured.data ++ chunk.take room }

/-- The body has ended: what turned out not to be text goes, a form is kept as its parts. -/
def finish (contents : Contents) (captured : Captured) (state : BodyState) (mode : BodyMode) :
    Captured :=
  let captured := { captured with state }
  let captured :=
    if captured.keep = .sniff &&
        !contents.looksLikeText captured.data captured.contentEncoding then
      { captured with keep := .drop .binary, data := [] }
    else captured
  if mode = .text && captured.contentEncoding.isNone then
    match captured.contentType.bind multipartBoundary with
    | none => captured
    | some boundary =>
        let parts := contents.parseMultipart captured.data boundary
        { captured with parts, data := if parts.isEmpty then captured.data else [] }
  else captured

def weight (captured : Captured) : Nat :=
  captured.data.length + (captured.parts.map Part.weight).sum

end Captured

/-- What is recorded of one exchange. -/
structure Data where
  startedAtMs : Nat
  mode : BodyMode
  requestHeaders : Headers
  responseHeaders : Headers := []
  status : Option Nat := none
  error : Option String := none
  upgraded : Bool := false
  request : Captured
  response : Captured := .pending
  /-- The bytes the exchange is counted as in its ring. -/
  accounted : Nat := 0
  /-- Whether it has been neither evicted nor cleared. -/
  inRing : Bool := true

/-- The bytes an exchange holds. -/
def Data.weight (data : Data) : Nat :=
  headersWeight data.requestHeaders + headersWeight data.responseHeaders +
    data.request.weight + data.response.weight

structure Exchange where
  id : Nat
  /-- The proxy that recorded it and its id there, if another proxy did. -/
  remote : Option (Nat × Nat)
  /-- The log whose recording this is. -/
  log : Nat
  data : Data

structure TrafficLog where
  mode : Option BodyMode := none
  /-- The ring, by the numbers of its exchanges, oldest first. -/
  entries : List Nat := []
  bytes : Nat := 0
  nextId : Nat := 1
  clearedAtMs : Nat := 0

/-- Every log, the sum over all rings, and every exchange there has been. -/
structure Store where
  logs : List TrafficLog := []
  total : Nat := 0
  exchanges : List Exchange := []

/-! ## Operations -/

/-- Subtraction of machine words, nothing on underflow. -/
def sub? (whole part : Nat) : Option Nat := if part ≤ whole then some (whole - part) else none

namespace Store

variable (store : Store)

/-- Change one exchange and leave its count and its place alone. -/
def updateData (number : Nat) (update : Data → Data) : Store :=
  match store.exchanges[number]? with
  | none => store
  | some exchange =>
      let data := { update exchange.data with
        accounted := exchange.data.accounted, inRing := exchange.data.inRing }
      { store with exchanges := store.exchanges.set number { exchange with data } }

/-- Take the oldest exchange out of a ring. -/
def popFront (log : Nat) : Option Store := do
  let ring ← store.logs[log]?
  let old ← ring.entries.head?
  let exchange ← store.exchanges[old]?
  let bytes ← sub? ring.bytes exchange.data.accounted
  let total ← sub? store.total exchange.data.accounted
  some
    { logs := store.logs.set log { ring with entries := ring.entries.tail, bytes }
      total
      exchanges := store.exchanges.set old
        { exchange with data := { exchange.data with inRing := false } } }

/-- The ring has more than one exchange, and too many of them or too many bytes. -/
def overfull (log : Nat) : Bool :=
  match store.logs[log]? with
  | none => false
  | some ring =>
      decide (1 < ring.entries.length) &&
        (decide (maxExchanges < ring.entries.length) || decide (nodeBudget < ring.bytes) ||
          decide (globalBudget < store.total))

/-- Take exchanges out of a ring until it fits, at most `fuel` of them. -/
def evictWithin (log : Nat) : Nat → Store → Option Store
  | 0, store => some store
  | fuel + 1, store =>
      if store.overfull log then (store.popFront log).bind (evictWithin log fuel) else some store

/-- Take exchanges out of a ring until it fits. The newest always stays. -/
def evict (log : Nat) : Option Store :=
  evictWithin log ((store.logs[log]?).elim 0 fun ring => ring.entries.length) store

/-- A new exchange at the end of a ring. -/
def pushBack (log : Nat) (ring : TrafficLog) (data : Data) (remote : Option (Nat × Nat)) : Store :=
  { logs := store.logs.set log
      { ring with
        entries := ring.entries ++ [store.exchanges.length]
        bytes := ring.bytes + data.accounted
        nextId := (ring.nextId + 1) % 2 ^ 64 }
    total := store.total + data.accounted
    exchanges := store.exchanges ++ [{ id := ring.nextId, remote, log, data }] }

def push (log : Nat) (data : Data) (remote : Option (Nat × Nat)) : Option Store := do
  let ring ← store.logs[log]?
  (store.pushBack log ring data remote).evict log

/-- Count an exchange of a ring as what it holds with other data. -/
def recount (number : Nat) (exchange : Exchange) (data : Data) : Option Store := do
  let ring ← store.logs[exchange.log]?
  let weight := data.weight
  let bytes ← sub? (ring.bytes + weight) exchange.data.accounted
  let total ← sub? (store.total + weight) exchange.data.accounted
  some
    { logs := store.logs.set exchange.log { ring with bytes }
      total
      exchanges := store.exchanges.set number
        { exchange with data := { data with accounted := weight, inRing := true } } }

/-- Bring the count of an exchange in line with what it holds. -/
def account (number : Nat) : Option Store := do
  let exchange ← store.exchanges[number]?
  if exchange.data.inRing then
    (← store.recount number exchange exchange.data).evict exchange.log
  else some store

/-- Forget a ring. -/
def clear (log nowMs : Nat) : Option Store := do
  let ring ← store.logs[log]?
  let total ← sub? store.total ring.bytes
  some
    { logs := store.logs.set log { ring with entries := [], bytes := 0, clearedAtMs := nowMs }
      total
      exchanges := ring.entries.foldl (fun exchanges number =>
        exchanges.modify number fun exchange =>
          { exchange with data := { exchange.data with inRing := false } }) store.exchanges }

def setMode (log : Nat) (mode : Option BodyMode) : Store :=
  match store.logs[log]? with
  | none => store
  | some ring => { store with logs := store.logs.set log { ring with mode } }

/-- Start recording a request, unless its node isn't recording. -/
def begin (log : Nat) (headers : Headers) (nowMs : Nat) : Option Store :=
  match store.logs[log]? with
  | none => some store
  | some ring =>
      match ring.mode with
      | none => some store
      | some mode =>
          store.push log
            { startedAtMs := nowMs
              mode
              requestHeaders := headers
              request := .new mode headers
              accounted := headersWeight headers } none

/-- The newest exchange of a ring that this other proxy recorded under this id. -/
def known (entries : List Nat) (key : Nat × Nat) : Option Nat :=
  entries.reverse.find? fun number =>
    (store.exchanges[number]?).any fun exchange => exchange.remote == some key

/-- Add or update an exchange another proxy recorded. -/
def ingest (log origin id : Nat) (data : Data) : Option Store :=
  match store.logs[log]? with
  | none => some store
  | some ring =>
      if ring.mode.isNone then some store
      else
        match store.known ring.entries (origin, id) with
        | some number => do
            let exchange ← store.exchanges[number]?
            (← store.recount number exchange data).evict log
        | none =>
            if data.startedAtMs < ring.clearedAtMs then some store
            else
              store.push log { data with accounted := data.weight, inRing := true }
                (some (origin, id))

end Store

inductive Side where
  | request
  | response
  deriving DecidableEq

/-- What happens to a store. -/
inductive Event where
  /-- A node's log is asked for the first time. -/
  | opened
  | setMode (log : Nat) (mode : Option BodyMode)
  | clear (log nowMs : Nat)
  | begin (log : Nat) (headers : Headers) (nowMs : Nat)
  | response (number status : Nat) (headers : Headers) (upgraded : Bool)
  | fail (number : Nat) (error : String)
  | chunk (number : Nat) (side : Side) (bytes : List UInt8)
  | finish (number : Nat) (side : Side) (state : BodyState)
  | ingest (log origin id : Nat) (data : Data)

/-- More of a body of an exchange. -/
def Data.chunk (side : Side) (bytes : List UInt8) (data : Data) : Data :=
  match side with
  | .request => { data with request := data.request.push bytes }
  | .response => { data with response := data.response.push bytes }

section Run

variable (contents : Contents)

/-- A body of an exchange has ended. -/
def Data.finish (side : Side) (state : BodyState) (data : Data) : Data :=
  match side with
  | .request => { data with request := data.request.finish contents state data.mode }
  | .response => { data with response := data.response.finish contents state data.mode }

/-- What becomes of the store, nothing when a count underflows. -/
def attempt (store : Store) : Event → Option Store
  | .opened => some { store with logs := store.logs ++ [{}] }
  | .setMode log mode => some (store.setMode log mode)
  | .clear log nowMs => if log < store.logs.length then store.clear log nowMs else some store
  | .begin log headers nowMs => store.begin log headers nowMs
  | .response number status headers upgraded =>
      if number < store.exchanges.length then
        (store.updateData number fun data =>
          { data with
            status := some status
            responseHeaders := headers
            response := .new data.mode headers
            upgraded }).account number
      else some store
  | .fail number error =>
      some (store.updateData number fun data =>
        { data with status := some 502, error := some error })
  | .chunk number side bytes => some (store.updateData number (Data.chunk side bytes))
  | .finish number side state =>
      if number < store.exchanges.length then
        (store.updateData number (Data.finish contents side state)).account number
      else some store
  | .ingest log origin id data => store.ingest log origin id data

def step (store : Store) (event : Event) : Store := (attempt contents store event).getD store

end Run

/-! ## The books -/

/-- What an exchange is counted as. -/
def Store.accountedOf (store : Store) (number : Nat) : Nat :=
  (store.exchanges[number]?).elim 0 fun exchange => exchange.data.accounted

def Store.idOf (store : Store) (number : Nat) : Nat :=
  (store.exchanges[number]?).elim 0 fun exchange => exchange.id

def Store.remoteOf (store : Store) (number : Nat) : Option (Nat × Nat) :=
  (store.exchanges[number]?).bind fun exchange => exchange.remote

/-- The ring counts its exchanges, which are marked as its own, and gave them their ids in order. -/
structure RingBooks (store : Store) (log : Nat) (ring : TrafficLog) : Prop where
  bytes : ring.bytes = (ring.entries.map store.accountedOf).sum
  nodup : ring.entries.Nodup
  here : ∀ number ∈ ring.entries, ∃ exchange, store.exchanges[number]? = some exchange ∧
    exchange.log = log ∧ exchange.data.inRing
  numbered : ∀ (place number : Nat), ring.entries[place]? = some number →
    (store.idOf number + (ring.entries.length - place)) % 2 ^ 64 = ring.nextId
  remotes : (ring.entries.filterMap store.remoteOf).Nodup

/-- Every ring counts its exchanges, the total counts the rings, and an exchange marked as in a ring
is there. -/
structure Books (store : Store) : Prop where
  rings : ∀ (log : Nat) (ring : TrafficLog), store.logs[log]? = some ring → RingBooks store log ring
  total : store.total = (store.logs.map TrafficLog.bytes).sum
  there : ∀ (number : Nat) (exchange : Exchange), store.exchanges[number]? = some exchange →
    exchange.data.inRing → ∃ ring, store.logs[exchange.log]? = some ring ∧ number ∈ ring.entries

/-- What the books have of an exchange. -/
def Exchange.outline (exchange : Exchange) : Nat × Option (Nat × Nat) × Nat × Nat × Bool :=
  (exchange.id, exchange.remote, exchange.log, exchange.data.accounted, exchange.data.inRing)

variable {exchange : Exchange}

section Books

variable {store next : Store} {log : Nat} {ring : TrafficLog}

theorem accountedOf_eq {number : Nat} (found : store.exchanges[number]? = some exchange) :
    store.accountedOf number = exchange.data.accounted := by
  simp [Store.accountedOf, found]

theorem lookups_of_outline {number : Nat}
    (same : (next.exchanges[number]?).map Exchange.outline =
      (store.exchanges[number]?).map Exchange.outline) :
    next.accountedOf number = store.accountedOf number ∧ next.idOf number = store.idOf number ∧
      next.remoteOf number = store.remoteOf number := by
  simp only [Store.accountedOf, Store.idOf, Store.remoteOf]
  cases after : next.exchanges[number]? with
  | none =>
      cases before : store.exchanges[number]? with
      | none => exact ⟨rfl, rfl, rfl⟩
      | some exchange => simp [after, before] at same
  | some changed =>
      cases before : store.exchanges[number]? with
      | none => simp [after, before] at same
      | some exchange =>
          simp only [after, before, Option.map_some, Option.some.injEq, Exchange.outline,
            Prod.mk.injEq] at same
          exact ⟨same.2.2.2.1, same.1, same.2.1⟩

/-- The books of a ring are about the outlines of its exchanges. -/
theorem RingBooks.congr (books : RingBooks store log ring)
    (same : ∀ number ∈ ring.entries, (next.exchanges[number]?).map Exchange.outline =
      (store.exchanges[number]?).map Exchange.outline) : RingBooks next log ring where
  bytes := by
    rw [books.bytes]
    congr 1
    exact List.map_congr_left fun number member => (lookups_of_outline (same number member)).1.symm
  nodup := books.nodup
  here := by
    intro number member
    obtain ⟨exchange, found, owned, inside⟩ := books.here number member
    have outlined := same number member
    rw [found, Option.map_some, Option.map_eq_some_iff] at outlined
    obtain ⟨changed, after, equal⟩ := outlined
    simp only [Exchange.outline, Prod.mk.injEq] at equal
    exact ⟨changed, after, by rw [equal.2.2.1, owned], by rw [equal.2.2.2.2, inside]⟩
  numbered := by
    intro place number found
    rw [(lookups_of_outline (same number (List.mem_of_getElem? found))).2.1]
    exact books.numbered place number found
  remotes := by
    rw [List.filterMap_congr fun number member => (lookups_of_outline (same number member)).2.2]
    exact books.remotes

/-- A change of the exchanges that keeps their outlines keeps the books. -/
theorem Books.congr (books : Books store) (logs : next.logs = store.logs)
    (total : next.total = store.total)
    (same : ∀ number : Nat, (next.exchanges[number]?).map Exchange.outline =
      (store.exchanges[number]?).map Exchange.outline) : Books next where
  rings := by
    intro log ring found
    rw [logs] at found
    exact (books.rings log ring found).congr fun number _ => same number
  total := by rw [total, logs, books.total]
  there := by
    intro number changed after inside
    have outlined := same number
    rw [after, Option.map_some, eq_comm, Option.map_eq_some_iff] at outlined
    obtain ⟨exchange, before, equal⟩ := outlined
    simp only [Exchange.outline, Prod.mk.injEq] at equal
    rw [logs, ← equal.2.2.1]
    exact books.there number exchange before (by rw [equal.2.2.2.2, inside])

/-- A change of one ring and its exchanges keeps the books if it keeps those of the ring. -/
theorem Books.change (books : Books store) (found : store.logs[log]? = some ring)
    {changed : TrafficLog} (logs : next.logs = store.logs.set log changed)
    (total : next.total + ring.bytes = store.total + changed.bytes)
    (own : RingBooks next log changed)
    (foreign : ∀ (number : Nat) (exchange : Exchange), store.exchanges[number]? = some exchange →
      exchange.log ≠ log → next.exchanges[number]? = some exchange)
    (there : ∀ (number : Nat) (exchange : Exchange), next.exchanges[number]? = some exchange →
      exchange.data.inRing → exchange.log = log ∧ number ∈ changed.entries ∨
        exchange.log ≠ log ∧ store.exchanges[number]? = some exchange) : Books next where
  rings := by
    intro other held lookup
    rw [logs] at lookup
    rcases Slots.getElem?_set_cases lookup with ⟨rfl, rfl⟩ | ⟨different, before⟩
    · exact own
    · have kept := books.rings other held before
      refine kept.congr fun number member => ?_
      obtain ⟨exchange, lookup, owned, -⟩ := kept.here number member
      rw [lookup, foreign number exchange lookup (by rw [owned]; exact different.symm)]
  total := by
    have sums := Slots.sum_map_set found TrafficLog.bytes changed
    have before := books.total
    rw [logs]
    omega
  there := by
    intro number exchange after inside
    rw [logs]
    rcases there number exchange after inside with ⟨owned, member⟩ | ⟨different, before⟩
    · rw [owned]
      exact ⟨changed, Slots.getElem?_set_self found changed, member⟩
    · rw [List.getElem?_set_ne different.symm]
      exact books.there number exchange before inside

theorem Books.updateData (books : Books store) (number : Nat) (update : Data → Data) :
    Books (store.updateData number update) := by
  rw [Store.updateData]
  split
  · exact books
  · rename_i exchange found
    refine books.congr rfl rfl fun other => ?_
    by_cases same : number = other
    · subst same
      rw [Slots.getElem?_set_self found, found]
      rfl
    · rw [List.getElem?_set_ne same]

theorem Books.opened (books : Books store) : Books { store with logs := store.logs ++ [{}] } where
  rings := by
    intro log ring found
    rw [List.getElem?_append] at found
    split at found
    · exact (books.rings log ring found).congr fun _ _ => rfl
    · have empty := List.mem_singleton.mp (List.mem_of_getElem? found)
      subst empty
      constructor <;> simp
  total := by simp [books.total]
  there := by
    intro number exchange found inside
    obtain ⟨ring, held, member⟩ := books.there number exchange found inside
    have bound := (List.getElem?_eq_some_iff.mp held).1
    exact ⟨ring, by rw [List.getElem?_append_left bound, held], member⟩

theorem Books.setMode (books : Books store) (log : Nat) (mode : Option BodyMode) :
    Books (store.setMode log mode) := by
  rw [Store.setMode]
  split
  · exact books
  · rename_i ring found
    have kept := books.rings log ring found
    refine books.change found rfl rfl ?_ (fun _ _ before _ => before) ?_
    · exact ⟨kept.bytes, kept.nodup, kept.here, kept.numbered, kept.remotes⟩
    · intro number exchange before inside
      by_cases owned : exchange.log = log
      · obtain ⟨held, lookup, member⟩ := books.there number exchange before inside
        rw [owned, found] at lookup
        cases lookup
        exact .inl ⟨owned, member⟩
      · exact .inr ⟨owned, before⟩

/-- An exchange that is marked as in a ring is in it. -/
theorem Books.member (books : Books store) (found : store.logs[log]? = some ring) {number : Nat}
    (lookup : store.exchanges[number]? = some exchange) (owned : exchange.log = log)
    (inside : exchange.data.inRing) : number ∈ ring.entries := by
  obtain ⟨held, there, member⟩ := books.there number exchange lookup inside
  rw [owned, found] at there
  cases there
  exact member

theorem Books.bytes_le_total (books : Books store) (found : store.logs[log]? = some ring) :
    ring.bytes ≤ store.total := by
  rw [books.total]
  exact Slots.weight_le_sum found TrafficLog.bytes

theorem RingBooks.accounted_le (books : RingBooks store log ring) {number : Nat}
    (lookup : store.exchanges[number]? = some exchange) (member : number ∈ ring.entries) :
    exchange.data.accounted ≤ ring.bytes := by
  obtain ⟨place, found⟩ := List.getElem?_of_mem member
  rw [books.bytes, ← accountedOf_eq lookup]
  exact Slots.weight_le_sum found store.accountedOf

theorem sub?_eq {whole part : Nat} (fits : part ≤ whole) : sub? whole part = some (whole - part) :=
  if_pos fits

/-- The ring without its oldest exchange. -/
def Store.popped (store : Store) (log : Nat) (ring : TrafficLog) (old : Nat) (rest : List Nat)
    (exchange : Exchange) : Store :=
  { logs := store.logs.set log
      { ring with entries := rest, bytes := ring.bytes - exchange.data.accounted }
    total := store.total - exchange.data.accounted
    exchanges := store.exchanges.set old
      { exchange with data := { exchange.data with inRing := false } } }

theorem Books.popFront_eq (books : Books store) (found : store.logs[log]? = some ring) {old : Nat}
    {rest : List Nat} (entries : ring.entries = old :: rest) :
    ∃ exchange, store.exchanges[old]? = some exchange ∧ exchange.log = log ∧
      exchange.data.accounted ≤ ring.bytes ∧
      store.popFront log = some (store.popped log ring old rest exchange) := by
  have kept := books.rings log ring found
  have member : old ∈ ring.entries := entries ▸ List.mem_cons_self
  obtain ⟨exchange, lookup, owned, -⟩ := kept.here old member
  have fits := kept.accounted_le lookup member
  have total := Nat.le_trans fits (books.bytes_le_total found)
  refine ⟨exchange, lookup, owned, fits, ?_⟩
  simp [Store.popFront, found, entries, lookup, sub?_eq fits, sub?_eq total, Store.popped]

theorem Books.popped (books : Books store) (found : store.logs[log]? = some ring) {old : Nat}
    {rest : List Nat} (entries : ring.entries = old :: rest)
    (lookup : store.exchanges[old]? = some exchange) (owned : exchange.log = log) :
    Books (store.popped log ring old rest exchange) := by
  have kept := books.rings log ring found
  have member : old ∈ ring.entries := entries ▸ List.mem_cons_self
  have fits := kept.accounted_le lookup member
  have total := books.bytes_le_total found
  have distinct := kept.nodup
  rw [entries, List.nodup_cons] at distinct
  have other {number : Nat} (member : number ∈ rest) : old ≠ number := by
    rintro rfl
    exact distinct.1 member
  refine books.change found rfl ?_ ?_ ?_ ?_
  · simp only [Store.popped]
    omega
  · -- what is left of the ring has the books it had, but for the oldest exchange
    have rest_books : RingBooks store log
        { ring with entries := rest, bytes := ring.bytes - exchange.data.accounted } := by
      constructor
      · have counted := kept.bytes
        rw [entries, List.map_cons, List.sum_cons, accountedOf_eq lookup] at counted
        simp only
        omega
      · exact distinct.2
      · intro number inside
        exact kept.here number (entries ▸ List.mem_cons_of_mem old inside)
      · intro place number held
        have numbered := kept.numbered (place + 1) number (by rw [entries]; exact held)
        rw [entries, List.length_cons, Nat.add_sub_add_right] at numbered
        exact numbered
      · have remotes := kept.remotes
        rw [entries] at remotes
        exact remotes.sublist ((List.sublist_cons_self old rest).filterMap _)
    refine rest_books.congr fun number inside => ?_
    rw [Store.popped, List.getElem?_set_ne (other inside)]
  · intro number foreign before different
    have apart : old ≠ number := by
      rintro rfl
      rw [lookup] at before
      cases before
      exact different owned
    rw [Store.popped, List.getElem?_set_ne apart, before]
  · intro number held after inside
    rcases Slots.getElem?_set_cases after with ⟨rfl, rfl⟩ | ⟨apart, before⟩
    · cases inside
    · by_cases mine : held.log = log
      · have listed := books.member found before mine inside
        rw [entries, List.mem_cons] at listed
        exact .inl ⟨mine, listed.resolve_left (Ne.symm apart)⟩
      · exact .inr ⟨mine, before⟩

/-- Every exchange of a ring is one of those there have been. -/
theorem RingBooks.number_lt (books : RingBooks store log ring) {number : Nat}
    (member : number ∈ ring.entries) : number < store.exchanges.length := by
  obtain ⟨exchange, lookup, -⟩ := books.here number member
  exact (List.getElem?_eq_some_iff.mp lookup).1

theorem Books.pushBack (books : Books store) (found : store.logs[log]? = some ring) {data : Data}
    (inside : data.inRing) {remote : Option (Nat × Nat)}
    (fresh : ∀ key, remote = some key → key ∉ ring.entries.filterMap store.remoteOf) :
    Books (store.pushBack log ring data remote) := by
  have kept := books.rings log ring found
  have newest : (store.pushBack log ring data remote).exchanges[store.exchanges.length]? =
      some { id := ring.nextId, remote, log, data } := by
    simp [Store.pushBack]
  have earlier {number : Nat} (before : number < store.exchanges.length) :
      (store.pushBack log ring data remote).exchanges[number]? = store.exchanges[number]? :=
    List.getElem?_append_left before
  have old_books : RingBooks (store.pushBack log ring data remote) log ring :=
    kept.congr fun number member => by rw [earlier (kept.number_lt member)]
  refine books.change found rfl ?_ ?_ ?_ ?_
  · simp only [Store.pushBack]
    omega
  · constructor
    · simp only [List.map_append, List.map_cons, List.map_nil, List.sum_append, List.sum_cons,
        List.sum_nil, accountedOf_eq newest, ← old_books.bytes, Nat.add_zero]
    · rw [List.nodup_append]
      refine ⟨kept.nodup, by simp, fun number member other last => ?_⟩
      rw [List.mem_singleton.mp last]
      exact Nat.ne_of_lt (kept.number_lt member)
    · intro number member
      rcases List.mem_append.mp member with before | last
      · exact old_books.here number before
      · rw [List.mem_singleton.mp last]
        exact ⟨_, newest, rfl, inside⟩
    · intro place number held
      rw [List.getElem?_append] at held
      split at held
      · rename_i bound
        have numbered := old_books.numbered place number held
        simp only [List.length_append, List.length_singleton]
        omega
      · rename_i beyond
        obtain ⟨bound, -⟩ := List.getElem?_eq_some_iff.mp held
        have number_eq := List.mem_singleton.mp (List.mem_of_getElem? held)
        rw [List.length_singleton] at bound
        have place_eq : place = ring.entries.length := by omega
        rw [number_eq, place_eq, Store.idOf, newest]
        simp
    · rw [List.filterMap_append, List.nodup_append]
      refine ⟨old_books.remotes, ?_, fun key member other last => ?_⟩
      · cases remote <;> simp [Store.remoteOf, newest]
      · have remote_eq : remote = some other := by
          simpa [Store.remoteOf, newest] using last
        have unchanged : ring.entries.filterMap (store.pushBack log ring data remote).remoteOf =
            ring.entries.filterMap store.remoteOf :=
          List.filterMap_congr fun number member =>
            (lookups_of_outline (by rw [earlier (kept.number_lt member)])).2.2
        rw [unchanged] at member
        rintro rfl
        exact fresh key remote_eq member
  · intro number exchange before _
    rw [earlier (List.getElem?_eq_some_iff.mp before).1, before]
  · intro number exchange after marked
    simp only [Store.pushBack] at after
    rw [List.getElem?_append] at after
    split at after
    · by_cases mine : exchange.log = log
      · exact .inl ⟨mine, List.mem_append_left _ (books.member found after mine marked)⟩
      · exact .inr ⟨mine, after⟩
    · rename_i beyond
      obtain ⟨bound, -⟩ := List.getElem?_eq_some_iff.mp after
      have exchange_eq := List.mem_singleton.mp (List.mem_of_getElem? after)
      rw [List.length_singleton] at bound
      have number_eq : number = store.exchanges.length := by omega
      rw [exchange_eq, number_eq]
      exact .inl ⟨rfl, by simp⟩

/-- The store with an exchange of a ring counted anew. -/
def Store.recounted (store : Store) (number : Nat) (exchange : Exchange) (ring : TrafficLog)
    (data : Data) : Store :=
  { logs := store.logs.set exchange.log
      { ring with bytes := ring.bytes + data.weight - exchange.data.accounted }
    total := store.total + data.weight - exchange.data.accounted
    exchanges := store.exchanges.set number
      { exchange with data := { data with accounted := data.weight, inRing := true } } }

theorem Books.recount_eq (books : Books store) (found : store.logs[exchange.log]? = some ring)
    {number : Nat} (lookup : store.exchanges[number]? = some exchange)
    (member : number ∈ ring.entries) (data : Data) :
    store.recount number exchange data = some (store.recounted number exchange ring data) := by
  have fits := (books.rings _ ring found).accounted_le lookup member
  have total := books.bytes_le_total found
  simp [Store.recount, found, sub?_eq (show exchange.data.accounted ≤ ring.bytes + data.weight by
    omega), sub?_eq (show exchange.data.accounted ≤ store.total + data.weight by omega),
    Store.recounted]

/-- The counts of a list of exchanges change with the one that is counted anew. -/
theorem sum_accountedOf_set {numbers : List Nat} (distinct : numbers.Nodup) {number : Nat}
    (member : number ∈ numbers) {exchange changed : Exchange}
    (lookup : store.exchanges[number]? = some exchange)
    (exchanges : next.exchanges = store.exchanges.set number changed) :
    (numbers.map next.accountedOf).sum + exchange.data.accounted =
      (numbers.map store.accountedOf).sum + changed.data.accounted := by
  have away {other : Nat} (different : number ≠ other) :
      next.accountedOf other = store.accountedOf other := by
    rw [Store.accountedOf, exchanges, List.getElem?_set_ne different, Store.accountedOf]
  have here : next.accountedOf number = changed.data.accounted := by
    rw [Store.accountedOf, exchanges, Slots.getElem?_set_self lookup]
    rfl
  induction numbers with
  | nil => cases member
  | cons first numbers ih =>
      rw [List.nodup_cons] at distinct
      simp only [List.map_cons, List.sum_cons]
      rcases List.mem_cons.mp member with rfl | later
      · have rest : numbers.map next.accountedOf = numbers.map store.accountedOf :=
          List.map_congr_left fun other listed => away fun same => distinct.1 (same ▸ listed)
        rw [rest, here, accountedOf_eq lookup]
        omega
      · have different : number ≠ first := fun same => distinct.1 (same ▸ later)
        have sums := ih distinct.2 later
        rw [away different]
        omega

theorem Books.recounted (books : Books store) (found : store.logs[exchange.log]? = some ring)
    {number : Nat} (lookup : store.exchanges[number]? = some exchange)
    (member : number ∈ ring.entries) (data : Data) :
    Books (store.recounted number exchange ring data) := by
  have kept := books.rings _ ring found
  have fits := kept.accounted_le lookup member
  have total := books.bytes_le_total found
  have apart {other : Nat} (different : number ≠ other) :
      (store.recounted number exchange ring data).exchanges[other]? = store.exchanges[other]? :=
    List.getElem?_set_ne different
  have here : (store.recounted number exchange ring data).exchanges[number]? = some
      { exchange with data := { data with accounted := data.weight, inRing := true } } :=
    Slots.getElem?_set_self lookup _
  have id_eq (other : Nat) :
      (store.recounted number exchange ring data).idOf other = store.idOf other := by
    by_cases same : number = other
    · subst same
      simp only [Store.idOf, here, lookup, Option.elim_some]
    · simp only [Store.idOf, apart same]
  have remote_eq (other : Nat) :
      (store.recounted number exchange ring data).remoteOf other = store.remoteOf other := by
    by_cases same : number = other
    · subst same
      simp only [Store.remoteOf, here, lookup, Option.bind_some]
    · simp only [Store.remoteOf, apart same]
  refine books.change found rfl ?_ ?_ ?_ ?_
  · simp only [Store.recounted]
    omega
  · constructor
    · have exchanges : (store.recounted number exchange ring data).exchanges =
          store.exchanges.set number _ := rfl
      have sums := sum_accountedOf_set kept.nodup member lookup exchanges
      have before := kept.bytes
      simp only at sums ⊢
      omega
    · exact kept.nodup
    · intro other listed
      by_cases same : number = other
      · subst same
        exact ⟨_, here, rfl, rfl⟩
      · rw [apart same]
        exact kept.here other listed
    · intro place other held
      rw [id_eq]
      exact kept.numbered place other held
    · rw [funext remote_eq]
      exact kept.remotes
  · intro other foreign before different
    have away : number ≠ other := by
      rintro rfl
      rw [lookup] at before
      cases before
      exact different rfl
    rw [apart away, before]
  · intro other held after inside
    rcases Slots.getElem?_set_cases after with ⟨rfl, rfl⟩ | ⟨-, before⟩
    · exact .inl ⟨rfl, member⟩
    · by_cases mine : held.log = exchange.log
      · exact .inl ⟨mine, books.member found before mine inside⟩
      · exact .inr ⟨mine, before⟩

/-- Every exchange of the ring is marked as out of it, and no other. -/
theorem getElem?_foldl_modify (numbers : List Nat) (exchanges : List Exchange) (number : Nat) :
    (numbers.foldl (fun exchanges number => exchanges.modify number fun exchange =>
        { exchange with data := { exchange.data with inRing := false } }) exchanges)[number]? =
      (exchanges[number]?).map fun exchange =>
        if number ∈ numbers then { exchange with data := { exchange.data with inRing := false } }
        else exchange := by
  induction numbers generalizing exchanges with
  | nil => simp
  | cons first numbers ih =>
      rw [List.foldl_cons, ih, List.getElem?_modify]
      by_cases same : first = number
      · cases exchanges[number]? <;> simp [same]
      · cases exchanges[number]? <;> simp [same, Ne.symm same]

/-- The store with a ring forgotten. -/
def Store.cleared (store : Store) (log : Nat) (ring : TrafficLog) (nowMs : Nat) : Store :=
  { logs := store.logs.set log { ring with entries := [], bytes := 0, clearedAtMs := nowMs }
    total := store.total - ring.bytes
    exchanges := ring.entries.foldl (fun exchanges number =>
      exchanges.modify number fun exchange =>
        { exchange with data := { exchange.data with inRing := false } }) store.exchanges }

theorem Books.clear_eq (books : Books store) (found : store.logs[log]? = some ring) (nowMs : Nat) :
    store.clear log nowMs = some (store.cleared log ring nowMs) := by
  simp [Store.clear, found, sub?_eq (books.bytes_le_total found), Store.cleared]

theorem Books.cleared (books : Books store) (found : store.logs[log]? = some ring) (nowMs : Nat) :
    Books (store.cleared log ring nowMs) := by
  have kept := books.rings log ring found
  have total := books.bytes_le_total found
  refine books.change found rfl ?_ ?_ ?_ ?_
  · simp only [Store.cleared]
    omega
  · constructor <;> simp
  · intro number exchange before different
    have apart : number ∉ ring.entries := by
      intro member
      obtain ⟨held, lookup, owned, -⟩ := kept.here number member
      rw [lookup] at before
      cases before
      exact different owned
    simp only [Store.cleared, getElem?_foldl_modify, before, apart, if_false, Option.map_some]
  · intro number exchange after inside
    simp only [Store.cleared, getElem?_foldl_modify, Option.map_eq_some_iff] at after
    obtain ⟨held, before, rfl⟩ := after
    split at inside
    · cases inside
    · rename_i apart
      simp only [apart, if_false]
      exact .inr ⟨fun mine => apart (books.member found before mine inside), before⟩

/-! ## Eviction -/

/-- The bytes an exchange holds. -/
def Store.heldOf (store : Store) (number : Nat) : Nat :=
  (store.exchanges[number]?).elim 0 fun exchange => exchange.data.weight

/-- Some of the oldest exchanges of a ring have gone, and nothing else has changed. -/
structure Trimmed (store next : Store) (log : Nat) : Prop where
  others : ∀ other, log ≠ other → next.logs[other]? = store.logs[other]?
  ring : ∀ ring, store.logs[log]? = some ring → ∃ left, next.logs[log]? = some left ∧
    left.entries <:+ ring.entries ∧ (ring.entries ≠ [] → left.entries ≠ [])
  accounted : next.accountedOf = store.accountedOf
  held : next.heldOf = store.heldOf

theorem Trimmed.refl (store : Store) (log : Nat) : Trimmed store store log where
  others := fun _ _ => rfl
  ring := fun ring found => ⟨ring, found, List.suffix_rfl, id⟩
  accounted := rfl
  held := rfl

theorem Trimmed.trans {last : Store} (first : Trimmed store next log)
    (second : Trimmed next last log) : Trimmed store last log where
  others := fun other different => (second.others other different).trans
    (first.others other different)
  ring := by
    intro ring found
    obtain ⟨left, after, suffix, stays⟩ := first.ring ring found
    obtain ⟨end_, final, shorter, remains⟩ := second.ring left after
    exact ⟨end_, final, shorter.trans suffix, fun some_entries => remains (stays some_entries)⟩
  accounted := second.accounted.trans first.accounted
  held := second.held.trans first.held

theorem trimmed_popped (found : store.logs[log]? = some ring) {old : Nat} {rest : List Nat}
    (entries : ring.entries = old :: rest) (more : rest ≠ [])
    (lookup : store.exchanges[old]? = some exchange) :
    Trimmed store (store.popped log ring old rest exchange) log where
  others := fun other different => List.getElem?_set_ne different
  ring := by
    intro held before
    rw [found] at before
    cases before
    exact ⟨_, Slots.getElem?_set_self found _, by rw [entries]; exact List.suffix_cons _ _,
      fun _ => more⟩
  accounted := by
    funext number
    by_cases same : old = number
    · subst same
      simp only [Store.accountedOf, Store.popped, Slots.getElem?_set_self lookup, lookup,
        Option.elim_some]
    · simp only [Store.accountedOf, Store.popped, List.getElem?_set_ne same]
  held := by
    funext number
    by_cases same : old = number
    · subst same
      simp only [Store.heldOf, Store.popped, Slots.getElem?_set_self lookup, lookup,
        Option.elim_some]
      rfl
    · simp only [Store.heldOf, Store.popped, List.getElem?_set_ne same]

theorem overfull_iff (found : store.logs[log]? = some ring) :
    store.overfull log ↔ 1 < ring.entries.length ∧ (maxExchanges < ring.entries.length ∨
      nodeBudget < ring.bytes ∨ globalBudget < store.total) := by
  simp [Store.overfull, found, or_assoc]

theorem evict_of_fits (fits : store.overfull log = false) : store.evict log = some store := by
  rw [Store.evict]
  generalize (store.logs[log]?).elim 0 _ = fuel
  cases fuel with
  | zero => rfl
  | succ fuel => rw [Store.evictWithin, fits, if_neg Bool.false_ne_true]

/-- Evicting ends with books kept and the ring fitting. -/
theorem Books.evictWithin (books : Books store) (found : store.logs[log]? = some ring) {fuel : Nat}
    (enough : ring.entries.length ≤ fuel) :
    ∃ next, Store.evictWithin log fuel store = some next ∧ Books next ∧ Trimmed store next log ∧
      next.overfull log = false := by
  induction fuel generalizing store ring with
  | zero =>
      refine ⟨store, rfl, books, .refl store log, ?_⟩
      rw [Bool.eq_false_iff, ne_eq, overfull_iff found]
      omega
  | succ fuel ih =>
      rw [Store.evictWithin]
      cases full : store.overfull log with
      | false => exact ⟨store, rfl, books, .refl store log, full⟩
      | true =>
          have long := ((overfull_iff found).mp full).1
          match entries : ring.entries with
          | [] => simp [entries] at long
          | old :: rest =>
              obtain ⟨exchange, lookup, owned, -, pops⟩ := books.popFront_eq found entries
              have more : rest ≠ [] := by
                rintro rfl
                simp [entries] at long
              have popped := books.popped found entries lookup owned
              have left := Slots.getElem?_set_self found
                { ring with entries := rest, bytes := ring.bytes - exchange.data.accounted }
              obtain ⟨next, evicts, kept, trimmed, fits⟩ := ih popped left (by
                rw [entries, List.length_cons] at enough
                exact Nat.le_of_succ_le_succ enough)
              refine ⟨next, ?_, kept, (trimmed_popped found entries more lookup).trans
                trimmed, fits⟩
              rw [if_pos rfl, pops, Option.bind_some, evicts]

theorem Books.evict (books : Books store) (found : store.logs[log]? = some ring) :
    ∃ next, store.evict log = some next ∧ Books next ∧ Trimmed store next log ∧
      next.overfull log = false := by
  rw [Store.evict, found]
  exact books.evictWithin found (Nat.le_refl _)

/-- Every ring keeps its books, and none is longer than a ring may be. -/
structure Sound (store : Store) : Prop where
  books : Books store
  short : ∀ (log : Nat) (ring : TrafficLog), store.logs[log]? = some ring →
    ring.entries.length ≤ maxExchanges

/-- The ring has at most one exchange, or is within its limits. -/
def Fits (store : Store) (log : Nat) : Prop :=
  ∀ ring, store.logs[log]? = some ring → ring.entries.length ≤ 1 ∨
    ring.entries.length ≤ maxExchanges ∧ ring.bytes ≤ nodeBudget ∧ store.total ≤ globalBudget

theorem fits_iff : Fits store log ↔ store.overfull log = false := by
  constructor
  · intro fits
    cases found : store.logs[log]? with
    | none => simp [Store.overfull, found]
    | some ring =>
        have limits := fits ring found
        rw [Bool.eq_false_iff, ne_eq, overfull_iff found]
        omega
  · intro fits ring found
    rw [Bool.eq_false_iff, ne_eq, overfull_iff found] at fits
    omega

/-- Evicting from the one ring that may be too long. -/
theorem Books.evict_sound (books : Books store) (found : store.logs[log]? = some ring)
    (short : ∀ (other : Nat) (held : TrafficLog), log ≠ other → store.logs[other]? = some held →
      held.entries.length ≤ maxExchanges) :
    ∃ next, store.evict log = some next ∧ Sound next ∧ Fits next log ∧ Trimmed store next log := by
  obtain ⟨next, evicts, kept, trimmed, fits⟩ := books.evict found
  refine ⟨next, evicts, ⟨kept, fun other held lookup => ?_⟩, fits_iff.mpr fits, trimmed⟩
  by_cases same : log = other
  · subst same
    rcases fits_iff.mpr fits held lookup with single | limits
    · exact Nat.le_trans single (by decide)
    · exact limits.1
  · rw [trimmed.others other same] at lookup
    exact short other held same lookup

end Books

/-! ## What an event does -/

/-- The ring an event puts a new exchange into. -/
def Event.pushes (store : Store) : Event → Option Nat
  | .begin log _ _ =>
      (store.logs[log]?).bind fun ring => if ring.mode.isSome then some log else none
  | .ingest log origin id data =>
      (store.logs[log]?).bind fun ring =>
        if ring.mode.isSome ∧ store.known ring.entries (origin, id) = none ∧
            ring.clearedAtMs ≤ data.startedAtMs then some log
        else none
  | _ => none

/-- The ring with an exchange an event counts anew. -/
def Event.recounts (store : Store) : Event → Option Nat
  | .response number _ _ _ | .finish number _ _ =>
      (store.exchanges[number]?).bind fun exchange =>
        if exchange.data.inRing then some exchange.log else none
  | .ingest log origin id _ =>
      (store.logs[log]?).bind fun ring =>
        if ring.mode.isSome ∧ (store.known ring.entries (origin, id)).isSome then some log else none
  | _ => none

/-- The ring an event counts anew, with a new exchange or one of its own. -/
def Event.counts (store : Store) (event : Event) : Option Nat :=
  (event.pushes store).or (event.recounts store)

/-- Everything an event does to a store with sound books. -/
inductive Moved (store : Store) (event : Event) : Store → Prop where
  | still (quiet : event.counts store = none) : Moved store event store
  | opened (quiet : event.counts store = none) :
      Moved store event { store with logs := store.logs ++ [{}] }
  | mode (quiet : event.counts store = none) (log : Nat) (mode : Option BodyMode) :
      Moved store event (store.setMode log mode)
  | cleared (quiet : event.counts store = none) {log : Nat} {ring : TrafficLog}
      (found : store.logs[log]? = some ring) (nowMs : Nat) :
      Moved store event (store.cleared log ring nowMs)
  /-- Nothing but the contents of an exchange change. If it is in its ring and gets heavier, more
  of a body has come in. -/
  | updated (quiet : event.counts store = none) (number : Nat) (update : Data → Data)
      (lighter : ∀ exchange, store.exchanges[number]? = some exchange → exchange.data.inRing →
        (update exchange.data).weight ≤ exchange.data.weight ∨
          ∃ side bytes, event = .chunk number side bytes ∧ update = Data.chunk side bytes) :
      Moved store event (store.updateData number update)
  | pushed {log : Nat} {ring : TrafficLog} {data : Data} {remote : Option (Nat × Nat)}
      {next : Store} (pushes : event.pushes store = some log)
      (found : store.logs[log]? = some ring) (inside : data.inRing)
      (fresh : ∀ key, remote = some key → key ∉ ring.entries.filterMap store.remoteOf)
      (evicts : (store.pushBack log ring data remote).evict log = some next) :
      Moved store event next
  | recounted {number : Nat} {exchange : Exchange} {ring : TrafficLog} {next : Store} (data : Data)
      (pushes : event.pushes store = none) (recounts : event.recounts store = some exchange.log)
      (found : store.logs[exchange.log]? = some ring)
      (lookup : store.exchanges[number]? = some exchange) (member : number ∈ ring.entries)
      (evicts : (store.recounted number exchange ring data).evict exchange.log = some next) :
      Moved store event next

section Moves

variable {store next : Store} {event : Event} {log : Nat} {ring : TrafficLog} {key : Nat × Nat}

/-- The other rings stay as short as they were. -/
theorem Sound.short_set (sound : Sound store) {changed : TrafficLog} (other : Nat)
    (held : TrafficLog) (different : log ≠ other)
    (lookup : (store.logs.set log changed)[other]? = some held) :
    held.entries.length ≤ maxExchanges := by
  rw [List.getElem?_set_ne different] at lookup
  exact sound.short other held lookup

/-- What an event does keeps the books sound, and a ring that is counted anew fits. -/
theorem Moved.sound (moved : Moved store event next) (sound : Sound store) :
    Sound next ∧ ∀ log, event.counts store = some log → Fits next log := by
  have silent {next : Store} (quiet : event.counts store = none) (log : Nat)
      (counts : event.counts store = some log) : Fits next log := by
    rw [quiet] at counts
    cases counts
  cases moved with
  | still quiet => exact ⟨sound, silent quiet⟩
  | opened quiet =>
      refine ⟨⟨sound.books.opened, fun log ring found => ?_⟩, silent quiet⟩
      rw [List.getElem?_append] at found
      split at found
      · exact sound.short log ring found
      · rw [List.mem_singleton.mp (List.mem_of_getElem? found)]
        exact Nat.zero_le _
  | mode quiet log mode =>
      refine ⟨⟨sound.books.setMode log mode, fun other held found => ?_⟩, silent quiet⟩
      rw [Store.setMode] at found
      split at found
      · exact sound.short other held found
      · rename_i ring before
        rcases Slots.getElem?_set_cases found with ⟨rfl, rfl⟩ | ⟨-, unchanged⟩
        · exact sound.short log ring before
        · exact sound.short other held unchanged
  | cleared quiet found nowMs =>
      refine ⟨⟨sound.books.cleared found nowMs, fun other held lookup => ?_⟩, silent quiet⟩
      rcases Slots.getElem?_set_cases lookup with ⟨rfl, rfl⟩ | ⟨-, unchanged⟩
      · exact Nat.zero_le _
      · exact sound.short other held unchanged
  | updated quiet number update =>
      refine ⟨⟨sound.books.updateData number update, fun other held found => ?_⟩, silent quiet⟩
      rw [Store.updateData] at found
      split at found <;> exact sound.short other held found
  | pushed pushes found inside fresh evicts =>
      obtain ⟨last, ends, kept, fits, -⟩ := (sound.books.pushBack found inside fresh).evict_sound
        (Slots.getElem?_set_self found _) sound.short_set
      rw [evicts] at ends
      cases ends
      refine ⟨kept, fun log counts => ?_⟩
      rw [Event.counts, pushes, Option.some_or] at counts
      cases counts
      exact fits
  | recounted data pushes recounts found lookup member evicts =>
      obtain ⟨last, ends, kept, fits, -⟩ :=
        (sound.books.recounted found lookup member data).evict_sound
          (Slots.getElem?_set_self found _) sound.short_set
      rw [evicts] at ends
      cases ends
      refine ⟨kept, fun log counts => ?_⟩
      rw [Event.counts, pushes, Option.none_or, recounts] at counts
      cases counts
      exact fits

theorem known_eq_none (none_known : store.known ring.entries key = none) :
    key ∉ ring.entries.filterMap store.remoteOf := by
  intro member
  obtain ⟨number, listed, remote⟩ := List.mem_filterMap.mp member
  have unlike := List.find?_eq_none.mp none_known number (List.mem_reverse.mpr listed)
  rw [Store.remoteOf, Option.bind_eq_some_iff] at remote
  obtain ⟨exchange, lookup, keyed⟩ := remote
  simp [lookup, keyed] at unlike

theorem mem_of_known {number : Nat} (found : store.known ring.entries key = some number) :
    number ∈ ring.entries :=
  List.mem_reverse.mp (List.mem_of_find?_eq_some found)

/-- Pushing onto a ring goes through. -/
theorem Sound.push (sound : Sound store) (found : store.logs[log]? = some ring)
    (pushes : event.pushes store = some log) {data : Data} (inside : data.inRing)
    {remote : Option (Nat × Nat)}
    (fresh : ∀ key, remote = some key → key ∉ ring.entries.filterMap store.remoteOf) :
    ∃ next, store.push log data remote = some next ∧ Moved store event next := by
  obtain ⟨next, evicts, -⟩ := (sound.books.pushBack found inside fresh).evict_sound
    (Slots.getElem?_set_self found _) sound.short_set
  refine ⟨next, ?_, .pushed pushes found inside fresh evicts⟩
  simp [Store.push, found, evicts]

/-- Counting an exchange of a ring anew goes through. -/
theorem Sound.recount (sound : Sound store) (found : store.logs[exchange.log]? = some ring)
    {number : Nat} (lookup : store.exchanges[number]? = some exchange)
    (member : number ∈ ring.entries) (pushes : event.pushes store = none)
    (recounts : event.recounts store = some exchange.log) (data : Data) :
    ∃ next, (store.recount number exchange data).bind (Store.evict · exchange.log) = some next ∧
      Moved store event next := by
  obtain ⟨next, evicts, -⟩ := (sound.books.recounted found lookup member data).evict_sound
    (Slots.getElem?_set_self found _) sound.short_set
  refine ⟨next, ?_, .recounted data pushes recounts found lookup member evicts⟩
  rw [sound.books.recount_eq found lookup member, Option.bind_some, evicts]

/-- An exchange that changes and is then accounted for is counted anew, if it is in its ring. -/
theorem Sound.account (sound : Sound store) {number : Nat}
    (lookup : store.exchanges[number]? = some exchange) (update : Data → Data)
    (pushes : event.pushes store = none)
    (recounts : event.recounts store = if exchange.data.inRing then some exchange.log else none) :
    ∃ next, (store.updateData number update).account number = some next ∧
      Moved store event next := by
  have changed : (store.updateData number update).exchanges[number]? =
      some { exchange with
        data := { update exchange.data with
          accounted := exchange.data.accounted, inRing := exchange.data.inRing } } := by
    rw [Store.updateData, lookup]
    exact Slots.getElem?_set_self lookup _
  cases inside : exchange.data.inRing with
  | false =>
      rw [inside] at recounts changed
      refine ⟨store.updateData number update, by simp [Store.account, changed], .updated ?_ _ _ ?_⟩
      · rw [Event.counts, pushes, recounts]
        rfl
      · intro held before marked
        rw [lookup] at before
        cases before
        rw [inside] at marked
        cases marked
  | true =>
      rw [inside, if_pos rfl] at recounts
      obtain ⟨ring, found, member⟩ := sound.books.there number exchange lookup inside
      obtain ⟨next, evicts, moved⟩ :=
        sound.recount found lookup member pushes recounts (update exchange.data)
      refine ⟨next, ?_, moved⟩
      rw [← evicts, Store.account, changed]
      simp [inside, Store.recount, Store.updateData, lookup, found, Data.weight]

/-- A request starts to be recorded, or its node isn't recording. -/
theorem Sound.begin (sound : Sound store) (log : Nat) (headers : Headers) (nowMs : Nat) :
    ∃ next, store.begin log headers nowMs = some next ∧
      Moved store (.begin log headers nowMs) next := by
  rw [Store.begin]
  split
  · rename_i missing
    exact ⟨store, rfl, .still (by simp [Event.counts, Event.pushes, Event.recounts, missing])⟩
  · rename_i ring found
    split
    · rename_i off
      exact ⟨store, rfl, .still (by simp [Event.counts, Event.pushes, Event.recounts, found, off])⟩
    · rename_i mode recording
      refine sound.push found ?_ rfl fun key none_eq => by cases none_eq
      simp [Event.pushes, found, recording]

/-- A shipped exchange is dropped, updates the one it is known as, or is new. -/
theorem Sound.ingest (sound : Sound store) (log origin id : Nat) (data : Data) :
    ∃ next, store.ingest log origin id data = some next ∧
      Moved store (.ingest log origin id data) next := by
  rw [Store.ingest]
  split
  · rename_i missing
    exact ⟨store, rfl, .still (by simp [Event.counts, Event.pushes, Event.recounts, missing])⟩
  · rename_i ring found
    split
    · rename_i off
      have dropped : ring.mode.isSome = false := by simpa using off
      exact ⟨store, rfl, .still (by
        simp [Event.counts, Event.pushes, Event.recounts, found, dropped])⟩
    · rename_i recording
      have on : ring.mode.isSome := by simpa [← Option.isSome_iff_ne_none] using recording
      split
      · rename_i number known
        have member := mem_of_known known
        obtain ⟨exchange, lookup, owned, -⟩ := (sound.books.rings log ring found).here number member
        subst owned
        simp only [lookup, Option.bind_eq_bind, Option.bind_some]
        refine sound.recount found lookup member ?_ ?_ data
        · simp [Event.pushes, found, known]
        · simp [Event.recounts, found, known, on]
      · rename_i unknown
        split
        · rename_i before
          have dropped : ¬ring.clearedAtMs ≤ data.startedAtMs := by omega
          exact ⟨store, rfl, .still (by
            simp [Event.counts, Event.pushes, Event.recounts, found, unknown, dropped])⟩
        · rename_i since
          have kept : ring.clearedAtMs ≤ data.startedAtMs := by omega
          refine sound.push found ?_ rfl fun key remote => ?_
          · simp [Event.pushes, found, on, unknown, kept]
          · cases remote
            exact known_eq_none unknown

/-- No count underflows, and every event does one of the things an event does. -/
theorem Sound.attempt (sound : Sound store) (contents : Contents) (event : Event) :
    ∃ next, attempt contents store event = some next ∧ Moved store event next := by
  cases event with
  | opened => exact ⟨_, rfl, .opened rfl⟩
  | setMode log mode => exact ⟨_, rfl, .mode rfl log mode⟩
  | clear log nowMs =>
      rw [Traffic.attempt]
      split
      · rename_i bound
        have found := List.getElem?_eq_getElem bound
        exact ⟨_, sound.books.clear_eq found nowMs, .cleared rfl found nowMs⟩
      · exact ⟨store, rfl, .still rfl⟩
  | begin log headers nowMs => exact sound.begin log headers nowMs
  | response number status headers upgraded =>
      rw [Traffic.attempt]
      split
      · rename_i bound
        have lookup := List.getElem?_eq_getElem bound
        refine sound.account lookup _ rfl ?_
        rw [Event.recounts, lookup, Option.bind_some]
      · rename_i beyond
        have missing : store.exchanges[number]? = none := List.getElem?_eq_none (by omega)
        exact ⟨store, rfl, .still (by simp [Event.counts, Event.pushes, Event.recounts, missing])⟩
  | fail number error =>
      exact ⟨_, rfl, .updated rfl number _ fun exchange _ _ => .inl (Nat.le_refl _)⟩
  | chunk number side bytes =>
      exact ⟨_, rfl, .updated rfl number _ fun exchange _ _ => .inr ⟨side, bytes, rfl, rfl⟩⟩
  | finish number side state =>
      rw [Traffic.attempt]
      split
      · rename_i bound
        have lookup := List.getElem?_eq_getElem bound
        refine sound.account lookup _ rfl ?_
        rw [Event.recounts, lookup, Option.bind_some]
      · rename_i beyond
        have missing : store.exchanges[number]? = none := List.getElem?_eq_none (by omega)
        exact ⟨store, rfl, .still (by simp [Event.counts, Event.pushes, Event.recounts, missing])⟩
  | ingest log origin id data => exact sound.ingest log origin id data

theorem Sound.empty : Sound {} where
  books := by
    constructor
    · intro log ring found
      cases found
    · rfl
    · intro number exchange found
      cases found
  short := by
    intro log ring found
    cases found

theorem Sound.step (sound : Sound store) (contents : Contents) (event : Event) :
    Sound (step contents store event) := by
  obtain ⟨next, attempts, moved⟩ := sound.attempt contents event
  rw [Traffic.step, attempts]
  exact (moved.sound sound).1

theorem sound_run (contents : Contents) (events : List Event) :
    Sound (Execution.run (step contents) {} events) :=
  Execution.run_always _ _ (fun _ event sound => sound.step contents event) .empty events

end Moves

/-! ## Exact accounting -/

/-- The counts of a store are exact: of each ring, over all rings, and in what its exchanges say of
themselves. -/
structure Exact (store : Store) : Prop where
  bytes : ∀ (log : Nat) (ring : TrafficLog), store.logs[log]? = some ring →
    ring.bytes = (ring.entries.map store.accountedOf).sum
  total : store.total = (store.logs.map TrafficLog.bytes).sum
  inRing : ∀ (number : Nat) (exchange : Exchange), store.exchanges[number]? = some exchange →
    (exchange.data.inRing ↔ ∃ ring, store.logs[exchange.log]? = some ring ∧ number ∈ ring.entries)
  ids : ∀ (log : Nat) (ring : TrafficLog), store.logs[log]? = some ring →
    (ring.entries.map store.idOf).Nodup
  remotes : ∀ (log : Nat) (ring : TrafficLog), store.logs[log]? = some ring →
    (ring.entries.filterMap store.remoteOf).Nodup

/-- A ring numbers its exchanges in order, and is too short for the numbers to come round. -/
theorem RingBooks.ids_nodup {store : Store} {log : Nat} {ring : TrafficLog}
    (books : RingBooks store log ring) (short : ring.entries.length ≤ maxExchanges) :
    (ring.entries.map store.idOf).Nodup := by
  rw [List.nodup_iff_getElem?_ne_getElem?]
  intro first second before bound same
  rw [List.length_map] at bound
  obtain ⟨early, early_at⟩ : ∃ number, ring.entries[first]? = some number :=
    ⟨_, List.getElem?_eq_getElem (Nat.lt_trans before bound)⟩
  obtain ⟨late, late_at⟩ : ∃ number, ring.entries[second]? = some number :=
    ⟨_, List.getElem?_eq_getElem bound⟩
  have early_id := books.numbered first early early_at
  have late_id := books.numbered second late late_at
  rw [List.getElem?_map, List.getElem?_map, early_at, late_at, Option.map_some, Option.map_some,
    Option.some.injEq] at same
  rw [same] at early_id
  simp only [maxExchanges] at short
  omega

theorem Sound.exact {store : Store} (sound : Sound store) : Exact store where
  bytes := fun log ring found => (sound.books.rings log ring found).bytes
  total := sound.books.total
  inRing := by
    intro number exchange lookup
    constructor
    · exact sound.books.there number exchange lookup
    · rintro ⟨ring, found, member⟩
      obtain ⟨held, listed, -, inside⟩ := (sound.books.rings _ ring found).here number member
      rw [lookup] at listed
      cases listed
      exact inside
  ids := fun log ring found =>
    (sound.books.rings log ring found).ids_nodup (sound.short log ring found)
  remotes := fun log ring found => (sound.books.rings log ring found).remotes

/-- In every run the counts are exact, no event makes one underflow, and a ring that takes in an
exchange or counts one of its own anew fits its limits afterwards. -/
theorem accounting_exact (contents : Contents) (events : List Event) :
    Exact (Execution.run (step contents) {} events) ∧
      ∀ event, ∃ next, attempt contents (Execution.run (step contents) {} events)
        event = some next ∧
        ∀ log, event.counts (Execution.run (step contents) {} events) = some log →
          Fits next log := by
  have sound := sound_run contents events
  refine ⟨sound.exact, fun event => ?_⟩
  obtain ⟨next, attempts, moved⟩ := sound.attempt contents event
  exact ⟨next, attempts, (moved.sound sound).2⟩

theorem accounting_exact_begin :
    ∃ next, attempt ⟨fun _ _ => true, fun _ _ => []⟩
      (Execution.run (step ⟨fun _ _ => true, fun _ _ => []⟩) {} [.opened, .setMode 0 (some .all)])
      (.begin 0 [("accept", "*")] 5) = some next ∧ Fits next 0 := by
  obtain ⟨next, attempts, fits⟩ := (accounting_exact ⟨fun _ _ => true, fun _ _ => []⟩
    [.opened, .setMode 0 (some .all)]).2 (.begin 0 [("accept", "*")] 5)
  exact ⟨next, attempts, fits 0 rfl⟩

/-- The ring an event is about: a push, an ingest or the account of an exchange. -/
def Event.about (store : Store) : Event → Option Nat
  | .begin log headers nowMs => Event.pushes store (.begin log headers nowMs)
  | .response number _ _ _ | .finish number _ _ =>
      (store.exchanges[number]?).map fun exchange => exchange.log
  | .ingest log _ _ _ => some log
  | _ => none

/-- A shipped exchange with the same body both ways. -/
def echoed (body : List UInt8) : Data where
  startedAtMs := 0
  mode := .all
  requestHeaders := []
  request := { keep := .full, data := body, size := body.length, state := .done }
  response := { keep := .full, data := body, size := body.length, state := .done }

theorem weight_echoed (body : List UInt8) : (echoed body).weight = 2 * body.length := by
  simp only [echoed, Data.weight, Captured.weight, headersWeight, List.map_nil, List.sum_nil]
  omega

/-- A node that records two requests and then stops, and more that record one exchange each. -/
def crowd (data : Data) : Nat → List Event
  | 0 => [.opened, .setMode 0 (some .all), .begin 0 [] 0, .begin 0 [] 0, .setMode 0 none]
  | count + 1 => crowd data count ++
      [.opened, .setMode (count + 1) (some .all), .ingest (count + 1) 0 0 data]

/-- A node that starts to record and gets one exchange. -/
theorem newcomer (contents : Contents) (store : Store) (data : Data) {log : Nat}
    (next : log = store.logs.length) :
    ∃ ring, (Execution.run (step contents) store
        [.opened, .setMode log (some .all), .ingest log 0 0 data]).logs = store.logs ++ [ring] ∧
      (Execution.run (step contents) store
        [.opened, .setMode log (some .all), .ingest log 0 0 data]).total =
          store.total + data.weight := by
  subst next
  refine ⟨{ mode := some .all, entries := [store.exchanges.length]
            bytes := data.weight, nextId := 2 }, ?_⟩
  simp [step, attempt, Store.setMode, Store.ingest, Store.known, Store.push, Store.pushBack,
    Store.evict, Store.evictWithin, Store.overfull, Data.weight]

theorem crowded (contents : Contents) (data : Data) (count : Nat) :
    ∃ rings, rings.length = count ∧
      (Execution.run (step contents) {} (crowd data count)).logs =
        { entries := [0, 1], nextId := 3 } :: rings ∧
      (Execution.run (step contents) {} (crowd data count)).total = count * data.weight := by
  induction count with
  | zero => exact ⟨[], rfl, rfl, by rw [Nat.zero_mul]; rfl⟩
  | succ count ih =>
      obtain ⟨rings, length, logs, total⟩ := ih
      obtain ⟨ring, more, added⟩ := newcomer contents
        (Execution.run (step contents) {} (crowd data count)) data
        (show count + 1 = _ by rw [logs, List.length_cons, length])
      refine ⟨rings ++ [ring], by simp [length], ?_, ?_⟩
      · rw [crowd, Execution.run_append, more, logs, List.cons_append]
      · rw [crowd, Execution.run_append, added, total, Nat.succ_mul]

/-- A ring that has stopped recording is left as it is by an exchange shipped to it, also when other
rings have used up the global budget. -/
theorem dropped_ingest_not_fits :
    ¬∀ (contents : Contents) (events : List Event) (event : Event) (log : Nat),
      event.about (Execution.run (step contents) {} events) = some log →
        Fits (step contents (Execution.run (step contents) {} events) event) log := by
  intro holds
  let contents : Contents := ⟨fun _ _ => true, fun _ _ => []⟩
  let data := echoed (List.replicate bodyCap 0)
  have weight : data.weight = 2 * bodyCap := by
    rw [weight_echoed, List.length_replicate]
  obtain ⟨rings, -, logs, total⟩ := crowded contents data 9
  have dropped : step contents (Execution.run (step contents) {} (crowd data 9))
      (.ingest 0 0 0 data) = Execution.run (step contents) {} (crowd data 9) := by
    simp [step, attempt, Store.ingest, logs]
  have fits := holds contents (crowd data 9) (.ingest 0 0 0 data) 0 rfl
  rw [dropped] at fits
  have limits := fits { entries := [0, 1], nextId := 3 } (by rw [logs]; rfl)
  rw [total, weight] at limits
  simp [globalBudget, bodyCap] at limits

end Traffic
end Fghj
