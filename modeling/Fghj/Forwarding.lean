import Fghj.ProxyHeaders

/-!
# Forwarding

The requests of one client connection come one after the other. Each is answered by the proxy or
forwarded to the backend that it is routed to at that moment. One connection to a backend is kept
for the next request, and can turn out to be dead once a request has been written to it: a request
that was handed back, or is safe to repeat, then gets one more go on a new connection.

What the backends and the network do is given by a fate for each request.
-/

namespace Fghj
namespace Forwarding

open Multimap
open ProxyHeaders (HeaderMap HeaderValue ClientIp stripHopByHop addForwardedHeaders upgradeName)

structure Address where
  host : String
  port : UInt16
  deriving DecidableEq

structure Backend where
  address : Address
  /-- Whether the node has a traffic log. -/
  traffic : Bool := false

inductive Method where
  | get
  | head
  | options
  | other (name : String)
  deriving DecidableEq

structure Request where
  method : Method
  uri : String
  headers : HeaderMap
  /-- The bytes of the body; absent when the request is known to have none. -/
  body : Option (List UInt8)

structure Response where
  status : Nat
  headers : HeaderMap
  body : List UInt8

/-- `StatusCode::SWITCHING_PROTOCOLS` -/
def Response.upgraded (response : Response) : Bool := response.status == 101

/-- What becomes of a request that is written to a connection. -/
inductive Sent where
  | answered (response : Response)
  /-- The request is handed back: it never reached the backend. -/
  | returned
  /-- The connection failed, with or without the request having reached the backend. -/
  | lost

/-- What the network does with one request. -/
structure Fate where
  /-- The kept connection is still open as far as the proxy can tell. -/
  ready : Bool := true
  connects : Bool := true
  sent : Sent
  reconnects : Bool := true
  resent : Option Response := none
  /-- The traffic log is recording. -/
  recording : Bool := false

structure Upstream where
  address : Address
  conn : Nat

/-- One request written to one connection. -/
structure Attempt where
  /-- Which request of the client. -/
  turn : Nat
  conn : Nat
  message : Request
  sent : Sent

/-- The proxy's side of one client connection, with a record of what it wrote where. -/
structure Proxy where
  slot : Option Upstream := none
  /-- The address each connection was opened to. -/
  opened : List Address := []
  attempts : List Attempt := []

/-- `Safe to send twice, and nothing of it is lost by having been sent once.` -/
def isReplayable (request : Request) : Bool :=
  (request.method == .get || request.method == .head || request.method == .options) &&
    request.body.isNone

def bodylessCopy (request : Request) : Request := { request with body := none }

/-- The headers of a request as they go to the backend. -/
def prepare (clientIp : ClientIp) (proto : HeaderValue) (request : Request) : Request :=
  let upgrade := getAll request.headers upgradeName ≠ []
  { request with
    headers := addForwardedHeaders (stripHopByHop request.headers upgrade) clientIp proto }

/-- The kept connection, if it leads to the backend and is still open. -/
def reusable (proxy : Proxy) (address : Address) (ready : Bool) : Option Nat :=
  proxy.slot.bind fun kept => if kept.address = address ∧ ready then some kept.conn else none

def connect (proxy : Proxy) (address : Address) (connects : Bool) : Option (Nat × Proxy) :=
  if connects then
    some (proxy.opened.length, { proxy with opened := proxy.opened ++ [address] })
  else none

def write (proxy : Proxy) (attempt : Attempt) : Proxy :=
  { proxy with attempts := proxy.attempts ++ [attempt] }

/-- An upgraded connection belongs to the upgraded stream; any other is kept. -/
def answer (proxy : Proxy) (address : Address) (conn : Nat) (response : Response) :
    Proxy × Option Response :=
  ({ proxy with slot := if response.upgraded then none else some { address, conn } },
    some { response with headers := stripHopByHop response.headers response.upgraded })

/-- The message that a failure hands back. -/
def Sent.takeMessage (message : Request) : Sent → Option Request
  | .returned => some message
  | _ => none

/-- What may go again after a failure. -/
def again (reused : Bool) (sent : Sent) (message : Request) : Option Request :=
  ((sent.takeMessage message).filter fun _ => reused).or
    (if reused && isReplayable message then some (bodylessCopy message) else none)

/-- One more go, on a new connection. -/
def resend (turn : Nat) (fate : Fate) (proxy : Proxy) (address : Address) (message : Request) :
    Proxy × Option Response :=
  match connect proxy address fate.reconnects with
  | none => (proxy, none)
  | some (conn, proxy) =>
      match fate.resent with
      | some response =>
          answer (write proxy { turn, conn, message, sent := .answered response }) address conn
            response
      | none => (write proxy { turn, conn, message, sent := .lost }, none)

/-- The first connection for a request, and whether it is the kept one. -/
def openFor (fate : Fate) (proxy : Proxy) (address : Address) : Option (Nat × Bool × Proxy) :=
  match reusable proxy address fate.ready with
  | some conn => some (conn, true, { proxy with slot := none })
  | none =>
      (connect { proxy with slot := none } address fate.connects).map fun opened =>
        (opened.1, false, opened.2)

/-- The answer to a forwarded request, unless there is none. -/
def forward (turn : Nat) (fate : Fate) (proxy : Proxy) (address : Address) (message : Request) :
    Proxy × Option Response :=
  match openFor fate proxy address with
  | none => ({ proxy with slot := none }, none)
  | some (conn, reused, proxy) =>
      let proxy := write proxy { turn, conn, message, sent := fate.sent }
      match fate.sent with
      | .answered response => answer proxy address conn response
      | sent =>
          match again reused sent message with
          | none => (proxy, none)
          | some message => resend turn fate proxy address message

/-- How a request is routed at the moment it comes in. -/
inductive Route where
  | forward (backend : Backend)
  | respond (response : Response)

/-- One request of the client. -/
structure Turn where
  route : Route
  request : Request
  fate : Fate

/-- What the traffic log is told of a request. -/
inductive Note where
  | response (response : Response)
  | fail

structure Reply where
  response : Response
  notes : List Note := []

def badGatewayResponse (address : Address) : Response where
  status := 502
  headers := [(⟨ProxyHeaders.ascii "content-type", by decide⟩,
    ⟨ProxyHeaders.ascii "text/plain; charset=utf-8", by decide⟩)]
  body := ("fghj couldn't reach this service at " ++ address.host ++ ":" ++
    toString address.port.toNat ++ "\n").toUTF8.data.toList

section Serve

variable (clientIp : ClientIp) (proto : HeaderValue)

/-- One request of a client connection. -/
def serveRequest (served : Proxy × List Reply) (turn : Turn) : Proxy × List Reply :=
  match turn.route with
  | .respond response => (served.1, served.2 ++ [{ response }])
  | .forward backend =>
      let recording := backend.traffic && turn.fate.recording
      let (proxy, answered) := forward served.2.length turn.fate served.1 backend.address
        (prepare clientIp proto turn.request)
      match answered with
      | some response =>
          (proxy, served.2 ++ [{ response, notes := if recording then [.response response]
            else [] }])
      | none =>
          (proxy, served.2 ++ [{ response := badGatewayResponse backend.address
                                 notes := if recording then [.fail] else [] }])

/-- The requests of a client connection. -/
def serveConnection (turns : List Turn) : Proxy × List Reply :=
  turns.foldl (serveRequest clientIp proto) ({}, [])

end Serve

/-! ## One request -/

/-- The answer that an attempt got. -/
def Attempt.answered (attempt : Attempt) : Option Response :=
  match attempt.sent with
  | .answered response => some response
  | _ => none

/-- A response as the client gets it. -/
def returned (response : Response) : Response :=
  { response with headers := stripHopByHop response.headers response.upgraded }

/-- What is kept after the last attempt. -/
def keptAfter (address : Address) (last : Option Attempt) : Option Upstream :=
  last.bind fun attempt => attempt.answered.bind fun response =>
    if response.upgraded then none else some { address, conn := attempt.conn }

/-- The kept connection was opened to its address. -/
def SlotKnown (proxy : Proxy) : Prop :=
  ∀ kept, proxy.slot = some kept → proxy.opened[kept.conn]? = some kept.address

/-- What forwarding one request does. -/
structure Went (turn : Nat) (address : Address) (message : Request) (proxy next : Proxy)
    (reply : Option Response) (new : List Attempt) : Prop where
  attempts : next.attempts = proxy.attempts ++ new
  opened : proxy.opened <+: next.opened
  each : ∀ attempt ∈ new, attempt.turn = turn ∧ attempt.message = message ∧
    next.opened[attempt.conn]? = some address
  apart : new.Pairwise fun one later => one.conn ≠ later.conn
  /-- A connection is new, or the kept one. -/
  origin : ∀ attempt ∈ new, proxy.opened.length ≤ attempt.conn ∨
    ∃ kept, proxy.slot = some kept ∧ kept.conn = attempt.conn
  most : new.length ≤ 2
  /-- A second go comes after a failure on the kept connection. -/
  again : ∀ first second, new = [first, second] → first.answered = none ∧
    (∃ kept, proxy.slot = some kept ∧ kept.conn = first.conn) ∧
    (first.sent = .returned ∨ isReplayable message)
  reply : reply = (new.getLast?.bind Attempt.answered).map returned
  slot : next.slot = keptAfter address new.getLast?

section Went

variable {turn : Nat} {fate : Fate} {proxy next : Proxy} {address : Address} {message : Request}
  {conn : Nat} {reused : Bool} {reply : Option Response}

theorem openFor_cases (known : SlotKnown proxy)
    (opens : openFor fate proxy address = some (conn, reused, next)) :
    next.slot = none ∧ next.attempts = proxy.attempts ∧ proxy.opened <+: next.opened ∧
      next.opened[conn]? = some address ∧
      (reused = true ∧ (∃ kept, proxy.slot = some kept ∧ kept.conn = conn) ∨
        reused = false ∧ conn = proxy.opened.length) := by
  rw [openFor] at opens
  split at opens
  · rename_i other reuses
    obtain ⟨kept, held, same⟩ := Option.bind_eq_some_iff.mp reuses
    split at same
    · rename_i leads
      obtain ⟨rfl, rfl, rfl⟩ := opens
      obtain rfl := Option.some.inj same
      exact ⟨rfl, rfl, List.prefix_rfl, leads.1 ▸ known kept held, .inl ⟨rfl, kept, held, rfl⟩⟩
    · cases same
  · rw [connect] at opens
    split at opens
    · simp only [Option.map_some, Option.some.injEq, Prod.mk.injEq] at opens
      obtain ⟨rfl, rfl, rfl⟩ := opens
      exact ⟨rfl, rfl, List.prefix_append _ _, by simp, .inr ⟨rfl, rfl⟩⟩
    · cases opens

/-- Only a request that is sent as it was can go again. -/
theorem again_eq_some {sent : Sent} {copy : Request}
    (more : again reused sent message = some copy) :
    reused = true ∧ copy = message ∧ (sent = .returned ∨ isReplayable message) := by
  rcases Option.or_eq_some_iff.mp more with handed | ⟨-, replay⟩
  · obtain ⟨taken, kept⟩ := Option.filter_eq_some_iff.mp handed
    cases sent with
    | returned => exact ⟨kept, (Option.some.inj taken).symm, .inl rfl⟩
    | answered response => cases taken
    | lost => cases taken
  · split at replay
    · rename_i both
      obtain ⟨kept, safe⟩ := Bool.and_eq_true_iff.mp both
      have bodiless : message.body = none := by
        simpa [isReplayable] using (Bool.and_eq_true_iff.mp safe).2
      obtain rfl := Option.some.inj replay
      exact ⟨kept, by rw [bodylessCopy, ← bodiless], .inr safe⟩
    · cases replay

/-- A request that got no further than its first go. -/
theorem went_once {attempt : Attempt} (known : next.opened[attempt.conn]? = some address)
    (wrote : next.attempts = proxy.attempts ++ [attempt]) (grown : proxy.opened <+: next.opened)
    (turned : attempt.turn = turn) (same : attempt.message = message)
    (origin : proxy.opened.length ≤ attempt.conn ∨
      ∃ kept, proxy.slot = some kept ∧ kept.conn = attempt.conn)
    (replied : reply = attempt.answered.map returned)
    (slot : next.slot = keptAfter address (some attempt)) :
    Went turn address message proxy next reply [attempt] where
  attempts := wrote
  opened := grown
  each := by
    intro other member
    obtain rfl := List.mem_singleton.mp member
    exact ⟨turned, same, known⟩
  apart := List.pairwise_singleton ..
  origin := by
    intro other member
    obtain rfl := List.mem_singleton.mp member
    exact origin
  most := by simp
  again := by simp
  reply := by simpa using replied
  slot := by simpa using slot

/-- A request that was given a second go. -/
theorem went_twice {first second : Attempt} (known : SlotKnown proxy)
    (kept : ∃ kept, proxy.slot = some kept ∧ kept.conn = first.conn)
    (failed : first.answered = none) (safe : first.sent = .returned ∨ isReplayable message)
    (turned : first.turn = turn) (same : first.message = message)
    (turned' : second.turn = turn) (same' : second.message = message)
    (fresh : proxy.opened.length ≤ second.conn)
    (here : next.opened[first.conn]? = some address)
    (here' : next.opened[second.conn]? = some address)
    (wrote : next.attempts = proxy.attempts ++ [first, second])
    (grown : proxy.opened <+: next.opened) (replied : reply = second.answered.map returned)
    (slot : next.slot = keptAfter address (some second)) :
    Went turn address message proxy next reply [first, second] where
  attempts := wrote
  opened := grown
  each := by
    intro other member
    rcases List.mem_pair.mp member with rfl | rfl
    · exact ⟨turned, same, here⟩
    · exact ⟨turned', same', here'⟩
  apart := by
    obtain ⟨upstream, held, conn⟩ := kept
    have old : first.conn < proxy.opened.length := by
      have opened := known upstream held
      rw [conn] at opened
      exact (List.getElem?_eq_some_iff.mp opened).1
    exact List.pairwise_pair.mpr (by omega)
  origin := by
    intro other member
    rcases List.mem_pair.mp member with rfl | rfl
    · exact .inr kept
    · exact .inl fresh
  most := by simp
  again := by
    intro one other equal
    obtain ⟨rfl, rfl⟩ : first = one ∧ second = other := by simpa using equal
    exact ⟨failed, kept, safe⟩
  reply := by simpa using replied
  slot := by simpa using slot

theorem prefix_getElem? {addresses more : List Address} {n : Nat} {address : Address}
    (grown : addresses <+: more) (here : addresses[n]? = some address) :
    more[n]? = some address := by
  obtain ⟨bound, rfl⟩ := List.getElem?_eq_some_iff.mp here
  exact List.prefix_iff_getElem?.mp grown n bound

theorem resend_went {first : Attempt} {proxy middle : Proxy} (known : SlotKnown proxy)
    (clean : middle.slot = none) (wrote : middle.attempts = proxy.attempts ++ [first])
    (grown : proxy.opened <+: middle.opened) (here : middle.opened[first.conn]? = some address)
    (turned : first.turn = turn) (same : first.message = message) (failed : first.answered = none)
    (kept : ∃ kept, proxy.slot = some kept ∧ kept.conn = first.conn)
    (safe : first.sent = .returned ∨ isReplayable message) :
    ∃ new, Went turn address message proxy (resend turn fate middle address message).1
      (resend turn fate middle address message).2 new := by
  rw [resend]
  cases opens : connect middle address fate.reconnects with
  | none =>
      exact ⟨[first], went_once here wrote grown turned same (.inr kept) (by simp [failed])
        (by simp [clean, keptAfter, failed])⟩
  | some opened =>
      obtain ⟨conn, after⟩ := opened
      obtain ⟨rfl, rfl⟩ : conn = middle.opened.length ∧
          after = { middle with opened := middle.opened ++ [address] } := by
        rw [connect] at opens
        split at opens
        · simpa [eq_comm] using opens
        · cases opens
      have earlier : (middle.opened ++ [address])[first.conn]? = some address :=
        prefix_getElem? (List.prefix_append ..) here
      have older : proxy.opened <+: middle.opened ++ [address] :=
        grown.trans (List.prefix_append ..)
      cases resent : fate.resent with
      | none =>
          exact ⟨_, @went_twice _ _ _ _ _ _ _
            { turn, conn := middle.opened.length, message, sent := .lost } known kept failed safe
            turned same
            rfl rfl grown.length_le earlier (by simp [write]) (by simp [write, wrote]) older rfl
            (by simp [write, clean, keptAfter, Attempt.answered])⟩
      | some response =>
          exact ⟨_, @went_twice _ _ _ _ _ _ _
            { turn, conn := middle.opened.length, message, sent := .answered response } known kept
            failed safe turned same
            rfl rfl grown.length_le earlier (by simp [answer, write])
              (by simp [answer, write, wrote])
            older rfl (by simp [answer, keptAfter, Attempt.answered])⟩

/-- A first go that failed, with or without another. -/
theorem failed_went {first : Attempt} {proxy middle : Proxy} (known : SlotKnown proxy)
    (clean : middle.slot = none) (wrote : middle.attempts = proxy.attempts ++ [first])
    (grown : proxy.opened <+: middle.opened) (here : middle.opened[first.conn]? = some address)
    (turned : first.turn = turn) (same : first.message = message) (failed : first.answered = none)
    (origin : reused = true ∧ (∃ kept, proxy.slot = some kept ∧ kept.conn = first.conn) ∨
      reused = false ∧ first.conn = proxy.opened.length) :
    let outcome := match again reused first.sent message with
      | none => (middle, none)
      | some copy => resend turn fate middle address copy
    ∃ new, Went turn address message proxy outcome.1 outcome.2 new := by
  cases more : again reused first.sent message with
  | none =>
      refine ⟨[first], went_once here wrote grown turned same ?_ (by simp [failed])
        (by simp [clean, keptAfter, failed])⟩
      rcases origin with ⟨-, kept⟩ | ⟨-, fresh⟩
      · exact .inr kept
      · exact .inl fresh.ge
  | some copy =>
      obtain ⟨isKept, rfl, safe⟩ := again_eq_some more
      rcases origin with ⟨-, kept⟩ | ⟨isFresh, -⟩
      · exact resend_went known clean wrote grown here turned same failed kept safe
      · rw [isKept] at isFresh
        cases isFresh

theorem forward_went (known : SlotKnown proxy) :
    ∃ new, Went turn address message proxy (forward turn fate proxy address message).1
      (forward turn fate proxy address message).2 new := by
  rw [forward]
  cases opens : openFor fate proxy address with
  | none =>
      exact ⟨[], by simp, List.prefix_rfl, by simp, .nil, by simp, by simp, by simp, by simp,
        by simp [keptAfter]⟩
  | some opened =>
      obtain ⟨conn, reused, middle⟩ := opened
      obtain ⟨clean, before, grown, here, origin⟩ := openFor_cases known opens
      cases sent : fate.sent with
      | answered response =>
          refine ⟨_, @went_once _ _ _ _ _ _ { turn, conn, message, sent := .answered response }
            here (by simp [answer, write, before]) grown rfl rfl ?_ rfl
            (by simp [answer, keptAfter, Attempt.answered])⟩
          rcases origin with ⟨-, kept⟩ | ⟨-, rfl⟩
          · exact .inr kept
          · exact .inl le_rfl
      | returned =>
          exact @failed_went _ _ _ _ _ { turn, conn, message, sent := .returned } _ _ known clean
            (by rw [write, before]) grown here rfl rfl rfl origin
      | lost =>
          exact @failed_went _ _ _ _ _ { turn, conn, message, sent := .lost } _ _ known clean
            (by rw [write, before]) grown here rfl rfl rfl origin

end Went

/-! ## All requests of a client -/

/-- The request may be carried out: it was not handed back. -/
def Attempt.mayCount (attempt : Attempt) : Bool :=
  match attempt.sent with
  | .returned => false
  | _ => true

/-- The connection can carry another request after this one. -/
def Attempt.Leaves (attempt : Attempt) : Prop :=
  ∃ response, attempt.answered = some response ∧ response.upgraded = false

/-- What a request is answered with, and what the traffic log is told. -/
def settled (backend : Backend) (recording : Bool) : Option Response → Reply
  | some response =>
      { response := returned response
        notes := if recording then [.response (returned response)] else [] }
  | none =>
      { response := badGatewayResponse backend.address
        notes := if recording then [.fail] else [] }

section Served

variable (clientIp : ClientIp) (proto : HeaderValue)

/-- What a forwarded request comes to: each attempt carries it to the backend that it was routed to
when it came in, only a failed one is followed by another, and it is answered with what the last one
got. -/
structure Forwarded (turn : Turn) (backend : Backend) (proxy : Proxy) (went : List Attempt)
    (reply : Reply) : Prop where
  each : ∀ attempt ∈ went, attempt.message = prepare clientIp proto turn.request ∧
    proxy.opened[attempt.conn]? = some backend.address
  most : went.length ≤ 2
  /-- A request that is not safe to repeat reaches the backend once, if at all. -/
  once : isReplayable turn.request = false → (went.filter Attempt.mayCount).length ≤ 1
  /-- A second attempt comes only after a failure on a connection that has served before. -/
  again : ∀ first second, went = [first, second] → first.answered = none ∧
    ∃ earlier ∈ proxy.attempts, earlier.conn = first.conn ∧ earlier.turn < first.turn
  reply : reply = settled backend (backend.traffic && turn.fate.recording)
    (went.getLast?.bind Attempt.answered)

/-- What becomes of a request. -/
def Handled (turn : Turn) (proxy : Proxy) (went : List Attempt) (reply : Reply) : Prop :=
  match turn.route with
  | .respond response => went = [] ∧ reply = { response }
  | .forward backend => Forwarded clientIp proto turn backend proxy went reply

/-- The requests were handled in the order that they came in, and each connection to a backend
carried one after the other, with every one but its last answered and none of those an upgrade. -/
structure Served (turns : List Turn) (proxy : Proxy) (replies : List Reply) : Prop where
  length : replies.length = turns.length
  handled : ∀ (n : Nat) (turn : Turn) (reply : Reply), turns[n]? = some turn →
    replies[n]? = some reply →
    Handled clientIp proto turn proxy (proxy.attempts.filter fun attempt => attempt.turn = n) reply
  earlier : ∀ attempt ∈ proxy.attempts,
    attempt.turn < turns.length ∧ attempt.conn < proxy.opened.length
  ordered : proxy.attempts.Pairwise fun one later => one.turn ≤ later.turn
  shared : proxy.attempts.Pairwise fun one later =>
    one.conn = later.conn → one.turn < later.turn ∧ one.Leaves
  /-- What is kept leads where it says, and can carry another request. -/
  slot : ∀ kept, proxy.slot = some kept → proxy.opened[kept.conn]? = some kept.address ∧
    (∃ attempt ∈ proxy.attempts, attempt.conn = kept.conn) ∧
    ∀ attempt ∈ proxy.attempts, attempt.conn = kept.conn → attempt.Leaves

variable {clientIp : ClientIp} {proto : HeaderValue} {turns : List Turn} {turn : Turn}
  {backend : Backend} {proxy next : Proxy} {replies : List Reply} {reply : Reply}
  {went new : List Attempt} {response : Option Response}

theorem Forwarded.mono (done : Forwarded clientIp proto turn backend proxy went reply)
    (opened : proxy.opened <+: next.opened) (attempts : proxy.attempts ⊆ next.attempts) :
    Forwarded clientIp proto turn backend next went reply where
  each := by
    intro attempt member
    obtain ⟨same, here⟩ := done.each attempt member
    exact ⟨same, prefix_getElem? opened here⟩
  most := done.most
  once := done.once
  again := by
    intro first second equal
    obtain ⟨failed, earlier, member, rest⟩ := done.again first second equal
    exact ⟨failed, earlier, attempts member, rest⟩
  reply := done.reply

theorem Handled.mono (done : Handled clientIp proto turn proxy went reply)
    (opened : proxy.opened <+: next.opened) (attempts : proxy.attempts ⊆ next.attempts) :
    Handled clientIp proto turn next went reply := by
  unfold Handled at done ⊢
  split at done
  · exact done
  · exact done.mono opened attempts

theorem Served.slotKnown (served : Served clientIp proto turns proxy replies) : SlotKnown proxy :=
  fun kept held => (served.slot kept held).1

/-- An earlier attempt on a connection that is used again left it fit to be. -/
theorem Served.leaves (served : Served clientIp proto turns proxy replies)
    (went : Went turns.length backend.address message proxy next response new)
    {one later : Attempt} (old : one ∈ proxy.attempts) (member : later ∈ new)
    (same : one.conn = later.conn) : one.Leaves := by
  rcases went.origin later member with fresh | ⟨kept, held, conn⟩
  · have := (served.earlier one old).2
    omega
  · exact (served.slot kept held).2.2 one old (same.trans conn.symm)

theorem Served.forwarded (served : Served clientIp proto turns proxy replies)
    (went : Went turns.length backend.address (prepare clientIp proto turn.request) proxy next
      response new) :
    Forwarded clientIp proto turn backend next new
      (settled backend (backend.traffic && turn.fate.recording)
        (new.getLast?.bind Attempt.answered)) where
  each := fun attempt member => (went.each attempt member).2
  most := went.most
  once := by
    intro risky
    match new, went.most, went.again with
    | [], _, _ => simp
    | [attempt], _, _ => exact List.length_filter_le ..
    | [first, second], _, again =>
        obtain ⟨-, -, handed⟩ := again first second rfl
        have back : first.sent = .returned := by
          rcases handed with back | safe
          · exact back
          · rw [show isReplayable (prepare clientIp proto turn.request) = isReplayable turn.request
              from rfl, risky] at safe
            cases safe
        have : first.mayCount = false := by rw [Attempt.mayCount, back]
        simpa [this] using List.length_filter_le Attempt.mayCount [second]
    | _ :: _ :: _ :: _, most, _ => simp at most
  again := by
    intro first second equal
    obtain ⟨failed, ⟨kept, held, conn⟩, -⟩ := went.again first second equal
    obtain ⟨-, ⟨earlier, old, same⟩, -⟩ := served.slot kept held
    have turned := (went.each first (by simp [equal])).1
    exact ⟨failed, earlier, by simp [went.attempts, old], same.trans conn,
      turned ▸ (served.earlier earlier old).1⟩
  reply := rfl

/-- The attempts of one request, among those of all. -/
theorem filter_turn_append {before : List Attempt} {n : Nat}
    (older : ∀ attempt ∈ before, attempt.turn < n) (newer : ∀ attempt ∈ new, attempt.turn = n)
    (k : Nat) :
    ((before ++ new).filter fun attempt => attempt.turn = k) =
      if k = n then new else before.filter fun attempt => attempt.turn = k := by
  rw [List.filter_append]
  split
  · rename_i same
    rw [List.filter_eq_nil_iff.mpr, List.filter_eq_self.mpr, List.nil_append]
    · intro attempt member
      simp [newer attempt member, same]
    · intro attempt member
      have := older attempt member
      simp only [decide_eq_true_eq]
      omega
  · rename_i other
    rw [List.filter_eq_nil_iff (l := new) |>.mpr, List.append_nil]
    intro attempt member
    simpa [newer attempt member] using Ne.symm other

/-- What is handled stays so, and the next request is. -/
theorem Served.handled_next (served : Served clientIp proto turns proxy replies)
    (attempts : next.attempts = proxy.attempts ++ new) (opened : proxy.opened <+: next.opened)
    (newer : ∀ attempt ∈ new, attempt.turn = turns.length)
    (done : Handled clientIp proto turn next new reply) (n : Nat) (other : Turn) (answer : Reply)
    (asked : (turns ++ [turn])[n]? = some other) (told : (replies ++ [reply])[n]? = some answer) :
    Handled clientIp proto other next (next.attempts.filter fun attempt => attempt.turn = n)
      answer := by
  rw [attempts, filter_turn_append (fun attempt member => (served.earlier attempt member).1) newer]
  rw [List.getElem?_append] at asked told
  split
  · rename_i last
    obtain rfl : turn = other := by simpa [last] using asked
    obtain rfl : reply = answer := by simpa [last, served.length] using told
    exact done
  · rename_i before
    have early : n < turns.length := by
      by_contra! late
      rw [if_neg (by omega), List.getElem?_eq_none (by simp; omega)] at asked
      cases asked
    rw [if_pos early] at asked
    rw [if_pos (by rwa [served.length])] at told
    exact (served.handled n other answer asked told).mono opened
      (attempts ▸ List.subset_append_left ..)

theorem Served.respond (served : Served clientIp proto turns proxy replies) {given : Response}
    (route : turn.route = .respond given) :
    Served clientIp proto (turns ++ [turn]) proxy (replies ++ [{ response := given }]) where
  length := by simp [served.length]
  handled := served.handled_next (List.append_nil _).symm List.prefix_rfl (by simp)
    (by rw [Handled, route]; exact ⟨rfl, rfl⟩)
  earlier := by
    intro attempt member
    have := served.earlier attempt member
    rw [List.length_append]
    omega
  ordered := served.ordered
  shared := served.shared
  slot := served.slot

/-- What is kept after the last attempt is fit to be used again. -/
theorem Served.slot_next (served : Served clientIp proto turns proxy replies)
    (went : Went turns.length backend.address message proxy next response new) (kept : Upstream)
    (held : next.slot = some kept) :
    next.opened[kept.conn]? = some kept.address ∧
      (∃ attempt ∈ next.attempts, attempt.conn = kept.conn) ∧
      ∀ attempt ∈ next.attempts, attempt.conn = kept.conn → attempt.Leaves := by
  rw [went.slot] at held
  obtain ⟨last, isLast, held⟩ := Option.bind_eq_some_iff.mp held
  obtain ⟨given, answered, held⟩ := Option.bind_eq_some_iff.mp held
  have member : last ∈ new := List.mem_of_getLast? isLast
  split at held
  · cases held
  · rename_i plain
    obtain rfl := Option.some.inj held
    refine ⟨(went.each last member).2.2, ⟨last, by simp [went.attempts, member], rfl⟩, ?_⟩
    intro attempt some' same
    rw [went.attempts, List.mem_append] at some'
    rcases some' with old | new'
    · exact served.leaves went old member same
    · obtain ⟨before, rfl⟩ := List.getLast?_eq_some_iff.mp isLast
      rcases List.mem_append.mp new' with other | only
      · have apart := (List.pairwise_append.mp went.apart).2.2 attempt other last (by simp)
        exact absurd same apart
      · obtain rfl := List.mem_singleton.mp only
        exact ⟨given, answered, Bool.eq_false_iff.mpr plain⟩

theorem Served.forward (served : Served clientIp proto turns proxy replies)
    (route : turn.route = .forward backend)
    (went : Went turns.length backend.address (prepare clientIp proto turn.request) proxy next
      response new) :
    Served clientIp proto (turns ++ [turn]) next (replies ++
      [settled backend (backend.traffic && turn.fate.recording)
        (new.getLast?.bind Attempt.answered)]) where
  length := by simp [served.length]
  handled := served.handled_next went.attempts went.opened
    (fun attempt member => (went.each attempt member).1)
    (by rw [Handled, route]; exact served.forwarded went)
  earlier := by
    intro attempt member
    rw [went.attempts, List.mem_append] at member
    rw [List.length_append, List.length_singleton]
    rcases member with old | new'
    · have := served.earlier attempt old
      have := went.opened.length_le
      omega
    · obtain ⟨turned, -, here⟩ := went.each attempt new'
      have := (List.getElem?_eq_some_iff.mp here).1
      omega
  ordered := by
    rw [went.attempts, List.pairwise_append]
    refine ⟨served.ordered, ?_, ?_⟩
    · refine List.pairwise_of_forall_mem_list fun one first later second => ?_
      rw [(went.each one first).1, (went.each later second).1]
    · intro one old later new'
      have := (served.earlier one old).1
      have := (went.each later new').1
      omega
  shared := by
    rw [went.attempts, List.pairwise_append]
    refine ⟨served.shared, went.apart.imp fun apart same => absurd same apart, ?_⟩
    intro one old later new' same
    exact ⟨(went.each later new').1 ▸ (served.earlier one old).1, served.leaves went old new' same⟩
  slot := served.slot_next went

theorem serveRequest_eq (route : turn.route = .forward backend)
    (forwards : Forwarding.forward replies.length turn.fate proxy backend.address
      (prepare clientIp proto turn.request) = (next, response))
    (replied : response = (new.getLast?.bind Attempt.answered).map returned) :
    serveRequest clientIp proto (proxy, replies) turn =
      (next, replies ++ [settled backend (backend.traffic && turn.fate.recording)
        (new.getLast?.bind Attempt.answered)]) := by
  unfold serveRequest
  rw [route]
  simp only [forwards, replied]
  cases new.getLast?.bind Attempt.answered with
  | none => rfl
  | some given => rfl

theorem serveRequest_spec (served : Served clientIp proto turns proxy replies) :
    Served clientIp proto (turns ++ [turn]) (serveRequest clientIp proto (proxy, replies) turn).1
      (serveRequest clientIp proto (proxy, replies) turn).2 := by
  cases route : turn.route with
  | respond given =>
      unfold serveRequest
      rw [route]
      exact served.respond route
  | forward backend =>
      obtain ⟨new, went⟩ := @forward_went replies.length turn.fate proxy backend.address
        (prepare clientIp proto turn.request) served.slotKnown
      rw [serveRequest_eq route rfl went.reply]
      rw [served.length] at went ⊢
      exact served.forward route went

/-- Whatever the backends and the network do, every request of a client is answered in turn: it goes
to the backend it is routed to at that moment, is repeated at most once and only where that is safe,
and is answered with what the last attempt got. -/
theorem serves_connection (clientIp : ClientIp) (proto : HeaderValue) (turns : List Turn) :
    Served clientIp proto turns (serveConnection clientIp proto turns).1
      (serveConnection clientIp proto turns).2 := by
  induction turns using List.reverseRecOn with
  | nil =>
      exact ⟨rfl, by simp, by simp [serveConnection], .nil, .nil, by simp [serveConnection]⟩
  | append_singleton before turn ih =>
      rw [serveConnection, List.foldl_append]
      exact serveRequest_spec ih

end Served

end Forwarding
end Fghj
