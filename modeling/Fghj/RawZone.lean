import Fghj.Library.Execution
import Fghj.RawNet

/-!
# The raw zone's listeners

A reconcile assigns the addresses, listens on them, and tries again with other addresses where it
met one in use, a few rounds at most. An address reads as in use when another program holds it and
when a listener of fghjd itself that was given up there has not been closed yet.
-/

namespace Fghj
namespace RawZone

open RawNet

/-- The rounds of one reconcile. -/
def maxRounds : Nat := 8

/-- A reconcile under way. -/
structure Call where
  endpoints : List RawEndpoint
  /-- The rounds it has left. -/
  left : Nat

structure Zone where
  assignments : OrderedMap String Nat := ∅
  /-- Addresses another program held when fghjd tried them. -/
  taken : List Addr := []
  /-- What is listened on, and the host port behind it. -/
  listeners : Addr → Option UInt16 := fun _ => none
  /-- Listeners that were given up and whose sockets are still open. -/
  closing : Addr → Bool := fun _ => false
  call : Option Call := none
  /-- The endpoints of the last reconcile, if it succeeded and no other has begun. -/
  returned : Option (List RawEndpoint) := none

/-- What a round meets outside of fghjd. -/
structure Weather where
  /-- Other programs' addresses. -/
  held : Addr → Bool := fun _ => false
  /-- Addresses that can't be listened on for another reason. -/
  failing : Addr → Bool := fun _ => false
  /-- Sockets given up that get closed before their address is tried. -/
  closed : Addr → Bool := fun _ => false

/-- What comes of listening on an address. -/
inductive Bind where
  | listening
  /-- A socket of fghjd is in the way. -/
  | ours
  /-- Another program's is. -/
  | theirs
  | failed
  deriving DecidableEq

/-- What a route is listened on. -/
def addrOf (route : RouteSpec) : Addr := (route.virtualIp, route.containerPort)

/-- The host port behind an address, of several the last one. -/
def desiredPort (routes : List RouteSpec) (addr : Addr) : Option UInt16 :=
  (routes.reverse.find? fun route => addrOf route = addr).map RouteSpec.hostPort

namespace Zone

variable (zone : Zone) (routes : List RouteSpec) (weather : Weather)

/-- A socket of fghjd is open on an address, though not to be listened on any more. -/
def stillOpen (addr : Addr) : Bool :=
  (zone.closing addr || (zone.listeners addr).isSome && (desiredPort routes addr).isNone) &&
    !weather.closed addr

/-- Listen on an address. -/
def listen (addr : Addr) : Bind :=
  if zone.stillOpen routes weather addr then .ours
  else if weather.held addr then .theirs
  else if weather.failing addr then .failed
  else .listening

/-- The addresses that are not listened on yet. -/
def wanted : List Addr := (routes.map addrOf).filter fun addr => (zone.listeners addr).isNone

/-- The addresses that turn out to be in use. -/
def busy : List Addr :=
  (zone.wanted routes).filter fun addr =>
    zone.listen routes weather addr = .ours || zone.listen routes weather addr = .theirs

/-- Some address can't be listened on for a reason other than being in use. -/
def fails : Bool := (zone.wanted routes).any fun addr => zone.listen routes weather addr = .failed

/-- Give up the listeners that are not wanted any more and listen on the others. -/
def apply : Zone :=
  { zone with
    listeners := fun addr =>
      if (zone.listeners addr).isSome || zone.listen routes weather addr = .listening then
        desiredPort routes addr
      else none
    closing := zone.stillOpen routes weather }

end Zone

section Step

variable (hash : String → Nat)

/-- The table a round makes. -/
def Zone.table (zone : Zone) (endpoints : List RawEndpoint) : OrderedMap String Nat :=
  assign hash endpoints zone.assignments zone.taken

/-- The routes a round applies. -/
def Zone.routes (zone : Zone) (endpoints : List RawEndpoint) : List RouteSpec :=
  routesFor hash endpoints (zone.table hash endpoints)

/-- What happens to the zone. -/
inductive Event where
  /-- A reconcile begins, if none is under way. -/
  | reconcile (endpoints : List RawEndpoint)
  /-- The reconcile under way goes through one round. -/
  | round (weather : Weather)
  /-- A socket that was given up is closed. -/
  | close (addr : Addr)

/-- One round of a reconcile. -/
def Zone.round (zone : Zone) (call : Call) (weather : Weather) : Zone :=
  let routes := zone.routes hash call.endpoints
  let next := { zone.apply routes weather with
    assignments := zone.table hash call.endpoints, call := none }
  if zone.fails routes weather then next
  else if (zone.busy routes weather).isEmpty then { next with returned := some call.endpoints }
  else
    let next := { next with taken := zone.taken ++ zone.busy routes weather }
    if call.left ≤ 1 then { next with returned := some call.endpoints }
    else { next with call := some { call with left := call.left - 1 } }

def step (zone : Zone) : Event → Zone
  | .reconcile endpoints =>
      if zone.call.isSome then zone
      else { zone with call := some { endpoints, left := maxRounds }, returned := none }
  | .round weather =>
      match zone.call with
      | none => zone
      | some call => zone.round hash call weather
  | .close addr => { zone with closing := fun other => zone.closing other && other != addr }

/-- Every route of the assignment has a listener, with the host port of the route behind it. -/
def Served (zone : Zone) (endpoints : List RawEndpoint) : Prop :=
  ∀ route ∈ routesFor hash endpoints zone.assignments,
    zone.listeners (addrOf route) = some route.hostPort

/-- Routes to one address have the same host port behind it. -/
def Consistent (routes : List RouteSpec) : Prop :=
  ∀ route ∈ routes, ∀ other ∈ routes, addrOf route = addrOf other → route.hostPort = other.hostPort

end Step

/-- Nothing but other programs is in the way of a round, in the last round not even they, and no two
names want the same address. -/
def Untroubled (hash : String → Nat) (zone : Zone) : Event → Prop
  | .round weather => ∀ call, zone.call = some call →
      zone.fails (zone.routes hash call.endpoints) weather ∨
        Consistent (zone.routes hash call.endpoints) ∧
          ∀ addr ∈ zone.wanted (zone.routes hash call.endpoints),
            zone.stillOpen (zone.routes hash call.endpoints) weather addr = false ∧
              (call.left ≤ 1 → weather.held addr = false)
  | _ => True

section Rounds

variable {hash : String → Nat} {zone : Zone} {routes : List RouteSpec} {weather : Weather}

theorem desiredPort_eq (consistent : Consistent routes) {route : RouteSpec}
    (member : route ∈ routes) : desiredPort routes (addrOf route) = some route.hostPort := by
  have listed : route ∈ routes.reverse := List.mem_reverse.mpr member
  obtain ⟨other, found⟩ : ∃ other,
      routes.reverse.find? (fun other => addrOf other = addrOf route) = some other := by
    rw [← Option.isSome_iff_exists, List.find?_isSome]
    exact ⟨route, listed, decide_eq_true rfl⟩
  have same : addrOf other = addrOf route := by simpa using List.find?_some found
  have earlier := List.mem_reverse.mp (List.mem_of_find?_eq_some found)
  rw [desiredPort, found, Option.map_some, consistent other earlier route member same]

theorem mem_wanted {addr : Addr} :
    addr ∈ zone.wanted routes ↔ addr ∈ routes.map addrOf ∧ zone.listeners addr = none := by
  rw [Zone.wanted, List.mem_filter, Option.isNone_iff_eq_none]

theorem listen_eq_ours {addr : Addr} :
    zone.listen routes weather addr = .ours ↔ zone.stillOpen routes weather addr := by
  rw [Zone.listen]
  grind

theorem listen_eq_theirs {addr : Addr} (theirs : zone.listen routes weather addr = .theirs) :
    weather.held addr := by
  rw [Zone.listen] at theirs
  grind

/-- A round that meets nothing in its way leaves every route with a listener. -/
theorem listeners_apply (consistent : Consistent routes)
    (well : zone.fails routes weather = false) (idle : zone.busy routes weather = [])
    {route : RouteSpec} (member : route ∈ routes) :
    (zone.apply routes weather).listeners (addrOf route) = some route.hostPort := by
  simp only [Zone.apply]
  rw [if_pos, desiredPort_eq consistent member]
  cases old : zone.listeners (addrOf route) with
  | some port => rfl
  | none =>
      have wants : addrOf route ∈ zone.wanted routes :=
        mem_wanted.mpr ⟨List.mem_map_of_mem member, old⟩
      have free := List.filter_eq_nil_iff.mp idle _ wants
      have works : zone.listen routes weather (addrOf route) ≠ .failed := by
        intro failed
        rw [Zone.fails, List.any_eq_false] at well
        exact well _ wants (decide_eq_true failed)
      cases outcome : zone.listen routes weather (addrOf route) <;> simp_all

/-- In an untroubled round every address in use is another program's, in the last round none is. -/
theorem busy_of_untroubled {call : Call}
    (calm : ∀ addr ∈ zone.wanted routes, zone.stillOpen routes weather addr = false ∧
      (call.left ≤ 1 → weather.held addr = false)) {addr : Addr}
    (member : addr ∈ zone.busy routes weather) :
    zone.listen routes weather addr = .theirs ∧ ¬call.left ≤ 1 := by
  obtain ⟨wants, used⟩ := List.mem_filter.mp member
  obtain ⟨gone, unheld⟩ := calm addr wants
  have theirs : zone.listen routes weather addr = .theirs := by
    simp only [Bool.or_eq_true, decide_eq_true_eq] at used
    refine used.resolve_left fun ours => ?_
    rw [listen_eq_ours, gone] at ours
    cases ours
  refine ⟨theirs, fun last => ?_⟩
  have held := listen_eq_theirs theirs
  rw [unheld last] at held
  cases held

/-- A reconcile that has succeeded serves every route. -/
def Serving (hash : String → Nat) (zone : Zone) : Prop :=
  ∀ endpoints, zone.returned = some endpoints → Served hash zone endpoints

/-- What an event adds to the addresses taken is another program's. -/
def Honest (hash : String → Nat) (zone : Zone) (event : Event) : Prop :=
  ∀ addr ∈ (step hash zone event).taken, addr ∈ zone.taken ∨
    ∃ weather call, event = .round weather ∧ zone.call = some call ∧
      zone.listen (zone.routes hash call.endpoints) weather addr = .theirs

/-- A reconcile under way has not returned. -/
def Underway (zone : Zone) : Prop := zone.call.isSome → zone.returned = none

/-- What an untroubled round comes to: it fails, serves every route, or goes on without addresses
that are other programs'. -/
theorem round_cases {call : Call} (calm : Untroubled hash zone (.round weather))
    (under : zone.call = some call) {next : Zone} (after : zone.round hash call weather = next) :
    (next.returned = zone.returned ∧ next.taken = zone.taken ∧ next.call = none) ∨
      (next.returned = some call.endpoints ∧ next.taken = zone.taken ∧ next.call = none ∧
        Served hash next call.endpoints) ∨
      (next.returned = zone.returned ∧
        ∀ addr ∈ next.taken, addr ∈ zone.taken ∨
          zone.listen (zone.routes hash call.endpoints) weather addr = .theirs) := by
  subst after
  simp only [Zone.round]
  split
  · exact .inl ⟨rfl, rfl, rfl⟩
  · rename_i well
    rw [Bool.not_eq_true] at well
    obtain ⟨consistent, clear⟩ := (calm call under).resolve_left (by simp [well])
    right
    split
    · rename_i idle
      rw [List.isEmpty_iff] at idle
      exact .inl ⟨rfl, rfl, rfl, fun route member => listeners_apply consistent well idle member⟩
    · rename_i met
      right
      rw [List.isEmpty_iff] at met
      obtain ⟨first, member⟩ := List.exists_mem_of_ne_nil _ met
      rw [if_neg (busy_of_untroubled clear member).2]
      refine ⟨rfl, fun addr listed => ?_⟩
      rcases List.mem_append.mp listed with before | added
      · exact .inl before
      · exact .inr (busy_of_untroubled clear added).1

/-- An untroubled event keeps every route served. -/
theorem Serving.step (serving : Serving hash zone) (underway : Underway zone) {event : Event}
    (calm : Untroubled hash zone event) :
    Serving hash (step hash zone event) ∧ Underway (RawZone.step hash zone event) := by
  cases event with
  | reconcile endpoints =>
      rw [RawZone.step]
      split
      · exact ⟨serving, underway⟩
      · exact ⟨fun _ returned => (by cases returned), fun _ => rfl⟩
  | close addr => exact ⟨serving, underway⟩
  | round weather =>
      rw [RawZone.step]
      split
      · exact ⟨serving, underway⟩
      · rename_i call under
        have unreturned : zone.returned = none := underway (by rw [under]; rfl)
        generalize after : zone.round hash call weather = next
        rcases round_cases calm under after with ⟨same, -, ended⟩ | ⟨returns, -, ended, served⟩ |
          ⟨same, -⟩
        · refine ⟨fun endpoints returned => ?_, fun going => ?_⟩
          · rw [same, unreturned] at returned
            cases returned
          · rw [ended] at going
            cases going
        · refine ⟨fun endpoints returned => ?_, fun going => ?_⟩
          · rw [returns] at returned
            cases returned
            exact served
          · rw [ended] at going
            cases going
        · refine ⟨fun endpoints returned => ?_, fun _ => same.trans unreturned⟩
          rw [same, unreturned] at returned
          cases returned

theorem honest_of_untroubled {event : Event} (calm : Untroubled hash zone event) :
    Honest hash zone event := by
  intro addr member
  cases event with
  | reconcile endpoints =>
      rw [RawZone.step] at member
      split at member <;> exact .inl member
  | close other => exact .inl member
  | round weather =>
      rw [RawZone.step] at member
      split at member
      · exact .inl member
      · rename_i call under
        generalize after : zone.round hash call weather = next at member
        rcases round_cases calm under after with ⟨-, same, -⟩ | ⟨-, same, -, -⟩ | ⟨-, others⟩
        · exact .inl (same ▸ member)
        · exact .inl (same ▸ member)
        · refine (others addr member).imp_right fun theirs => ?_
          exact ⟨weather, call, rfl, under, theirs⟩

end Rounds

/-- The name resolves to an address that is listened on for each of its ports. -/
theorem Served.listeners {hash : String → Nat} {zone : Zone} {endpoints : List RawEndpoint}
    (served : Served hash zone endpoints) {endpoint : RawEndpoint} (member : endpoint ∈ endpoints)
    {port : UInt16} (declared : port ∈ endpoint.portNumbers) :
    (zone.listeners (lookup hash zone.assignments endpoint.rawDomain, port)).isSome := by
  rw [RawEndpoint.portNumbers, ← Std.ExtTreeMap.map_fst_toList_eq_keys,
    List.mem_filterMap] at declared
  obtain ⟨key, listed, number⟩ := declared
  obtain ⟨⟨_, hostPort⟩, pair, rfl⟩ := List.mem_map.mp listed
  have route : { virtualIp := lookup hash zone.assignments endpoint.rawDomain
                 containerPort := port, hostPort } ∈ routesFor hash endpoints zone.assignments := by
    refine List.mem_flatMap.mpr ⟨endpoint, member, List.mem_filterMap.mpr ⟨_, pair, ?_⟩⟩
    simp only [number, Option.map_some]
  have there : zone.listeners (lookup hash zone.assignments endpoint.rawDomain, port) =
      some hostPort := served _ route
  rw [there, Option.isSome_some]

/-- In every run of untroubled rounds, a reconcile that has succeeded serves every name, and what
counts as taken was another program's when it was tried. -/
theorem reconcile_serves (hash : String → Nat) {events : List Event}
    (calm : Execution.Along (step hash) (Untroubled hash) {} events) :
    (∀ endpoints, (Execution.run (step hash) {} events).returned = some endpoints →
      Served hash (Execution.run (step hash) {} events) endpoints ∧
        ∀ endpoint ∈ endpoints, ∀ port ∈ endpoint.portNumbers,
          ((Execution.run (step hash) {} events).listeners
            (lookup hash (Execution.run (step hash) {} events).assignments endpoint.rawDomain,
              port)).isSome) ∧
      ∀ front event back, events = front ++ event :: back →
        Honest hash (Execution.run (step hash) {} front) event := by
  constructor
  · have invariant := Execution.run_invariant (step hash) _
      (fun zone => Serving hash zone ∧ Underway zone)
      (fun zone event serving calm => serving.1.step serving.2 calm)
      ⟨fun _ returned => (by cases returned), fun _ => rfl⟩ calm
    intro endpoints returned
    have served := invariant.1 endpoints returned
    exact ⟨served, fun endpoint member port declared => served.listeners member declared⟩
  · rintro front event back rfl
    exact honest_of_untroubled ((Execution.along_append _ _ _ _ _).mp calm).2.1

def database : RawEndpoint where
  rawDomain := "db.shop.fghj.raw.internal"
  ports := (∅ : OrderedMap String UInt16).insert "5432" 49153

/-- The number the name of the database hashes to. -/
def databaseHash (_ : String) : Nat := 0x2a390761

/-- The database of another repo. -/
def stocks : RawEndpoint where
  rawDomain := "db.stock.fghj.raw.internal"
  ports := (∅ : OrderedMap String UInt16).insert "5432" 49154

/-- The numbers the two names hash to, one after the other. -/
def ownHash (name : String) : Nat := if name = database.rawDomain then 0x2a390761 else 0x2a390762

/-- The one database gives way to the other, whose address another program holds, and comes back
once its own listener there is closed. -/
def bounced : List Event :=
  [.reconcile [database], .round {}, .reconcile [stocks],
    .round { held := fun addr => addr == (poolBase + 23509, 5432) }, .round {},
    .close (poolBase + 23508, 5432), .reconcile [database, stocks], .round {}]

instance (zone : Zone) : ∀ event, Decidable (Untroubled ownHash zone event)
  | .round weather => inferInstanceAs (Decidable (∀ call ∈ zone.call,
      zone.fails (zone.routes ownHash call.endpoints) weather ∨
        (∀ route ∈ zone.routes ownHash call.endpoints,
          ∀ other ∈ zone.routes ownHash call.endpoints,
            addrOf route = addrOf other → route.hostPort = other.hostPort) ∧
          ∀ addr ∈ zone.wanted (zone.routes ownHash call.endpoints),
            zone.stillOpen (zone.routes ownHash call.endpoints) weather addr = false ∧
              (call.left ≤ 1 → weather.held addr = false)))
  | .reconcile _ => inferInstanceAs (Decidable True)
  | .close _ => inferInstanceAs (Decidable True)

theorem reconcile_serves_database :
    Served ownHash (Execution.run (step ownHash) {} bounced) [database, stocks] :=
  ((@reconcile_serves ownHash bounced (by decide +kernel)).1 [database, stocks]
    (by decide +kernel)).1

/-- A database is started, stopped and started again before its first listener is closed, and its
address counts as another program's. -/
theorem reconcile_takes_own_address :
    ¬∀ (hash : String → Nat) (events : List Event),
      (∀ endpoints, (Execution.run (step hash) {} events).returned = some endpoints →
        Served hash (Execution.run (step hash) {} events) endpoints) ∧
      ∀ front event back, events = front ++ event :: back →
        Honest hash (Execution.run (step hash) {} front) event := by
  intro holds
  have honest := (holds databaseHash [.reconcile [database], .round {}, .reconcile [], .round {},
    .reconcile [database], .round {}]).2 [.reconcile [database], .round {}, .reconcile [],
      .round {}, .reconcile [database]] (.round {}) [] rfl
  have added : (poolBase + 23508, 5432) ∈ (step databaseHash (Execution.run (step databaseHash) {}
      [.reconcile [database], .round {}, .reconcile [], .round {}, .reconcile [database]])
      (.round {})).taken := by
    decide +kernel
  rcases honest _ added with before | ⟨weather, call, same, -, theirs⟩
  · exact absurd before (by decide +kernel)
  · cases same
    exact absurd (listen_eq_theirs theirs) Bool.false_ne_true

end RawZone
end Fghj
