import Fghj.Library.Allocation
import Fghj.Library.Listing
import Fghj.Library.OrderedMap
import Fghj.Library.Text
import Mathlib.Data.Nat.ModEq
import Mathlib.Data.String.Basic

/-!
# Raw addresses

Every raw name has an address of its own in a pool of loopback addresses, at the place a hash of the
name says. A name keeps its address until one of its ports is taken there, and then moves on to the
next place that is free.
-/

namespace Fghj
namespace RawNet

open Std (ExtTreeMap)

/-- An address and a port on it. -/
abbrev Addr := Nat × UInt16

/-- The number of 127.223.0.0. -/
def poolBase : Nat := 127 * 2 ^ 24 + 223 * 2 ^ 16

def poolSize : Nat := 2 ^ 16

/-- The addresses names can have: neither the first of the pool nor the last. -/
def InPool (ip : Nat) : Prop := poolBase < ip ∧ ip < poolBase + poolSize - 1
  deriving Decidable

section Hash

/- The first four bytes of the SHA-256 digest of a name, as one number. -/
variable (hash : String → Nat)

/-- The address a name has as long as nothing else is known of it. -/
def virtualIpFor (name : String) : Nat :=
  let offset := 1 + hash name % (poolSize - 2)
  poolBase + offset

end Hash

def slotOf (ip : Nat) : Nat := ip - poolBase - 1

/-- A running node's raw name and the host ports its ports are published on. -/
structure RawEndpoint where
  rawDomain : String
  ports : OrderedMap String UInt16
  deriving DecidableEq

/-- The ports of an endpoint that are numbers. -/
def RawEndpoint.portNumbers (endpoint : RawEndpoint) : List UInt16 :=
  endpoint.ports.keys.filterMap fun port => Text.parseU16 port.toList

/-- No port is claimed on the address. -/
def freeAt (ports : List UInt16) (claimed : List Addr) (ip : Nat) : Bool :=
  ports.all fun port => !claimed.contains (ip, port)

/-- Every address of the pool, from a slot on and round to it. -/
def probe (start : Nat) : List Nat :=
  let span := poolSize - 2
  (List.range span).map fun step => poolBase + 1 + (start + step) % span

/-- The preferred address unless a port is claimed there, else the first free one from the hash
on. -/
def pickIp (preferred : Option Nat) (naive : Nat) (ports : List UInt16) (claimed : List Addr) :
    Nat :=
  match preferred.filter (freeAt ports claimed) with
  | some ip => ip
  | none => ((probe (slotOf naive)).find? (freeAt ports claimed)).getD naive

/-- The order of the names. -/
def byName (endpoint other : RawEndpoint) : Prop := endpoint.rawDomain ≤ other.rawDomain

instance : DecidableRel byName := fun _ _ => inferInstanceAs (Decidable (_ ≤ _))

instance : Std.Total byName := ⟨fun endpoint other => le_total endpoint.rawDomain other.rawDomain⟩

instance : IsTrans RawEndpoint byName := ⟨fun _ _ _ => le_trans⟩

/-- The endpoints with a name of the table before the others, either in the order of the names. -/
def inOrder (endpoints : List RawEndpoint) (previous : OrderedMap String Nat) : List RawEndpoint :=
  let incumbents := endpoints.filter fun endpoint => previous.contains endpoint.rawDomain
  let newcomers := endpoints.filter fun endpoint => !previous.contains endpoint.rawDomain
  incumbents.insertionSort byName ++ newcomers.insertionSort byName

section Assign

variable (hash : String → Nat)

/-- What is claimed so far and the table as far as it goes. -/
structure Round where
  claimed : List Addr
  next : OrderedMap String Nat

/-- Give one endpoint its address. -/
def settle (previous : OrderedMap String Nat) (round : Round) (endpoint : RawEndpoint) : Round :=
  let ports := endpoint.portNumbers
  let naive := virtualIpFor hash endpoint.rawDomain
  let ip := pickIp previous[endpoint.rawDomain]? naive ports round.claimed
  { claimed := round.claimed ++ ports.map fun port => (ip, port)
    next := round.next.insert endpoint.rawDomain ip }

/-- Give every endpoint an address. What other programs hold is taken. -/
def assign (endpoints : List RawEndpoint) (previous : OrderedMap String Nat) (taken : List Addr) :
    OrderedMap String Nat :=
  ((inOrder endpoints previous).foldl (settle hash previous) { claimed := taken, next := ∅ }).next

/-- The address of a name: the assigned one, or where the hash says. -/
def lookup (assigned : OrderedMap String Nat) (name : String) : Nat :=
  assigned[name]?.getD (virtualIpFor hash name)

structure RouteSpec where
  virtualIp : Nat
  containerPort : UInt16
  hostPort : UInt16
  deriving DecidableEq

/-- What is to be listened on, and the host port behind it. -/
def routesFor (endpoints : List RawEndpoint) (assigned : OrderedMap String Nat) : List RouteSpec :=
  endpoints.flatMap fun endpoint =>
    let virtualIp := lookup hash assigned endpoint.rawDomain
    endpoint.ports.toList.filterMap fun (port, hostPort) =>
      (Text.parseU16 port.toList).map fun containerPort => { virtualIp, containerPort, hostPort }

end Assign

/-! ## The pool -/

variable {claimed : List Addr} {ip : Nat}

section Pool

variable {hash : String → Nat}

/-- The subtractions of a slot stay above zero. -/
theorem slotOf_virtualIpFor (name : String) :
    poolBase + 1 ≤ virtualIpFor hash name ∧
      slotOf (virtualIpFor hash name) = hash name % (poolSize - 2) := by
  simp only [slotOf, virtualIpFor]
  omega

theorem nodup_probe (start : Nat) : (probe start).Nodup := by
  refine List.Nodup.map_on (fun first early second late same => ?_) List.nodup_range
  rw [List.mem_range] at early late
  have slots : start + first ≡ start + second [MOD poolSize - 2] := Nat.add_left_cancel same
  have steps := Nat.ModEq.add_left_cancel' start slots
  rwa [Nat.ModEq, Nat.mod_eq_of_lt early, Nat.mod_eq_of_lt late] at steps

theorem mem_probe {start ip : Nat} (start_lt : start < poolSize - 2) :
    ip ∈ probe start ↔ InPool ip := by
  rw [probe, List.mem_map]
  constructor
  · rintro ⟨step, -, rfl⟩
    have bound : (start + step) % (poolSize - 2) < poolSize - 2 := Nat.mod_lt _ (by decide)
    simp only [InPool]
    omega
  · rintro ⟨above, below⟩
    -- the step that leads to the slot, forwards or round the end
    refine ⟨(slotOf ip + (poolSize - 2 - start)) % (poolSize - 2),
      List.mem_range.mpr (Nat.mod_lt _ (by decide)), ?_⟩
    have slot_lt : slotOf ip < poolSize - 2 := by
      simp only [slotOf]
      omega
    have around : (start + (slotOf ip + (poolSize - 2 - start)) % (poolSize - 2)) % (poolSize - 2) =
        slotOf ip := by
      rw [Nat.add_mod_mod, show start + (slotOf ip + (poolSize - 2 - start)) =
        slotOf ip + (poolSize - 2) by omega, Nat.add_mod_right, Nat.mod_eq_of_lt slot_lt]
    rw [around, slotOf]
    omega

theorem freeAt_iff {ports : List UInt16} :
    freeAt ports claimed ip ↔ ∀ port ∈ ports, (ip, port) ∉ claimed := by
  simp [freeAt]

/-- A free address of the pool is picked if there is one. -/
theorem pickIp_spec {preferred : Option Nat} {name : String} {ports : List UInt16}
    (pooled : ∀ ip, preferred = some ip → InPool ip)
    (room : ∃ ip, InPool ip ∧ freeAt ports claimed ip) :
    InPool (pickIp preferred (virtualIpFor hash name) ports claimed) ∧
      freeAt ports claimed (pickIp preferred (virtualIpFor hash name) ports claimed) := by
  rw [pickIp]
  split
  · rename_i ip found
    obtain ⟨same, free⟩ := Option.filter_eq_some_iff.mp found
    exact ⟨pooled ip same, free⟩
  · have start_lt : slotOf (virtualIpFor hash name) < poolSize - 2 := by
      rw [(slotOf_virtualIpFor name).2]
      exact Nat.mod_lt _ (by decide)
    cases found : (probe (slotOf (virtualIpFor hash name))).find? (freeAt ports claimed) with
    | none =>
        obtain ⟨ip, inside, free⟩ := room
        exact absurd free (List.find?_eq_none.mp found ip ((mem_probe start_lt).mpr inside))
    | some ip =>
        exact ⟨(mem_probe start_lt).mp (List.mem_of_find?_eq_some found),
          List.find?_some found⟩

theorem pickIp_preferred {ip naive : Nat} {ports : List UInt16} (free : freeAt ports claimed ip) :
    pickIp (some ip) naive ports claimed = ip := by
  rw [pickIp, Option.filter_some_pos free]

end Pool

/-! ## Assignments -/

section Assignments

variable (hash : String → Nat)

/-- The address an endpoint gets when some pairs are claimed. -/
def spotFor (previous : OrderedMap String Nat) (claimed : List Addr) (endpoint : RawEndpoint) :
  Nat :=
  pickIp previous[endpoint.rawDomain]? (virtualIpFor hash endpoint.rawDomain) endpoint.portNumbers
    claimed

/-- The pairs an endpoint uses on an address. -/
def uses (endpoint : RawEndpoint) (ip : Nat) : List Addr :=
  endpoint.portNumbers.map fun port => (ip, port)

/-- The endpoints with their addresses, in the order they got them. -/
def placed (endpoints : List RawEndpoint) (previous : OrderedMap String Nat) (taken : List Addr) :
    List (RawEndpoint × Nat) :=
  Allocation.place (spotFor hash previous) uses taken (inOrder endpoints previous)

/-- At its turn every name finds an address of the pool on which its ports are free. -/
def Roomy (endpoints : List RawEndpoint) (previous : OrderedMap String Nat) (taken : List Addr) :
    Prop :=
  Allocation.InTurn (spotFor hash previous) uses
    (fun claimed endpoint => ∃ ip, InPool ip ∧ freeAt endpoint.portNumbers claimed ip) taken
    (inOrder endpoints previous)

variable {hash} {endpoints : List RawEndpoint} {previous : OrderedMap String Nat}
  {taken : List Addr}

variable {endpoint : RawEndpoint}

theorem mem_uses {addr : Addr} :
    addr ∈ uses endpoint ip ↔ addr.1 = ip ∧ addr.2 ∈ endpoint.portNumbers := by
  rw [uses, List.mem_map]
  constructor
  · rintro ⟨port, member, rfl⟩
    exact ⟨rfl, member⟩
  · rintro ⟨rfl, member⟩
    exact ⟨addr.2, member, rfl⟩

theorem free_iff :
    Allocation.Free uses claimed endpoint ip ↔ freeAt endpoint.portNumbers claimed ip := by
  rw [freeAt_iff, Allocation.Free]
  constructor
  · intro free port member
    exact free (ip, port) (mem_uses.mpr ⟨rfl, member⟩)
  · rintro free ⟨address, port⟩ used
    obtain ⟨rfl, member⟩ := mem_uses.mp used
    exact free port member

theorem inOrder_perm (endpoints : List RawEndpoint) (previous : OrderedMap String Nat) :
    (inOrder endpoints previous).Perm endpoints :=
  ((List.perm_insertionSort _ _).append (List.perm_insertionSort _ _)).trans
    (List.filter_append_perm _ endpoints)

/-- The table holds the addresses in the order they were given. -/
theorem assign_eq : assign hash endpoints previous taken =
    (placed hash endpoints previous taken).foldl
      (fun next entry => next.insert entry.1.rawDomain entry.2) ∅ := by
  have general (order : List RawEndpoint) (round : Round) :
      (order.foldl (settle hash previous) round).next =
        (Allocation.place (spotFor hash previous) uses round.claimed order).foldl
          (fun next entry => next.insert entry.1.rawDomain entry.2) round.next := by
    induction order generalizing round with
    | nil => rfl
    | cons endpoint order ih => exact ih _
  exact general (inOrder endpoints previous) _

theorem fst_placed : (placed hash endpoints previous taken).map Prod.fst =
    inOrder endpoints previous :=
  Allocation.map_fst_place taken _

theorem names_placed : ((placed hash endpoints previous taken).map fun entry => entry.1.rawDomain) =
    (inOrder endpoints previous).map RawEndpoint.rawDomain := by
  rw [← @fst_placed hash endpoints previous taken, List.map_map]
  rfl

theorem exists_placed (member : endpoint ∈ endpoints) :
    ∃ ip, (endpoint, ip) ∈ placed hash endpoints previous taken := by
  have served : endpoint ∈ (placed hash endpoints previous taken).map Prod.fst := by
    rw [fst_placed]
    exact (inOrder_perm endpoints previous).mem_iff.mpr member
  obtain ⟨⟨_, ip⟩, entry, rfl⟩ := List.mem_map.mp served
  exact ⟨ip, entry⟩

theorem mem_of_placed {entry : RawEndpoint × Nat}
    (member : entry ∈ placed hash endpoints previous taken) : entry.1 ∈ endpoints := by
  apply (inOrder_perm endpoints previous).mem_iff.mp
  rw [← @fst_placed hash endpoints previous taken]
  exact List.mem_map_of_mem member

section Distinct

variable (distinct : (endpoints.map RawEndpoint.rawDomain).Nodup)
include distinct

theorem nodup_inOrder : ((inOrder endpoints previous).map RawEndpoint.rawDomain).Nodup :=
  ((inOrder_perm endpoints previous).map _).nodup_iff.mpr distinct

theorem assign_of_placed {entry : RawEndpoint × Nat}
    (member : entry ∈ placed hash endpoints previous taken) :
    (assign hash endpoints previous taken)[entry.1.rawDomain]? = some entry.2 := by
  rw [assign_eq]
  refine OrderedMap.getElem?_foldl_insert ?_ member ∅
  rw [names_placed]
  exact nodup_inOrder distinct

/-- An endpoint's address in the table is the one it was given. -/
theorem placed_of_assign (member : endpoint ∈ endpoints)
    (assigned : (assign hash endpoints previous taken)[endpoint.rawDomain]? = some ip) :
    (endpoint, ip) ∈ placed hash endpoints previous taken := by
  obtain ⟨given, entry⟩ := @exists_placed hash endpoints previous taken endpoint member
  rw [assign_of_placed distinct entry, Option.some.injEq] at assigned
  exact assigned ▸ entry

end Distinct

/-- A name of no endpoint has no address. -/
theorem assign_dropped {name : String} (absent : ∀ endpoint ∈ endpoints,
    endpoint.rawDomain ≠ name) : (assign hash endpoints previous taken)[name]? = none := by
  rw [assign_eq, OrderedMap.getElem?_foldl_insert_ne, ExtTreeMap.getElem?_empty]
  rw [names_placed]
  intro member
  obtain ⟨endpoint, ordered, same⟩ := List.mem_map.mp member
  exact absent endpoint ((inOrder_perm endpoints previous).mem_iff.mp ordered) same

/-! ## Exclusive, sticky and stable -/

/-- With room for every name, every pick is a free address of the pool. -/
theorem Roomy.picks (roomy : Roomy hash endpoints previous taken)
    (pooled : ∀ (name : String) (ip : Nat), previous[name]? = some ip → InPool ip) :
    Allocation.InTurn (spotFor hash previous) uses
      (fun claimed endpoint => InPool (spotFor hash previous claimed endpoint) ∧
        Allocation.Free uses claimed endpoint (spotFor hash previous claimed endpoint)) taken
      (inOrder endpoints previous) := by
  refine Allocation.InTurn.imp (fun claimed endpoint room => ?_) roomy
  have picked : InPool (spotFor hash previous claimed endpoint) ∧
      freeAt endpoint.portNumbers claimed (spotFor hash previous claimed endpoint) :=
    pickIp_spec (pooled endpoint.rawDomain) room
  exact ⟨picked.1, free_iff.mpr picked.2⟩

/-- A sorted part of the endpoints does not depend on their order. -/
theorem insertionSort_eq {front back : List RawEndpoint} (same : front.Perm back)
    (distinct : (front.map RawEndpoint.rawDomain).Nodup) :
    front.insertionSort byName = back.insertionSort byName := by
  have sorted := List.pairwise_insertionSort byName front
  refine List.Perm.eq_of_pairwise ?_ sorted (List.pairwise_insertionSort byName back)
    ((List.perm_insertionSort _ front).trans (same.trans (List.perm_insertionSort _ back).symm))
  intro first second early late below above
  rw [List.mem_insertionSort] at early late
  exact List.inj_on_of_nodup_map distinct early (same.mem_iff.mpr late) (le_antisymm below above)

/-- The order in which endpoints are served does not depend on the order they are listed in. -/
theorem inOrder_eq {others : List RawEndpoint} (same : others.Perm endpoints)
    (distinct : (endpoints.map RawEndpoint.rawDomain).Nodup) :
    inOrder others previous = inOrder endpoints previous := by
  have distinct_others : (others.map RawEndpoint.rawDomain).Nodup :=
    (same.map _).nodup_iff.mpr distinct
  rw [inOrder, insertionSort_eq (same.filter _)
    (distinct_others.sublist (List.filter_sublist.map _)),
    insertionSort_eq (same.filter _) (distinct_others.sublist (List.filter_sublist.map _)), inOrder]

/-- Every endpoint before an incumbent is an incumbent of a smaller name. -/
theorem before_incumbent (distinct : (endpoints.map RawEndpoint.rawDomain).Nodup)
    (member : endpoint ∈ endpoints) (incumbent : previous.contains endpoint.rawDomain) :
    ∃ front back, inOrder endpoints previous = front ++ endpoint :: back ∧
      ∀ other ∈ front, previous.contains other.rawDomain ∧
        other.rawDomain < endpoint.rawDomain := by
  let incumbents := endpoints.filter fun endpoint => previous.contains endpoint.rawDomain
  have listed : endpoint ∈ incumbents.insertionSort byName := by
    rw [List.mem_insertionSort]
    exact List.mem_filter.mpr ⟨member, incumbent⟩
  obtain ⟨front, back, split⟩ := List.append_of_mem listed
  refine ⟨front, back ++ _, by rw [inOrder, split, List.append_assoc, List.cons_append], ?_⟩
  intro other early
  have sorted := List.pairwise_insertionSort byName incumbents
  have names : ((incumbents.insertionSort byName).map RawEndpoint.rawDomain).Nodup :=
    ((List.perm_insertionSort byName incumbents).map _).nodup_iff.mpr
      (distinct.sublist (List.filter_sublist.map _))
  have known : other ∈ incumbents := by
    rw [← List.mem_insertionSort byName, split]
    exact List.mem_append_left _ early
  rw [split] at sorted names
  rw [List.map_append, List.map_cons, List.nodup_append] at names
  refine ⟨(List.mem_filter.mp known).2, lt_of_le_of_ne ?_ ?_⟩
  · exact (List.pairwise_append.mp sorted).2.2 other early endpoint List.mem_cons_self
  · exact names.2.2 _ (List.mem_map_of_mem early) _ List.mem_cons_self

/-- What an assignment promises: addresses of the pool that nobody shares, kept as far as they are
free, whatever order the endpoints come in. -/
structure Settled (hash : String → Nat) (endpoints : List RawEndpoint)
    (previous : OrderedMap String Nat) (taken : List Addr) (next : OrderedMap String Nat) :
      Prop where
  pooled : ∀ endpoint ∈ endpoints, ∃ ip, next[endpoint.rawDomain]? = some ip ∧ InPool ip
  exclusive : ∀ endpoint ∈ endpoints, ∀ other ∈ endpoints, endpoint ≠ other → ∀ ip : Nat,
    next[endpoint.rawDomain]? = some ip → next[other.rawDomain]? = some ip →
      ∀ port ∈ endpoint.portNumbers, port ∉ other.portNumbers
  untaken : ∀ endpoint ∈ endpoints, ∀ ip : Nat, next[endpoint.rawDomain]? = some ip →
    ∀ port ∈ endpoint.portNumbers, (ip, port) ∉ taken
  sticky : ∀ endpoint ∈ endpoints, ∀ ip : Nat, previous[endpoint.rawDomain]? = some ip →
    (∀ port ∈ endpoint.portNumbers, (ip, port) ∉ taken ∧
      ∀ other ∈ endpoints, previous.contains other.rawDomain →
        other.rawDomain < endpoint.rawDomain → next[other.rawDomain]? = some ip →
          port ∉ other.portNumbers) →
    next[endpoint.rawDomain]? = some ip
  dropped : ∀ name : String, (∀ endpoint ∈ endpoints, endpoint.rawDomain ≠ name) →
    next[name]? = none
  unordered : ∀ others : List RawEndpoint, others.Perm endpoints →
    assign hash others previous taken = next
  stable : assign hash endpoints next taken = next

section Settled

variable (distinct : (endpoints.map RawEndpoint.rawDomain).Nodup)
include distinct

/-- A name keeps its address unless that is taken or an incumbent before it has a port of it. -/
theorem assign_sticky (member : endpoint ∈ endpoints)
    (before : previous[endpoint.rawDomain]? = some ip)

    (untaken : ∀ port ∈ endpoint.portNumbers, (ip, port) ∉ taken ∧
      ∀ other ∈ endpoints, previous.contains other.rawDomain →
        other.rawDomain < endpoint.rawDomain →
          (assign hash endpoints previous taken)[other.rawDomain]? = some ip →
            port ∉ other.portNumbers) :
    (assign hash endpoints previous taken)[endpoint.rawDomain]? = some ip := by
  have incumbent : previous.contains endpoint.rawDomain := by
    rw [ExtTreeMap.contains_eq_isSome_getElem?, before, Option.isSome_some]
  obtain ⟨front, back, order, earlier⟩ := before_incumbent distinct member incumbent
  let claimed := taken ++ Allocation.claims uses
    (Allocation.place (spotFor hash previous) uses taken front)
  have split : placed hash endpoints previous taken =
      Allocation.place (spotFor hash previous) uses taken front ++
        Allocation.place (spotFor hash previous) uses claimed (endpoint :: back) := by
    rw [placed, order, Allocation.place_append]
  have free : freeAt endpoint.portNumbers claimed ip := by
    rw [freeAt_iff]
    intro port used inside
    rcases List.mem_append.mp inside with held | claimed
    · exact (untaken port used).1 held
    · obtain ⟨⟨other, spot⟩, early, there⟩ := List.mem_flatMap.mp claimed
      obtain ⟨rfl, port_of⟩ := mem_uses.mp there
      have entry : (other, ip) ∈ placed hash endpoints previous taken := by
        rw [split]
        exact List.mem_append_left _ early
      have listed : other ∈ front := by
        have firsts : (Allocation.place (spotFor hash previous) uses taken front).map Prod.fst =
            front := Allocation.map_fst_place taken front
        rw [← firsts]
        exact List.mem_map_of_mem early
      obtain ⟨known, smaller⟩ := earlier other listed
      exact (untaken port used).2 other (mem_of_placed entry) known smaller
        (assign_of_placed distinct entry) port_of
  have here : (endpoint, ip) ∈ placed hash endpoints previous taken := by
    have stays : spotFor hash previous claimed endpoint = ip := by
      rw [spotFor, before]
      exact pickIp_preferred free
    rw [split, Allocation.place, stays]
    exact List.mem_append_right _ List.mem_cons_self
  exact assign_of_placed distinct here

/-- Endpoints that do not get in each other's way keep the addresses of the table. -/
theorem assign_stable {next : OrderedMap String Nat}
    (held : ∀ name : String, next.contains name ↔ ∃ endpoint ∈ endpoints, endpoint.rawDomain = name)
    (apart : ∀ endpoint ∈ endpoints, ∀ other ∈ endpoints, endpoint ≠ other → ∀ ip : Nat,
      next[endpoint.rawDomain]? = some ip → next[other.rawDomain]? = some ip →
        ∀ port ∈ endpoint.portNumbers, port ∉ other.portNumbers)
    (untaken : ∀ endpoint ∈ endpoints, ∀ ip : Nat, next[endpoint.rawDomain]? = some ip →
      ∀ port ∈ endpoint.portNumbers, (ip, port) ∉ taken) :
    assign hash endpoints next taken = next := by
  let home (endpoint : RawEndpoint) : Nat := next[endpoint.rawDomain]?.getD 0
  have listed {endpoint : RawEndpoint} (ordered : endpoint ∈ inOrder endpoints next) :
      endpoint ∈ endpoints := (inOrder_perm endpoints next).mem_iff.mp ordered
  have at_home {endpoint : RawEndpoint} (member : endpoint ∈ endpoints) :
      next[endpoint.rawDomain]? = some (home endpoint) := by
    have known := (held endpoint.rawDomain).mpr ⟨endpoint, member, rfl⟩
    rw [ExtTreeMap.contains_eq_isSome_getElem?] at known
    obtain ⟨ip, found⟩ := Option.isSome_iff_exists.mp known
    simp only [home, found, Option.getD_some]
  have keeps : placed hash endpoints next taken =
      (inOrder endpoints next).map fun endpoint => (endpoint, home endpoint) := by
    refine Allocation.place_eq_map ?_ ?_ ?_
    · intro endpoint ordered claimed free
      rw [spotFor, at_home (listed ordered)]
      exact pickIp_preferred (free_iff.mp free)
    · refine List.Nodup.pairwise_of_forall_ne (nodup_inOrder distinct).of_map ?_
      rintro endpoint ordered other ordered_other different ⟨ip, port⟩ used again
      obtain ⟨address, port_of⟩ := mem_uses.mp used
      obtain ⟨same, port_of_other⟩ := mem_uses.mp again
      have mine := at_home (listed ordered)
      have theirs := at_home (listed ordered_other)
      rw [← address] at mine
      rw [← same] at theirs
      exact apart endpoint (listed ordered) other (listed ordered_other) different ip mine theirs
        port port_of port_of_other
    · rintro endpoint ordered ⟨ip, port⟩ used held_there
      obtain ⟨address, port_of⟩ := mem_uses.mp used
      have mine := at_home (listed ordered)
      rw [← address] at mine
      exact untaken endpoint (listed ordered) ip mine port port_of held_there
  refine ExtTreeMap.ext_getElem? fun name => ?_
  by_cases known : ∃ endpoint ∈ endpoints, endpoint.rawDomain = name
  · obtain ⟨endpoint, member, rfl⟩ := known
    have entry : (endpoint, home endpoint) ∈ placed hash endpoints next taken := by
      rw [keeps]
      exact List.mem_map_of_mem ((inOrder_perm endpoints next).mem_iff.mpr member)
    rw [assign_of_placed distinct entry, at_home member]
  · have absent : next[name]? = none := by
      rw [← Option.not_isSome_iff_eq_none, ← ExtTreeMap.contains_eq_isSome_getElem?]
      exact fun contained => known ((held name).mp contained)
    rw [absent]
    exact assign_dropped fun endpoint member same => known ⟨endpoint, member, same⟩

/-- With room for every name, every assignment settles them. -/
theorem assign_settled
    (pooled : ∀ (name : String) (ip : Nat), previous[name]? = some ip → InPool ip)
    (roomy : Roomy hash endpoints previous taken) :
    Settled hash endpoints previous taken (assign hash endpoints previous taken) := by
  have picks := roomy.picks pooled
  have turns := Allocation.InTurn.imp (fun _ _ picked => picked.2) picks
  have spots : ∀ entry ∈ placed hash endpoints previous taken, InPool entry.2 :=
    Allocation.InTurn.spot (Allocation.InTurn.imp (fun _ _ picked => picked.1) picks)
  have exclusive : ∀ endpoint ∈ endpoints, ∀ other ∈ endpoints, endpoint ≠ other → ∀ ip : Nat,
      (assign hash endpoints previous taken)[endpoint.rawDomain]? = some ip →
        (assign hash endpoints previous taken)[other.rawDomain]? = some ip →
          ∀ port ∈ endpoint.portNumbers, port ∉ other.portNumbers := by
    intro endpoint member other listed different ip mine theirs port port_of port_of_other
    have apart : Std.Symm fun first second : RawEndpoint × Nat =>
        ∀ used ∈ uses first.1 first.2, used ∉ uses second.1 second.2 :=
      ⟨fun first second clear used inside again => clear used again inside⟩
    exact turns.exclusive.forall (placed_of_assign distinct member mine)
      (placed_of_assign distinct listed theirs) (fun same => different (congrArg Prod.fst same))
      (ip, port) (mem_uses.mpr ⟨rfl, port_of⟩) (mem_uses.mpr ⟨rfl, port_of_other⟩)
  have untaken : ∀ endpoint ∈ endpoints, ∀ ip : Nat,
      (assign hash endpoints previous taken)[endpoint.rawDomain]? = some ip →
        ∀ port ∈ endpoint.portNumbers, (ip, port) ∉ taken := by
    intro endpoint member ip mine port port_of
    exact turns.unclaimed _ (placed_of_assign distinct member mine) (ip, port)
      (mem_uses.mpr ⟨rfl, port_of⟩)
  constructor
  · intro endpoint member
    obtain ⟨ip, entry⟩ := exists_placed member
    exact ⟨ip, assign_of_placed distinct entry, spots _ entry⟩
  · exact exclusive
  · exact untaken
  · intro endpoint member ip before free
    exact assign_sticky distinct member before free
  · intro name absent
    exact assign_dropped absent
  · intro others same
    rw [assign, inOrder_eq same distinct, ← assign]
  · refine assign_stable distinct (fun name => ?_) exclusive untaken
    rw [ExtTreeMap.contains_eq_isSome_getElem?]
    constructor
    · intro known
      by_contra absent
      push Not at absent
      rw [assign_dropped absent] at known
      cases known
    · rintro ⟨endpoint, member, rfl⟩
      obtain ⟨ip, entry⟩ := @exists_placed hash endpoints previous taken endpoint member
      rw [assign_of_placed distinct entry, Option.isSome_some]

end Settled

/-- Raw addresses are exclusive, sticky and stable, and the probe for one goes once round the whole
pool. -/
theorem raw_addresses_settled (distinct : (endpoints.map RawEndpoint.rawDomain).Nodup)
    (pooled : ∀ (name : String) (ip : Nat), previous[name]? = some ip → InPool ip)
    (roomy : Roomy hash endpoints previous taken) :
    Settled hash endpoints previous taken (assign hash endpoints previous taken) ∧
      ∀ name, poolBase + 1 ≤ virtualIpFor hash name ∧
        (probe (slotOf (virtualIpFor hash name))).Nodup ∧
        ∀ ip, ip ∈ probe (slotOf (virtualIpFor hash name)) ↔ InPool ip := by
  refine ⟨assign_settled distinct pooled roomy, fun name => ?_⟩
  have slot := @slotOf_virtualIpFor hash name
  refine ⟨slot.1, nodup_probe _, fun ip => mem_probe ?_⟩
  rw [slot.2]
  exact Nat.mod_lt _ (by decide)

/-- The address of one name. -/
def onlyAt (name : String) (ip : Nat) : OrderedMap String Nat :=
  (∅ : OrderedMap String Nat).insert name ip

/-- The databases of two repos, that want the same port. -/
def databases : List RawEndpoint :=
  ["db.shop.fghj.raw.internal", "db.stock.fghj.raw.internal"].map fun rawDomain =>
    { rawDomain, ports := (∅ : OrderedMap String UInt16).insert "5432" 49153 }

/-- The table after one of them has had its address. -/
def held : OrderedMap String Nat := onlyAt "db.shop.fghj.raw.internal" (poolBase + 23508)

/-- Both names hash to one address, and another program turns out to hold the port there. -/
theorem raw_addresses_settled_moved :
    Settled (fun _ => 0x2a390761) databases held [(poolBase + 23508, 5432)]
      (assign (fun _ => 0x2a390761) databases held [(poolBase + 23508, 5432)]) := by
  refine (raw_addresses_settled (by decide) ?_ ?_).1
  · intro name ip found
    simp only [held, onlyAt, ExtTreeMap.getElem?_insert, ExtTreeMap.getElem?_empty] at found
    split at found
    · cases found
      decide
    · cases found
  · have order : inOrder databases held = databases := by decide +kernel
    rw [Roomy, order]
    refine ⟨⟨poolBase + 1, by decide, by decide +kernel⟩, ?_, trivial⟩
    -- The first moves on to some address, so of two others one is free.
    generalize spotFor _ _ _ _ = spot
    by_cases first : spot = poolBase + 1
    · subst first
      exact ⟨poolBase + 2, by decide, by decide +kernel⟩
    · refine ⟨poolBase + 1, by decide, freeAt_iff.mpr fun port _ taken => ?_⟩
      simp only [List.mem_append, List.mem_singleton, Prod.mk.injEq] at taken
      rcases taken with ⟨same, -⟩ | taken
      · exact absurd same (by decide)
      · exact first (mem_uses.mp taken).1.symm

end Assignments

end RawNet
end Fghj
