import Fghj.RawNet
import Fghj.Sidecar

/-!
# Readers of port keys

A node's ports are keyed by text. `run_container` cuts off the protocol and publishes over tcp,
`host_port` keeps it, the sidecar's route table cuts it off, and the raw addresses want a bare
number. They mean one port exactly where the key is a plain number.
-/

namespace Fghj

open Std (ExtTreeMap)

namespace PortKeys

/-- The part of a port key that `run_container` publishes. -/
def containerPort (port : String) : String := String.ofList (port.toList.takeWhile (· ≠ '/'))

/-- The ports of a node to publish: the declared ones and `debug`. -/
def portList (ports : OrderedMap String PortConfig) (debug : Option UInt16) :
    List (String × Option UInt16) :=
  let declared := ports.toList.map fun (port, config) => (port, config.hostPort)
  match debug with
  | none => declared
  | some number =>
      let key := number.toNat.repr
      if ports.contains key then declared else declared ++ [(key, none)]

/-- What the resolver has to say about the ports of a node. -/
def checkPortConfig (id : String) (ports : OrderedMap String PortConfig) : List Warning :=
  let primaries := (ports.toList.filter (·.2.primary)).map (·.1)
  (if primaries.length > 1 then
    [.blocking ("'" ++ id ++ "' declares more than one primary port (" ++
      ", ".intercalate primaries ++ "); only one can sit at its own domain")]
  else []) ++
  (ports.toList.filter fun (_, config) =>
    config.wildcard && !config.primary && config.name.isNone).map fun (port, _) =>
      .advisory ("'" ++ id ++ "' port " ++ port ++ " sets wildcard but is neither primary nor " ++
        "named; there's no domain to wildcard")

/-- The resolver refuses no port for its key. -/
theorem accepted_iff (id : String) (ports : OrderedMap String PortConfig) :
    (∀ warning ∈ checkPortConfig id ports, warning.isBlocking = false) ↔
      (ports.toList.filter (·.2.primary)).length ≤ 1 := by
  constructor
  · intro calm
    by_contra many
    have found := calm _ (List.mem_append_left _ (by
      rw [List.length_map, if_pos (by omega)]
      exact List.mem_singleton_self _))
    cases found
  · intro single warning member
    rcases List.mem_append.mp member with refused | advised
    · rw [List.length_map, if_neg (by omega)] at refused
      cases refused
    · obtain ⟨entry, -, rfl⟩ := List.mem_map.mp advised
      rfl

/-! ## One port for all readers -/

/-- The key Docker lists the tcp bindings of a port under. -/
def listedKey (number : UInt16) : String := number.toNat.repr ++ "/tcp"

section Readers

/- The number Docker takes a published text for, if it takes it for one. -/
variable (reads : String → Option UInt16)

/-- The container port that is published for a key. -/
def published (port : String) : Option UInt16 := reads (containerPort port)

/-- What is read of a port key agrees with what is published for it. -/
structure ReadersAgree (ports : List (String × Option UInt16)) : Prop where
  /-- `host_port` finds the binding. -/
  found : ∀ port ∈ ports.map Prod.fst, ∀ number ∈ published reads port,
    ∀ (status : ContainerStatus) (host : UInt16),
      status.hostPorts[listedKey number]? = some host → status.hostPort port = some host
  /-- The route table forwards to the published port. -/
  routed : ∀ port ∈ ports.map Prod.fst, ∀ number ∈ published reads port,
    ∀ (container : ContainerInfo) (route : PortRoute), route.containerPort = port →
      (Sidecar.routeFileEntry container route).map (·.connectPort) = some number
  /-- The raw address claims it. -/
  claimed : ∀ port ∈ ports.map Prod.fst, ∀ number ∈ published reads port,
    ∀ (endpoint : RawNet.RawEndpoint) (host : UInt16), endpoint.ports[port]? = some host →
      number ∈ endpoint.portNumbers
  /-- The raw address forwards it. -/
  forwarded : ∀ port ∈ ports.map Prod.fst, ∀ number ∈ published reads port,
    ∀ (hash : String → Nat) (assigned : OrderedMap String Nat) (endpoint : RawNet.RawEndpoint)
      (host : UInt16), endpoint.ports[port]? = some host →
      ⟨RawNet.lookup hash assigned endpoint.rawDomain, number, host⟩ ∈
        RawNet.routesFor hash [endpoint] assigned
  /-- No two keys publish one port. -/
  apart : ∀ port ∈ ports.map Prod.fst, ∀ other ∈ ports.map Prod.fst, port ≠ other →
    ∀ number ∈ published reads port, published reads other ≠ some number

/-! ## Plain numbers -/

theorem takeWhile_repr (number : UInt16) :
    number.toNat.repr.toList.takeWhile (· ≠ '/') = number.toNat.repr.toList := by
  refine List.takeWhile_eq_self_iff.mpr fun char member => decide_eq_true ?_
  rintro rfl
  cases Text.isDigit_of_mem_repr member

theorem slash_repr (number : UInt16) : number.toNat.repr.toList.contains '/' = false := by
  rw [List.contains_eq_mem, decide_eq_false_iff_not]
  intro member
  cases Text.isDigit_of_mem_repr member

variable {reads}

/-- A key for which `host_port` finds the binding and the raw address claims the port is the plain
number of it. -/
theorem eq_repr_of_agree {port : String} {number : UInt16}
    (found : ∀ (status : ContainerStatus) (host : UInt16),
      status.hostPorts[listedKey number]? = some host → status.hostPort port = some host)
    (claimed : ∀ (endpoint : RawNet.RawEndpoint) (host : UInt16),
      endpoint.ports[port]? = some host → number ∈ endpoint.portNumbers) :
    port = number.toNat.repr := by
  have key := found ⟨"running", none, (∅ : OrderedMap String UInt16).insert (listedKey number) 1⟩ 1
    (by simp)
  by_cases slash : port.toList.contains '/'
  · -- no number has a slash, so a raw address would not claim it
    have listed := claimed ⟨"", (∅ : OrderedMap String UInt16).insert port 1⟩ 1 (by simp)
    obtain ⟨other, member, read⟩ := List.mem_filterMap.mp listed
    have same : port = other := by simpa using member
    rw [← same] at read
    rcases Text.isDigit_of_parseU16 read '/' (by simpa using slash) with sign | digit
    · cases sign
    · cases digit
  · rw [ContainerStatus.hostPort, if_neg slash] at key
    have same : listedKey number = port ++ "/tcp" := by
      by_contra different
      simp [different] at key
    rw [listedKey, ← String.toList_inj, String.toList_append, String.toList_append] at same
    exact String.toList_inj.mp (List.append_cancel_right same).symm

/-- All readers of the keys agree if and only if every key that is published as some port is that
port's plain number. -/
theorem readersAgree_iff (ports : List (String × Option UInt16)) : ReadersAgree reads ports ↔
    ∀ port ∈ ports.map Prod.fst, ∀ number ∈ published reads port, port = number.toNat.repr := by
  constructor
  · exact fun agree port member number read =>
      eq_repr_of_agree (agree.found port member number read) (agree.claimed port member number read)
  · intro plain
    refine ⟨?_, ?_, ?_, ?_, ?_⟩
    · intro port member number read status host bound
      obtain rfl := plain port member number read
      rwa [ContainerStatus.hostPort, if_neg (by rw [slash_repr]; decide)]
    · intro port member number read container route same
      obtain rfl := plain port member number read
      rw [Sidecar.routeFileEntry, Sidecar.portNumber, same, takeWhile_repr, Text.parseU16_repr]
      rfl
    · intro port member number read endpoint host held
      obtain rfl := plain port member number read
      refine List.mem_filterMap.mpr ⟨number.toNat.repr, ?_, Text.parseU16_repr number⟩
      exact ExtTreeMap.mem_keys.mpr (ExtTreeMap.mem_iff_isSome_getElem?.mpr (by simp [held]))
    · intro port member number read hash assigned endpoint host held
      obtain rfl := plain port member number read
      rw [RawNet.routesFor, List.flatMap_singleton]
      refine List.mem_filterMap.mpr ⟨(number.toNat.repr, host), ?_, ?_⟩
      · exact ExtTreeMap.mem_toList_iff_getElem?_eq_some.mpr held
      · simp only [Text.parseU16_repr, Option.map_some]
    · intro port member other also different number read again
      exact different ((plain port member number read).trans (plain other also number again).symm)

/-- For every node and every way Docker may read what is published, all readers of the node's port
keys agree if and only if each key that is published as some port is that port's plain number. -/
theorem port_keys_agree_iff (reads : String → Option UInt16) (ports : OrderedMap String PortConfig)
    (debug : Option UInt16) : ReadersAgree reads (portList ports debug) ↔
      ∀ port ∈ (portList ports debug).map Prod.fst, ∀ number ∈ published reads port,
        port = number.toNat.repr :=
  readersAgree_iff (portList ports debug)

end Readers

/-- A published text is a port if it is a number of 16 bits, written in digits alone. -/
def decimalPort (text : String) : Option UInt16 :=
  ((Text.readDigits false text.toList).filter fun value => value < 2 ^ 16).map fun value =>
    UInt16.ofNat value.toNat

/-- One port as its number and once more with its protocol. -/
def twice : OrderedMap String PortConfig :=
  ((∅ : OrderedMap String PortConfig).insert "80" { primary := true }).insert "80/tcp" {}

/-- A port whose key asks for udp. -/
def datagram : OrderedMap String PortConfig :=
  (∅ : OrderedMap String PortConfig).insert "53/udp" { primary := true }

theorem protocols_read_apart :
    (∀ warning ∈ checkPortConfig "dns.net" datagram, warning.isBlocking = false) ∧
    ¬ReadersAgree decimalPort (portList datagram none) ∧
    (∀ warning ∈ checkPortConfig "web.net" twice, warning.isBlocking = false) ∧
    ¬ReadersAgree decimalPort (portList twice none) := by
  have udp : published decimalPort "53/udp" = some 53 := by decide
  have tcp : published decimalPort "80/tcp" = some 80 := by decide
  have bare : published decimalPort "80" = some 80 := by decide
  refine ⟨by decide, fun agree => ?_, by decide, fun agree => ?_⟩
  · have plain := eq_repr_of_agree (agree.found "53/udp" (by decide) 53 udp)
      (agree.claimed "53/udp" (by decide) 53 udp)
    exact absurd plain (by decide)
  · exact agree.apart "80" (by decide) "80/tcp" (by decide) (by decide) 80 bare tcp

end PortKeys
end Fghj
