import Fghj.Library.Blocks
import Fghj.Library.Text
import Fghj.Library.Words

/-!
# The layout of a workspace's network

A new network is pinned to the subnet that was picked for it. Addresses are handed out from the
upper half of the subnet, and one of the lower half is the sidecar's, on every call.
-/

namespace Fghj
namespace Network

/-! ## Addresses -/

/-- An octet: one to three digits, none a zero before others. -/
def readOctet (text : List Char) : Option Nat :=
  if 3 < text.length ∨ 1 < text.length ∧ text.head? = some '0' then none
  else ((Text.readDigits false text).filter fun value => value < 2 ^ 8).map Int.toNat

/-- `Ipv4Addr::from_str` and `u32::from` -/
def parseIpv4 (text : List Char) : Option UInt32 :=
  match (text.splitOn '.').mapM readOctet with
  | some [a, b, c, d] => some (.ofNat (((a * 256 + b) * 256 + c) * 256 + d))
  | _ => none

def octets (address : UInt32) : List Nat :=
  [address.toNat / 256 / 256 / 256, address.toNat / 256 / 256 % 256, address.toNat / 256 % 256,
    address.toNat % 256]

/-- `Ipv4Addr::from` and how it is displayed -/
def display (address : UInt32) : List Char :=
  ['.'].intercalate ((octets address).map (Nat.toDigits 10))

/-- `u32::from_str` -/
def parseU32 (text : List Char) : Option UInt32 :=
  let digits :=
    match text with
    | '+' :: digits => digits
    | digits => digits
  ((Text.readDigits false digits).filter fun value => value < 2 ^ 32).map fun value =>
    UInt32.ofNat value.toNat

/-! ## The layout of a subnet -/

/-- A base address and a prefix. -/
def readSubnet (subnet : List Char) : Option (UInt32 × UInt32) := do
  let (base, bits) ← Text.splitOnce '/' subnet
  let base ← parseIpv4 base
  let bits ← parseU32 bits
  return (base, bits)

def showSubnet (base bits : UInt32) : List Char := display base ++ '/' :: Nat.toDigits 10 bits.toNat

/-- How many addresses a prefix leaves. -/
def sizeOf (bits : UInt32) : UInt32 := 1 <<< (32 - bits)

/-- The first address of the subnet. -/
def networkOf (base bits : UInt32) : UInt32 := base &&& ~~~(sizeOf bits - 1)

/-- How a pinned subnet is split: the sidecar at `.2` in the lower half, everything Docker allocates
in the upper half. -/
structure Layout where
  sidecar : List Char
  dynamicRange : List Char
  deriving DecidableEq

/-- `none` for anything but an IPv4 subnet big enough to split, /29 or wider. -/
def Layout.of (subnet : List Char) : Option Layout := do
  let (base, bits) ← readSubnet subnet
  if 1 ≤ bits ∧ bits ≤ 29 then
    let base := networkOf base bits
    some
      { sidecar := display (base + 2)
        dynamicRange := showSubnet (base + sizeOf bits / 2) (bits + 1) }
  else none

/-! ## The network of a workspace -/

structure IpamConfig where
  subnet : Option (List Char) := none
  gateway : Option (List Char) := none
  ipRange : Option (List Char) := none
  deriving DecidableEq

structure NetworkCreateRequest where
  name : String
  labels : List (String × String)
  ipam : Option (List IpamConfig) := none
  deriving DecidableEq

/-- How a call to Docker fails. -/
inductive DockerError where
  | response (statusCode : Nat) (message : String)
  | other (message : String)

/-- An error and what was being done. -/
structure Failure where
  context : String
  cause : DockerError

/-- The calls to Docker, over what it keeps; a network is inspected for its address settings. -/
structure Docker (σ : Type) where
  createNetwork : σ → NetworkCreateRequest → σ × Except DockerError Unit
  inspectNetwork : σ → String → Except DockerError (Option (List IpamConfig))
  removeNetwork : σ → String → σ

inductive Created where
  | new
  | alreadyThere

section Calls

variable {σ : Type} (docker : Docker σ) (state : σ)

def create (request : NetworkCreateRequest) : σ × Except Failure Created :=
  match docker.createNetwork state request with
  | (next, .ok ()) => (next, .ok .new)
  | (next, .error (.response 409 _)) => (next, .ok .alreadyThere)
  | (next, .error e) => (next, .error ⟨"docker create_network failed", e⟩)

def ipv4Config (network : String) : Except Failure (Option IpamConfig) :=
  match docker.inspectNetwork state network with
  | .error e => .error ⟨"docker inspect_network failed", e⟩
  | .ok config =>
      .ok ((config.getD []).find? fun config => (config.subnet.bind Layout.of).isSome)

/-- Compose's network labels, and no address settings. -/
def unpinned (name project : String) : NetworkCreateRequest where
  name := name
  labels := [("com.docker.compose.network", "default"), ("com.docker.compose.project", project)]

/-- The request for the subnet that was picked, its addresses handed out from the upper half. -/
def pinned (name project : String) (picked : IpamConfig) (layout : Layout) : NetworkCreateRequest :=
  let config :=
    { subnet := picked.subnet
      gateway := picked.gateway
      ipRange := some layout.dynamicRange }
  { unpinned name project with ipam := some [config] }

def ensureNetwork (name project : String) : σ × Except Failure Unit :=
  match create docker state (unpinned name project) with
  | (state, .error e) => (state, .error e)
  | (state, .ok .alreadyThere) => (state, .ok ())
  | (state, .ok .new) =>
      match ipv4Config docker state name with
      | .error e => (state, .error e)
      | .ok none => (state, .ok ())
      | .ok (some picked) =>
          match picked.subnet.bind Layout.of with
          | none => (state, .ok ())
          | some layout =>
              let state := docker.removeNetwork state name
              match create docker state (pinned name project picked layout) with
              | (state, .ok _) => (state, .ok ())
              | (state, .error _) =>
                  -- everything still works unpinned
                  match create docker state (unpinned name project) with
                  | (state, .ok _) => (state, .ok ())
                  | (state, .error e) => (state, .error e)

/-- The address reserved for the sidecar; none for a network that is not pinned. -/
def sidecarAddress (network : String) : Except Failure (Option (List Char)) :=
  match ipv4Config docker state network with
  | .error e => .error e
  | .ok none => .ok none
  | .ok (some config) =>
      match config.subnet.bind Layout.of with
      | none => .ok none
      | some layout =>
          if config.ipRange = some layout.dynamicRange then .ok (some layout.sidecar) else .ok none

end Calls

/-! ## Addresses are read as they are displayed -/

theorem readOctet_toDigits {octet : Nat} (small : octet < 256) :
    readOctet (Nat.toDigits 10 octet) = some octet := by
  have all : ∀ octet < 256, readOctet (Nat.toDigits 10 octet) = some octet := by decide +kernel
  exact all octet small

theorem octet_lt {address : UInt32} {octet : Nat} (member : octet ∈ octets address) :
    octet < 256 := by
  have bound := address.toNat_lt
  simp only [octets, List.mem_cons, List.not_mem_nil, or_false] at member
  omega

theorem mapM_readOctet {parts : List Nat} (small : ∀ part ∈ parts, part < 256) :
    (parts.map (Nat.toDigits 10)).mapM readOctet = some parts := by
  induction parts with
  | nil => rfl
  | cons part parts ih =>
      obtain ⟨first, later⟩ := List.forall_mem_cons.mp small
      rw [List.map_cons, List.mapM_cons, readOctet_toDigits first, ih later]
      rfl

theorem parseIpv4_display (address : UInt32) : parseIpv4 (display address) = some address := by
  have bare : ∀ part ∈ (octets address).map (Nat.toDigits 10), '.' ∉ part := by
    rw [List.forall_mem_map]
    intro octet _ member
    cases Text.isDigit_of_mem_toDigits member
  have split : (display address).splitOn '.' = (octets address).map (Nat.toDigits 10) :=
    List.splitOn_intercalate '.' bare (by simp [octets])
  have whole : ((address.toNat / 256 / 256 / 256 * 256 + address.toNat / 256 / 256 % 256) * 256 +
      address.toNat / 256 % 256) * 256 + address.toNat % 256 = address.toNat := by
    omega
  rw [parseIpv4, split, mapM_readOctet fun octet => octet_lt]
  simp only [octets, whole, UInt32.ofNat_toNat]

theorem slash_not_mem_display (address : UInt32) : '/' ∉ display address := by
  intro member
  rcases Words.mem_joined member with same | ⟨part, listed, inside⟩
  · cases same
  · obtain ⟨octet, -, rfl⟩ := List.mem_map.mp listed
    cases Text.isDigit_of_mem_toDigits inside

theorem parseU32_toDigits (number : UInt32) :
    parseU32 (Nat.toDigits 10 number.toNat) = some number := by
  have small := number.toNat_lt
  have value : Text.readDigits false (Nat.toDigits 10 number.toNat) = some (number.toNat : Int) :=
    Text.readDigits_toDigits (by simp) (by omega)
  unfold parseU32
  split
  · rename_i digits shape
    -- the first digit is no sign
    have digit := Text.isDigit_of_mem_toDigits
      (shape ▸ List.mem_cons_self : '+' ∈ Nat.toDigits 10 number.toNat)
    cases digit
  · simp only [value]
    rw [Option.filter_some, if_pos (by simp; omega)]
    simp

theorem readSubnet_showSubnet (base bits : UInt32) :
    readSubnet (showSubnet base bits) = some (base, bits) := by
  rw [readSubnet, showSubnet, Text.splitOnce_append (slash_not_mem_display base)]
  simp [parseIpv4_display, parseU32_toDigits]

/-! ## Arithmetic of 32 bits -/

/-- The addresses of a subnet: those that agree with the base up to the prefix. -/
def addresses (base bits : UInt32) : Set UInt32 :=
  {address | address.toNat ∈ Blocks.block (2 ^ (32 - bits.toNat)) base.toNat}

/-- No operation on a base and a prefix leaves the 32 bits. -/
structure Exact (base bits : UInt32) : Prop where
  shift_eq : (32 - bits).toNat = 32 - bits.toNat
  shift_lt : (32 - bits).toNat < 32
  size_eq : (sizeOf bits).toNat = 2 ^ (32 - bits.toNat)
  mask_eq : (sizeOf bits - 1).toNat = 2 ^ (32 - bits.toNat) - 1
  sidecar_eq : (networkOf base bits + 2).toNat = (networkOf base bits).toNat + 2
  half_eq : (sizeOf bits / 2).toNat = 2 ^ (31 - bits.toNat)
  range_eq : (networkOf base bits + sizeOf bits / 2).toNat =
    (networkOf base bits).toNat + 2 ^ (31 - bits.toNat)
  bits_eq : (bits + 1).toNat = bits.toNat + 1

/-- A subnet that is split has two halves of four addresses or more. -/
theorem halves {bits : UInt32} (narrow : bits ≤ 29) :
    2 ^ (32 - bits.toNat) = 2 * 2 ^ (31 - bits.toNat) ∧ 4 ≤ 2 ^ (31 - bits.toNat) := by
  have high : bits.toNat ≤ 29 := UInt32.le_iff_toNat_le.mp narrow
  have shift : 32 - bits.toNat = (31 - bits.toNat) + 1 := by omega
  rw [shift, Nat.pow_succ']
  exact ⟨rfl, Nat.pow_le_pow_right (by decide : 0 < 2) (by omega : 2 ≤ 31 - bits.toNat)⟩

section Arithmetic

variable {base other bits : UInt32} (wide : 1 ≤ bits)

include wide

section Network

variable (narrow : bits ≤ 32)

include narrow

theorem toNat_bits : 1 ≤ bits.toNat ∧ bits.toNat ≤ 32 :=
  ⟨UInt32.le_iff_toNat_le.mp wide, UInt32.le_iff_toNat_le.mp narrow⟩

theorem toNat_sizeOf : (sizeOf bits).toNat = 2 ^ (32 - bits.toNat) := by
  obtain ⟨low, high⟩ := toNat_bits wide narrow
  have shift : (32 - bits).toNat % 32 = 32 - bits.toNat := by
    rw [UInt32.toNat_sub_of_le 32 bits narrow]
    change (32 - bits.toNat) % 32 = 32 - bits.toNat
    omega
  rw [sizeOf, UInt32.toNat_shiftLeft, shift, UInt32.toNat_one, Nat.one_shiftLeft,
    Nat.mod_eq_of_lt (Nat.pow_lt_pow_right (by decide) (by omega))]

theorem toNat_mask : (sizeOf bits - 1).toNat = 2 ^ (32 - bits.toNat) - 1 := by
  have size := toNat_sizeOf wide narrow
  rw [UInt32.toNat_sub_of_le, size]
  · rfl
  · rw [UInt32.le_iff_toNat_le, size]
    exact Nat.one_le_two_pow

theorem toNat_networkOf :
    (networkOf base bits).toNat = Blocks.first (2 ^ (32 - bits.toNat)) base.toNat := by
  rw [networkOf, UInt32.toNat_and, UInt32.toNat_not, toNat_mask wide narrow]
  exact Blocks.and_not_mask 32 _ base.toNat_lt (Nat.sub_le 32 bits.toNat)

theorem networkOf_eq (same : other ∈ addresses base bits) :
    networkOf other bits = networkOf base bits := by
  rw [← UInt32.toNat_inj, toNat_networkOf wide narrow, toNat_networkOf wide narrow]
  exact Blocks.first_eq_of_mem same

end Network

variable (narrow : bits ≤ 29)

include narrow

theorem exact : Exact base bits := by
  have fits : bits ≤ 32 := UInt32.le_trans narrow (by decide)
  obtain ⟨low, -⟩ := toNat_bits wide fits
  have high : bits.toNat ≤ 29 := UInt32.le_iff_toNat_le.mp narrow
  obtain ⟨double, four⟩ := halves narrow
  have size := toNat_sizeOf wide fits
  have half : (sizeOf bits / 2).toNat = 2 ^ (31 - bits.toNat) := by
    rw [UInt32.toNat_div, size, double]
    exact Nat.mul_div_cancel_left _ (by decide)
  -- the subnet ends within the 32 bits
  have room : (networkOf base bits).toNat + 2 ^ (32 - bits.toNat) ≤ 2 ^ 32 := by
    rw [toNat_networkOf wide fits]
    exact Blocks.first_add_le (Nat.pow_dvd_pow 2 (Nat.sub_le 32 bits.toNat)) base.toNat_lt
  exact
    { shift_eq := UInt32.toNat_sub_of_le 32 bits fits
      shift_lt := by
        rw [UInt32.toNat_sub_of_le 32 bits fits]
        change 32 - bits.toNat < 32
        omega
      size_eq := size
      mask_eq := toNat_mask wide fits
      sidecar_eq := by
        rw [UInt32.toNat_add, Nat.mod_eq_of_lt]
        · rfl
        · change _ + 2 < 2 ^ 32
          omega
      half_eq := half
      range_eq := by
        rw [UInt32.toNat_add, half, Nat.mod_eq_of_lt (by omega)]
      bits_eq := by
        rw [UInt32.toNat_add, Nat.mod_eq_of_lt]
        · rfl
        · change _ + 1 < 2 ^ 32
          omega }

end Arithmetic

/-! ## What a layout reserves -/

/-- The halves of a subnet: an address in the lower one, and the upper one as a subnet. -/
structure Reserves (base bits sidecar range : UInt32) : Prop where
  -- the first address of the subnet is the least
  network_mem : networkOf base bits ∈ addresses base bits
  network_le : ∀ address ∈ addresses base bits, networkOf base bits ≤ address
  range_upper : addresses range (bits + 1) =
    {address | address ∈ addresses base bits ∧
      (networkOf base bits).toNat + 2 ^ (32 - bits.toNat) / 2 ≤ address.toNat}
  range_aligned : networkOf range (bits + 1) = range
  sidecar_mem : sidecar ∈ addresses base bits
  sidecar_lower : sidecar.toNat < (networkOf base bits).toNat + 2 ^ (32 - bits.toNat) / 2
  sidecar_not_mem : sidecar ∉ addresses range (bits + 1)
  sidecar_ne_network : sidecar ≠ networkOf base bits
  sidecar_ne_first : sidecar.toNat ≠ (networkOf base bits).toNat + 1

theorem reserves {base bits : UInt32} (wide : 1 ≤ bits) (narrow : bits ≤ 29) :
    Reserves base bits (networkOf base bits + 2) (networkOf base bits + sizeOf bits / 2) := by
  have fits : bits ≤ 32 := UInt32.le_trans narrow (by decide)
  obtain ⟨double, four⟩ := halves narrow
  have network := @toNat_networkOf base bits wide fits
  have exact := @exact base bits wide narrow
  have positive : 0 < 2 ^ (32 - bits.toNat) := Nat.two_pow_pos _
  have halfPositive : 0 < 2 ^ (31 - bits.toNat) := Nat.two_pow_pos _
  have half : 2 ^ (32 - bits.toNat) / 2 = 2 ^ (31 - bits.toNat) := by
    rw [double, Nat.mul_div_cancel_left _ (by decide)]
  have below : 32 - (bits + 1).toNat = 31 - bits.toNat := by
    rw [exact.bits_eq]
    omega
  have upper : addresses (networkOf base bits + sizeOf bits / 2) (bits + 1) =
      {address | address ∈ addresses base bits ∧
        (networkOf base bits).toNat + 2 ^ (32 - bits.toNat) / 2 ≤ address.toNat} := by
    ext address
    change address.toNat ∈ Blocks.block (2 ^ (32 - (bits + 1).toNat)) _ ↔
      address.toNat ∈ Blocks.block (2 ^ (32 - bits.toNat)) base.toNat ∧ _
    rw [below, exact.range_eq, network, half, double, Blocks.block_upper halfPositive]
    rfl
  have inside : networkOf base bits + 2 ∈ addresses base bits := by
    change (networkOf base bits + 2).toNat ∈ Blocks.block _ _
    rw [exact.sidecar_eq, network, Blocks.mem_block_iff positive]
    omega
  have lower : (networkOf base bits + 2).toNat <
      (networkOf base bits).toNat + 2 ^ (32 - bits.toNat) / 2 := by
    rw [exact.sidecar_eq, half]
    omega
  exact
    { network_mem := by
        change (networkOf base bits).toNat ∈ Blocks.block _ _
        rw [network]
        exact Blocks.first_mem positive
      network_le := by
        intro address member
        rw [UInt32.le_iff_toNat_le, network]
        exact ((Blocks.mem_block_iff positive).mp member).1
      range_upper := upper
      range_aligned := by
        rw [← UInt32.toNat_inj, toNat_networkOf, below, exact.range_eq, network, double,
          Blocks.first_upper halfPositive]
        · rw [UInt32.le_iff_toNat_le, exact.bits_eq]
          exact Nat.le_add_left 1 _
        · rw [UInt32.le_iff_toNat_le, exact.bits_eq]
          have high : bits.toNat ≤ 29 := UInt32.le_iff_toNat_le.mp narrow
          exact Nat.le_trans (Nat.succ_le_succ high) (by decide)
      sidecar_mem := inside
      sidecar_lower := lower
      sidecar_not_mem := by
        rw [upper]
        exact fun member => absurd member.2 (Nat.not_le.mpr lower)
      sidecar_ne_network := by
        rw [Ne, ← UInt32.toNat_inj, exact.sidecar_eq]
        omega
      sidecar_ne_first := by
        rw [exact.sidecar_eq]
        omega }

/-! ## What Docker keeps of a network -/

/-- A subnet with no host bits, as Docker writes it. -/
def canonical (subnet : List Char) : Option (List Char) :=
  (readSubnet subnet).map fun (base, bits) => showSubnet (networkOf base bits) bits

/-- Spellings of one subnet; their host bits may differ. -/
def SameSubnet (subnet other : List Char) : Prop :=
  ∃ base host bits, readSubnet subnet = some (host, bits) ∧ readSubnet other = some (base, bits) ∧
    host ∈ addresses base bits

/-- A config as it is reported: the subnet in any spelling, the range as it was given or without
host bits. -/
structure Spells (reported config : IpamConfig) : Prop where
  subnet : ∃ text given, reported.subnet = some text ∧ config.subnet = some given ∧
    SameSubnet text given
  ipRange : reported.ipRange = config.ipRange ∨ reported.ipRange = config.ipRange.bind canonical

/-- The network's one config is reported, and no other of IPv4. -/
structure Reports (reported : List IpamConfig) (config : IpamConfig) : Prop where
  listed : ∃ found ∈ reported, Spells found config
  only : ∀ found ∈ reported, (found.subnet.bind readSubnet).isSome → Spells found config

variable {σ : Type}

/-- Docker keeps a network as it was asked for until it is removed, whatever else it is told, and
reports the addresses it was given. -/
structure Docker.Keeps (docker : Docker σ) (holds : σ → String → Option NetworkCreateRequest) :
    Prop where
  created : ∀ state request, (docker.createNetwork state request).2 = .ok () →
    holds (docker.createNetwork state request).1 request.name = some request
  kept : ∀ state request name held, holds state name = some held →
    holds (docker.createNetwork state request).1 name = some held
  removed : ∀ state name other, other ≠ name →
    holds (docker.removeNetwork state other) name = holds state name
  reported : ∀ state name request config subnet base bits reported,
    holds state name = some request → request.ipam = some [config] →
      config.subnet = some subnet → readSubnet subnet = some (base, bits) → 1 ≤ bits → bits ≤ 32 →
        docker.inspectNetwork state name = .ok reported → Reports (reported.getD []) config

/-- What Docker is told. -/
inductive Event where
  | create (request : NetworkCreateRequest)
  | remove (name : String)

def Docker.step (docker : Docker σ) (state : σ) : Event → σ
  | .create request => (docker.createNetwork state request).1
  | .remove name => docker.removeNetwork state name

def Docker.run (docker : Docker σ) (state : σ) (events : List Event) : σ :=
  events.foldl docker.step state

/-! ## The same layout on every call -/

variable {subnet : List Char}

theorem Layout.of_eq_some {layout : Layout} :
    Layout.of subnet = some layout ↔ ∃ base bits, readSubnet subnet = some (base, bits) ∧
      1 ≤ bits ∧ bits ≤ 29 ∧
      layout = ⟨display (networkOf base bits + 2),
        showSubnet (networkOf base bits + sizeOf bits / 2) (bits + 1)⟩ := by
  constructor
  · intro accepted
    rw [Layout.of] at accepted
    obtain ⟨⟨base, bits⟩, read, rest⟩ := Option.bind_eq_some_iff.mp accepted
    simp only at rest
    split at rest
    · rename_i range
      exact ⟨base, bits, read, range.1, range.2, (Option.some.inj rest).symm⟩
    · cases rest
  · rintro ⟨base, bits, read, wide, narrow, rfl⟩
    rw [Layout.of, read]
    exact if_pos ⟨wide, narrow⟩

theorem Layout.of_eq {subnet other : List Char} {layout : Layout}
    (accepted : Layout.of subnet = some layout) (same : SameSubnet other subnet) :
    Layout.of other = some layout := by
  obtain ⟨base, bits, read, wide, narrow, rfl⟩ := Layout.of_eq_some.mp accepted
  obtain ⟨whole, host, length, readOther, readWhole, inside⟩ := same
  obtain ⟨rfl, rfl⟩ : whole = base ∧ length = bits := by
    simpa using readWhole.symm.trans read
  refine Layout.of_eq_some.mpr ⟨host, length, readOther, wide, narrow, ?_⟩
  rw [networkOf_eq wide (UInt32.le_trans narrow (by decide)) inside]

/-- A range with no host bits is written in one way. -/
theorem canonical_dynamicRange {layout : Layout} (accepted : Layout.of subnet = some layout) :
    canonical layout.dynamicRange = some layout.dynamicRange := by
  obtain ⟨base, bits, -, wide, narrow, rfl⟩ := Layout.of_eq_some.mp accepted
  rw [canonical, readSubnet_showSubnet]
  exact congrArg (fun base => some (showSubnet base (bits + 1)))
    (reserves wide narrow).range_aligned

variable {docker : Docker σ} {holds : σ → String → Option NetworkCreateRequest} {state : σ}
  {name project : String} {picked : IpamConfig} {layout : Layout}

theorem sidecarAddress_eq {reported : List IpamConfig} {config : IpamConfig}
    (accepted : Layout.of subnet = some layout) (given : config.subnet = some subnet)
    (ranged : config.ipRange = some layout.dynamicRange) (reports : Reports reported config)
    {answer : Option (List IpamConfig)} (listed : answer.getD [] = reported)
    (inspected : docker.inspectNetwork state name = .ok answer) :
    sidecarAddress docker state name = .ok (some layout.sidecar) := by
  have spelled : ∀ found, Spells found config → found.subnet.bind Layout.of = some layout ∧
      found.ipRange = some layout.dynamicRange := by
    intro found spells
    obtain ⟨text, whole, told, same, spelling⟩ := spells.subnet
    obtain rfl : subnet = whole := Option.some.inj (given.symm.trans same)
    rw [told, Option.bind_some, Layout.of_eq accepted spelling]
    refine ⟨rfl, ?_⟩
    rcases spells.ipRange with as | without
    · exact as.trans ranged
    · rw [without, ranged, Option.bind_some, canonical_dynamicRange accepted]
  obtain ⟨one, member, spells⟩ := reports.listed
  obtain ⟨found, first⟩ : ∃ found,
      reported.find? (fun config => (config.subnet.bind Layout.of).isSome) = some found := by
    rw [← Option.isSome_iff_exists, List.find?_isSome]
    exact ⟨one, member, by rw [(spelled one spells).1]; rfl⟩
  have readable : (found.subnet.bind readSubnet).isSome := by
    have accepts := List.find?_some first
    obtain ⟨other, split⟩ := Option.isSome_iff_exists.mp accepts
    obtain ⟨text, told, accepted⟩ := Option.bind_eq_some_iff.mp split
    obtain ⟨base, bits, read, -⟩ := Layout.of_eq_some.mp accepted
    rw [told, Option.bind_some, read]
    rfl
  obtain ⟨layout_eq, range_eq⟩ :=
    spelled found (reports.only found (List.mem_of_find?_eq_some first) readable)
  have picks : ipv4Config docker state name = .ok (some found) := by
    rw [ipv4Config, inspected]
    simp only [listed, first]
  rw [sidecarAddress, picks]
  simp only [layout_eq, range_eq, if_true]

theorem holds_run (keeps : docker.Keeps holds) {held : NetworkCreateRequest}
    (holding : holds state name = some held) {events : List Event}
    (stays : Event.remove name ∉ events) : holds (docker.run state events) name = some held := by
  induction events generalizing state with
  | nil => exact holding
  | cons event events ih =>
      rw [List.mem_cons, not_or] at stays
      refine @ih (docker.step state event) ?_ stays.2
      cases event with
      | create request => exact keeps.kept state request name held holding
      | remove other =>
          have apart : other ≠ name := fun same => stays.1 (congrArg Event.remove same.symm)
          exact (keeps.removed state name other apart).trans holding

/-- Where the subnet that was picked can be split and the second request is met, the network is
pinned. -/
theorem ensureNetwork_pins (keeps : docker.Keeps holds) {fresh next : σ}
    (created : create docker state (unpinned name project) = (fresh, .ok .new))
    (found : ipv4Config docker fresh name = .ok (some picked))
    (accepted : picked.subnet.bind Layout.of = some layout)
    (again : create docker (docker.removeNetwork fresh name) (pinned name project picked layout) =
      (next, .ok .new)) :
    ensureNetwork docker state name project = (next, .ok ()) ∧
      holds next name = some (pinned name project picked layout) := by
  constructor
  · simp only [ensureNetwork, created, found, accepted, again]
  · rw [create] at again
    split at again
    · rename_i other answer
      obtain rfl : other = next := congrArg Prod.fst again
      have kept :=
        keeps.created (docker.removeNetwork fresh name) (pinned name project picked layout)
      rw [answer] at kept
      exact kept rfl
    · cases again
    · cases again

/-- The range is the upper half of the subnet and the sidecar's address is in the lower half, past
the first host; every spelling of the subnet is split alike. A network that is made, and made again
with its range, is pinned, and the sidecar of a pinned network is given the same address on every
call. -/
theorem sidecar_reserved {subnet : List Char} {layout : Layout}
    (accepted : Layout.of subnet = some layout) :
    ∃ base bits sidecar range, readSubnet subnet = some (base, bits) ∧ 1 ≤ bits ∧ bits ≤ 29 ∧
      Exact base bits ∧ parseIpv4 layout.sidecar = some sidecar ∧
      readSubnet layout.dynamicRange = some (range, bits + 1) ∧ Reserves base bits sidecar range ∧
      (∀ other host, readSubnet other = some (host, bits) → host ∈ addresses base bits →
        Layout.of other = some layout) ∧
      ∀ (σ : Type) (docker : Docker σ) (holds : σ → String → Option NetworkCreateRequest)
        (state : σ) (name project : String) (picked : IpamConfig), docker.Keeps holds →
        picked.subnet = some subnet →
        (∀ fresh next, create docker state (unpinned name project) = (fresh, .ok .new) →
          ipv4Config docker fresh name = .ok (some picked) →
          create docker (docker.removeNetwork fresh name) (pinned name project picked layout) =
            (next, .ok .new) →
          ensureNetwork docker state name project = (next, .ok ()) ∧
            holds next name = some (pinned name project picked layout)) ∧
        (holds state name = some (pinned name project picked layout) →
          ∀ events, Event.remove name ∉ events → ∀ answer,
            docker.inspectNetwork (docker.run state events) name = .ok answer →
              sidecarAddress docker (docker.run state events) name =
                .ok (some layout.sidecar)) := by
  obtain ⟨base, bits, read, wide, narrow, rfl⟩ := Layout.of_eq_some.mp accepted
  refine ⟨base, bits, networkOf base bits + 2, networkOf base bits + sizeOf bits / 2, read, wide,
    narrow, exact wide narrow, parseIpv4_display _, readSubnet_showSubnet _ _,
    reserves wide narrow, ?_, ?_⟩
  · intro other host readOther inside
    exact Layout.of_eq accepted ⟨base, host, bits, readOther, read, inside⟩
  · intro σ docker holds state name project picked keeps subnet_eq
    refine ⟨fun fresh next created found again =>
      ensureNetwork_pins keeps created found (subnet_eq ▸ accepted) again, ?_⟩
    intro holding events stays answer inspected
    have held := holds_run keeps holding stays
    have reports := keeps.reported _ name _ _ subnet base bits answer held rfl subnet_eq read wide
      (UInt32.le_trans narrow (by decide)) inspected
    refine sidecarAddress_eq accepted ?_ ?_ reports rfl inspected
    · exact subnet_eq
    · rfl

/-! ## A Docker that keeps a list -/

/-- What is reported of a config. -/
def reportOf (config : IpamConfig) : IpamConfig :=
  { config with subnet := config.subnet.map fun subnet => (canonical subnet).getD subnet }

/-- What a network is given that asked for nothing. -/
def defaultPool : List IpamConfig :=
  [{ subnet := some "192.168.97.0/24".toList, gateway := some "192.168.97.1".toList }]

/-- Names are taken once, and the networks are what was asked for. -/
def Docker.listed : Docker (List NetworkCreateRequest) where
  createNetwork networks request :=
    if networks.any (·.name == request.name) then
      (networks, .error (.response 409 "network already exists"))
    else (request :: networks, .ok ())
  inspectNetwork networks name :=
    match networks.find? (·.name == name) with
    | none => .error (.response 404 "network not found")
    | some request => .ok (some ((request.ipam.getD defaultPool).map reportOf))
  removeNetwork networks name := networks.filter (·.name != name)

theorem spells_reportOf {config : IpamConfig} {base bits : UInt32}
    (given : config.subnet = some subnet) (read : readSubnet subnet = some (base, bits))
    (wide : 1 ≤ bits) (narrow : bits ≤ 32) : Spells (reportOf config) config where
  subnet := by
    have masked : canonical subnet = some (showSubnet (networkOf base bits) bits) := by
      rw [canonical, read]
      rfl
    refine ⟨showSubnet (networkOf base bits) bits, subnet, ?_, given,
      base, networkOf base bits, bits, readSubnet_showSubnet _ _, read, ?_⟩
    · simp [reportOf, given, masked]
    · change (networkOf base bits).toNat ∈ Blocks.block _ _
      rw [toNat_networkOf wide narrow]
      exact Blocks.first_mem (Nat.two_pow_pos _)
  ipRange := .inl rfl

theorem Docker.inspectNetwork_listed {networks : List NetworkCreateRequest} {name : String}
    {request : NetworkCreateRequest} (found : networks.find? (·.name == name) = some request) :
    Docker.listed.inspectNetwork networks name =
      .ok (some ((request.ipam.getD defaultPool).map reportOf)) := by
  simp only [Docker.listed, found]

theorem Docker.listed_keeps :
    Docker.listed.Keeps fun networks name => networks.find? (·.name == name) where
  created := by
    intro networks request done
    simp only [Docker.listed] at done ⊢
    split at done
    · cases done
    · rename_i absent
      rw [if_neg absent]
      simp
  kept := by
    intro networks request name held holding
    simp only [Docker.listed]
    split
    · exact holding
    · rename_i absent
      have apart : (request.name == name) = false := by
        rw [beq_eq_false_iff_ne]
        rintro rfl
        have named := List.find?_some holding
        exact absent (List.any_eq_true.mpr ⟨held, List.mem_of_find?_eq_some holding, named⟩)
      rw [List.find?_cons_of_neg (by simp [apart]), holding]
  removed := by
    intro networks name other apart
    simp only [Docker.listed, List.find?_filter]
    congr 1
    funext request
    by_cases same : request.name = name
    · simp [same, Ne.symm apart]
    · simp [same]
  reported := by
    intro networks name request config subnet base bits answer holding given told read wide narrow
      inspected
    rw [Docker.inspectNetwork_listed holding, given] at inspected
    obtain rfl := Except.ok.inj inspected
    have spells := spells_reportOf told read wide narrow
    exact
      { listed := ⟨reportOf config, List.mem_singleton_self _, spells⟩
        only := by
          intro found member _
          rwa [List.mem_singleton.mp member] }

/-- A network is made and pinned, another is made, and the sidecar is given `.2`. -/
theorem sidecar_reserved_listed :
    ∃ base bits, readSubnet "192.168.97.0/24".toList = some (base, bits) ∧ Exact base bits ∧
      sidecarAddress .listed
          (Docker.listed.run (ensureNetwork .listed [] "fghj-shop" "fghj-shop").1
            [.create (unpinned "fghj-blog" "fghj-blog"), .remove "fghj-old"]) "fghj-shop" =
        .ok (some "192.168.97.2".toList) := by
  have accepted : Layout.of "192.168.97.0/24".toList =
      some ⟨"192.168.97.2".toList, "192.168.97.128/25".toList⟩ := by
    decide
  obtain ⟨base, bits, -, -, read, -, -, exact, -, -, -, -, calls⟩ := sidecar_reserved accepted
  have holding : (ensureNetwork .listed [] "fghj-shop" "fghj-shop").1.find?
      (·.name == "fghj-shop") = some (pinned "fghj-shop" "fghj-shop" defaultPool[0]
        ⟨"192.168.97.2".toList, "192.168.97.128/25".toList⟩) := by
    decide
  have stays : Event.remove "fghj-shop" ∉
      [.create (unpinned "fghj-blog" "fghj-blog"), .remove "fghj-old"] := by
    simp
  have held := holds_run Docker.listed_keeps holding stays
  exact ⟨base, bits, read, exact, (calls _ .listed _ _ _ _ _ Docker.listed_keeps rfl).2 holding _
    stays _ (Docker.inspectNetwork_listed held)⟩

end Network
end Fghj
