import Fghj.CaDirectory
import Fghj.Library.Words
import Fghj.StartNode
import Mathlib.Data.List.Dedup
import Mathlib.Data.List.Sort
import Mathlib.Data.String.Basic

/-!
# Certificates

A leaf certificate is issued on the first handshake that asks for a name and kept for the next one.
Handshakes run at the same time: whether a name gets a certificate, whether there is one already,
and putting a new one where the others find it are three steps, and other handshakes may take theirs
in between. Routes come and go all the while.

The signing CA may only sign below certain suffixes. Whoever trusts the root accepts what a
handshake is given for the name that it asked for.
-/

namespace Fghj
namespace Certificates

open CaDirectory

/-! ## Names that may be signed -/

def zone : String := "fghj.internal"

def reservedAliasTlds : List String := ["local", "test", "internal", "localhost"]

def permittedDnsSuffixes : List String :=
  ((zone :: reservedAliasTlds).insertionSort fun one other => one ≤ other).dedup

theorem mem_permittedDnsSuffixes {suffix : String} :
    suffix ∈ permittedDnsSuffixes ↔ suffix = zone ∨ suffix ∈ reservedAliasTlds := by
  rw [permittedDnsSuffixes, List.mem_dedup, List.mem_insertionSort, List.mem_cons]

/-- What the signing CA is made for. -/
def signingNameConstraints : ConstraintSet where
  suffixes := permittedDnsSuffixes.map String.toList
  listed := by decide
  plain := by
    have plain : ∀ suffix ∈ zone :: reservedAliasTlds,
        suffix.toList.all fun char => char != ',' && !Text.isWhitespace char := by decide
    rw [List.forall_mem_map]
    intro suffix listed
    simpa using plain suffix (List.mem_cons.mpr (mem_permittedDnsSuffixes.mp listed))

def labels (name : List Char) : List (List Char) := name.splitOn '.'

/-- A constraint covers the names that have labels added to its own on the left, and itself. -/
def Covers (suffix name : List Char) : Prop := labels suffix <:+ labels name

def Permits (wanted : ConstraintSet) (name : List Char) : Prop :=
  ∃ suffix ∈ wanted.suffixes, Covers suffix name

/-- The names below a constraint are written out as the code compares them. -/
theorem covers_iff {suffix name : List Char} :
    Covers suffix name ↔ name = suffix ∨ '.' :: suffix <:+ name := Words.splitOn_suffix_iff

theorem covers_toList (suffix name : String) : Covers suffix.toList name.toList ↔
    name = suffix ∨ name.endsWith ("." ++ suffix) := by
  rw [covers_iff, String.toList_inj, Text.endsWith_iff, String.toList_append]
  rfl

theorem inZone_iff (name : String) : Dns.inZone name ↔ Covers zone.toList name.toList := by
  have dotted : ".fghj.internal".toList = '.' :: zone.toList := by decide
  rw [Dns.inZone, Bool.or_eq_true, beq_iff_eq, Text.endsWith_iff, dotted, covers_iff,
    String.toList_inj]
  rfl

theorem isReservedAlias_iff (host : String) :
    Dns.isReservedAlias host ↔ ∃ tld ∈ reservedAliasTlds, Covers tld.toList host.toList := by
  simp [Dns.isReservedAlias, reservedAliasTlds, covers_toList]

theorem isReservedAlias_of_inZone {name : String} (inZone : Dns.inZone name) :
    Dns.isReservedAlias name := by
  have top : Covers "internal".toList zone.toList := covers_iff.mpr (.inr (by decide))
  exact (isReservedAlias_iff name).mpr
    ⟨"internal", by decide, top.trans ((inZone_iff name).mp inZone)⟩

/-- The signing CA may sign exactly the names that a route can get a certificate for. -/
theorem permits_iff (name : String) :
    Permits signingNameConstraints name.toList ↔ Dns.certEligible name true := by
  have wide : Dns.certEligible name true ↔ Dns.isReservedAlias name := by
    rw [Dns.certEligible, Bool.and_true, Bool.or_eq_true]
    exact or_iff_right_of_imp isReservedAlias_of_inZone
  rw [wide, isReservedAlias_iff]
  constructor
  · rintro ⟨_, member, covers⟩
    obtain ⟨suffix, listed, rfl⟩ := List.mem_map.mp member
    rcases mem_permittedDnsSuffixes.mp listed with rfl | tld
    · exact (isReservedAlias_iff name).mp (isReservedAlias_of_inZone ((inZone_iff name).mpr covers))
    · exact ⟨suffix, tld, covers⟩
  · rintro ⟨tld, member, covers⟩
    exact ⟨tld.toList, List.mem_map_of_mem (mem_permittedDnsSuffixes.mpr (.inr member)), covers⟩

/-! ## Handshakes -/

/-- A certificate for one name, without the right to sign others. -/
structure Leaf where
  name : String
  own : Nat
  issuer : Nat

/-- What a client asks for, and whether the name has a route when it does. -/
structure Hello where
  name : String
  routed : Bool

def Hello.eligible (hello : Hello) : Bool := Dns.certEligible hello.name hello.routed

/-- How far a handshake has come. -/
inductive Phase where
  | idle
  | admitted (hello : Hello)
  /-- There is no certificate yet. -/
  | missed (hello : Hello)
  | issued (hello : Hello) (leaf : Leaf)
  | served (hello : Hello) (leaf : Leaf)
  | refused (hello : Hello)
  /-- No certificate could be issued. -/
  | failed (hello : Hello)

structure World where
  cache : String → Option Leaf := fun _ => none
  phase : Nat → Phase := fun _ => .idle
  /-- Every leaf that was issued, which the code does not keep: each has the next key. -/
  leaves : List Leaf := []

inductive Event where
  | ask (handshake : Nat) (hello : Hello)
  | look (handshake : Nat)
  | issue (handshake : Nat) (succeeds : Bool)
  | keep (handshake : Nat)

def World.goes (world : World) (handshake : Nat) (phase : Phase) : World :=
  { world with phase := Function.update world.phase handshake phase }

def World.leafFor (world : World) (ca : LoadedCa) (hello : Hello) : Leaf where
  name := hello.name
  own := world.leaves.length
  issuer := ca.key

/-- One step of one handshake, if it is that handshake's next. -/
def step (ca : LoadedCa) (world : World) : Event → World
  | .ask handshake hello =>
      match world.phase handshake with
      | .idle => world.goes handshake (if hello.eligible then .admitted hello else .refused hello)
      | _ => world
  | .look handshake =>
      match world.phase handshake with
      | .admitted hello =>
          world.goes handshake ((world.cache hello.name).elim (.missed hello) (.served hello))
      | _ => world
  | .issue handshake succeeds =>
      match world.phase handshake with
      | .missed hello =>
          if succeeds then
            { world.goes handshake (.issued hello (world.leafFor ca hello)) with
              leaves := world.leaves ++ [world.leafFor ca hello] }
          else world.goes handshake (.failed hello)
      | _ => world
  | .keep handshake =>
      match world.phase handshake with
      | .issued hello leaf =>
          { world.goes handshake (.served hello leaf) with
            cache := Function.update world.cache hello.name (some leaf) }
      | _ => world

/-! ## What a client accepts -/

/-- A client that trusts the root takes the leaf, with the signing CA's certificate beside it, as
the certificate of the name. -/
structure Accepts (root signing : Cert) (leaf : Leaf) (name : String) : Prop where
  named : leaf.name = name
  signed : leaf.issuer = signing.own
  anchored : signing.issuer = root.own
  permitted : ∃ wanted, signing.permitted = some wanted ∧ Permits wanted name.toList

/-- What is true of a handshake, however far it has come. -/
def Phase.Right (world : World) : Phase → Prop
  | .idle => True
  | .admitted hello | .missed hello | .failed hello => hello.eligible = true
  | .refused hello => hello.eligible = false
  | .issued hello leaf => hello.eligible = true ∧ leaf.name = hello.name ∧ leaf ∈ world.leaves
  | .served hello leaf => hello.eligible = true ∧ leaf.name = hello.name ∧ leaf ∈ world.leaves ∧
      (world.cache hello.name).isSome

/-- Every leaf is for a name that could be asked for, and what is kept for a name is for that
name. -/
structure World.Sound (ca : LoadedCa) (world : World) : Prop where
  leaves : ∀ (n : Nat) (leaf : Leaf), world.leaves[n]? = some leaf →
    leaf.own = n ∧ leaf.issuer = ca.key ∧ Dns.certEligible leaf.name true
  cache : ∀ (name : String) (leaf : Leaf), world.cache name = some leaf →
    leaf.name = name ∧ leaf ∈ world.leaves
  phase : ∀ handshake, (world.phase handshake).Right world

section Sound

variable {ca : LoadedCa} {world next : World} {phase : Phase} {handshake : Nat} {hello : Hello}

theorem Hello.eligible_true (eligible : hello.eligible = true) :
    Dns.certEligible hello.name true := by
  rw [Hello.eligible, Dns.certEligible] at eligible
  rw [Dns.certEligible]
  grind

theorem Phase.Right.mono (right : phase.Right world) (leaves : world.leaves ⊆ next.leaves)
    (cache : ∀ name, (world.cache name).isSome → (next.cache name).isSome) :
    phase.Right next := by
  cases phase with
  | issued hello leaf => exact ⟨right.1, right.2.1, leaves right.2.2⟩
  | served hello leaf =>
      exact ⟨right.1, right.2.1, leaves right.2.2.1, cache hello.name right.2.2.2⟩
  | idle => trivial
  | admitted hello => exact right
  | missed hello => exact right
  | failed hello => exact right
  | refused hello => exact right

/-- One handshake goes on, and the others stay where they are. -/
theorem World.Sound.phase_update (sound : world.Sound ca)
    (leaves : world.leaves ⊆ next.leaves)
    (cache : ∀ name, (world.cache name).isSome → (next.cache name).isSome)
    (right : phase.Right next) (other : Nat) :
    (Function.update world.phase handshake phase other).Right next := by
  rw [Function.update_apply]
  split
  · exact right
  · exact (sound.phase other).mono leaves cache

theorem World.Sound.goes (sound : world.Sound ca) (right : phase.Right world) :
    (world.goes handshake phase).Sound ca where
  leaves := sound.leaves
  cache := sound.cache
  phase := sound.phase_update (List.Subset.refl _)
    (fun _ held => held) (right.mono (List.Subset.refl _) fun _ held => held)

theorem World.Sound.issue (sound : world.Sound ca) (eligible : hello.eligible = true) :
    World.Sound ca { world.goes handshake (.issued hello (world.leafFor ca hello)) with
      leaves := world.leaves ++ [world.leafFor ca hello] } where
  leaves := by
    intro n leaf listed
    rw [List.getElem?_append] at listed
    split at listed
    · exact sound.leaves n leaf listed
    · obtain ⟨last, rfl⟩ : n = world.leaves.length ∧ leaf = world.leafFor ca hello := by
        rw [List.getElem?_singleton] at listed
        split at listed
        · exact ⟨by omega, (Option.some.inj listed).symm⟩
        · cases listed
      exact ⟨last.symm, rfl, Hello.eligible_true eligible⟩
  cache := by
    intro name leaf kept
    obtain ⟨same, member⟩ := sound.cache name leaf kept
    exact ⟨same, List.mem_append_left _ member⟩
  phase := sound.phase_update (List.subset_append_left ..) (fun _ held => held)
    ⟨eligible, rfl, by simp⟩

theorem World.Sound.keep {leaf : Leaf} (sound : world.Sound ca) (eligible : hello.eligible = true)
    (named : leaf.name = hello.name) (member : leaf ∈ world.leaves) :
    World.Sound ca { world.goes handshake (.served hello leaf) with
      cache := Function.update world.cache hello.name (some leaf) } where
  leaves := sound.leaves
  cache := by
    intro name other kept
    simp only [Function.update_apply] at kept
    split at kept
    · rename_i same
      obtain rfl := Option.some.inj kept
      exact ⟨named.trans same.symm, member⟩
    · exact sound.cache name other kept
  phase := by
    refine sound.phase_update (List.Subset.refl _) (fun name held => ?_)
      ⟨eligible, named, member, by simp⟩
    simp only [Function.update_apply]
    split
    · rfl
    · exact held

theorem World.Sound.step (sound : world.Sound ca) (event : Event) :
    (Certificates.step ca world event).Sound ca := by
  have here := sound.phase
  cases event with
  | ask handshake hello =>
      rw [Certificates.step]
      split
      · apply sound.goes
        split
        · assumption
        · rename_i plain
          exact Bool.eq_false_iff.mpr plain
      · exact sound
  | look handshake =>
      rw [Certificates.step]
      split
      · rename_i hello now
        have eligible := here handshake
        rw [now] at eligible
        apply sound.goes
        cases kept : world.cache hello.name with
        | none => exact eligible
        | some leaf =>
            obtain ⟨named, member⟩ := sound.cache hello.name leaf kept
            exact ⟨eligible, named, member, by rw [kept]; rfl⟩
      · exact sound
  | issue handshake succeeds =>
      rw [Certificates.step]
      split
      · rename_i hello now
        have eligible := here handshake
        rw [now] at eligible
        split
        · exact sound.issue eligible
        · exact sound.goes eligible
      · exact sound
  | keep handshake =>
      rw [Certificates.step]
      split
      · rename_i hello leaf now
        have right := here handshake
        rw [now] at right
        exact sound.keep right.1 right.2.1 right.2.2
      · exact sound

theorem sound_run (ca : LoadedCa) (events : List Event) :
    (Execution.run (step ca) {} events).Sound ca := by
  refine Execution.run_always _ (World.Sound ca) (fun _ event sound => sound.step event) ?_ events
  exact ⟨by simp, by simp, fun _ => trivial⟩

end Sound

/-! ## Handshakes of clients that trust the root -/

/-- What the handshakes of a client that trusts the root come to. -/
structure Trusted (returned : Returned) (world : World) : Prop where
  /-- Whoever is given a certificate asked for a name that gets one, and accepts it. -/
  served : ∀ handshake hello leaf, world.phase handshake = .served hello leaf →
    hello.eligible = true ∧ Accepts returned.root.cert returned.signing.cert leaf hello.name
  /-- No two names share a key. -/
  apart : ∀ handshake hello leaf other asked given, world.phase handshake = .served hello leaf →
    world.phase other = .served asked given → leaf.own = given.own → asked.name = hello.name
  /-- Only names that get no certificate are turned away. -/
  refused : ∀ handshake hello, world.phase handshake = .refused hello → hello.eligible = false
  /-- A name that was served is kept a certificate for. -/
  again : ∀ handshake hello leaf, world.phase handshake = .served hello leaf →
    ∃ kept, world.cache hello.name = some kept ∧
      Accepts returned.root.cert returned.signing.cert kept hello.name
  /-- Whoever got hold of the signing key could pass for no other name. -/
  bounded : ∀ leaf name, Accepts returned.root.cert returned.signing.cert leaf name →
    Dns.certEligible name true

theorem accepts_of_sound {returned : Returned} {world : World}
    (chains : Chains signingNameConstraints returned) (sound : world.Sound returned.signing)
    {leaf : Leaf} (member : leaf ∈ world.leaves) :
    Accepts returned.root.cert returned.signing.cert leaf leaf.name := by
  obtain ⟨n, here⟩ := List.mem_iff_getElem?.mp member
  obtain ⟨-, issuer, eligible⟩ := sound.leaves n leaf here
  exact ⟨rfl, issuer.trans chains.signing.symm, chains.issued.trans chains.root.symm,
    signingNameConstraints, chains.permitted, (permits_iff leaf.name).mpr eligible⟩

/-- With a working chain, however handshakes and routes come and go, a client that trusts the root
is served for the names that get a certificate, and for no others. -/
theorem handshakes_trusted {returned : Returned} (chains : Chains signingNameConstraints returned)
    (events : List Event) :
    Trusted returned (Execution.run (step returned.signing) {} events) := by
  have sound := sound_run returned.signing events
  generalize Execution.run (step returned.signing) {} events = world at sound
  have right (handshake : Nat) (hello : Hello) (leaf : Leaf)
      (now : world.phase handshake = .served hello leaf) :
      hello.eligible = true ∧ leaf.name = hello.name ∧ leaf ∈ world.leaves ∧
        (world.cache hello.name).isSome := by
    have here := sound.phase handshake
    rwa [now] at here
  refine ⟨?_, ?_, ?_, ?_, ?_⟩
  · intro handshake hello leaf now
    obtain ⟨eligible, named, member, -⟩ := right handshake hello leaf now
    exact ⟨eligible, named ▸ accepts_of_sound chains sound member⟩
  · intro handshake hello leaf other asked given now also same
    obtain ⟨-, named, member, -⟩ := right handshake hello leaf now
    obtain ⟨-, called, listed, -⟩ := right other asked given also
    obtain ⟨n, first⟩ := List.mem_iff_getElem?.mp member
    obtain ⟨m, second⟩ := List.mem_iff_getElem?.mp listed
    have key : n = m := by
      rw [← (sound.leaves n leaf first).1, ← (sound.leaves m given second).1, same]
    rw [key, second] at first
    rw [← named, ← called, Option.some.inj first]
  · intro handshake hello now
    have here := sound.phase handshake
    rwa [now] at here
  · intro handshake hello leaf now
    obtain ⟨-, -, -, held⟩ := right handshake hello leaf now
    obtain ⟨kept, here⟩ := Option.isSome_iff_exists.mp held
    obtain ⟨named, member⟩ := sound.cache hello.name kept here
    exact ⟨kept, here, named ▸ accepts_of_sound chains sound member⟩
  · rintro leaf name ⟨-, -, -, wanted, permitted, permits⟩
    obtain rfl : wanted = signingNameConstraints :=
      Option.some.inj (permitted.symm.trans chains.permitted)
    exact (permits_iff name).mp permits

/-- Two browsers ask for one name at once on the first start. -/
theorem handshakes_trusted_cart :
    Trusted (start {} 0 signingNameConstraints).1
      (Execution.run (step (start {} 0 signingNameConstraints).1.signing) {}
        [.ask 0 ⟨"cart.fghj.internal", false⟩, .ask 1 ⟨"cart.fghj.internal", true⟩, .look 0,
          .look 1, .issue 0 true, .issue 1 true, .keep 0, .keep 1]) :=
  handshakes_trusted ⟨rfl, rfl, rfl, rfl⟩ _

end Certificates
end Fghj
