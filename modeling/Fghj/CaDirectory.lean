import Fghj.Library.Execution
import Fghj.Library.Text
import Fghj.Library.Words
import Mathlib.Data.List.Basic

/-!
# The CA directory

The root CA and the name-constrained CA that signs every leaf are each kept in two files, and a
fifth file says for which constraints the second was made. A start loads what is there or writes it
anew, one file after another, and may stop after any of them; files may get lost between starts.
What a start returns chains exactly when nothing it loads was left behind by a write that was not
followed up.
-/

namespace Fghj
namespace CaDirectory

/-- The DNS suffixes that the signing CA may sign for. -/
structure ConstraintSet where
  suffixes : List (List Char)
  /-- The zone is always permitted. -/
  listed : suffixes ≠ []
  plain : ∀ suffix ∈ suffixes, ∀ char ∈ suffix, char ≠ ',' ∧ ¬Text.isWhitespace char

def signingGeneration (wanted : ConstraintSet) : List Char :=
  "v1 dns:".toList ++ [','].intercalate wanted.suffixes

/-- A certificate carries its own key, was signed with another and permits some suffixes. -/
structure Cert where
  own : Nat
  issuer : Nat
  permitted : Option ConstraintSet

structure LoadedCa where
  key : Nat
  cert : Cert

structure Dir where
  caCert : Option Cert := none
  caKey : Option Nat := none
  signingCert : Option Cert := none
  signingKey : Option Nat := none
  generation : Option (List Char) := none

inductive File where
  | caCert
  | caKey
  | signingCert
  | signingKey
  | generation

inductive Write where
  | caCert (cert : Cert)
  | caKey (key : Nat)
  | signingCert (cert : Cert)
  | signingKey (key : Nat)
  | generation (text : List Char)

namespace Dir

variable (dir : Dir)

def write : Write → Dir
  | .caCert cert => { dir with caCert := some cert }
  | .caKey key => { dir with caKey := some key }
  | .signingCert cert => { dir with signingCert := some cert }
  | .signingKey key => { dir with signingKey := some key }
  | .generation text => { dir with generation := some text }

def lose : File → Dir
  | .caCert => { dir with caCert := none }
  | .caKey => { dir with caKey := none }
  | .signingCert => { dir with signingCert := none }
  | .signingKey => { dir with signingKey := none }
  | .generation => { dir with generation := none }

end Dir

/-- The CA with a new key, signed by itself. -/
def generateCa (key : Nat) : LoadedCa where
  key
  cert := { own := key, issuer := key, permitted := none }

def generateSigningCa (key : Nat) (wanted : ConstraintSet) (root : LoadedCa) : LoadedCa where
  key
  cert := { own := key, issuer := root.key, permitted := some wanted }

/-- The root CA, and what is written for it. -/
def ensureCa (dir : Dir) (key : Nat) : LoadedCa × List Write :=
  match dir.caCert, dir.caKey with
  | some cert, some key => (⟨key, cert⟩, [])
  | _, _ =>
      let ca := generateCa key
      (ca, [.caCert ca.cert, .caKey ca.key])

/-- The marker's text, nothing if it is missing. -/
def Dir.persisted (dir : Dir) : List Char := Text.trim (dir.generation.getD [])

/-- The signing CA, and what is written for it. -/
def ensureSigningCa (dir : Dir) (key : Nat) (wanted : ConstraintSet) (root : LoadedCa) :
    LoadedCa × List Write :=
  let signing := generateSigningCa key wanted root
  let anew := (signing, [.signingCert signing.cert, .signingKey signing.key,
    .generation (signingGeneration wanted)])
  match dir.signingCert, dir.signingKey with
  | some cert, some key =>
      if dir.persisted = signingGeneration wanted then (⟨key, cert⟩, []) else anew
  | _, _ => anew

/-- What a start returns when it gets to its end. -/
structure Returned where
  root : LoadedCa
  signing : LoadedCa

/-- One start, with two keys nobody has had before. -/
def start (dir : Dir) (fresh : Nat) (wanted : ConstraintSet) : Returned × List Write :=
  let root := ensureCa dir fresh
  let signing := ensureSigningCa (Execution.run Dir.write dir root.2) (fresh + 1) wanted root.1
  (⟨root.1, signing.1⟩, root.2 ++ signing.2)

/-- The directory between starts, and which of its files were left behind, which the code does not
keep. -/
structure World where
  dir : Dir := {}
  fresh : Nat := 0
  /-- The root's certificate was written over an older key, and no key since. -/
  torn : Bool := false
  /-- The root's key was written, and no signing certificate since. -/
  orphaned : Bool := false
  /-- The signing certificate was written, and no signing key since. -/
  halved : Bool := false
  /-- The signing certificate was written for other constraints than the marker's, and no marker
  since. -/
  stale : Bool := false

inductive Event where
  /-- A start that gets to its end, or is stopped after this many writes. -/
  | start (wanted : ConstraintSet) (stopped : Option Nat)
  | lose (file : File)

namespace World

variable (world : World)

def write (change : Write) : World :=
  let next := { world with dir := world.dir.write change }
  match change with
  | .caCert _ => { next with torn := world.dir.caKey.isSome }
  | .caKey _ => { next with torn := false, orphaned := true }
  | .signingCert cert =>
      { next with
        orphaned := false
        halved := true
        stale := world.dir.generation ≠ cert.permitted.map signingGeneration }
  | .signingKey _ => { next with halved := false }
  | .generation _ => { next with stale := false }

/-- What a start writes before it is stopped. -/
def written (wanted : ConstraintSet) (stopped : Option Nat) : List Write :=
  let writes := (CaDirectory.start world.dir world.fresh wanted).2
  stopped.elim writes writes.take

end World

def step (world : World) : Event → World
  | .start wanted stopped =>
      { Execution.run World.write world (world.written wanted stopped) with
        fresh := world.fresh + 2 }
  | .lose file => { world with dir := world.dir.lose file }

/-! ## Working chains -/

/-- Both certificates carry their keys, and the second was issued by the first for what is
wanted. -/
structure Chains (wanted : ConstraintSet) (returned : Returned) : Prop where
  root : returned.root.cert.own = returned.root.key
  signing : returned.signing.cert.own = returned.signing.key
  issued : returned.signing.cert.issuer = returned.root.key
  permitted : returned.signing.cert.permitted = some wanted

namespace Dir

variable (dir : Dir)

def loadsCa : Prop := dir.caCert.isSome ∧ dir.caKey.isSome

def loadsSigningCa (wanted : ConstraintSet) : Prop :=
  dir.signingCert.isSome ∧ dir.signingKey.isSome ∧ dir.persisted = signingGeneration wanted

end Dir

/-- A start that loads the root's files finds no certificate that was written over an older key and
left there; one that loads the signing CA's loads the root's too, no root's key was written since
the signing certificate was, and that was followed by its key and is what the marker says. -/
structure World.Unspoilt (world : World) (wanted : ConstraintSet) : Prop where
  root : world.dir.loadsCa → world.torn = false
  signing : world.dir.loadsSigningCa wanted → world.dir.loadsCa ∧ world.orphaned = false ∧
    world.halved = false ∧ world.stale = false

/-! ## The marker -/

section Marker

variable {wanted other : ConstraintSet}

theorem comma_not_mem {suffix : List Char} (member : suffix ∈ wanted.suffixes) : ',' ∉ suffix :=
  fun comma => (wanted.plain suffix member ',' comma).1 rfl

/-- Different constraints have different markers. -/
theorem signingGeneration_inj :
    signingGeneration wanted = signingGeneration other ↔ wanted = other := by
  constructor
  · intro same
    have joined := List.append_cancel_left same
    have split := congrArg (List.splitOn ',') joined
    rw [List.splitOn_intercalate ',' (fun _ => comma_not_mem) wanted.listed,
      List.splitOn_intercalate ',' (fun _ => comma_not_mem) other.listed] at split
    cases wanted
    cases other
    cases split
    rfl
  · rintro rfl
    rfl

theorem trim_signingGeneration :
    Text.trim (signingGeneration wanted) = signingGeneration wanted := by
  have first : ("v1 dns:".toList).head? = some 'v' := by decide
  have last : ("v1 dns:".toList).getLast? = some ':' := by decide
  unfold signingGeneration
  apply Text.trim_eq_of_ends
  · intro char found
    rw [List.head?_append, first, Option.some_or] at found
    obtain rfl := Option.some.inj found
    decide
  · intro char found
    rw [List.getLast?_append, last, Option.or_eq_some_iff] at found
    rcases found with inside | ⟨-, same⟩
    · have solid : ∀ char ∈ [','].intercalate wanted.suffixes, ¬Text.isWhitespace char :=
        Words.forall_mem_intercalate (List.forall_mem_singleton.mpr (by decide))
          fun suffix member char inner => (wanted.plain suffix member char inner).2
      exact solid char (List.mem_of_getLast? inside)
    · obtain rfl := Option.some.inj same
      decide

theorem signingGeneration_ne_nil : signingGeneration wanted ≠ [] := by
  have first : ("v1 dns:".toList).head? = some 'v' := by decide
  intro nothing
  have front := (List.append_eq_nil_iff.mp nothing).1
  rw [front] at first
  cases first

end Marker

/-! ## What is left behind -/

/-- The files agree exactly where nothing was left behind. -/
structure World.Invariant (world : World) : Prop where
  root : ∀ cert ∈ world.dir.caCert, ∀ key ∈ world.dir.caKey, cert.own = key ↔ world.torn = false
  signing : ∀ cert ∈ world.dir.signingCert, ∀ key ∈ world.dir.signingKey,
    cert.own = key ↔ world.halved = false
  issued : ∀ cert ∈ world.dir.signingCert, ∀ key ∈ world.dir.caKey,
    cert.issuer = key ↔ world.orphaned = false
  marked : ∀ cert ∈ world.dir.signingCert, ∀ text ∈ world.dir.generation,
    cert.permitted.map signingGeneration = some text ↔ world.stale = false
  marker : ∀ text ∈ world.dir.generation, ∃ set, text = signingGeneration set

/-- The keys of the directory were given out. -/
structure Dir.Known (dir : Dir) (fresh : Nat) : Prop where
  caKey : ∀ key ∈ dir.caKey, key < fresh
  signingKey : ∀ key ∈ dir.signingKey, key < fresh
  issuer : ∀ cert ∈ dir.signingCert, cert.issuer < fresh

/-- A certificate is written with a new key and for the root that is there, a key and a marker are
written for the certificate that is there. -/
def World.Allowed (world : World) : Write → Prop
  | .caCert cert => ∀ key ∈ world.dir.caKey, cert.own ≠ key
  | .caKey key => (∀ cert ∈ world.dir.caCert, cert.own = key) ∧
      ∀ cert ∈ world.dir.signingCert, cert.issuer ≠ key
  | .signingCert cert => (∀ key ∈ world.dir.signingKey, cert.own ≠ key) ∧
      ∀ key ∈ world.dir.caKey, cert.issuer = key
  | .signingKey key => ∀ cert ∈ world.dir.signingCert, cert.own = key
  | .generation text => (∃ set, text = signingGeneration set) ∧
      ∀ cert ∈ world.dir.signingCert, cert.permitted.map signingGeneration = some text

section Invariant

variable {world : World} {wanted : ConstraintSet} {dir : Dir} {fresh : Nat}

open World

theorem World.Invariant.write (invariant : Invariant world) {change : Write}
    (allowed : world.Allowed change) : Invariant (world.write change) := by
  cases change with
  | caCert cert =>
      refine ⟨?_, invariant.signing, invariant.issued, invariant.marked, invariant.marker⟩
      rintro _ ⟨⟩ key here
      have older : world.dir.caKey = some key := here
      simp [World.write, older, allowed key here]
  | caKey key =>
      refine ⟨?_, invariant.signing, ?_, invariant.marked, invariant.marker⟩
      · rintro cert here _ ⟨⟩
        exact iff_of_true (allowed.1 cert here) rfl
      · rintro cert here _ ⟨⟩
        exact iff_of_false (allowed.2 cert here) Bool.false_ne_true.symm
  | signingCert cert =>
      refine ⟨invariant.root, ?_, ?_, ?_, invariant.marker⟩
      · rintro _ ⟨⟩ key here
        exact iff_of_false (allowed.1 key here) Bool.false_ne_true.symm
      · rintro _ ⟨⟩ key here
        exact iff_of_true (allowed.2 key here) rfl
      · rintro _ ⟨⟩ text here
        have older : world.dir.generation = some text := here
        simp [World.write, older, eq_comm]
  | signingKey key =>
      refine ⟨invariant.root, ?_, invariant.issued, invariant.marked, invariant.marker⟩
      rintro cert here _ ⟨⟩
      exact iff_of_true (allowed cert here) rfl
  | generation text =>
      refine ⟨invariant.root, invariant.signing, invariant.issued, ?_, ?_⟩
      · rintro cert here _ ⟨⟩
        exact iff_of_true (allowed.2 cert here) rfl
      · rintro _ ⟨⟩
        exact allowed.1

theorem World.Invariant.lose (invariant : Invariant world) (file : File) :
    Invariant { world with dir := world.dir.lose file } := by
  cases file with
  | caCert =>
      refine ⟨?_, invariant.signing, invariant.issued, invariant.marked, invariant.marker⟩
      rintro cert ⟨⟩
  | caKey =>
      refine ⟨?_, invariant.signing, ?_, invariant.marked, invariant.marker⟩
      · rintro cert _ key ⟨⟩
      · rintro cert _ key ⟨⟩
  | signingCert =>
      refine ⟨invariant.root, ?_, ?_, ?_, invariant.marker⟩
      · rintro cert ⟨⟩
      · rintro cert ⟨⟩
      · rintro cert ⟨⟩
  | signingKey =>
      refine ⟨invariant.root, ?_, invariant.issued, invariant.marked, invariant.marker⟩
      rintro cert _ key ⟨⟩
  | generation =>
      refine ⟨invariant.root, invariant.signing, invariant.issued, ?_, ?_⟩
      · rintro cert _ text ⟨⟩
      · rintro text ⟨⟩

/-! ## One start -/

/-- The root's files are loaded, or both are written anew. -/
theorem ensureCa_cases (dir : Dir) (key : Nat) :
    (∃ cert held, dir.caCert = some cert ∧ dir.caKey = some held ∧
      ensureCa dir key = (⟨held, cert⟩, [])) ∨
    (¬dir.loadsCa ∧ ensureCa dir key =
      (generateCa key, [.caCert (generateCa key).cert, .caKey key])) := by
  rw [ensureCa]
  split
  · rename_i cert held here there
    exact .inl ⟨cert, held, here, there, rfl⟩
  · rename_i missing
    refine .inr ⟨fun loads => ?_, rfl⟩
    obtain ⟨cert, here⟩ := Option.isSome_iff_exists.mp loads.1
    obtain ⟨held, there⟩ := Option.isSome_iff_exists.mp loads.2
    exact missing cert held here there

/-- The signing CA's files are loaded, or all three are written anew. -/
theorem ensureSigningCa_cases (dir : Dir) (key : Nat) (wanted : ConstraintSet) (root : LoadedCa) :
    (∃ cert held, dir.signingCert = some cert ∧ dir.signingKey = some held ∧
      dir.persisted = signingGeneration wanted ∧
      ensureSigningCa dir key wanted root = (⟨held, cert⟩, [])) ∨
    (¬dir.loadsSigningCa wanted ∧ ensureSigningCa dir key wanted root =
      (generateSigningCa key wanted root,
        [.signingCert (generateSigningCa key wanted root).cert, .signingKey key,
          .generation (signingGeneration wanted)])) := by
  rw [ensureSigningCa]
  split
  · rename_i cert held here there
    split
    · rename_i current
      exact .inl ⟨cert, held, here, there, current, rfl⟩
    · rename_i differs
      exact .inr ⟨fun loads => differs loads.2.2, rfl⟩
  · rename_i missing
    refine .inr ⟨fun loads => ?_, rfl⟩
    obtain ⟨cert, here⟩ := Option.isSome_iff_exists.mp loads.1
    obtain ⟨held, there⟩ := Option.isSome_iff_exists.mp loads.2.1
    exact missing cert held here there

/-- What is written for the signing CA is allowed when its root is what is there. -/
theorem allowed_signing (world : World) {key : Nat} {root : LoadedCa}
    (older : ∀ held ∈ world.dir.signingKey, held < key)
    (there : ∀ held ∈ world.dir.caKey, root.key = held) :
    Execution.Along World.write World.Allowed world
      (ensureSigningCa world.dir key wanted root).2 := by
  rcases ensureSigningCa_cases world.dir key wanted root with ⟨_, _, -, -, -, eq⟩ | ⟨-, eq⟩
  · rw [eq]
    trivial
  · rw [eq]
    refine ⟨⟨fun held here => (Nat.ne_of_lt (older held here)).symm, there⟩, ?_,
      ⟨⟨wanted, rfl⟩, ?_⟩, trivial⟩
    · rintro cert ⟨⟩
      rfl
    · rintro cert ⟨⟩
      rfl

/-- Everything a start writes is allowed. -/
theorem allowed_start (world : World) (known : world.dir.Known world.fresh) :
    Execution.Along World.write World.Allowed world
      (start world.dir world.fresh wanted).2 := by
  have older (held : Nat) (here : held ∈ world.dir.signingKey) : held < world.fresh + 1 :=
    Nat.lt_succ_of_lt (known.signingKey held here)
  rw [start]
  dsimp only
  rcases ensureCa_cases world.dir world.fresh with ⟨cert, held, -, there, eq⟩ | ⟨-, eq⟩
  · rw [eq]
    refine allowed_signing world older fun key here => ?_
    rw [there] at here
    exact Option.some.inj here
  · rw [eq]
    refine ⟨fun key here => (Nat.ne_of_lt (known.caKey key here)).symm, ⟨?_, ?_⟩, ?_⟩
    · rintro cert ⟨⟩
      rfl
    · exact fun cert here => Nat.ne_of_lt (known.issuer cert here)
    · refine allowed_signing _ older fun key here => ?_
      exact Option.some.inj here

/-- The keys a write leaves in the directory were given out. -/
def Write.known (fresh : Nat) : Write → Prop
  | .caKey key | .signingKey key => key < fresh
  | .signingCert cert => cert.issuer < fresh
  | .caCert _ | .generation _ => True

theorem Dir.Known.write (known : dir.Known fresh) {change : Write} (given : change.known fresh) :
    (dir.write change).Known fresh := by
  cases change with
  | caCert cert => exact ⟨known.caKey, known.signingKey, known.issuer⟩
  | caKey key =>
      refine ⟨?_, known.signingKey, known.issuer⟩
      rintro _ ⟨⟩
      exact given
  | signingCert cert =>
      refine ⟨known.caKey, known.signingKey, ?_⟩
      rintro _ ⟨⟩
      exact given
  | signingKey key =>
      refine ⟨known.caKey, ?_, known.issuer⟩
      rintro _ ⟨⟩
      exact given
  | generation text => exact ⟨known.caKey, known.signingKey, known.issuer⟩

theorem Dir.Known.lose (known : dir.Known fresh) (file : File) : (dir.lose file).Known fresh := by
  cases file with
  | caCert => exact ⟨known.caKey, known.signingKey, known.issuer⟩
  | caKey =>
      refine ⟨?_, known.signingKey, known.issuer⟩
      rintro key ⟨⟩
  | signingCert =>
      refine ⟨known.caKey, known.signingKey, ?_⟩
      rintro cert ⟨⟩
  | signingKey =>
      refine ⟨known.caKey, ?_, known.issuer⟩
      rintro key ⟨⟩
  | generation => exact ⟨known.caKey, known.signingKey, known.issuer⟩

theorem dir_write (world : World) (change : Write) :
    (world.write change).dir = world.dir.write change := by
  cases change <;> rfl

theorem known_run {writes : List Write} (given : ∀ change ∈ writes, change.known fresh)
    (known : world.dir.Known fresh) : (Execution.run World.write world writes).dir.Known fresh := by
  induction writes generalizing world with
  | nil => exact known
  | cons change writes ih =>
      refine ih (fun other member => given other (List.mem_cons_of_mem _ member)) ?_
      rw [dir_write]
      exact known.write (given change List.mem_cons_self)

/-- A start writes no keys but its own two, and no issuer but its root's key. -/
theorem given_start (known : dir.Known fresh) :
    ∀ change ∈ (start dir fresh wanted).2, change.known (fresh + 2) := by
  have signing (left : Dir) {root : LoadedCa} (given : root.key < fresh + 2) :
      ∀ change ∈ (ensureSigningCa left (fresh + 1) wanted root).2, change.known (fresh + 2) := by
    rcases ensureSigningCa_cases left (fresh + 1) wanted root with ⟨_, _, -, -, -, eq⟩ | ⟨-, eq⟩
    · simp [eq]
    · simp [eq, Write.known, generateSigningCa, given]
  rw [start]
  dsimp only
  rcases ensureCa_cases dir fresh with ⟨cert, held, -, there, eq⟩ | ⟨-, eq⟩
  · rw [eq]
    exact signing _ (Nat.lt_add_right 2 (known.caKey held there))
  · rw [eq]
    intro change member
    rcases List.mem_append.mp member with root | later
    · rcases List.mem_cons.mp root with rfl | key
      · trivial
      · obtain rfl := List.mem_singleton.mp key
        exact Nat.lt_add_of_pos_right Nat.two_pos
    · exact signing _ (Nat.lt_add_of_pos_right Nat.two_pos) change later

/-! ## Every history -/

theorem Dir.Known.mono {more : Nat} (known : dir.Known fresh) (le : fresh ≤ more) :
    dir.Known more where
  caKey key here := Nat.lt_of_lt_of_le (known.caKey key here) le
  signingKey key here := Nat.lt_of_lt_of_le (known.signingKey key here) le
  issuer cert here := Nat.lt_of_lt_of_le (known.issuer cert here) le

/-- Wherever a start is stopped, what it has written is allowed. -/
theorem allowed_written (world : World) (known : world.dir.Known world.fresh)
    (stopped : Option Nat) :
    Execution.Along World.write World.Allowed world (world.written wanted stopped) := by
  have whole : Execution.Along World.write World.Allowed world
      (start world.dir world.fresh wanted).2 := allowed_start world known
  cases stopped with
  | none => exact whole
  | some count =>
      rw [← List.take_append_drop count (start world.dir world.fresh wanted).2] at whole
      exact ((Execution.along_append _ _ _ _ _).mp whole).1

theorem mem_of_mem_written {stopped : Option Nat} {change : Write}
    (member : change ∈ world.written wanted stopped) :
    change ∈ (start world.dir world.fresh wanted).2 := by
  cases stopped with
  | none => exact member
  | some count => exact List.mem_of_mem_take member

theorem World.Invariant.step (invariant : Invariant world) (known : world.dir.Known world.fresh)
    (event : Event) :
    Invariant (step world event) ∧ (step world event).dir.Known (step world event).fresh := by
  cases event with
  | lose file => exact ⟨invariant.lose file, known.lose file⟩
  | start wanted stopped =>
      have kept : Invariant (Execution.run World.write world (world.written wanted stopped)) :=
        Execution.run_invariant World.write World.Allowed Invariant
          (fun _ _ invariant allowed => invariant.write allowed) invariant
          (allowed_written world known stopped)
      refine ⟨⟨kept.root, kept.signing, kept.issued, kept.marked, kept.marker⟩, ?_⟩
      exact known_run (fun change member => given_start known change (mem_of_mem_written member))
        (known.mono (Nat.le_add_right ..))

theorem invariant_run (events : List Event) :
    Invariant (Execution.run step {} events) ∧
      (Execution.run step {} events).dir.Known (Execution.run step {} events).fresh := by
  refine Execution.run_always step
    (fun world => Invariant world ∧ world.dir.Known world.fresh)
    (fun _ event kept => kept.1.step kept.2 event) ⟨?_, ?_⟩ events
  · constructor <;> simp
  · constructor <;> simp

/-- What the marker says is what a marker was written for. -/
theorem World.Invariant.generation_eq (invariant : Invariant world)
    (current : world.dir.persisted = signingGeneration wanted) :
    world.dir.generation = some (signingGeneration wanted) := by
  cases here : world.dir.generation with
  | none =>
      rw [Dir.persisted, here] at current
      exact absurd current.symm signingGeneration_ne_nil
  | some text =>
      obtain ⟨set, rfl⟩ := invariant.marker text here
      rw [Dir.persisted, here, Option.getD_some, trim_signingGeneration] at current
      rw [current]

/-- A signing CA that is loaded chains exactly when nothing of it was left behind. -/
theorem World.Invariant.loaded_iff (invariant : Invariant world) {cert : Cert} {key root : Nat}
    (here : world.dir.signingCert = some cert) (there : world.dir.signingKey = some key)
    (above : world.dir.caKey = some root)
    (current : world.dir.persisted = signingGeneration wanted) :
    (cert.own = key ∧ cert.issuer = root ∧ cert.permitted = some wanted) ↔
      (world.halved = false ∧ world.orphaned = false ∧ world.stale = false) := by
  have marker := invariant.generation_eq current
  have permitted : cert.permitted = some wanted ↔ world.stale = false := by
    rw [← invariant.marked cert here _ marker]
    cases cert.permitted with
    | none => simp
    | some set => simp [signingGeneration_inj]
  exact and_congr (invariant.signing cert here key there)
    (and_congr (invariant.issued cert here root above) permitted)

/-- In every history, a start that gets to its end returns a working chain exactly when it finds the
directory unspoilt. -/
theorem chains_iff (events : List Event) (wanted : ConstraintSet) :
    Chains wanted (start (Execution.run step {} events).dir (Execution.run step {} events).fresh
        wanted).1 ↔
      (Execution.run step {} events).Unspoilt wanted := by
  obtain ⟨invariant, known⟩ := invariant_run events
  generalize Execution.run step {} events = world at invariant known
  rw [start]
  dsimp only
  rcases ensureCa_cases world.dir world.fresh with ⟨cert, key, here, there, eq⟩ | ⟨missing, eq⟩
  · have loads : world.dir.loadsCa := by simp [Dir.loadsCa, here, there]
    have torn := invariant.root cert here key there
    rw [eq]
    rcases ensureSigningCa_cases world.dir (world.fresh + 1) wanted ⟨key, cert⟩ with
      ⟨leaf, held, signing, has, current, same⟩ | ⟨anew, same⟩
    · have loadsSigning : world.dir.loadsSigningCa wanted := by
        simp [Dir.loadsSigningCa, signing, has, current]
      have chain := invariant.loaded_iff signing has there current
      dsimp only [Execution.run_nil]
      rw [same]
      constructor
      · intro chains
        obtain ⟨whole, issued, marked⟩ := chain.mp ⟨chains.signing, chains.issued, chains.permitted⟩
        exact ⟨fun _ => torn.mp chains.root, fun _ => ⟨loads, issued, whole, marked⟩⟩
      · intro unspoilt
        obtain ⟨-, issued, whole, marked⟩ := unspoilt.signing loadsSigning
        obtain ⟨own, issuer, permitted⟩ := chain.mpr ⟨whole, issued, marked⟩
        exact ⟨torn.mpr (unspoilt.root loads), own, issuer, permitted⟩
    · dsimp only [Execution.run_nil]
      rw [same]
      constructor
      · exact fun chains => ⟨fun _ => torn.mp chains.root, fun loads => absurd loads anew⟩
      · exact fun unspoilt => ⟨torn.mpr (unspoilt.root loads), rfl, rfl, rfl⟩
  · rw [eq]
    set left := Execution.run Dir.write world.dir
      [.caCert (generateCa world.fresh).cert, .caKey world.fresh] with left_eq
    rcases ensureSigningCa_cases left (world.fresh + 1) wanted (generateCa world.fresh) with
      ⟨leaf, held, signing, has, current, same⟩ | ⟨anew, same⟩
    · -- a certificate from before this start is not of the root it has just made
      have older : leaf.issuer < world.fresh := known.issuer leaf signing
      have loadsSigning : world.dir.loadsSigningCa wanted :=
        ⟨by rw [show world.dir.signingCert = _ from signing]; rfl,
          by rw [show world.dir.signingKey = _ from has]; rfl, current⟩
      dsimp only
      rw [same]
      refine iff_of_false (fun chains => ?_) fun unspoilt => ?_
      · exact Nat.ne_of_lt older chains.issued
      · exact missing (unspoilt.signing loadsSigning).1
    · dsimp only
      rw [same]
      refine iff_of_true ⟨rfl, rfl, rfl, rfl⟩ ⟨fun loads => absurd loads missing, fun loads => ?_⟩
      exact absurd loads anew

end Invariant

/-- What fghj permits. -/
def permitted : ConstraintSet where
  suffixes := ["fghj.internal", "internal", "local", "localhost", "test"].map String.toList
  listed := by simp
  plain := by
    have all : (["fghj.internal", "internal", "local", "localhost", "test"].map String.toList).all
        (·.all fun char => char != ',' && !Text.isWhitespace char) = true := by decide
    simpa only [List.all_eq_true, Bool.and_eq_true, bne_iff_ne, Bool.not_eq_true',
      Bool.not_eq_true] using all

/-- The root's certificate gets lost, and the signing CA of the old root is still there. -/
theorem not_chains :
    ¬∀ (events : List Event) (wanted : ConstraintSet),
      Chains wanted (start (Execution.run step {} events).dir
        (Execution.run step {} events).fresh wanted).1 := by
  intro holds
  have chains := holds [.start permitted none, .lose .caCert] permitted
  exact absurd chains.issued (by decide)

end CaDirectory
end Fghj
