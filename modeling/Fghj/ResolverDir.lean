import Fghj.Library.Execution
import Fghj.Library.Listing
import Fghj.Library.Text
import Fghj.Naming
import Mathlib.Data.List.AList

/-!
# The resolver directory

The system's resolver asks fghj's DNS server about every zone that has a file in one directory. A
sync writes a file for each zone and removes the files of fghj's own that name no zone any more; a
clear removes all of its own. A file is told to be fghj's by its content alone, and a sync looks at
what it writes over only to spare itself the write, so what is kept depends on the zones' names.
-/

namespace Fghj
namespace ResolverDir

open Text Orchestrator

/-! ## The template -/

def parseFghjdResolverPort (content : List Char) : Option UInt16 :=
  (stripPrefix "nameserver 127.0.0.1\nport ".toList content).bind fun rest =>
    (stripSuffix ['\n'] rest).bind parseU16

def isFghjdResolverContent (content : List Char) : Bool := (parseFghjdResolverPort content).isSome

/-- The template with a port. -/
def desired (port : UInt16) : List Char :=
  "nameserver 127.0.0.1\nport ".toList ++ (port.toNat.repr.toList ++ ['\n'])

/-- The template is read back. -/
@[simp]
theorem parse_desired (port : UInt16) : parseFghjdResolverPort (desired port) = some port := by
  unfold parseFghjdResolverPort desired
  rw [stripPrefix_append, Option.bind_some, stripSuffix_append, Option.bind_some, parseU16_repr]

/-! ## Files and places -/

/-- A text that is the name of a file as it stands. -/
def Plain (text : String) : Prop :=
  text ≠ "" ∧ text ≠ "." ∧ text ≠ ".." ∧ '/' ∉ text.toList ∧ Char.ofNat 0 ∉ text.toList

instance decidablePlain (text : String) : Decidable (Plain text) :=
  inferInstanceAs (Decidable (_ ∧ _))

/-- A file's name, in Unicode or not. -/
inductive FileName where
  | utf8 (text : String) (plain : Plain text)
  | other (bytes : List UInt8)
  deriving DecidableEq

/-- What is read from a file: a text, or nothing that can be read as one. -/
inductive Content where
  | text (chars : List Char)
  | other (bytes : List UInt8)
  deriving DecidableEq

namespace Content

def port : Content → Option UInt16
  | .text chars => parseFghjdResolverPort chars
  | .other _ => none

/-- fghjd tells its own files by their content. -/
def isFghjd : Content → Bool
  | .text chars => isFghjdResolverContent chars
  | .other _ => false

end Content

/-- The files of the directory, in the order they are listed in. -/
abbrev Dir := AList fun _ : FileName => Content

/-- Where a path leads. -/
inductive Place where
  | inside (name : FileName)
  | outside (path : String)
  deriving DecidableEq

structure World where
  dir : Dir
  outside : String → Option Content

namespace World

variable (world : World)

def read : Place → Option Content
  | .inside name => world.dir.lookup name
  | .outside path => world.outside path

def write (place : Place) (content : Content) : World :=
  match place with
  | .inside name => { world with dir := world.dir.insert name content }
  | .outside path => { world with outside := Function.update world.outside path (some content) }

end World

/-- What the system lets one call do. -/
structure Io where
  creates : Bool := true
  writes : Place → Bool := fun _ => true
  lists : Bool := true
  removes : FileName → Bool := fun _ => true

/-- Removing the files that meet a condition, one after another. -/
def sweep (stale : FileName → Content → Bool) (dir : Dir) : Dir :=
  dir.entries.foldl
    (fun left entry => if stale entry.1 entry.2 then left.erase entry.1 else left) dir

section Code

-- where the system takes a path that is not just a name
variable (resolve : String → Option Place)

/-- Where the directory's path joined with a zone leads. -/
def locate (zone : String) : Option Place :=
  if plain : Plain zone then some (.inside (.utf8 zone plain)) else resolve zone

/-- Each zone's file is written unless it is as desired; the first one that cannot be is the end. -/
def syncZones (io : Io) (wanted : Content) (world : World) : List String → World × Bool
  | [] => (world, true)
  | zone :: zones =>
      match locate resolve zone with
      | none => (world, false)
      | some place =>
          if world.read place = some wanted then syncZones io wanted world zones
          else if io.writes place then syncZones io wanted (world.write place wanted) zones
          else (world, false)

/-- A file of fghjd's whose name is none of the zones and that can be removed. -/
def pruned (io : Io) (zones : List String) : FileName → Content → Bool
  | .utf8 text plain, content =>
      !zones.contains text && content.isFghjd && io.removes (.utf8 text plain)
  | .other _, _ => false

def syncResolver (io : Io) (port : UInt16) (zones : List String) (world : World) : World × Bool :=
  if io.creates then
    match syncZones resolve io (.text (desired port)) world zones with
    | (written, true) =>
        if io.lists then ({ written with dir := sweep (pruned io zones) written.dir }, true)
        else (written, true)
    | (written, false) => (written, false)
  else (world, false)

def clearResolver (io : Io) (world : World) : World :=
  if io.lists then
    { world with
      dir := sweep (fun name content => content.isFghjd && io.removes name) world.dir }
  else world

/-- The order of names and then of ports. -/
def before (first second : String × UInt16) : Prop :=
  first.1 < second.1 ∨ first.1 = second.1 ∧ first.2 ≤ second.2

instance decidableBefore (first second : String × UInt16) : Decidable (before first second) :=
  inferInstanceAs (Decidable (_ ∨ _))

/-- The zone and the port a file of fghjd's stands for. -/
def managedZone : FileName → Content → Option (String × UInt16)
  | .utf8 text _, content => content.port.map (text, ·)
  | .other _, _ => none

/-- The zones of a directory, nothing if it cannot be listed. -/
def managedResolverZones : Option Dir → List (String × UInt16)
  | none => []
  | some dir =>
      (dir.entries.filterMap fun entry => managedZone entry.1 entry.2).insertionSort before

/-- The two zones of fghj's own come first. -/
def resolverZones (wildcardZones : List String) : List String :=
  DomainZone.http.suffix :: DomainZone.raw.suffix :: wildcardZones

inductive Call where
  | install (io : Io) (port : UInt16) (wildcardZones : List String)
  | clear (io : Io)

def step (world : World) : Call → World
  | .install io port wildcardZones =>
      (syncResolver resolve io port (resolverZones wildcardZones) world).1
  | .clear io => clearResolver io world

end Code

/-! ## What is kept -/

/-- What is not fghjd's: any file outside of the directory, and those in it with other contents. -/
def Foreign : Place → Content → Prop
  | .inside _, content => content.isFghjd = false
  | .outside _, _ => True

/-- Every foreign file is what it was. -/
def Frame (first last : World) : Prop :=
  ∀ place content, first.read place = some content → Foreign place content →
    last.read place = some content

section Property

variable (resolve : String → Option Place)

/-- What a sync promises. -/
structure Installed (io : Io) (port : UInt16) (zones : List String) (world : World) : Prop where
  frame : Frame world (syncResolver resolve io port zones world).1
  managed : (syncResolver resolve io port zones world).2 = true →
    managedResolverZones (some (syncResolver resolve io port zones world).1.dir) =
      (Listing.sortDedup zones).map (·, port)
  again : (syncResolver resolve io port zones world).2 = true → ∀ later : Io,
    (syncResolver resolve later port zones (syncResolver resolve io port zones world).1).1 =
      (syncResolver resolve io port zones world).1

/-- What a clear promises in a run that began with some other directory. -/
structure Cleared (first : World) (io : Io) (world : World) : Prop where
  frame : Frame world (clearResolver io world)
  remaining : ∀ name content, (clearResolver io world).dir.lookup name = some content →
    first.dir.lookup name = some content

def Kept (first world : World) : Call → Prop
  | .install io port wildcardZones =>
      Installed resolve io port (resolverZones wildcardZones) world
  | .clear io => Cleared first io world

/-- Every call of a run keeps its promise, and the foreign files of the beginning outlast all. -/
structure Keeps (first : World) (calls : List Call) : Prop where
  each : Execution.Along (step resolve) (Kept resolve first) first calls
  whole : Frame first (Execution.run (step resolve) first calls)

/-! ## When it is kept -/

/-- The file of a zone is as desired already or can be written. -/
def succeeds (io : Io) (wanted : Content) (world : World) (zone : String) : Bool :=
  match locate resolve zone with
  | none => false
  | some place => decide (world.read place = some wanted) || io.writes place

/-- The zones whose files a sync gets to, and sees to. -/
def reached (io : Io) (wanted : Content) (world : World) (zones : List String) : List String :=
  zones.takeWhile (succeeds resolve io wanted world)

/-- No zone the sync gets to leads to a foreign file that is not as desired; when it gets to all of
them, every zone is the name of a file, and fghjd's files with other names can be listed and
removed. -/
structure HarmlessInstall (io : Io) (port : UInt16) (zones : List String) (world : World) :
    Prop where
  own : io.creates → ∀ zone ∈ reached resolve io (.text (desired port)) world zones,
    ∀ place content, locate resolve zone = some place → world.read place = some content →
      Foreign place content → content = .text (desired port)
  plain : io.creates → (∀ zone ∈ zones, succeeds resolve io (.text (desired port)) world zone) →
    ∀ zone ∈ zones, Plain zone
  stale : io.creates → (∀ zone ∈ zones, succeeds resolve io (.text (desired port)) world zone) →
    ∀ text plain content, text ∉ zones → world.dir.lookup (.utf8 text plain) = some content →
      content.isFghjd → io.lists ∧ io.removes (.utf8 text plain)

/-- A sync's zones are harmless; a clear can list and remove fghjd's files but for those that were
there at first. -/
def Harmless (first world : World) : Call → Prop
  | .install io port wildcardZones =>
      HarmlessInstall resolve io port (resolverZones wildcardZones) world
  | .clear io => ∀ name content, world.dir.lookup name = some content → content.isFghjd →
      ¬(io.lists ∧ io.removes name) → first.dir.lookup name = some content

end Property

/-! ## Sweeping -/

section Sweep

variable {stale : FileName → Content → Bool} {dir : Dir} {name : FileName} {content : Content}

/-- One entry after another is erased if it is stale. -/
theorem lookup_foldl_erase (entries : List (Sigma fun _ : FileName => Content)) :
    ∀ left : Dir, (entries.foldl
        (fun left entry => if stale entry.1 entry.2 then left.erase entry.1 else left) left).lookup
          name =
      if ∃ entry ∈ entries, entry.1 = name ∧ stale entry.1 entry.2 then none
      else left.lookup name := by
  induction entries with
  | nil => intro left; simp
  | cons entry entries ih =>
      intro left
      rw [List.foldl_cons, ih]
      by_cases later : ∃ entry ∈ entries, entry.1 = name ∧ stale entry.1 entry.2
      · obtain ⟨other, member, here⟩ := later
        rw [if_pos ⟨other, member, here⟩, if_pos ⟨other, List.mem_cons_of_mem _ member, here⟩]
      · rw [if_neg later]
        by_cases first : entry.1 = name ∧ stale entry.1 entry.2
        · rw [if_pos first.2, if_pos ⟨entry, List.mem_cons_self, first⟩, first.1]
          exact AList.lookup_erase name left
        · have none : ¬∃ other ∈ entry :: entries, other.1 = name ∧ stale other.1 other.2 := by
            rintro ⟨other, member, here⟩
            rcases List.mem_cons.mp member with rfl | member
            · exact first here
            · exact later ⟨other, member, here⟩
          rw [if_neg none]
          split
          · rename_i bad
            exact AList.lookup_erase_ne fun same => first ⟨same.symm, bad⟩
          · rfl

theorem lookup_sweep :
    (sweep stale dir).lookup name =
      (dir.lookup name).filter fun content => !stale name content := by
  rw [sweep, lookup_foldl_erase]
  cases found : dir.lookup name with
  | none => simp
  | some content =>
      have listed : ∀ entry ∈ dir.entries, entry.1 = name → entry.2 = content := by
        rintro ⟨other, there⟩ member rfl
        exact Option.some.inj ((AList.mem_lookup_iff.mpr member).symm.trans found)
      by_cases bad : stale name content
      · rw [if_pos ⟨⟨name, content⟩, AList.mem_lookup_iff.mp found, rfl, bad⟩, Option.filter_some,
          bad]
        rfl
      · rw [if_neg, Option.filter_some, if_pos (by simpa using bad)]
        rintro ⟨⟨other, there⟩, member, rfl, here⟩
        obtain rfl := listed _ member rfl
        exact bad here

theorem sweep_eq_self (fresh : ∀ name content, dir.lookup name = some content →
    stale name content = false) : sweep stale dir = dir := by
  have spared : ∀ entry ∈ dir.entries, stale entry.1 entry.2 = false :=
    fun entry member => fresh entry.1 entry.2 (AList.mem_lookup_iff.mpr member)
  rw [sweep]
  generalize dir.entries = entries at spared
  induction entries with
  | nil => rfl
  | cons entry entries ih =>
      rw [List.foldl_cons, spared entry List.mem_cons_self]
      exact ih fun other member => spared other (List.mem_cons_of_mem _ member)

end Sweep

/-! ## Places -/

section Places

variable {world : World} {place other : Place} {content : Content}

@[simp]
theorem World.read_write_self : (world.write place content).read place = some content := by
  cases place with
  | inside name => exact AList.lookup_insert _
  | outside path => exact Function.update_self ..

theorem World.read_write_of_ne (different : other ≠ place) :
    (world.write place content).read other = world.read other := by
  cases place with
  | inside name =>
      cases other with
      | inside file => exact AList.lookup_insert_ne fun same => different (congrArg _ same)
      | outside path => rfl
  | outside path =>
      cases other with
      | inside file => rfl
      | outside file => exact Function.update_of_ne (fun same => different (congrArg _ same)) ..

theorem Frame.refl (world : World) : Frame world world := fun _ _ found _ => found

theorem Frame.trans {first last : World} (front : Frame first world) (back : Frame world last) :
    Frame first last :=
  fun place content found foreign =>
    back place content (front place content found foreign) foreign

theorem Content.isFghjd_eq : content.isFghjd = content.port.isSome := by
  cases content with
  | text chars => rfl
  | other bytes => rfl

@[simp]
theorem Content.port_desired (port : UInt16) :
    (Content.text (desired port)).port = some port := parse_desired port

@[simp]
theorem Content.isFghjd_desired (port : UInt16) : (Content.text (desired port)).isFghjd := by
  rw [isFghjd_eq, port_desired]
  rfl

end Places

/-! ## Writing -/

section Writing

variable {resolve : String → Option Place} {io : Io} {wanted : Content} {world : World}
  {zones : List String} {zone : String} {place : Place}

theorem locate_of_plain (plain : Plain zone) :
    locate resolve zone = some (.inside (.utf8 zone plain)) := dif_pos plain

theorem place_of_succeeds (fine : succeeds resolve io wanted world zone) :
    ∃ place, locate resolve zone = some place ∧
      (world.read place = some wanted ∨ io.writes place) := by
  rw [succeeds] at fine
  split at fine
  · cases fine
  · rename_i place leads
    exact ⟨place, leads, by simpa using fine⟩

theorem succeeds_write (allowed : io.writes place) :
    succeeds resolve io wanted (world.write place wanted) = succeeds resolve io wanted world := by
  funext zone
  unfold succeeds
  split
  · rfl
  · rename_i other leads
    by_cases same : other = place
    · subst same
      rw [allowed, Bool.or_true, Bool.or_true]
    · rw [World.read_write_of_ne same]

/-- The first zone's file is seen to, and the others are as if it had been so before. -/
theorem syncZones_cons (zones : List String) (fine : succeeds resolve io wanted world zone) :
    ∃ place next, locate resolve zone = some place ∧
      syncZones resolve io wanted world (zone :: zones) = syncZones resolve io wanted next zones ∧
      next.read place = some wanted ∧
      (∀ other, other ≠ place → next.read other = world.read other) ∧
      succeeds resolve io wanted next = succeeds resolve io wanted world := by
  obtain ⟨place, leads, able⟩ := place_of_succeeds fine
  by_cases held : world.read place = some wanted
  · refine ⟨place, world, leads, ?_, held, fun _ _ => rfl, rfl⟩
    simp only [syncZones, leads, if_pos held]
  · have allowed := able.resolve_left held
    refine ⟨place, world.write place wanted, leads, ?_, World.read_write_self,
      fun other different => World.read_write_of_ne different, succeeds_write allowed⟩
    simp only [syncZones, leads, if_neg held, allowed, if_true]

/-- The first zone's file cannot be seen to. -/
theorem syncZones_stuck (stuck : ¬succeeds resolve io wanted world zone) :
    syncZones resolve io wanted world (zone :: zones) = (world, false) := by
  rw [syncZones]
  split
  · rfl
  · rename_i place leads
    simp only [succeeds, leads, Bool.or_eq_true, decide_eq_true_eq, not_or] at stuck
    rw [if_neg stuck.1, if_neg stuck.2]

theorem syncZones_snd : (syncZones resolve io wanted world zones).2 =
    zones.all (succeeds resolve io wanted world) := by
  induction zones generalizing world with
  | nil => rfl
  | cons zone zones ih =>
      by_cases fine : succeeds resolve io wanted world zone
      · obtain ⟨place, next, leads, goesOn, held, frame, alike⟩ := syncZones_cons zones fine
        rw [goesOn, ih, alike, List.all_cons, fine, Bool.true_and]
      · rw [syncZones_stuck fine, List.all_cons, Bool.eq_false_of_not_eq_true fine, Bool.false_and]

theorem reached_cons (fine : succeeds resolve io wanted world zone) :
    reached resolve io wanted world (zone :: zones) =
      zone :: reached resolve io wanted world zones := List.takeWhile_cons_of_pos fine

/-- A file of no zone the sync gets to. -/
theorem read_syncZones_of_spared
    (spared : ∀ zone ∈ reached resolve io wanted world zones, locate resolve zone ≠ some place) :
    (syncZones resolve io wanted world zones).1.read place = world.read place := by
  induction zones generalizing world with
  | nil => rfl
  | cons zone zones ih =>
      by_cases fine : succeeds resolve io wanted world zone
      · obtain ⟨other, next, leads, goesOn, held, frame, alike⟩ := syncZones_cons zones fine
        rw [reached_cons fine, List.forall_mem_cons] at spared
        have different : place ≠ other := by
          rintro rfl
          exact spared.1 leads
        rw [goesOn, ih (by rw [reached, alike]; exact spared.2), frame place different]
      · rw [syncZones_stuck fine]

/-- The file of a zone the sync gets to. -/
theorem read_syncZones_of_reached (member : zone ∈ reached resolve io wanted world zones)
    (leads : locate resolve zone = some place) :
    (syncZones resolve io wanted world zones).1.read place = some wanted := by
  induction zones generalizing world zone with
  | nil => cases member
  | cons first zones ih =>
      by_cases fine : succeeds resolve io wanted world first
      · obtain ⟨other, next, led, goesOn, held, frame, alike⟩ := syncZones_cons zones fine
        have same :
            reached resolve io wanted next zones = reached resolve io wanted world zones := by
          rw [reached, alike, reached]
        rw [goesOn]
        -- another zone may lead to the same file
        by_cases later : ∃ zone ∈ reached resolve io wanted next zones,
            locate resolve zone = some place
        · obtain ⟨again, member, leads⟩ := later
          exact ih member leads
        · rw [reached_cons fine, List.mem_cons, ← same] at member
          obtain rfl := member.resolve_right fun member => later ⟨zone, member, leads⟩
          obtain rfl := Option.some.inj (leads.symm.trans led)
          rw [read_syncZones_of_spared fun zone member leads => later ⟨zone, member, leads⟩, held]
      · rw [reached, List.takeWhile_cons_of_neg fine] at member
        cases member

/-- A sync that finds every file as desired writes none. -/
theorem syncZones_held
    (held : ∀ zone ∈ zones, ∃ place, locate resolve zone = some place ∧
      world.read place = some wanted) :
    syncZones resolve io wanted world zones = (world, true) := by
  induction zones with
  | nil => rfl
  | cons zone zones ih =>
      obtain ⟨place, leads, here⟩ := held zone List.mem_cons_self
      simp only [syncZones, leads, if_pos here]
      exact ih fun other member => held other (List.mem_cons_of_mem _ member)

end Writing

/-! ## One sync -/

section Install

variable {resolve : String → Option Place} {io : Io} {port : UInt16} {zones : List String}
  {world : World} {place : Place} {content : Content}

/-- Every zone's file is seen to. -/
def allSucceed (resolve : String → Option Place) (io : Io) (port : UInt16) (zones : List String)
    (world : World) : Bool :=
  zones.all (succeeds resolve io (.text (desired port)) world)

/-- The files a sync removes in the end. -/
def dropped (io : Io) (zones : List String) (done : Bool) : Place → Content → Bool
  | .inside name, content => done && io.lists && pruned io zones name content
  | .outside _, _ => false

theorem isFghjd_of_pruned {name : FileName} (stale : pruned io zones name content) :
    content.isFghjd := by
  cases name with
  | utf8 text plain =>
      simp only [pruned, Bool.and_eq_true] at stale
      exact stale.1.2
  | other bytes => cases stale

theorem not_dropped_of_foreign {done : Bool} (foreign : Foreign place content) :
    dropped io zones done place content = false := by
  cases place with
  | inside name =>
      rw [dropped, Bool.and_eq_false_iff]
      refine .inr (Bool.eq_false_of_not_eq_true fun stale => ?_)
      exact Bool.false_ne_true (foreign.symm.trans (isFghjd_of_pruned stale))
  | outside path => rfl

theorem syncResolver_of_not_creates (barred : ¬io.creates) :
    syncResolver resolve io port zones world = (world, false) := if_neg barred

theorem syncResolver_snd (creates : io.creates) :
    (syncResolver resolve io port zones world).2 = allSucceed resolve io port zones world := by
  rw [allSucceed, ← syncZones_snd, syncResolver, if_pos creates]
  split
  · rename_i written done
    rw [done]
    split
    · rfl
    · rfl
  · rename_i written done
    rw [done]

/-- What a sync leaves: what was there when the zones were written, but for what is removed. -/
theorem read_syncResolver (creates : io.creates) :
    (syncResolver resolve io port zones world).1.read place =
      ((syncZones resolve io (.text (desired port)) world zones).1.read place).filter fun content =>
        !dropped io zones (allSucceed resolve io port zones world) place content := by
  have whole : ∀ found : Option Content, found.filter (fun _ => !false) = found := by
    rintro (_ | _)
    · rfl
    · rfl
  rw [allSucceed, ← syncZones_snd, syncResolver, if_pos creates]
  cases place with
  | outside path =>
      simp only [dropped, whole]
      split
      · rename_i written done
        rw [done]
        split
        · rfl
        · rfl
      · rename_i written done
        rw [done]
  | inside name =>
      split
      · rename_i written done
        rw [done]
        split
        · rename_i lists
          simp only [dropped, lists, Bool.true_and]
          exact lookup_sweep
        · rename_i lists
          simp only [dropped, Bool.eq_false_of_not_eq_true lists, Bool.and_false, Bool.false_and,
            whole]
      · rename_i written done
        rw [done]
        simp only [dropped, Bool.false_and, whole]

/-- The foreign files are kept exactly if no zone the sync gets to leads to one it writes over. -/
theorem frame_syncResolver_iff (creates : io.creates) :
    Frame world (syncResolver resolve io port zones world).1 ↔
      ∀ zone ∈ reached resolve io (.text (desired port)) world zones, ∀ place content,
        locate resolve zone = some place → world.read place = some content →
          Foreign place content → content = .text (desired port) := by
  constructor
  · intro frame zone member place content leads found foreign
    have left := frame place content found foreign
    rw [read_syncResolver creates, read_syncZones_of_reached member leads,
      Option.filter_eq_some_iff] at left
    exact (Option.some.inj left.1).symm
  · intro own place content found foreign
    have written : (syncZones resolve io (.text (desired port)) world zones).1.read place =
        some content := by
      by_cases touched : ∃ zone ∈ reached resolve io (.text (desired port)) world zones,
          locate resolve zone = some place
      · obtain ⟨zone, member, leads⟩ := touched
        rw [read_syncZones_of_reached member leads,
          own zone member place content leads found foreign]
      · rw [read_syncZones_of_spared fun zone member leads => touched ⟨zone, member, leads⟩, found]
    rw [read_syncResolver creates, written, Option.filter_some, not_dropped_of_foreign foreign]
    rfl

end Install

/-! ## Reading back -/

section Managed

variable {dir : Dir} {zones : List String} {port : UInt16}

instance total_before : Std.Total before where
  total first second := by
    rcases lt_trichotomy first.1 second.1 with less | same | more
    · exact .inl (.inl less)
    · rcases UInt16.le_total first.2 second.2 with le | ge
      · exact .inl (.inr ⟨same, le⟩)
      · exact .inr (.inr ⟨same.symm, ge⟩)
    · exact .inr (.inl more)

instance trans_before : IsTrans (String × UInt16) before where
  trans first second third := by
    rintro (less | ⟨same, le⟩) (more | ⟨again, further⟩)
    · exact .inl (less.trans more)
    · exact .inl (again ▸ less)
    · exact .inl (same ▸ more)
    · exact .inr ⟨same.trans again, UInt16.le_trans le further⟩

instance antisymm_before : Std.Antisymm before where
  antisymm first second := by
    rintro (less | ⟨same, le⟩) (more | ⟨again, ge⟩)
    · exact absurd more less.asymm
    · exact absurd again less.ne'
    · exact absurd same more.ne'
    · exact Prod.ext same (UInt16.le_antisymm le ge)

theorem managedZone_eq_some {name : FileName} {content : Content} {zone : String × UInt16} :
    managedZone name content = some zone ↔
      ∃ plain, name = .utf8 zone.1 plain ∧ content.port = some zone.2 := by
  cases name with
  | utf8 text plain =>
      rw [managedZone, Option.map_eq_some_iff]
      constructor
      · rintro ⟨port, read, rfl⟩
        exact ⟨plain, rfl, read⟩
      · rintro ⟨-, ⟨⟩, read⟩
        exact ⟨zone.2, read, rfl⟩
  | other bytes =>
      constructor
      · rintro ⟨⟩
      · rintro ⟨-, ⟨⟩, -⟩

theorem mem_managedResolverZones {zone : String × UInt16} :
    zone ∈ managedResolverZones (some dir) ↔
      ∃ plain content, dir.lookup (.utf8 zone.1 plain) = some content ∧
        content.port = some zone.2 := by
  rw [managedResolverZones, List.mem_insertionSort, List.mem_filterMap]
  constructor
  · rintro ⟨⟨name, content⟩, member, stands⟩
    obtain ⟨plain, rfl, read⟩ := managedZone_eq_some.mp stands
    exact ⟨plain, content, AList.mem_lookup_iff.mpr member, read⟩
  · rintro ⟨plain, content, found, read⟩
    exact ⟨⟨_, content⟩, AList.mem_lookup_iff.mp found, managedZone_eq_some.mpr ⟨plain, rfl, read⟩⟩

theorem nodup_managedResolverZones : (managedResolverZones (some dir)).Nodup := by
  rw [managedResolverZones, (List.perm_insertionSort before _).nodup_iff]
  refine (List.nodupKeys_iff_pairwise.mp dir.nodupKeys).filterMap _ ?_
  intro first second different zone stands other also same
  obtain ⟨plain, here, -⟩ := managedZone_eq_some.mp stands
  obtain ⟨alsoPlain, there, -⟩ := managedZone_eq_some.mp also
  subst same
  exact different (here.trans there.symm)

/-- The zones are listed as wanted exactly if they are the ones that have files of fghjd's. -/
theorem managedResolverZones_eq_iff :
    managedResolverZones (some dir) = (Listing.sortDedup zones).map (·, port) ↔
      ∀ zone : String × UInt16, zone ∈ managedResolverZones (some dir) ↔
        zone.1 ∈ zones ∧ zone.2 = port := by
  have ordered : ((Listing.sortDedup zones).map (·, port)).Pairwise
      fun first second => first.1 < second.1 :=
    List.pairwise_map.mpr (Listing.pairwise_sortDedup zones)
  have listed : ∀ zone : String × UInt16, zone ∈ (Listing.sortDedup zones).map (·, port) ↔
      zone.1 ∈ zones ∧ zone.2 = port := by
    rintro ⟨text, number⟩
    rw [List.mem_map]
    constructor
    · rintro ⟨text, member, ⟨⟩⟩
      exact ⟨Listing.mem_sortDedup.mp member, rfl⟩
    · rintro ⟨member, rfl⟩
      exact ⟨text, Listing.mem_sortDedup.mpr member, rfl⟩
  constructor
  · intro same zone
    rw [same, listed]
  · intro each
    refine List.Perm.eq_of_pairwise' (r := before) (List.pairwise_insertionSort before _)
      (ordered.imp fun less => .inl less) ?_
    refine (List.perm_ext_iff_of_nodup nodup_managedResolverZones
      (ordered.imp fun less same => less.ne (congrArg Prod.fst same))).mpr fun zone => ?_
    rw [each, listed]

end Managed

/-! ## A sync keeps its promise -/

section Promise

variable {resolve : String → Option Place} {io : Io} {port : UInt16} {zones : List String}
  {world : World}

/-- A sync that saw to all zones, each the name of a file, leaves fghjd's file for each of them. -/
theorem lookup_of_mem (creates : io.creates) (done : allSucceed resolve io port zones world)
    {text : String} (member : text ∈ zones) (plain : Plain text) :
    (syncResolver resolve io port zones world).1.dir.lookup (.utf8 text plain) =
      some (.text (desired port)) := by
  have got : text ∈ reached resolve io (.text (desired port)) world zones := by
    rw [reached, List.takeWhile_eq_self_iff.mpr (List.all_eq_true.mp done)]
    exact member
  have kept : dropped io zones (allSucceed resolve io port zones world)
      (.inside (.utf8 text plain)) (.text (desired port)) = false := by
    simp [dropped, pruned, member]
  have left : (syncResolver resolve io port zones world).1.read (.inside (.utf8 text plain)) = _ :=
    read_syncResolver creates
  rw [read_syncZones_of_reached got (locate_of_plain plain), Option.filter_some, kept] at left
  exact left

/-- Of the other files, it leaves those that cannot be removed. -/
theorem lookup_of_not_mem (creates : io.creates) (done : allSucceed resolve io port zones world)
    (allPlain : ∀ zone ∈ zones, Plain zone) {text : String} (absent : text ∉ zones)
    (plain : Plain text) :
    (syncResolver resolve io port zones world).1.dir.lookup (.utf8 text plain) =
      (world.dir.lookup (.utf8 text plain)).filter fun content =>
        !(io.lists && (content.isFghjd && io.removes (.utf8 text plain))) := by
  have left : (syncResolver resolve io port zones world).1.read (.inside (.utf8 text plain)) = _ :=
    read_syncResolver creates
  rw [read_syncZones_of_spared] at left
  · simpa only [World.read, dropped, done, pruned, List.contains_eq_mem, absent, decide_false,
      Bool.not_false, Bool.true_and] using left
  · intro zone member leads
    have inside := List.takeWhile_subset _ member
    rw [locate_of_plain (allPlain zone inside)] at leads
    cases leads
    exact absent inside

/-- The zones are listed as they should be exactly if each is the name of a file and no file of
fghjd's with another name has to stay. -/
theorem managed_iff (creates : io.creates) (done : allSucceed resolve io port zones world) :
    managedResolverZones (some (syncResolver resolve io port zones world).1.dir) =
        (Listing.sortDedup zones).map (·, port) ↔
      (∀ zone ∈ zones, Plain zone) ∧
        ∀ text plain content, text ∉ zones → world.dir.lookup (.utf8 text plain) = some content →
          content.isFghjd → io.lists ∧ io.removes (.utf8 text plain) := by
  rw [managedResolverZones_eq_iff]
  constructor
  · intro exactly
    have allPlain : ∀ zone ∈ zones, Plain zone := by
      intro zone member
      obtain ⟨plain, -⟩ := mem_managedResolverZones.mp ((exactly (zone, port)).mpr ⟨member, rfl⟩)
      exact plain
    refine ⟨allPlain, fun text plain content absent found own => ?_⟩
    by_contra stays
    rw [← Bool.and_eq_true, Bool.not_eq_true] at stays
    rw [Content.isFghjd_eq, Option.isSome_iff_exists] at own
    obtain ⟨number, read⟩ := own
    have left := lookup_of_not_mem creates done allPlain absent plain
    rw [found, Option.filter_some, Bool.and_left_comm, stays, Bool.and_false] at left
    exact absent ((exactly (text, number)).mp
      (mem_managedResolverZones.mpr ⟨plain, content, left, read⟩)).1
  · rintro ⟨allPlain, stale⟩ ⟨text, number⟩
    rw [mem_managedResolverZones]
    by_cases member : text ∈ zones
    · constructor
      · rintro ⟨plain, content, found, read⟩
        rw [lookup_of_mem creates done member plain] at found
        cases found
        rw [Content.port_desired] at read
        exact ⟨member, (Option.some.inj read).symm⟩
      · rintro ⟨-, rfl⟩
        exact ⟨allPlain text member, _, lookup_of_mem creates done member (allPlain text member),
          Content.port_desired number⟩
    · refine iff_of_false ?_ fun listed => member listed.1
      rintro ⟨plain, content, found, read⟩
      rw [lookup_of_not_mem creates done allPlain member plain, Option.filter_eq_some_iff] at found
      have own : content.isFghjd := by
        rw [Content.isFghjd_eq, read]
        rfl
      obtain ⟨lists, removes⟩ := stale text plain content member found.1 own
      rw [lists, own, removes] at found
      cases found.2

/-- A later sync with the same zones has nothing to do. -/
theorem syncResolver_again (creates : io.creates) (done : allSucceed resolve io port zones world)
    (allPlain : ∀ zone ∈ zones, Plain zone)
    (managed : managedResolverZones (some (syncResolver resolve io port zones world).1.dir) =
      (Listing.sortDedup zones).map (·, port)) (later : Io) :
    (syncResolver resolve later port zones (syncResolver resolve io port zones world).1).1 =
      (syncResolver resolve io port zones world).1 := by
  have exactly := managedResolverZones_eq_iff.mp managed
  have held : ∀ zone ∈ zones, ∃ place, locate resolve zone = some place ∧
      (syncResolver resolve io port zones world).1.read place = some (.text (desired port)) :=
    fun zone member => ⟨_, locate_of_plain (allPlain zone member),
      lookup_of_mem creates done member (allPlain zone member)⟩
  generalize (syncResolver resolve io port zones world).1 = world at exactly held
  have nothing : sweep (pruned later zones) world.dir = world.dir := by
    refine sweep_eq_self fun name content found => Bool.eq_false_of_not_eq_true fun stale => ?_
    have own := isFghjd_of_pruned stale
    rw [Content.isFghjd_eq, Option.isSome_iff_exists] at own
    obtain ⟨number, read⟩ := own
    cases name with
    | other bytes => cases stale
    | utf8 text plain =>
        have member := ((exactly (text, number)).mp
          (mem_managedResolverZones.mpr ⟨plain, content, found, read⟩)).1
        simp [pruned, member] at stale
  rw [syncResolver]
  split
  · rw [syncZones_held held]
    dsimp only
    split
    · rw [nothing]
    · rfl
  · rfl

theorem installed_iff : Installed resolve io port zones world ↔
    HarmlessInstall resolve io port zones world := by
  by_cases creates : io.creates
  · have done_iff : (∀ zone ∈ zones, succeeds resolve io (.text (desired port)) world zone) ↔
        allSucceed resolve io port zones world := by
      rw [allSucceed, List.all_eq_true]
    constructor
    · rintro ⟨frame, managed, -⟩
      rw [syncResolver_snd creates] at managed
      refine ⟨fun _ => (frame_syncResolver_iff creates).mp frame, fun _ all => ?_, fun _ all => ?_⟩
      · exact ((managed_iff creates (done_iff.mp all)).mp (managed (done_iff.mp all))).1
      · exact ((managed_iff creates (done_iff.mp all)).mp (managed (done_iff.mp all))).2
    · rintro ⟨own, plain, stale⟩
      have managed : ∀ done : allSucceed resolve io port zones world, _ := fun done =>
        (managed_iff creates done).mpr
          ⟨plain creates (done_iff.mpr done), stale creates (done_iff.mpr done)⟩
      refine ⟨(frame_syncResolver_iff creates).mpr (own creates), ?_, ?_⟩
      · rw [syncResolver_snd creates]
        exact managed
      · rw [syncResolver_snd creates]
        exact fun done => syncResolver_again creates done (plain creates (done_iff.mpr done))
          (managed done)
  · have nothing : syncResolver resolve io port zones world = (world, false) :=
      syncResolver_of_not_creates creates
    refine iff_of_true ⟨?_, ?_, ?_⟩ ?_
    · rw [nothing]
      exact Frame.refl world
    · rw [nothing]
      rintro ⟨⟩
    · rw [nothing]
      rintro ⟨⟩
    · exact ⟨fun able => absurd able creates, fun able => absurd able creates,
        fun able => absurd able creates⟩

end Promise

/-! ## Runs -/

section Runs

variable {resolve : String → Option Place} {first world : World} {io : Io}

theorem lookup_clearResolver {name : FileName} : (clearResolver io world).dir.lookup name =
    (world.dir.lookup name).filter fun content =>
      !(io.lists && (content.isFghjd && io.removes name)) := by
  rw [clearResolver]
  split
  · rename_i lists
    simp only [lists, Bool.true_and]
    exact lookup_sweep
  · rename_i lists
    rw [Bool.eq_false_of_not_eq_true lists]
    cases world.dir.lookup name with
    | none => rfl
    | some content => rfl

theorem frame_clearResolver : Frame world (clearResolver io world) := by
  rintro (name | path) content found foreign
  · rw [World.read, lookup_clearResolver]
    have kept : world.dir.lookup name = some content := found
    have other : content.isFghjd = false := foreign
    rw [kept, Option.filter_some, other]
    simp
  · rw [clearResolver]
    split
    · exact found
    · exact found

/-- What is not fghjd's in the directory was there at first. -/
def Invariant (first world : World) : Prop :=
  ∀ name content, world.dir.lookup name = some content → content.isFghjd = false →
    first.dir.lookup name = some content

theorem Invariant.step (invariant : Invariant first world) (call : Call) :
    Invariant first (step resolve world call) := by
  intro name content found foreign
  cases call with
  | clear io =>
      have left : (clearResolver io world).dir.lookup name = some content := found
      rw [lookup_clearResolver, Option.filter_eq_some_iff] at left
      exact invariant name content left.1 foreign
  | install io port wildcardZones =>
      by_cases creates : io.creates
      · have left : (syncResolver resolve io port (resolverZones wildcardZones) world).1.read
            (.inside name) = some content := found
        rw [read_syncResolver creates, Option.filter_eq_some_iff] at left
        by_cases touched : ∃ zone ∈ reached resolve io (.text (desired port)) world
            (resolverZones wildcardZones), locate resolve zone = some (.inside name)
        · obtain ⟨zone, member, leads⟩ := touched
          rw [read_syncZones_of_reached member leads] at left
          cases left.1
          rw [Content.isFghjd_desired] at foreign
          cases foreign
        · have spared := fun zone member leads => touched ⟨zone, member, leads⟩
          rw [read_syncZones_of_spared spared] at left
          exact invariant name content left.1 foreign
      · rw [ResolverDir.step, syncResolver_of_not_creates creates] at found
        exact invariant name content found foreign

theorem cleared_iff (invariant : Invariant first world) : Cleared first io world ↔
    ∀ name content, world.dir.lookup name = some content → content.isFghjd →
      ¬(io.lists ∧ io.removes name) → first.dir.lookup name = some content := by
  constructor
  · rintro ⟨-, remaining⟩ name content found own stays
    refine remaining name content ?_
    rw [← Bool.and_eq_true, Bool.not_eq_true] at stays
    rw [lookup_clearResolver, found, Option.filter_some, Bool.and_left_comm, stays, Bool.and_false]
    rfl
  · intro stale
    refine ⟨frame_clearResolver, fun name content left => ?_⟩
    rw [lookup_clearResolver, Option.filter_eq_some_iff] at left
    by_cases own : content.isFghjd
    · refine stale name content left.1 own fun removable => ?_
      rw [removable.1, own, removable.2] at left
      cases left.2
    · exact invariant name content left.1 (Bool.eq_false_of_not_eq_true own)

theorem kept_iff (invariant : Invariant first world) (call : Call) :
    Kept resolve first world call ↔ Harmless resolve first world call := by
  cases call with
  | install io port wildcardZones => exact installed_iff
  | clear io => exact cleared_iff invariant

theorem Kept.frame {call : Call} (kept : Kept resolve first world call) :
    Frame world (step resolve world call) := by
  cases call with
  | install io port wildcardZones => exact Installed.frame kept
  | clear io => exact Cleared.frame kept

theorem frame_run {calls : List Call}
    (along : Execution.Along (step resolve) (Kept resolve first) world calls) :
    Frame world (Execution.run (step resolve) world calls) :=
  Execution.run_invariant (step resolve) (Kept resolve first) (Frame world)
    (fun _ _ before kept => before.trans kept.frame) (Frame.refl world) along

/-- A run of syncs and clears keeps what is not fghj's, and lists and leaves what it should, exactly
if no zone leads to a foreign file and fghjd's own files can be removed. -/
theorem keeps_iff (resolve : String → Option Place) (first : World) (calls : List Call) :
    Keeps resolve first calls ↔
      Execution.Along (step resolve) (Harmless resolve first) first calls := by
  have along_iff : Execution.Along (step resolve) (Kept resolve first) first calls ↔
      Execution.Along (step resolve) (Harmless resolve first) first calls := by
    rw [Execution.along_iff, Execution.along_iff]
    refine forall₄_congr fun front call back split => kept_iff ?_ call
    exact Execution.run_always (step resolve) (Invariant first)
      (fun _ call invariant => invariant.step call) (fun _ _ found _ => found) front
  exact ⟨fun keeps => along_iff.mp keeps.each, fun harmless =>
    ⟨along_iff.mpr harmless, frame_run (along_iff.mpr harmless)⟩⟩

/-- Another tool's file with the name of a zone is written over, and so is the file that a zone with
a path for its name leads to. -/
theorem not_keeps :
    ¬Keeps (fun _ => none)
        { dir := AList.singleton (.utf8 "shop.test" (by decide))
            (.text "nameserver 8.8.8.8\n".toList)
          outside := fun _ => none }
        [.install {} 5353 ["shop.test"]] ∧
      ¬Keeps (fun zone => if zone = "../hosts" then some (.outside "/etc/hosts") else none)
        { dir := ∅
          outside := fun path =>
            if path = "/etc/hosts" then some (.text "127.0.0.1 localhost\n".toList) else none }
        [.install {} 5353 ["../hosts"]] := by
  constructor
  · intro keeps
    have left := keeps.whole (.inside (.utf8 "shop.test" (by decide)))
      (.text "nameserver 8.8.8.8\n".toList) (by decide)
      (show (Content.text _).isFghjd = false by decide)
    revert left
    decide
  · intro keeps
    have left := keeps.whole (.outside "/etc/hosts") (.text "127.0.0.1 localhost\n".toList)
      (by decide) trivial
    revert left
    decide

end Runs

end ResolverDir
end Fghj
