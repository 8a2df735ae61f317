import Fghj.BringUpSpec
import Fghj.Library.Text
import Fghj.Library.Words
import Fghj.Uniqueness

/-!
# Seeds and the data they filled

A seed is done for the data its stores held when it last exited cleanly. That data is written down
as one text: every store the seed names, in the order of its list, with the volumes the store mounts
or the container it is. The text tells the data apart as long as the list stays as it was written,
and what else a run looks at before it leaves a seed alone is the seed's container, not the data.
-/

namespace Fghj

open Std

namespace Orchestrator

/-! ## What data is -/

/-- A mount of a container, as Docker reports it. -/
structure MountPoint where
  typ : Option String
  name : Option String

structure InspectedContainer where
  id : Option String
  mounts : List MountPoint := []

/-- What Docker answers about containers and volumes. -/
structure DockerData where
  inspect : String → Except String (Option InspectedContainer)
  /-- When a volume was made, in nanoseconds. -/
  inspectVolume : String → Except String (Option Int)

/-- The volumes among some mounts, each with the time it was made. -/
def volumeIdentities (docker : DockerData) : List MountPoint → Except String (List String)
  | [] => .ok []
  | mount :: mounts =>
      match mount.typ, mount.name with
      | some "volume", some name =>
          match docker.inspectVolume name with
          | .error message => .error ("docker inspect_volume failed: " ++ message)
          | .ok created =>
              (volumeIdentities docker mounts).map fun identities =>
                (name ++ "@" ++ (created.map Int.repr).getD "") :: identities
      | _, _ => volumeIdentities docker mounts

/-- What a container's data is: its volumes, or itself if it has none. -/
def dataIdentity (docker : DockerData) (container : String) :
    Except String (Option (List String)) :=
  match docker.inspect container with
  | .error message => .error message
  | .ok none => .ok none
  | .ok (some inspected) =>
      (volumeIdentities docker inspected.mounts).map fun identities =>
        let identities :=
          if identities.isEmpty then ["container:" ++ inspected.id.getD ""] else identities
        some (identities.insertionSort (· ≤ ·))

/-- The data of a store, if it can be read. -/
def storeData (docker : DockerData) (workspaceName store : String) : Option (List String) :=
  match dataIdentity docker (containerName workspaceName store) with
  | .ok identity => identity
  | .error _ => none

/-- The text of one store's data. -/
def storeText (store : String) (identity : List String) : String :=
  store ++ "=" ++ ",".intercalate identity

/-- The data of some stores in one text. -/
def storesData (docker : DockerData) (workspaceName : String) (stores : List String) :
    Option String :=
  (stores.mapM fun store => (storeData docker workspaceName store).map (storeText store)).map
    (";".intercalate ·)

def seededData (docker : DockerData) (graph : Graph) (node : Node) : Option String :=
  storesData docker graph.workspaceName node.seeds

/-- The data a seed last succeeded against, and when. -/
structure SeededData where
  data : String
  seconds : Int

/-- When the seed filled the data its stores hold now, if it did. -/
def seededAt (docker : DockerData) (seeds : OrderedMap String SeededData) (graph : Graph)
    (node : Node) : Option Int :=
  (seededData docker graph node).bind fun data =>
    (seeds[node.id]?).bind fun seeded => if seeded.data = data then some seeded.seconds else none

def alreadySeeded (docker : DockerData) (seeds : OrderedMap String SeededData) (graph : Graph)
    (node : Node) : Bool :=
  (seededAt docker seeds graph node).isSome

/-- Write down what the seed filled, and whether that was kept. -/
def recordSeeded (docker : DockerData) (seeds : OrderedMap String SeededData) (graph : Graph)
    (node : Node) (saved : Bool) (seconds : Int) : OrderedMap String SeededData × Bool :=
  match seededData docker graph node with
  | none => (seeds, false)
  | some data => if saved then (seeds.insert node.id { data, seconds }, true) else (seeds, false)

/-! ## Histories -/

/-- What was there when a seed exited cleanly. -/
structure Filling where
  stores : List String
  workspaceName : String
  docker : DockerData
  recorded : Bool

/-- Docker and the table of seeds, with what every seed last filled. -/
structure History where
  docker : DockerData
  seeds : OrderedMap String SeededData := ∅
  filled : OrderedMap String Filling := ∅

/-- One node's turn in a run, with all the outside answers on the way. What fghjd remembers comes
with the turn, so a restart of fghjd may come between any two. -/
structure Turn where
  graph : Graph
  node : Node
  world : World
  restart : Option String
  up : BroughtUp
  /-- Docker when the turn is over. -/
  later : DockerData
  /-- Whether the table of seeds could be written. -/
  saved : Bool := true
  seconds : Int := 0

namespace Turn

variable (turn : Turn) (history : History)

/-- The record a clean exit leaves. -/
def record : OrderedMap String SeededData × Bool :=
  recordSeeded turn.later history.seeds turn.graph turn.node turn.saved turn.seconds

/-- The world, with the answers about seeds that the table gives. -/
def asked : World :=
  { turn.world with
    alreadySeeded := fun _ => alreadySeeded history.docker history.seeds turn.graph turn.node
    recordSeeded := fun _ => (turn.record history).2 }

def verdict : Verdict :=
  Orchestrator.verdict turn.graph (turn.asked history) turn.restart turn.up turn.node

/-- The run starts the node, and the start succeeds: a task has exited cleanly then. -/
def exitsCleanly : Bool :=
  match turn.verdict history with
  | .start => (turn.world.started turn.up turn.node).toOption.isSome
  | _ => false

end Turn

inductive HistoryEvent where
  /-- Stores were recreated, or volumes removed and made again. -/
  | changed (docker : DockerData)
  | turn (turn : Turn)

def History.step (history : History) : HistoryEvent → History
  | .changed docker => { history with docker }
  | .turn turn =>
      if !turn.node.seeds.isEmpty && turn.exitsCleanly history then
        let recorded := turn.record history
        { docker := turn.later
          seeds := recorded.1
          filled := history.filled.insert turn.node.id
            { stores := turn.node.seeds
              workspaceName := turn.graph.workspaceName
              docker := turn.later
              recorded := recorded.2 } }
      else { history with docker := turn.later }

/-- Every store the seed names has the data it had when the seed last exited cleanly, and that exit
was recorded. -/
def Filled (history : History) (graph : Graph) (node : Node) : Prop :=
  ∃ filling, history.filled[node.id]? = some filling ∧ filling.recorded ∧
    ∀ store ∈ node.seeds, ∃ identity,
      storeData history.docker graph.workspaceName store = some identity ∧
        storeData filling.docker filling.workspaceName store = some identity

/-! ## What the text tells -/

/-- A name as Docker gives it out: the separators of the text do not occur in it. -/
def Plain (name : String) : Prop := ',' ∉ name.toList ∧ ';' ∉ name.toList

instance (name : String) : Decidable (Plain name) := inferInstanceAs (Decidable (_ ∧ _))

/-- Some data, each piece of it a plain name. -/
def PlainData (identity : List String) : Prop := identity ≠ [] ∧ ∀ entry ∈ identity, Plain entry

/-- Docker's volumes and containers have the names Docker allows. -/
structure DockerData.Named (docker : DockerData) : Prop where
  volumes : ∀ container inspected, docker.inspect container = .ok (some inspected) →
    ∀ mount ∈ inspected.mounts, ∀ name, mount.name = some name → Plain name
  ids : ∀ container inspected, docker.inspect container = .ok (some inspected) →
    ∀ id, inspected.id = some id → Plain id

theorem Plain.append {front back : String} (first : Plain front) (second : Plain back) :
    Plain (front ++ back) := by
  simp only [Plain, String.toList_append, List.mem_append, not_or]
  exact ⟨⟨first.1, second.1⟩, first.2, second.2⟩

theorem plain_repr (created : Int) : Plain created.repr := by
  have clear : ∀ char ∈ created.repr.toList, char ≠ ',' ∧ char ≠ ';' := by
    intro char member
    rcases Text.mem_toList_repr_int member with rfl | digit
    · decide
    · constructor <;> rintro rfl <;> cases digit
  exact ⟨fun member => (clear _ member).1 rfl, fun member => (clear _ member).2 rfl⟩

variable {docker : DockerData}

theorem plain_volumeIdentities {mounts : List MountPoint}
    (plain : ∀ mount ∈ mounts, ∀ name, mount.name = some name → Plain name)
    {identities : List String} (read : volumeIdentities docker mounts = .ok identities) :
    ∀ identity ∈ identities, Plain identity := by
  induction mounts generalizing identities with
  | nil =>
      cases read
      exact fun identity member => nomatch member
  | cons mount mounts ih =>
      have later := fun other member => plain other (List.mem_cons_of_mem mount member)
      simp only [volumeIdentities] at read
      split at read
      · rename_i name typ named
        split at read
        · cases read
        · rename_i created made
          cases rest : volumeIdentities docker mounts with
          | error message => simp [rest, Except.map] at read
          | ok others =>
              simp only [rest, Except.map, Except.ok.injEq] at read
              subst read
              intro identity member
              rcases List.mem_cons.mp member with rfl | other
              · apply Plain.append
                · exact (plain mount List.mem_cons_self name named).append (by decide)
                · cases created with
                  | none => exact (by decide : Plain "")
                  | some created => exact plain_repr created
              · exact ih later rest identity other
      · exact ih later read

theorem DockerData.Named.storeData (named : docker.Named) {workspaceName store : String}
    {identity : List String}
    (read : Orchestrator.storeData docker workspaceName store = some identity) :
    PlainData identity := by
  simp only [Orchestrator.storeData, dataIdentity] at read
  cases found : docker.inspect (containerName workspaceName store) with
  | error message => simp [found] at read
  | ok answer =>
      cases answer with
      | none => simp [found] at read
      | some inspected =>
          cases volumes : volumeIdentities docker inspected.mounts with
          | error message => simp [found, volumes, Except.map] at read
          | ok identities =>
              simp only [found, volumes, Except.map, Option.some.injEq] at read
              have plain := plain_volumeIdentities (named.volumes _ _ found) volumes
              subst read
              simp only [PlainData, ne_eq, List.mem_insertionSort, ← List.length_eq_zero_iff,
                List.length_insertionSort]
              cases identities with
              | nil =>
                  refine ⟨by simp, fun entry member => ?_⟩
                  obtain rfl := List.mem_singleton.mp member
                  apply Plain.append (by decide)
                  cases id : inspected.id with
                  | none => exact (by decide : Plain "")
                  | some id => exact named.ids _ _ found _ ‹_›
              | cons first rest => exact ⟨by simp, plain⟩

/-- The text of some stores is there once the data of every one is. -/
theorem storesData_eq_some_iff {workspaceName : String} {stores : List String} {text : String} :
    storesData docker workspaceName stores = some text ↔
      (∀ store ∈ stores, (storeData docker workspaceName store).isSome) ∧
        ";".intercalate (stores.map fun store =>
          storeText store ((storeData docker workspaceName store).getD [])) = text := by
  have parts (texts : List String) :
      stores.mapM (fun store => (storeData docker workspaceName store).map (storeText store)) =
          some texts ↔
        (∀ store ∈ stores, (storeData docker workspaceName store).isSome) ∧
          stores.map (fun store =>
            storeText store ((storeData docker workspaceName store).getD [])) = texts := by
    induction stores generalizing texts with
    | nil => simp
    | cons store stores ih =>
        cases read : storeData docker workspaceName store with
        | none => simp [List.mapM_cons, read]
        | some identity =>
            simp only [List.mapM_cons, read, Option.map_some, Option.bind_eq_bind,
              Option.bind_some, Option.bind_eq_some_iff, ih, Option.pure_def, Option.some.injEq,
              List.forall_mem_cons, Option.isSome_some, true_and, List.map_cons, Option.getD_some]
            constructor
            · rintro ⟨others, ⟨readable, rfl⟩, rfl⟩
              exact ⟨readable, rfl⟩
            · rintro ⟨readable, rfl⟩
              exact ⟨_, ⟨readable, rfl⟩, rfl⟩
  simp only [storesData, Option.map_eq_some_iff, parts]
  constructor
  · rintro ⟨texts, ⟨readable, rfl⟩, rfl⟩
    exact ⟨readable, rfl⟩
  · rintro ⟨readable, rfl⟩
    exact ⟨_, ⟨readable, rfl⟩, rfl⟩

theorem identity_eq_of_intercalate {identity other : List String} (plain : PlainData identity)
    (clear : PlainData other) (same : ",".intercalate identity = ",".intercalate other) :
    identity = other := by
  have chars := congrArg String.toList same
  rw [String.toList_intercalate, String.toList_intercalate] at chars
  have split := congrArg (List.splitOn ',') chars
  have whole {identity : List String} (plain : PlainData identity) :
      (",".toList.intercalate (identity.map String.toList)).splitOn ',' =
        identity.map String.toList := by
    apply List.splitOn_intercalate
    · intro entry member
      obtain ⟨name, listed, rfl⟩ := List.mem_map.mp member
      exact (plain.2 name listed).1
    · simpa using plain.1
  rw [whole plain, whole clear] at split
  exact List.map_injective_iff.mpr (fun _ _ => String.toList_inj.mp) split

theorem semicolon_not_mem_intercalate {identity : List String} (plain : PlainData identity) :
    ';' ∉ (",".intercalate identity).toList := by
  rw [String.toList_intercalate]
  intro member
  rcases Words.mem_joined member with comma | ⟨entry, listed, inside⟩
  · exact absurd comma (by decide)
  · obtain ⟨name, present, rfl⟩ := List.mem_map.mp listed
    exact (plain.2 name present).2 inside

/-- The texts of one list of stores are equal only if the data is. -/
theorem data_eq_of_text_eq {stores : List String} {data other : String → List String}
    (plain : ∀ store ∈ stores, PlainData (data store))
    (clear : ∀ store ∈ stores, PlainData (other store))
    (same : ";".intercalate (stores.map fun store => storeText store (data store)) =
      ";".intercalate (stores.map fun store => storeText store (other store))) :
    ∀ store ∈ stores, data store = other store := by
  induction stores with
  | nil => exact fun store member => nomatch member
  | cons store stores ih =>
      rw [List.forall_mem_cons] at plain clear ⊢
      cases stores with
      | nil =>
          simp only [List.map_cons, List.map_nil, String.intercalate_singleton, storeText,
            String.append_right_inj] at same
          exact ⟨identity_eq_of_intercalate plain.1 clear.1 same, fun _ member => nomatch member⟩
      | cons next stores =>
          -- the first semicolon ends the first store's data, and the rest is the text of the rest
          have chars := congrArg String.toList same
          simp only [List.map_cons, String.intercalate_cons_cons, storeText, String.toList_append,
            List.append_assoc, List.append_cancel_left_eq] at chars
          have shape (rest : List Char) : ";".toList ++ rest = ';' :: rest := rfl
          rw [shape, shape, Text.append_separator_inj (semicolon_not_mem_intercalate plain.1)
            (semicolon_not_mem_intercalate clear.1)] at chars
          refine ⟨identity_eq_of_intercalate plain.1 clear.1 (String.toList_inj.mp chars.1),
            ih plain.2 clear.2 (String.toList_inj.mp ?_)⟩
          simpa [storeText] using chars.2

/-! ## Every history -/

/-- What is taken for granted of an event: Docker's names are as Docker allows, a clean exit gets
recorded, and a seed names the stores it named when it last exited cleanly, in whatever order. -/
def Assumed (history : History) : HistoryEvent → Prop
  | .changed docker => docker.Named
  | .turn turn => turn.later.Named ∧
      (turn.node.seeds ≠ [] → turn.exitsCleanly history → (turn.record history).2) ∧
      ∀ filling, history.filled[turn.node.id]? = some filling →
        ∀ store, store ∈ turn.node.seeds ↔ store ∈ filling.stores

/-- The table has the text of exactly what every seed last filled. -/
structure Kept (history : History) : Prop where
  named : history.docker.Named
  fillings : ∀ (id : String) (filling : Filling), history.filled[id]? = some filling →
    filling.recorded ∧ filling.docker.Named ∧
      ∃ seeded : SeededData, history.seeds[id]? = some seeded ∧
      storesData filling.docker filling.workspaceName filling.stores = some seeded.data
  records : ∀ id : String, history.filled[id]? = none → history.seeds[id]? = none

theorem recordSeeded_kept {seeds : OrderedMap String SeededData} {graph : Graph} {node : Node}
    {saved : Bool} {seconds : Int} (kept : (recordSeeded docker seeds graph node saved seconds).2) :
    ∃ data, seededData docker graph node = some data ∧
      (recordSeeded docker seeds graph node saved seconds).1 =
        seeds.insert node.id { data, seconds } := by
  simp only [recordSeeded] at kept ⊢
  cases read : seededData docker graph node with
  | none => simp [read] at kept
  | some data =>
      cases saved with
      | false => simp [read] at kept
      | true => exact ⟨data, rfl, rfl⟩

/-- Every event keeps the table right. -/
theorem Kept.step {history : History} (kept : Kept history) {event : HistoryEvent}
    (assumed : Assumed history event) : Kept (history.step event) := by
  cases event with
  | changed docker => exact ⟨assumed, kept.fillings, kept.records⟩
  | turn turn =>
      obtain ⟨named, recorded, -⟩ := assumed
      simp only [History.step]
      split
      · rename_i clean
        simp only [Bool.and_eq_true, Bool.not_eq_true', List.isEmpty_eq_false_iff] at clean
        have success := recorded clean.1 clean.2
        obtain ⟨data, read, written⟩ := recordSeeded_kept success
        have table : (turn.record history).1 =
            history.seeds.insert turn.node.id { data, seconds := turn.seconds } := written
        constructor
        · exact named
        · intro id filling found
          by_cases here : turn.node.id = id
          · subst here
            rw [ExtTreeMap.getElem?_insert_self] at found
            cases found
            refine ⟨success, named, { data, seconds := turn.seconds }, ?_, read⟩
            simp only [table, ExtTreeMap.getElem?_insert_self]
          · simp only [ExtTreeMap.getElem?_insert, Std.compare_eq_iff_eq, here, if_false] at found
            obtain ⟨was, plain, seeded, held, same⟩ := kept.fillings id filling found
            refine ⟨was, plain, seeded, ?_, same⟩
            simpa only [table, ExtTreeMap.getElem?_insert, Std.compare_eq_iff_eq, here, if_false]
              using held
        · intro id absent
          have away : turn.node.id ≠ id := by
            rintro rfl
            simp at absent
          simp only [ExtTreeMap.getElem?_insert, Std.compare_eq_iff_eq, away, if_false] at absent
          simpa only [table, ExtTreeMap.getElem?_insert, Std.compare_eq_iff_eq, away, if_false]
            using kept.records id absent
      · exact ⟨named, kept.fillings, kept.records⟩

/-- With the list as it was, the table answers whether the stores hold what the seed filled. -/
theorem Kept.alreadySeeded_iff {history : History} (kept : Kept history) {graph : Graph}
    {node : Node}
    (order : ∀ filling, history.filled[node.id]? = some filling → filling.stores = node.seeds) :
    alreadySeeded history.docker history.seeds graph node ↔ Filled history graph node := by
  have answer : alreadySeeded history.docker history.seeds graph node ↔ ∃ seeded,
      history.seeds[node.id]? = some seeded ∧
        storesData history.docker graph.workspaceName node.seeds = some seeded.data := by
    simp only [alreadySeeded, seededAt, Option.isSome_iff_exists, Option.bind_eq_some_iff,
      seededData]
    constructor
    · rintro ⟨seconds, data, read, seeded, held, same⟩
      split at same
      · rename_i equal
        exact ⟨seeded, held, by rw [read, equal]⟩
      · cases same
    · rintro ⟨seeded, held, read⟩
      exact ⟨seeded.seconds, seeded.data, read, seeded, held, if_pos rfl⟩
  rw [answer]
  cases found : history.filled[node.id]? with
  | none =>
      simp [Filled, found, kept.records node.id found]
  | some filling =>
      obtain ⟨recorded, named, seeded, held, filledText⟩ := kept.fillings node.id filling found
      rw [order filling found] at filledText
      obtain ⟨wasReadable, wasText⟩ := storesData_eq_some_iff.mp filledText
      simp only [Filled, found, held, Option.some.injEq, exists_eq_left', recorded, true_and,
        storesData_eq_some_iff]
      constructor
      · rintro ⟨readable, text⟩ store member
        obtain ⟨identity, now⟩ := Option.isSome_iff_exists.mp (readable store member)
        obtain ⟨before, was⟩ := Option.isSome_iff_exists.mp (wasReadable store member)
        have same := data_eq_of_text_eq (fun store member => ?_) (fun store member => ?_)
          (text.trans wasText.symm) store member
        · rw [now, was, Option.getD_some, Option.getD_some] at same
          exact ⟨identity, now, by rw [was, same]⟩
        · obtain ⟨identity, now⟩ := Option.isSome_iff_exists.mp (readable store member)
          rw [now]
          exact kept.named.storeData now
        · obtain ⟨identity, was⟩ := Option.isSome_iff_exists.mp (wasReadable store member)
          rw [was]
          exact named.storeData was
      · intro same
        refine ⟨fun store member => ?_, ?_⟩
        · obtain ⟨identity, now, -⟩ := same store member
          simp [now]
        · rw [← wasText]
          congr 1
          apply List.map_congr_left
          intro store member
          obtain ⟨identity, now, was⟩ := same store member
          rw [now, was]

/-! ## Skipped seeds -/

/-- The seed is judged by its data: its list is as it was when it last exited cleanly, the run does
not take its container's exit code for an answer, and the seed is neither running nor in the hands
of another action. -/
structure Turn.Ordinary (turn : Turn) (history : History) : Prop where
  order : ∀ filling, history.filled[turn.node.id]? = some filling → filling.stores = turn.node.seeds
  judged : doneTask turn.restart turn.up turn.node = false
  free : leftToAnother turn.restart turn.up turn.node = false
  idle : turn.world.alive turn.node.id = false

/-- A run that finds a node down leaves it alone only if it passes over it. -/
theorem verdict_eq_leave_iff_of_down {graph : Graph} {world : World} {restart : Option String}
    {up : BroughtUp} {node : Node} (down : world.alive node.id = false) :
    verdict graph world restart up node = .leave ↔ PassedOver world restart up node := by
  constructor
  · intro left
    rcases verdict_eq_leave left with passed | current | ⟨alive, -⟩
    · exact passed
    · have skips := current.2.2
      simp [topUpMaySkip, down] at skips
    · rw [down] at alive
      cases alive
  · intro passed
    rcases verdict_cases graph world restart up node with
      ⟨-, left⟩ | ⟨due, -⟩ | ⟨due, -⟩ | ⟨due, -⟩ | ⟨due, -⟩
    · exact left
    · exact (due passed).elim
    · exact (due passed).elim
    · exact (due passed).elim
    · exact (due passed).elim

theorem kept_run (named : docker.Named) {events : List HistoryEvent}
    (assumed : Execution.Along History.step Assumed { docker } events) :
    Kept (Execution.run History.step { docker } events) := by
  apply Execution.run_invariant History.step Assumed Kept
    (fun history event kept assumed => kept.step assumed) _ assumed
  exact ⟨named, fun id filling found => by simp at found, fun id _ => by simp⟩

/-- In every history, a run that judges a seed by its data skips it exactly if its stores hold what
it last filled. -/
theorem seed_skipped_iff_filled {docker : DockerData} (named : docker.Named)
    {events : List HistoryEvent} (assumed : Execution.Along History.step Assumed { docker } events)
    {turn : Turn} (seed : turn.node.seeds ≠ []) (unforced : turn.restart ≠ some turn.node.id)
    (ordinary : turn.Ordinary (Execution.run History.step { docker } events)) :
    turn.verdict (Execution.run History.step { docker } events) = .leave ↔
      Filled (Execution.run History.step { docker } events) turn.graph turn.node := by
  have kept := kept_run named assumed
  generalize Execution.run History.step { docker } events = history at ordinary kept ⊢
  have asked : doneSeed (turn.asked history) turn.node =
      alreadySeeded history.docker history.seeds turn.graph turn.node := by
    simp [doneSeed, seed, Turn.asked]
  have down : (turn.asked history).alive turn.node.id = false := ordinary.idle
  rw [Turn.verdict, verdict_eq_leave_iff_of_down down, PassedOver, ordinary.judged,
    ordinary.free, asked, ← kept.alreadySeeded_iff ordinary.order]
  simp [unforced]

theorem History.filled_step_turn {history : History} {turn : Turn} (seed : turn.node.seeds ≠ [])
    (clean : turn.exitsCleanly history) :
    (history.step (.turn turn)).filled[turn.node.id]? =
      some ⟨turn.node.seeds, turn.graph.workspaceName, turn.later, (turn.record history).2⟩ := by
  simp [History.step, seed, clean]

instance (verdict : Verdict) : Decidable (verdict = .leave) :=
  match verdict with
  | .leave => isTrue rfl
  | .block _ => isFalse nofun
  | .restart _ => isFalse nofun
  | .start => isFalse nofun

/-- A shop with a database and a store of files, and a task that seeds both. -/
def seedShop (seeds : List String) : Graph :=
  Resolver.resolveWorkspace id "market"
    ((∅ : OrderedMap String ComponentConfig).insert "shop"
      { services := (((∅ : OrderedMap String ServiceConfig).insert "db"
            { image := some "postgres" }).insert "files"
            { image := some "minio" }).insert "fill"
            { image := some "fill", command := ["fill"], seeds } })
    ∅

/-- The database has a volume, the store of files has none. -/
def seedShopData : DockerData where
  inspect container :=
    if container = containerName "market" "db.shop" then
      .ok (some { id := some "d1", mounts := [{ typ := some "volume", name := some "rows" }] })
    else if container = containerName "market" "files.shop" then .ok (some { id := some "f1" })
    else .ok none
  inspectVolume _ := .ok (some 1)

/-- A run that starts the seed when it is due, and in which it exits cleanly. -/
def seedTurn (seeds : List String) : Turn where
  graph := seedShop seeds
  node := ((seedShop seeds).node? "fill.shop").getD { id := "fill.shop", kind := .task }
  world :=
    { ensureSidecar := .ok "172.18.0.2"
      resolveNodeSpec := fun id => .ok
        { containerName := containerName "market" id
          domain := deriveDomain id "market" .http
          rawDomain := deriveDomain id "market" .raw
          portList := [] }
      specHash := fun _ _ => ""
      inspectStatus := fun _ => .ok none
      start := fun _ =>
        { inspected := .ok (some { status := "running" })
          polls := [.ok (some { status := "exited", exitCode := some 0 })] } }
  restart := none
  up := { state := {}, outcomes := {} }
  later := seedShopData

theorem named_seedShopData : seedShopData.Named := by
  have listed : ∀ container inspected, seedShopData.inspect container = .ok (some inspected) →
      inspected = { id := some "d1", mounts := [{ typ := some "volume", name := some "rows" }] } ∨
        inspected = { id := some "f1" } := by
    intro container inspected found
    simp only [seedShopData] at found
    split at found
    · cases found
      exact .inl rfl
    · split at found
      · cases found
        exact .inr rfl
      · cases found
  constructor
  · intro container inspected found mount member name named
    rcases listed container inspected found with rfl | rfl
    · obtain rfl := List.mem_singleton.mp member
      cases named
      decide
    · cases member
  · intro container inspected found id named
    rcases listed container inspected found with rfl | rfl <;> cases named <;> decide

/-- The history in which the seed exits cleanly once. -/
def seededOnce (seeds : List String) : List HistoryEvent := [.turn (seedTurn seeds)]

theorem assumed_seededOnce {seeds : List String}
    (recorded : ((seedTurn seeds).record { docker := seedShopData }).2) :
    Execution.Along History.step Assumed { docker := seedShopData } (seededOnce seeds) := by
  refine ⟨⟨named_seedShopData, fun _ _ => recorded, ?_⟩, trivial⟩
  intro filling found
  simp at found

/-- The seed is skipped by the next run. -/
theorem seed_skipped_after_run :
    (seedTurn ["db", "files"]).verdict
        (Execution.run History.step { docker := seedShopData } (seededOnce ["db", "files"])) =
      .leave ∧
    Filled (Execution.run History.step { docker := seedShopData } (seededOnce ["db", "files"]))
      (seedTurn ["db", "files"]).graph (seedTurn ["db", "files"]).node := by
  have skipped : (seedTurn ["db", "files"]).verdict
      (Execution.run History.step { docker := seedShopData } (seededOnce ["db", "files"])) =
        .leave := by
    decide
  have clean : (seedTurn ["db", "files"]).exitsCleanly { docker := seedShopData } := by
    decide
  refine ⟨skipped, (seed_skipped_iff_filled named_seedShopData
    (assumed_seededOnce (by decide)) (by decide) (by decide) ?_).mp skipped⟩
  constructor
  · intro filling found
    have last := History.filled_step_turn (by decide) clean
    cases found.symm.trans last
    rfl
  · decide
  · decide
  · decide

/-- A seed whose list was written the other way round runs again over the data it filled. -/
theorem reordered_seed_runs_again :
    ¬∀ (docker : DockerData) (events : List HistoryEvent) (turn : Turn), docker.Named →
      Execution.Along History.step Assumed { docker } (events ++ [.turn turn]) →
      Resolver.Accepted id turn.graph → turn.node.seeds ≠ [] →
      turn.restart ≠ some turn.node.id →
      (turn.verdict (Execution.run History.step { docker } events) = .leave ↔
        Filled (Execution.run History.step { docker } events) turn.graph turn.node) := by
  intro claim
  have clean : (seedTurn ["db", "files"]).exitsCleanly { docker := seedShopData } := by
    decide
  have last := History.filled_step_turn (by decide) clean
  have same : (seedTurn ["db", "files"]).node.id = (seedTurn ["files", "db"]).node.id := by
    decide
  rw [same] at last
  have skips := claim seedShopData (seededOnce ["db", "files"]) (seedTurn ["files", "db"])
    named_seedShopData ?_ ⟨⟨_, _, rfl⟩, by decide⟩ (by decide) (by decide)
  · have filled : Filled
        (Execution.run History.step { docker := seedShopData } (seededOnce ["db", "files"]))
        (seedTurn ["files", "db"]).graph (seedTurn ["files", "db"]).node := by
      refine ⟨_, last, by decide, fun store member => ?_⟩
      have readable : ∀ store ∈ (seedTurn ["files", "db"]).node.seeds,
          (storeData seedShopData "market" store).isSome := by
        decide
      obtain ⟨identity, read⟩ := Option.isSome_iff_exists.mp (readable store member)
      exact ⟨identity, read, read⟩
    exact absurd (skips.mpr filled) (by decide)
  · rw [Execution.along_append]
    refine ⟨assumed_seededOnce (by decide), ⟨named_seedShopData, ?_, ?_⟩, trivial⟩
    · exact fun _ _ => by decide
    · intro filling found
      cases found.symm.trans last
      have written : (seedTurn ["db", "files"]).node.seeds = ["db.shop", "files.shop"] := by
        decide
      have rewritten : (seedTurn ["files", "db"]).node.seeds = ["files.shop", "db.shop"] := by
        decide
      simp only [written, rewritten, List.mem_cons, List.not_mem_nil, or_false]
      exact fun store => or_comm

end Orchestrator
end Fghj
