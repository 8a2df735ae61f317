import Fghj.Registry

/-!
# Removals across restarts

The daemon may stop at any moment and start again on its two files, and a file may fail to be
written. A stop inside a wire or a remove leaves the files as if the writes that were still to come
had failed. Removed workspaces are not loaded again, removals that have not finished are resumed and
the other workspaces are loaded, as long as a removal is not taken off its list while the index
still has the workspace, and the index has every workspace that a wire finds wired.
-/

namespace Fghj
namespace Registry

open Std (ExtTreeMap)

/-- The daemon, and what was asked of it over all its starts: the workspaces whose removal was
granted and that were not wired since it finished, the removals that have not finished, and the
workspaces that were wired while no removal of theirs was pending and were not removed since. -/
structure World where
  registry : Registry
  removed : List String
  unfinished : List String
  wired : OrderedMap String Path

/-- The daemon acts, or stops and starts again. -/
inductive Happening where
  | act (event : Event)
  | restart (exists_ opens : Path → Bool) (saved : Bool)

namespace World

/-- The daemon starts for the first time, on files of any contents. -/
def begin (index removing : OrderedMap String Path) (exists_ opens : Path → Bool)
    (saved : Bool) : World where
  registry := loadFrom index removing exists_ opens saved
  removed := removing.keys
  unfinished := removing.keys
  wired := index.filter fun id _ => !removing.contains id

/-- Takes note of what an event reports. -/
def note (world : World) (registry : Registry) : Report → World
  | .nothing => { world with registry }
  | .wired id path saved =>
      if world.registry.removing.contains id then { world with registry }
      else
        { world with
          registry
          removed := world.removed.filter fun held => held != id
          wired := if saved then world.wired.insert id path else world.wired }
  | .already id path =>
      if world.registry.removing.contains id then { world with registry }
      else { world with registry, wired := world.wired.insert id path }
  | .removed id =>
      { registry
        removed := id :: world.removed
        unfinished := id :: world.unfinished
        wired := world.wired.erase id }
  | .unknown id =>
      { world with registry, removed := id :: world.removed, wired := world.wired.erase id }
  | .finished id =>
      { world with registry, unfinished := world.unfinished.filter fun held => held != id }

def step (world : World) : Happening → World
  | .act event => world.note (world.registry.react event).1 (world.registry.react event).2
  | .restart exists_ opens saved =>
      { world with
        registry := loadFrom world.registry.index world.registry.removing exists_ opens saved }

/-- The index agrees with what is asked for: a removal is taken off its list only when the index
does not have the workspace, a workspace found wired is in the index, one that is not loaded is not
removed while the index has it, and folders that are there can be opened. -/
def agrees (world : World) : Happening → Bool
  | .act (.resolved _ (some canonical)) =>
      (world.registry.byId[workspaceId canonical]?).isNone ||
        world.registry.index[workspaceId canonical]? == some canonical
  | .act (.remove id _ _) =>
      (world.registry.byId[id]?).isSome || world.registry.removing.contains id ||
        (world.registry.index[id]?).isNone
  | .act (.tornDown id emptied saved) =>
      !(emptied && saved) || !world.registry.teardowns.contains id ||
        (world.registry.index[id]?).isNone
  | .restart exists_ opens _ =>
      world.registry.index.toList.all fun entry =>
        world.registry.removing.contains entry.1 || !exists_ entry.2 || opens entry.2
  | _ => true

end World

/-! ## What an event writes -/

/-- What an event reports, and what it leaves in the two files. -/
inductive Wrote (registry : Registry) : Event → Registry → Report → Prop where
  | nothing {event : Event} {next : Registry} (index : next.index = registry.index)
      (removing : next.removing = registry.removing) : Wrote registry event next .nothing
  | wired {event : Event} {next : Registry} {id : String} {path : Path} {saved : Bool}
      (index : next.index = if saved then registry.index.insert id path else registry.index)
      (removing : next.removing = registry.removing) :
      Wrote registry event next (.wired id path saved)
  | already {call : Nat} {next : Registry} {path : Path}
      (wired : (registry.byId[workspaceId path]?).isSome) (index : next.index = registry.index)
      (removing : next.removing = registry.removing) :
      Wrote registry (.resolved call (some path)) next (.already (workspaceId path) path)
  | removed {id : String} {marked saved : Bool} {next : Registry}
      (index : next.index = registry.index ∨ next.index = registry.index.erase id)
      (listed : next.removing.contains id)
      (removing : ∀ other : String, id ≠ other →
        next.removing.contains other = registry.removing.contains other) :
      Wrote registry (.remove id marked saved) next (.removed id)
  | unknown {id : String} {marked saved : Bool} (unwired : registry.byId[id]? = none)
      (unlisted : registry.removing.contains id = false) :
      Wrote registry (.remove id marked saved) registry (.unknown id)
  | finished {id : String} {next : Registry} (tearing : id ∈ registry.teardowns)
      (index : next.index = registry.index)
      (removing : next.removing = registry.removing.erase id) :
      Wrote registry (.tornDown id true true) next (.finished id)

theorem spawnTeardown_files (registry : Registry) (id : String) :
    (registry.spawnTeardown id).index = registry.index ∧
      (registry.spawnTeardown id).removing = registry.removing := by
  rw [spawnTeardown]
  split
  · exact ⟨rfl, rfl⟩
  · exact ⟨rfl, rfl⟩

theorem wrote_remove (registry : Registry) (id : String) (marked saved : Bool) :
    Wrote registry (.remove id marked saved) (registry.react (.remove id marked saved)).1
      (registry.react (.remove id marked saved)).2 := by
  rw [react, remove]
  split
  · rename_i path found
    split
    · obtain ⟨index, removing⟩ := spawnTeardown_files
        ({ registry with removing := registry.removing.insert id path }.takeOut id saved) id
      refine .removed ?_ ?_ fun other different => ?_
      · rw [index]
        cases saved with
        | true => exact .inr rfl
        | false => exact .inl rfl
      · rw [removing]
        change (registry.removing.insert id path).contains id
        simp
      · rw [removing]
        change (registry.removing.insert id path).contains other = _
        simp [ExtTreeMap.contains_insert, different]
    · exact .nothing rfl rfl
  · rename_i unwired
    split
    · rename_i pending
      obtain ⟨index, removing⟩ := spawnTeardown_files registry id
      refine .removed (.inl index) ?_ fun other _ => ?_
      · rw [removing]
        exact pending
      · rw [removing]
    · rename_i unlisted
      exact .unknown unwired (Bool.eq_false_iff.mpr unlisted)

theorem wrote_react (registry : Registry) (event : Event) :
    Wrote registry event (registry.react event).1 (registry.react event).2 := by
  cases event with
  | wire workspace =>
      rw [react, wire]
      split
      · exact .nothing rfl rfl
      · exact .nothing rfl rfl
  | resolved call canonical =>
      rw [react]
      split
      · cases canonical with
        | none => exact .nothing rfl rfl
        | some canonical =>
            rw [resolved, checked]
            split
            · exact .nothing rfl rfl
            · dsimp only
              split
              · rename_i path found
                exact .already (by rw [found]; rfl) rfl rfl
              · exact .nothing rfl rfl
      · exact .nothing rfl rfl
  | created call opened saved =>
      rw [react]
      split
      · rw [created]
        split
        · exact .wired rfl rfl
        · exact .nothing rfl rfl
      · exact .nothing rfl rfl
  | owned call =>
      rw [react]
      split
      · exact .nothing rfl rfl
      · exact .nothing rfl rfl
  | remove id marked saved => exact wrote_remove registry id marked saved
  | tornDown id emptied saved =>
      rw [react, tornDown]
      split
      · rename_i tearing
        split
        · rename_i both
          rw [Bool.and_eq_true] at both
          obtain ⟨rfl, rfl⟩ := both
          exact .finished tearing rfl rfl
        · exact .nothing rfl rfl
      · exact .nothing rfl rfl

/-! ## What a start finds -/

theorem foldl_wireActor (ids : List String) (registry : Registry) :
    (ids.foldl wireActor registry).index = registry.index ∧
      (ids.foldl wireActor registry).removing = registry.removing ∧
      (ids.foldl wireActor registry).byId = registry.byId ∧
      (ids.foldl wireActor registry).teardowns = registry.teardowns := by
  induction ids generalizing registry with
  | nil => exact ⟨rfl, rfl, rfl, rfl⟩
  | cons id ids ih => exact ih (registry.wireActor id)

section Start

variable (index removing : OrderedMap String Path) (exists_ opens : Path → Bool) (saved : Bool)

theorem loadFrom_removing : (loadFrom index removing exists_ opens saved).removing = removing :=
  (foldl_wireActor _ _).2.1

theorem loadFrom_teardowns :
    (loadFrom index removing exists_ opens saved).teardowns = removing.keys :=
  (foldl_wireActor _ _).2.2.2

/-- What is wired after a start. -/
theorem getElem?_loadFrom_byId (id : String) :
    (loadFrom index removing exists_ opens saved).byId[id]? =
      (index[id]?).filter fun path => !removing.contains id && (exists_ path && opens path) := by
  rw [loadFrom, (foldl_wireActor _ _).2.2.1]
  simp

theorem getElem?_loadFrom_index {id : String} (unlisted : removing.contains id = false) :
    (loadFrom index removing exists_ opens saved).index[id]? = index[id]? := by
  rw [loadFrom, (foldl_wireActor _ _).1]
  dsimp only
  split
  · cases found : index[id]? <;> simp [unlisted, found]
  · rfl

theorem loadFrom_index_eq_none {id : String} (missing : index[id]? = none) :
    (loadFrom index removing exists_ opens saved).index[id]? = none := by
  rw [loadFrom, (foldl_wireActor _ _).1]
  dsimp only
  split
  · rw [ExtTreeMap.getElem?_filter', missing]
    rfl
  · exact missing

end Start

/-! ## What the files say of the workspaces -/

/-- The files agree with what was asked of the daemon. -/
structure Faithful (world : World) : Prop where
  removed : ∀ id ∈ world.removed,
    world.registry.removing.contains id ∨ world.registry.index[id]? = none
  unfinished : ∀ id ∈ world.unfinished, world.registry.removing.contains id
  wired : ∀ (id : String) (path : Path), world.wired[id]? = some path →
    world.registry.index[id]? = some path ∧ world.registry.removing.contains id = false

theorem faithful_begin (index removing : OrderedMap String Path) (exists_ opens : Path → Bool)
    (saved : Bool) : Faithful (World.begin index removing exists_ opens saved) where
  removed id member := by
    left
    change (loadFrom _ _ _ _ _).removing.contains id
    rw [loadFrom_removing]
    exact ExtTreeMap.mem_keys.mp member
  unfinished id member := by
    change (loadFrom _ _ _ _ _).removing.contains id
    rw [loadFrom_removing]
    exact ExtTreeMap.mem_keys.mp member
  wired id path found := by
    have held : index[id]? = some path ∧ removing.contains id = false := by
      simpa [World.begin, Option.filter_eq_some_iff] using found
    change (loadFrom _ _ _ _ _).index[id]? = some path ∧
      (loadFrom _ _ _ _ _).removing.contains id = _
    rw [getElem?_loadFrom_index _ _ _ _ _ held.2, loadFrom_removing]
    exact held

section Steps

variable {world : World} {next : Registry} {id : String} {path : Path} {saved : Bool}

theorem Faithful.restart (faithful : Faithful world) (exists_ opens : Path → Bool) (saved : Bool) :
    Faithful (world.step (.restart exists_ opens saved)) where
  removed id member := by
    change (loadFrom _ _ _ _ _).removing.contains id ∨ (loadFrom _ _ _ _ _).index[id]? = none
    rw [loadFrom_removing]
    exact (faithful.removed id member).imp_right (loadFrom_index_eq_none _ _ _ _ _)
  unfinished id member := by
    change (loadFrom _ _ _ _ _).removing.contains id
    rw [loadFrom_removing]
    exact faithful.unfinished id member
  wired id path found := by
    obtain ⟨listed, unmarked⟩ := faithful.wired id path found
    change (loadFrom _ _ _ _ _).index[id]? = some path ∧
      (loadFrom _ _ _ _ _).removing.contains id = _
    rw [getElem?_loadFrom_index _ _ _ _ _ unmarked, loadFrom_removing]
    exact ⟨listed, unmarked⟩

theorem Faithful.note_nothing (faithful : Faithful world)
    (index : next.index = world.registry.index)
    (removing : next.removing = world.registry.removing) :
    Faithful (world.note next .nothing) := by
  refine ⟨?_, ?_, ?_⟩
  all_goals simp only [World.note, index, removing]
  · exact faithful.removed
  · exact faithful.unfinished
  · exact faithful.wired

/-- A workspace that is entered is in the index when that could be written. -/
theorem Faithful.note_wired (faithful : Faithful world)
    (index : next.index =
      if saved then world.registry.index.insert id path else world.registry.index)
    (removing : next.removing = world.registry.removing) :
    Faithful (world.note next (.wired id path saved)) := by
  have listed (other : String) (different : id ≠ other) :
      next.index[other]? = world.registry.index[other]? := by
    rw [index]
    cases saved <;> simp [different]
  rw [World.note]
  split
  · rename_i pending
    refine ⟨fun other member => ?_, fun other member => ?_, fun other held found => ?_⟩
    · by_cases same : id = other
      · exact .inl (removing ▸ same ▸ pending)
      · rw [removing, listed other same]
        exact faithful.removed other member
    · rw [removing]
      exact faithful.unfinished other member
    · obtain ⟨there, unmarked⟩ := faithful.wired other held found
      have different : id ≠ other := by
        rintro rfl
        exact Bool.eq_false_iff.mp unmarked pending
      rw [removing, listed other different]
      exact ⟨there, unmarked⟩
  · rename_i free
    refine ⟨fun other member => ?_, fun other member => ?_, fun other held found => ?_⟩
    · obtain ⟨before, different⟩ := List.mem_filter.mp member
      rw [bne_iff_ne] at different
      rw [removing, listed other different.symm]
      exact faithful.removed other before
    · rw [removing]
      exact faithful.unfinished other member
    · by_cases same : id = other
      · subst same
        cases saved with
        | true =>
            have named : path = held := by simpa using found
            subst named
            exact ⟨by rw [index]; simp, removing ▸ Bool.eq_false_iff.mpr free⟩
        | false =>
            obtain ⟨there, unmarked⟩ := faithful.wired id held found
            exact ⟨index ▸ there, removing ▸ unmarked⟩
      · have before : world.wired[other]? = some held := by
          cases saved <;> simpa [same] using found
        rw [removing, listed other same]
        exact faithful.wired other held before

theorem Faithful.note_already (faithful : Faithful world)
    (listed : world.registry.index[id]? = some path) (index : next.index = world.registry.index)
    (removing : next.removing = world.registry.removing) :
    Faithful (world.note next (.already id path)) := by
  rw [World.note]
  split
  · refine ⟨?_, ?_, ?_⟩
    all_goals simp only [index, removing]
    · exact faithful.removed
    · exact faithful.unfinished
    · exact faithful.wired
  · rename_i free
    refine ⟨?_, ?_, fun other held found => ?_⟩
    · simpa only [index, removing] using faithful.removed
    · simpa only [removing] using faithful.unfinished
    · rw [index, removing]
      by_cases same : id = other
      · subst same
        have named : path = held := by simpa using found
        subst named
        exact ⟨listed, Bool.eq_false_iff.mpr free⟩
      · exact faithful.wired other held (by simpa [same] using found)

/-- A workspace that is removed is on the list, in the index or not. -/
theorem Faithful.note_removed (faithful : Faithful world)
    (index : next.index = world.registry.index ∨ next.index = world.registry.index.erase id)
    (listed : next.removing.contains id)
    (removing : ∀ other : String, id ≠ other →
      next.removing.contains other = world.registry.removing.contains other) :
    Faithful (world.note next (.removed id)) := by
  have others (other : String) (different : id ≠ other) :
      next.index[other]? = world.registry.index[other]? := by
    rcases index with same | erased
    · rw [same]
    · rw [erased]
      simp [different]
  refine ⟨fun other member => ?_, fun other member => ?_, fun other held found => ?_⟩
  · by_cases same : id = other
    · exact .inl (same ▸ listed)
    · have before : other ∈ world.removed :=
        (List.mem_cons.mp member).resolve_left (Ne.symm same)
      change next.removing.contains other ∨ next.index[other]? = none
      rw [removing other same, others other same]
      exact faithful.removed other before
  · by_cases same : id = other
    · exact same ▸ listed
    · have before : other ∈ world.unfinished :=
        (List.mem_cons.mp member).resolve_left (Ne.symm same)
      change next.removing.contains other
      rw [removing other same]
      exact faithful.unfinished other before
  · change (world.wired.erase id)[other]? = some held at found
    by_cases same : id = other
    · simp [same] at found
    · rw [ExtTreeMap.getElem?_erase] at found
      change next.index[other]? = some held ∧ next.removing.contains other = false
      rw [removing other same, others other same]
      exact faithful.wired other held (by simpa [same] using found)

theorem Faithful.note_unknown (faithful : Faithful world)
    (missing : world.registry.index[id]? = none) :
    Faithful (world.note world.registry (.unknown id)) := by
  refine ⟨fun other member => ?_, faithful.unfinished, fun other held found => ?_⟩
  · rcases List.mem_cons.mp member with rfl | before
    · exact .inr missing
    · exact faithful.removed other before
  · change (world.wired.erase id)[other]? = some held at found
    by_cases same : id = other
    · simp [same] at found
    · exact faithful.wired other held (by simpa [same] using found)

/-- A removal is taken off its list when the index does not have the workspace. -/
theorem Faithful.note_finished (faithful : Faithful world)
    (missing : world.registry.index[id]? = none) (index : next.index = world.registry.index)
    (removing : next.removing = world.registry.removing.erase id) :
    Faithful (world.note next (.finished id)) := by
  refine ⟨fun other member => ?_, fun other member => ?_, fun other held found => ?_⟩
  · change next.removing.contains other ∨ next.index[other]? = none
    rw [index, removing]
    by_cases same : id = other
    · exact .inr (same ▸ missing)
    · exact (faithful.removed other member).imp_left fun there => by
        simp [ExtTreeMap.contains_erase, same, there]
  · obtain ⟨before, different⟩ := List.mem_filter.mp member
    rw [bne_iff_ne] at different
    change next.removing.contains other
    rw [removing, ExtTreeMap.contains_erase]
    simp [different.symm, faithful.unfinished other before]
  · obtain ⟨there, unmarked⟩ := faithful.wired other held found
    change next.index[other]? = some held ∧ next.removing.contains other = false
    rw [index, removing, ExtTreeMap.contains_erase, unmarked, Bool.and_false]
    exact ⟨there, rfl⟩

theorem Faithful.act (faithful : Faithful world) (event : Event)
    (agrees : world.agrees (.act event)) : Faithful (world.step (.act event)) := by
  have wrote := wrote_react world.registry event
  rw [World.step]
  generalize (world.registry.react event).1 = next at wrote ⊢
  generalize (world.registry.react event).2 = report at wrote ⊢
  cases wrote with
  | nothing index removing => exact faithful.note_nothing index removing
  | wired index removing => exact faithful.note_wired index removing
  | already wired index removing =>
      refine faithful.note_already ?_ index removing
      simpa [World.agrees, Option.isNone_eq_false_iff.mpr wired] using agrees
  | removed index listed removing => exact faithful.note_removed index listed removing
  | unknown unwired unlisted =>
      refine faithful.note_unknown ?_
      simpa [World.agrees, unwired, unlisted] using agrees
  | finished tearing index removing =>
      refine faithful.note_finished ?_ index removing
      simpa [World.agrees, tearing] using agrees

theorem Faithful.step (faithful : Faithful world) {happening : Happening}
    (agrees : world.agrees happening) : Faithful (world.step happening) := by
  cases happening with
  | act event => exact faithful.act event agrees
  | restart exists_ opens saved => exact faithful.restart exists_ opens saved

end Steps

/-- As long as the index agrees with what is asked for, whatever fails to be written and wherever
the daemon stops, a start loads no workspace that was removed, resumes every removal that has not
finished and loads every other workspace whose folder is there. -/
theorem removal_survives (index removing : OrderedMap String Path) (exists_ opens : Path → Bool)
    (saved : Bool) (happenings : List Happening) (there readable : Path → Bool) (written : Bool)
    (agrees : Execution.Along World.step (fun world happening => world.agrees happening)
      (World.begin index removing exists_ opens saved)
      (happenings ++ [.restart there readable written])) :
    let world := Execution.run World.step (World.begin index removing exists_ opens saved)
      happenings
    let loaded := (world.step (.restart there readable written)).registry
    (∀ id ∈ world.removed, loaded.byId[id]? = none) ∧
    (∀ id ∈ world.unfinished, id ∈ loaded.teardowns) ∧
    ∀ (id : String) (path : Path), world.wired[id]? = some path → there path →
      loaded.byId[id]? = some path := by
  intro world loaded
  obtain ⟨before, last, -⟩ := (Execution.along_append _ _ _ _ _).mp agrees
  have faithful : Faithful world :=
    Execution.run_invariant World.step _ Faithful (fun _ _ faithful agrees => faithful.step agrees)
      (faithful_begin index removing exists_ opens saved) before
  have byId (id : String) : loaded.byId[id]? = (world.registry.index[id]?).filter fun path =>
      !world.registry.removing.contains id && (there path && readable path) :=
    getElem?_loadFrom_byId _ _ _ _ _ id
  have teardowns : loaded.teardowns = world.registry.removing.keys := loadFrom_teardowns _ _ _ _ _
  refine ⟨fun id member => ?_, fun id member => ?_, fun id path wired folder => ?_⟩
  · rw [byId]
    rcases faithful.removed id member with pending | missing
    · simp [pending]
    · rw [missing]
      rfl
  · rw [teardowns]
    exact ExtTreeMap.mem_keys.mpr (faithful.unfinished id member)
  · obtain ⟨listed, unmarked⟩ := faithful.wired id path wired
    have entry : (id, path) ∈ world.registry.index.toList :=
      ExtTreeMap.mem_toList_iff_getElem?_eq_some.mpr listed
    have opened : readable path := by
      have here : (world.registry.removing.contains id || !there path || readable path) = true :=
        List.all_eq_true.mp last (id, path) entry
      rw [unmarked, folder] at here
      simpa using here
    rw [byId, listed]
    simp [unmarked, folder, opened]

/-- A workspace is wired and removed while the daemon stops and a write of the index fails. -/
def removalWithStop : List Happening :=
  [.act (.wire (some ["home", "shop"])), .act (.resolved 0 (some ["home", "shop"])),
    .act (.created 0 true true), .act (.remove (workspaceId ["home", "shop"]) true false),
    .restart (fun _ => true) (fun _ => true) true,
    .act (.tornDown (workspaceId ["home", "shop"]) true true)]

theorem removal_survives_stop :
    let world := Execution.run World.step
      (World.begin ∅ ∅ (fun _ => true) (fun _ => true) true) removalWithStop
    workspaceId ["home", "shop"] ∈ world.removed ∧
      (world.step (.restart (fun _ => true) (fun _ => true) true)).registry.byId[
        workspaceId ["home", "shop"]]? = none := by
  have listed : workspaceId ["home", "shop"] ∈ (Execution.run World.step
      (World.begin ∅ ∅ (fun _ => true) (fun _ => true) true) removalWithStop).removed := by
    decide +kernel
  have survives := removal_survives ∅ ∅ (fun _ => true) (fun _ => true) true removalWithStop
    (fun _ => true) (fun _ => true) true (by
      simp only [Execution.Along, removalWithStop, List.cons_append, List.nil_append]
      decide +kernel)
  exact ⟨listed, survives.1 _ listed⟩

/-- The index cannot be written when a workspace is removed. Its teardown finishes, and the next
start loads it again. -/
theorem removed_loaded_again :
    ¬∀ (index removing : OrderedMap String Path) (exists_ opens : Path → Bool) (saved : Bool)
      (happenings : List Happening) (there readable : Path → Bool) (written : Bool),
      let world :=
        Execution.run World.step (World.begin index removing exists_ opens saved) happenings
      ∀ id ∈ world.removed,
        (world.step (.restart there readable written)).registry.byId[id]? = none := by
  intro claim
  have gone := claim ∅ ∅ (fun _ => true) (fun _ => true) true
    [.act (.wire (some ["home", "shop"])), .act (.resolved 0 (some ["home", "shop"])),
      .act (.created 0 true true), .act (.remove (workspaceId ["home", "shop"]) true false),
      .act (.tornDown (workspaceId ["home", "shop"]) true true)]
    (fun _ => true) (fun _ => true) true (workspaceId ["home", "shop"]) (by decide)
  revert gone
  decide +kernel

end Registry
end Fghj
