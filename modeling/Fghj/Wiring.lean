import Fghj.Registry
import Mathlib.Data.List.Nodup

/-!
# Wiring is exclusive

A wire checks the registry before it waits for the workspace to be opened, and does not check again.
As long as nothing it checked has changed when it enters the workspace, the wired workspaces do not
hold one another, have labels of their own and of no removal in progress, and have one actor and one
converge task each.
-/

namespace Fghj
namespace Registry

open Std (ExtTreeMap)

/-- What holds of the wired workspaces at every moment. -/
structure Exclusive (registry : Registry) : Prop where
  apart : ∀ (one other : String) (path foreign : Path), registry.byId[one]? = some path →
    registry.byId[other]? = some foreign → one ≠ other →
      ¬path <+: foreign ∧ domainLabel path ≠ domainLabel foreign
  unmarked : ∀ (id gone : String) (path removed : Path), registry.byId[id]? = some path →
    registry.removing[gone]? = some removed → domainLabel removed ≠ domainLabel path
  /-- A wired workspace has one actor and one converge task. -/
  served : ∀ (id : String) (path : Path), registry.byId[id]? = some path →
    ∃ task, registry.actors[id]? = some task ∧ registry.convergeTasks[id]? = some task ∧
      ∀ other, (other, id) ∈ registry.running ↔ other = task
  /-- Another workspace has none. -/
  idle : ∀ id : String, registry.byId[id]? = none →
    registry.actors[id]? = none ∧ ∀ task, (task, id) ∉ registry.running
  once : (registry.running.map Prod.fst).Nodup
  listed : registry.index = registry.byId

/-- The ids and the numbers of a registry are what they stand for. -/
structure Numbered (registry : Registry) : Prop where
  named : ∀ (id : String) (path : Path), registry.byId[id]? = some path → id = workspaceId path
  creating : ∀ (call : Nat) (id : String) (canonical : Path),
    registry.calls[call]? = some (.creating id canonical) → id = workspaceId canonical
  spawned : ∀ task id, (task, id) ∈ registry.running → task < registry.spawned

/-- What a wire has checked still holds when it enters the workspace, and what is entered or taken
out is written into the index. -/
def undisturbed (registry : Registry) : Event → Bool
  | .created call opened saved =>
      match registry.calls[call]? with
      | some (.creating id canonical) =>
          !opened || saved && (registry.byId[id]?).isNone &&
            (registry.checkWired canonical).isNone && (registry.checkRemoving canonical).isNone
      | _ => true
  | .remove id marked saved => !marked || saved || (registry.byId[id]?).isNone
  | _ => true

section Checks

variable {registry : Registry} {canonical : Path}

theorem not_prefix_of_nestingConflict {existing : Path} (different : canonical ≠ existing)
    (none_found : nestingConflict canonical existing = none) :
    ¬canonical <+: existing ∧ ¬existing <+: canonical := by
  rw [nestingConflict, if_neg different] at none_found
  split at none_found
  · cases none_found
  · rename_i outside
    split at none_found
    · cases none_found
    · rename_i around
      exact ⟨fun held => around (List.isPrefixOf_iff_prefix.mpr held),
        fun held => outside (List.isPrefixOf_iff_prefix.mpr held)⟩

theorem label_ne_of_labelConflict {existing : Path} (different : canonical ≠ existing)
    (none_found : labelConflict canonical existing = none) :
    domainLabel canonical ≠ domainLabel existing := by
  intro same
  rw [labelConflict, if_pos ⟨different, same⟩] at none_found
  cases none_found

/-- A path that passes the checks stands beside every other wired one. -/
theorem apart_of_checkWired (passed : registry.checkWired canonical = none) {id : String}
    {existing : Path} (wired : registry.byId[id]? = some existing)
    (different : canonical ≠ existing) :
    (¬canonical <+: existing ∧ ¬existing <+: canonical) ∧
      domainLabel canonical ≠ domainLabel existing := by
  rw [checkWired, List.findSome?_eq_none_iff] at passed
  have here := passed (id, existing) (ExtTreeMap.mem_toList_iff_getElem?_eq_some.mpr wired)
  rw [Option.or_eq_none_iff] at here
  exact ⟨not_prefix_of_nestingConflict different here.1, label_ne_of_labelConflict different here.2⟩

theorem label_ne_of_checkRemoving (passed : registry.checkRemoving canonical = none) {id : String}
    {removed : Path} (marked : registry.removing[id]? = some removed) :
    domainLabel removed ≠ domainLabel canonical := by
  rw [checkRemoving, Option.map_eq_none_iff, List.find?_eq_none] at passed
  simpa using passed (id, removed) (ExtTreeMap.mem_toList_iff_getElem?_eq_some.mpr marked)

end Checks

/-! ## What one event does -/

section Steps

variable {registry next : Registry}

/-- The registry stays, removals may have finished, and the wires go on. -/
structure Calm (registry next : Registry) : Prop where
  index : next.index = registry.index
  byId : next.byId = registry.byId
  actors : next.actors = registry.actors
  convergeTasks : next.convergeTasks = registry.convergeTasks
  running : next.running = registry.running
  spawned : next.spawned = registry.spawned
  removing : ∀ (id : String) (path : Path), next.removing[id]? = some path →
    registry.removing[id]? = some path
  creating : ∀ (call : Nat) (id : String) (canonical : Path),
    next.calls[call]? = some (.creating id canonical) →
      registry.calls[call]? = some (.creating id canonical) ∨ id = workspaceId canonical

theorem Calm.refl (registry : Registry) : Calm registry registry :=
  ⟨rfl, rfl, rfl, rfl, rfl, rfl, fun _ _ held => held, fun _ _ _ held => .inl held⟩

theorem calm_setCall (registry : Registry) (number : Nat) {call : Call}
    (named : ∀ id canonical, call = .creating id canonical → id = workspaceId canonical) :
    Calm registry (registry.setCall number call) := by
  refine ⟨rfl, rfl, rfl, rfl, rfl, rfl, fun _ _ held => held, fun other id canonical held => ?_⟩
  rcases Slots.getElem?_set_cases held with ⟨-, same⟩ | ⟨-, before⟩
  · exact .inr (named id canonical same.symm)
  · exact .inl before

theorem calm_spawnTeardown (registry : Registry) (id : String) :
    Calm registry (registry.spawnTeardown id) := by
  rw [spawnTeardown]
  split
  · exact Calm.refl registry
  · exact ⟨rfl, rfl, rfl, rfl, rfl, rfl, fun _ _ held => held, fun _ _ _ held => .inl held⟩

theorem calm_tornDown (registry : Registry) (id : String) (emptied saved : Bool) :
    Calm registry (registry.tornDown id emptied saved).1 := by
  rw [tornDown]
  split
  · split
    · refine ⟨rfl, rfl, rfl, rfl, rfl, rfl, fun other path held => ?_, fun _ _ _ held => .inl held⟩
      rw [ExtTreeMap.getElem?_erase] at held
      split at held
      · cases held
      · exact held
    · exact ⟨rfl, rfl, rfl, rfl, rfl, rfl, fun _ _ held => held, fun _ _ _ held => .inl held⟩
  · exact Calm.refl registry

/-- An event leaves the registry as it is, enters a workspace or takes one out. -/
theorem step_cases (registry : Registry) (event : Event) :
    Calm registry (registry.step event) ∨
      (∃ call id canonical saved, event = .created call true saved ∧
        registry.calls[call]? = some (.creating id canonical) ∧
        Calm (registry.enter id canonical saved) (registry.step event)) ∨
      ∃ id path saved, event = .remove id true saved ∧ registry.byId[id]? = some path ∧
        Calm ({ registry with removing := registry.removing.insert id path }.takeOut id saved)
          (registry.step event) := by
  cases event with
  | wire workspace =>
      refine .inl ?_
      rw [step, react, wire]
      split
      · exact Calm.refl registry
      · refine ⟨rfl, rfl, rfl, rfl, rfl, rfl, fun _ _ held => held,
          fun call id canonical held => ?_⟩
        rcases Nat.lt_or_ge call registry.calls.length with old | new
        · exact .inl ((List.getElem?_append_left old).symm.trans held)
        · rw [List.getElem?_append_right new] at held
          cases List.mem_singleton.mp (List.mem_of_getElem? held)
  | resolved call canonical =>
      refine .inl ?_
      rw [step, react]
      split
      · cases canonical with
        | none => exact calm_setCall registry call (fun _ _ same => by cases same)
        | some canonical =>
            rw [resolved, checked]
            split
            · exact calm_setCall registry call (fun _ _ same => by cases same)
            · dsimp only
              split
              · exact calm_setCall registry call (fun _ _ same => by cases same)
              · exact calm_setCall registry call (fun _ _ same => by cases same; rfl)
      · exact Calm.refl registry
  | created call opened saved =>
      rw [step, react]
      split
      · rename_i id canonical found
        rw [created]
        cases opened with
        | true =>
            refine .inr (.inl ⟨call, id, canonical, saved, rfl, found, ?_⟩)
            rw [if_pos rfl]
            exact calm_setCall _ call (fun _ _ same => by cases saved <;> cases same)
        | false =>
            rw [if_neg Bool.false_ne_true]
            exact .inl (calm_setCall registry call (fun _ _ same => by cases same))
      · exact .inl (Calm.refl registry)
  | owned call =>
      refine .inl ?_
      rw [step, react]
      split
      · exact calm_setCall registry call (fun _ _ same => by cases same)
      · exact Calm.refl registry
  | remove id marked saved =>
      rw [step, react, remove]
      split
      · rename_i path found
        cases marked with
        | true =>
            refine .inr (.inr ⟨id, path, saved, rfl, found, ?_⟩)
            rw [if_pos rfl]
            exact calm_spawnTeardown _ id
        | false =>
            rw [if_neg Bool.false_ne_true]
            exact .inl (Calm.refl registry)
      · split
        · exact .inl (calm_spawnTeardown registry id)
        · exact .inl (Calm.refl registry)
  | tornDown id emptied saved => exact .inl (calm_tornDown registry id emptied saved)

theorem Exclusive.calm (exclusive : Exclusive registry) (calm : Calm registry next) :
    Exclusive next where
  apart := by
    rw [calm.byId]
    exact exclusive.apart
  unmarked id gone path removed wired marked :=
    exclusive.unmarked id gone path removed (calm.byId ▸ wired) (calm.removing gone removed marked)
  served := by
    rw [calm.byId, calm.actors, calm.convergeTasks, calm.running]
    exact exclusive.served
  idle := by
    rw [calm.byId, calm.actors, calm.running]
    exact exclusive.idle
  once := calm.running ▸ exclusive.once
  listed := by rw [calm.index, calm.byId, exclusive.listed]

theorem Numbered.calm (numbered : Numbered registry) (calm : Calm registry next) :
    Numbered next where
  named := by
    rw [calm.byId]
    exact numbered.named
  creating call id canonical held := by
    rcases calm.creating call id canonical held with before | named
    · exact numbered.creating call id canonical before
    · exact named
  spawned := by
    rw [calm.running, calm.spawned]
    exact numbered.spawned

/-! ## A workspace is entered -/

section Enter

variable {id : String} {canonical : Path} {saved : Bool}

@[simp]
theorem enter_actors (registry : Registry) (id : String) (canonical : Path) (saved : Bool) :
    (registry.enter id canonical saved).actors = registry.actors.insert id registry.spawned := rfl

@[simp]
theorem enter_convergeTasks (registry : Registry) (id : String) (canonical : Path)
    (saved : Bool) :
    (registry.enter id canonical saved).convergeTasks =
      registry.convergeTasks.insert id registry.spawned := rfl

@[simp]
theorem enter_running (registry : Registry) (id : String) (canonical : Path) (saved : Bool) :
    (registry.enter id canonical saved).running =
      registry.running ++ [(registry.spawned, id)] := rfl

theorem getElem?_enter_byId (registry : Registry) (id : String) (canonical : Path) (saved : Bool)
    (other : String) :
    (registry.enter id canonical saved).byId[other]? =
      if id = other then some canonical else registry.byId[other]? := by
  simp [enter, wireActor]

theorem Numbered.enter (numbered : Numbered registry) (named : id = workspaceId canonical) :
    Numbered (registry.enter id canonical saved) where
  named other path wired := by
    rw [getElem?_enter_byId] at wired
    split at wired
    · rename_i same
      cases wired
      exact same ▸ named
    · exact numbered.named other path wired
  creating := numbered.creating
  spawned task other member := by
    rw [enter_running] at member
    change task < registry.spawned + 1
    rcases List.mem_append.mp member with before | new
    · exact Nat.lt_succ_of_lt (numbered.spawned task other before)
    · cases List.mem_singleton.mp new
      exact Nat.lt_succ_self _

theorem Exclusive.enter (exclusive : Exclusive registry) (numbered : Numbered registry)
    (named : id = workspaceId canonical) (new : registry.byId[id]? = none)
    (beside : registry.checkWired canonical = none)
    (free : registry.checkRemoving canonical = none) :
    Exclusive (registry.enter id canonical true) := by
  have different {other : String} {path : Path} (wired : registry.byId[other]? = some path) :
      canonical ≠ path := by
    rintro rfl
    rw [numbered.named other _ wired, ← named, new] at wired
    cases wired
  obtain ⟨no_actor, no_task⟩ := exclusive.idle id new
  refine ⟨fun one other path foreign wired elsewhere apart => ?_,
    fun other gone path removed wired marked => ?_, fun other path wired => ?_,
    fun other unwired => ?_, ?_, ?_⟩
  · rw [getElem?_enter_byId] at wired elsewhere
    split at wired
    · rename_i same
      cases wired
      rw [if_neg (same ▸ apart)] at elsewhere
      have checked := apart_of_checkWired beside elsewhere (different elsewhere)
      exact ⟨checked.1.1, checked.2⟩
    · split at elsewhere
      · cases elsewhere
        have checked := apart_of_checkWired beside wired (different wired)
        exact ⟨checked.1.2, checked.2.symm⟩
      · exact exclusive.apart one other path foreign wired elsewhere apart
  · rw [getElem?_enter_byId] at wired
    split at wired
    · cases wired
      exact label_ne_of_checkRemoving free marked
    · exact exclusive.unmarked other gone path removed wired marked
  · rw [getElem?_enter_byId] at wired
    by_cases same : id = other
    · subst same
      refine ⟨registry.spawned, by simp, by simp, fun task => ?_⟩
      simp [no_task]
    · rw [if_neg same] at wired
      obtain ⟨task, actor, handle, only⟩ := exclusive.served other path wired
      refine ⟨task, by simp [same, actor], by simp [same, handle], fun held => ?_⟩
      simp [Ne.symm same, only]
  · rw [getElem?_enter_byId] at unwired
    split at unwired
    · cases unwired
    · rename_i same
      obtain ⟨actor, tasks⟩ := exclusive.idle other unwired
      refine ⟨by simp [same, actor], fun task => ?_⟩
      simp [Ne.symm same, tasks]
  · rw [enter_running, List.map_append, List.map_singleton, List.nodup_append]
    refine ⟨exclusive.once, List.nodup_singleton _, ?_⟩
    rintro task held other new rfl
    rw [List.mem_singleton] at new
    obtain ⟨⟨number, owner⟩, member, rfl⟩ := List.mem_map.mp held
    have := numbered.spawned number owner member
    dsimp only at new
    omega
  · change registry.index.insert id canonical = registry.byId.insert id canonical
    rw [exclusive.listed]

end Enter

/-! ## A workspace is taken out -/

section TakeOut

variable {id : String} {path : Path} {saved : Bool}

/-- The registry with a workspace marked and taken out. -/
abbrev without (registry : Registry) (id : String) (path : Path) (saved : Bool) : Registry :=
  { registry with removing := registry.removing.insert id path }.takeOut id saved

theorem getElem?_without_byId (registry : Registry) (id : String) (path : Path) (saved : Bool)
    (other : String) :
    (registry.without id path saved).byId[other]? =
      if id = other then none else registry.byId[other]? := by
  simp [without, takeOut]

/-- What runs after a workspace was taken out is what ran for the others. -/
theorem Exclusive.mem_running_without (exclusive : Exclusive registry)
    (wired : registry.byId[id]? = some path) (task : Nat) (other : String) :
    (task, other) ∈ (registry.without id path saved).running ↔
      (task, other) ∈ registry.running ∧ id ≠ other := by
  obtain ⟨own, -, handle, only⟩ := exclusive.served id path wired
  simp only [without, takeOut, handle, List.mem_filter, bne_iff_ne]
  refine and_congr_right fun member => ⟨?_, ?_⟩
  · rintro foreign rfl
    exact foreign ((only task).mp member)
  · rintro different rfl
    -- two tasks of one number are one task
    have own_member := (only task).mpr rfl
    have same := List.inj_on_of_nodup_map exclusive.once member own_member rfl
    exact different (Prod.mk.inj same).2.symm

theorem Numbered.without (numbered : Numbered registry) (exclusive : Exclusive registry)
    (wired : registry.byId[id]? = some path) : Numbered (registry.without id path saved) where
  named other held wired_after := by
    rw [getElem?_without_byId] at wired_after
    split at wired_after
    · cases wired_after
    · exact numbered.named other held wired_after
  creating := numbered.creating
  spawned task other member :=
    numbered.spawned task other ((exclusive.mem_running_without wired task other).mp member).1

theorem Exclusive.without (exclusive : Exclusive registry)
    (wired : registry.byId[id]? = some path) : Exclusive (registry.without id path true) := by
  refine ⟨fun one other held foreign here elsewhere apart => ?_,
    fun other gone held removed here marked => ?_, fun other held here => ?_,
    fun other unwired => ?_, ?_, ?_⟩
  · rw [getElem?_without_byId] at here elsewhere
    split at here
    · cases here
    · split at elsewhere
      · cases elsewhere
      · exact exclusive.apart one other held foreign here elsewhere apart
  · rw [getElem?_without_byId] at here
    split at here
    · cases here
    · rename_i different
      have marks : (registry.removing.insert id path)[gone]? = some removed := marked
      rw [ExtTreeMap.getElem?_insert] at marks
      split at marks
      · cases marks
        exact (exclusive.apart id other path held wired here different).2
      · exact exclusive.unmarked other gone held removed here marks
  · rw [getElem?_without_byId] at here
    split at here
    · cases here
    · rename_i different
      obtain ⟨task, actor, handle, only⟩ := exclusive.served other held here
      refine ⟨task, by simp [takeOut, different, actor], by simp [takeOut, different, handle],
        fun number => ?_⟩
      rw [exclusive.mem_running_without wired, only]
      exact and_iff_left different
  · rw [getElem?_without_byId] at unwired
    by_cases same : id = other
    · subst same
      refine ⟨by simp [takeOut], fun task member => ?_⟩
      exact ((exclusive.mem_running_without wired task id).mp member).2 rfl
    · rw [if_neg same] at unwired
      obtain ⟨actor, tasks⟩ := exclusive.idle other unwired
      refine ⟨by simp [takeOut, same, actor], fun task member => ?_⟩
      exact tasks task ((exclusive.mem_running_without wired task other).mp member).1
  · obtain ⟨own, -, handle, -⟩ := exclusive.served id path wired
    simp only [takeOut, handle]
    exact exclusive.once.sublist (List.filter_sublist.map _)
  · simp [takeOut, exclusive.listed]

end TakeOut

theorem Exclusive.step (exclusive : Exclusive registry) (numbered : Numbered registry)
    {event : Event} (still : registry.undisturbed event) :
    Exclusive (registry.step event) ∧ Numbered (registry.step event) := by
  rcases step_cases registry event with
    calm | ⟨call, id, canonical, saved, rfl, found, calm⟩ | ⟨id, path, saved, rfl, wired, calm⟩
  · exact ⟨exclusive.calm calm, numbered.calm calm⟩
  · simp only [undisturbed, found, Bool.not_true, Bool.false_or, Bool.and_eq_true,
      Option.isNone_iff_eq_none] at still
    obtain ⟨⟨⟨rfl, new⟩, beside⟩, free⟩ := still
    have named := numbered.creating call id canonical found
    exact ⟨(exclusive.enter numbered named new beside free).calm calm,
      (numbered.enter named).calm calm⟩
  · simp only [undisturbed, wired, Bool.not_true, Bool.false_or, Option.isNone_some,
      Bool.or_false] at still
    subst still
    exact ⟨(exclusive.without wired).calm calm, (numbered.without exclusive wired).calm calm⟩

end Steps

/-- When nothing that a wire has checked changes before it enters the workspace, and the index can
be written, the wired workspaces stay exclusive in every interleaving of wires and removes. -/
theorem wiring_exclusive (registry : Registry) (exclusive : Exclusive registry)
    (numbered : Numbered registry) (events : List Event)
    (still : Execution.Along step (fun state event => state.undisturbed event) registry events) :
    Exclusive (Execution.run step registry events) := by
  have both := Execution.run_invariant step (fun state event => state.undisturbed event)
    (fun state => Exclusive state ∧ Numbered state)
    (fun _ _ holds still => holds.1.step holds.2 still) ⟨exclusive, numbered⟩ still
  exact both.1

/-- A daemon with nothing wired and nothing being removed. -/
def unused : Registry where
  index := ∅
  removing := ∅
  byId := ∅
  actors := ∅
  convergeTasks := ∅
  running := []
  spawned := 0
  calls := []
  teardowns := []

theorem exclusive_unused : Exclusive unused where
  apart _ _ _ _ wired := by simp [unused] at wired
  unmarked _ _ _ _ wired := by simp [unused] at wired
  served _ _ wired := by simp [unused] at wired
  idle _ _ := by simp [unused]
  once := List.nodup_nil
  listed := rfl

theorem numbered_unused : Numbered unused where
  named _ _ wired := by simp [unused] at wired
  creating _ _ _ held := by cases held
  spawned _ _ member := by cases member

/-- Two workspaces are wired at the same time, and one is removed. -/
def wiresAndRemove : List Event :=
  [.wire (some ["home", "shop"]), .wire (some ["home", "forum"]),
    .resolved 0 (some ["home", "shop"]), .resolved 1 (some ["home", "forum"]),
    .created 1 true true, .created 0 true true, .owned 0,
    .remove (workspaceId ["home", "shop"]) true true, .owned 1]

theorem wiring_exclusive_remove :
    Exclusive (Execution.run step unused wiresAndRemove) ∧
      (Execution.run step unused wiresAndRemove).index.keys = [workspaceId ["home", "forum"]] :=
  ⟨wiring_exclusive unused exclusive_unused numbered_unused wiresAndRemove (by
      simp only [Execution.Along, wiresAndRemove]
      decide),
    by decide⟩

/-- A folder and one inside it are checked before either is entered. -/
theorem nested_wires_entered :
    ¬∀ registry : Registry, Exclusive registry → Numbered registry →
      ∀ events : List Event, Exclusive (Execution.run step registry events) := by
  intro claim
  have entered := claim unused exclusive_unused numbered_unused
    [.wire (some ["home", "shop"]), .wire (some ["home", "shop", "api"]),
      .resolved 0 (some ["home", "shop"]), .resolved 1 (some ["home", "shop", "api"]),
      .created 0 true true, .created 1 true true]
  have apart := entered.apart (workspaceId ["home", "shop"]) (workspaceId ["home", "shop", "api"])
    ["home", "shop"] ["home", "shop", "api"] (by decide) (by decide)
    (by decide)
  exact apart.1 ⟨["api"], rfl⟩

end Registry
end Fghj
