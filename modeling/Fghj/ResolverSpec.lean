import Fghj.Library.Execution
import Fghj.Resolver

/-!
# What a resolution keeps

Each phase only adds: nodes stay known and warnings stay reported. Along the phases a node keeps
the id it is filed under, names only known stores, and names one only as a task; every edge joins
two known nodes.
-/

namespace Fghj
namespace Resolver

open Std

namespace ResolveCtx

/-! ## Later states -/

/-- A later state of one resolution: nothing known or reported is lost. -/
structure Extends (ctx next : ResolveCtx) : Prop where
  scanned : next.scanned = ctx.scanned
  nodes : ∀ id ∈ ctx.nodes, id ∈ next.nodes
  warnings : ctx.warnings ⊆ next.warnings

/-- Nothing reported so far refuses a start. -/
def Unblocked (ctx : ResolveCtx) : Prop := ∀ warning ∈ ctx.warnings, ¬warning.isBlocking

/-- The services of every scanned repo have their nodes. -/
structure Declared (scanned : OrderedMap String ComponentConfig) (ctx : ResolveCtx) : Prop where
  scanned_eq : ctx.scanned = scanned
  service_known : ∀ repo ∈ scanned.toList, ∀ name ∈ repo.2.services,
    nodeId name repo.1 ∈ ctx.nodes

variable {ctx next last : ResolveCtx}

theorem Extends.refl (ctx : ResolveCtx) : Extends ctx ctx :=
  ⟨rfl, fun _ known => known, List.Subset.refl _⟩

theorem Extends.trans (first : Extends ctx next) (second : Extends next last) :
    Extends ctx last where
  scanned := second.scanned.trans first.scanned
  nodes := fun id known => second.nodes id (first.nodes id known)
  warnings := List.Subset.trans first.warnings second.warnings

theorem Extends.unblocked (later : Extends ctx next) (free : next.Unblocked) : ctx.Unblocked :=
  fun warning reported => free warning (later.warnings reported)

variable {scanned : OrderedMap String ComponentConfig}

theorem Extends.declared (later : Extends ctx next) (declared : Declared scanned ctx) :
    Declared scanned next where
  scanned_eq := later.scanned.trans declared.scanned_eq
  service_known := fun repo scans name service =>
    later.nodes _ (declared.service_known repo scans name service)

theorem extends_warn (ctx : ResolveCtx) (warnings : List Warning) :
    Extends ctx (ctx.warn warnings) :=
  ⟨rfl, fun _ known => known, List.subset_append_left _ _⟩

theorem Unblocked.of_warn {warnings : List Warning} (free : (ctx.warn warnings).Unblocked) :
    ∀ warning ∈ warnings, ¬warning.isBlocking :=
  fun warning reported => free warning (List.mem_append_right _ reported)

/-- A list of steps that each extend the resolution extends it. -/
theorem extends_foldl {α : Type} {step : ResolveCtx → α → ResolveCtx}
    (each : ∀ ctx entry, Extends ctx (step ctx entry)) (entries : List α) (ctx : ResolveCtx) :
    Extends ctx (entries.foldl step ctx) := by
  induction entries generalizing ctx with
  | nil => exact .refl ctx
  | cons entry entries ih => exact (each ctx entry).trans (ih (step ctx entry))

/-! ## Sound states -/

/-- What holds of the node filed under an id. -/
structure NodeSound (ctx : ResolveCtx) (id : String) (node : Node) : Prop where
  named : node.id = id
  stores_known : ∀ store ∈ storesOf node, store ∈ ctx.nodes
  store_task : storesOf node ≠ [] → node.kind = .task
  migration_runs : ctx.Unblocked → node.migrates.isSome →
    node.seeds = [] ∧ node.runPolicy ≠ some "once"
  flows_unset : node.flows = []

/-- What holds at every point of a resolution before its flows are known. -/
structure Sound (ctx : ResolveCtx) : Prop where
  node_sound : ∀ id node, ctx.nodes[id]? = some node → NodeSound ctx id node
  ends_known : ∀ edge ∈ ctx.edges, edge.from ∈ ctx.nodes ∧ edge.to ∈ ctx.nodes

theorem NodeSound.extend {id : String} {node : Node} (sound : NodeSound ctx id node)
    (later : Extends ctx next) : NodeSound next id node where
  named := sound.named
  stores_known := fun store names => later.nodes store (sound.stores_known store names)
  store_task := sound.store_task
  migration_runs := fun free => sound.migration_runs (later.unblocked free)
  flows_unset := sound.flows_unset

/-- A node that names no store is sound under its own id. -/
theorem NodeSound.of_storeless (ctx : ResolveCtx) {node : Node} (migrates : node.migrates = none)
    (seeds : node.seeds = []) (flows : node.flows = []) : NodeSound ctx node.id node where
  named := rfl
  stores_known := by simp [storesOf, migrates, seeds]
  store_task := by simp [storesOf, migrates, seeds]
  migration_runs := by simp [migrates]
  flows_unset := flows

/-- Soundness survives an extension whose new nodes and edges are sound. -/
theorem Sound.extend (sound : Sound ctx) (later : Extends ctx next)
    (nodes : ∀ id node, next.nodes[id]? = some node →
      ctx.nodes[id]? = some node ∨ NodeSound next id node)
    (edges : ∀ edge ∈ next.edges,
      edge ∈ ctx.edges ∨ edge.from ∈ next.nodes ∧ edge.to ∈ next.nodes) : Sound next where
  node_sound := by
    intro id node filed
    rcases nodes id node filed with old | new
    · exact (sound.node_sound id node old).extend later
    · exact new
  ends_known := by
    intro edge listed
    rcases edges edge listed with old | known
    · exact ⟨later.nodes _ (sound.ends_known edge old).1,
        later.nodes _ (sound.ends_known edge old).2⟩
    · exact known

theorem Sound.warn (sound : Sound ctx) (warnings : List Warning) : Sound (ctx.warn warnings) :=
  sound.extend (extends_warn ctx warnings) (fun _ _ filed => .inl filed) fun _ listed => .inl listed

theorem extends_insert (ctx : ResolveCtx) (id : String) (node : Node) :
    Extends ctx { ctx with nodes := ctx.nodes.insert id node } :=
  ⟨rfl, fun _ known => ExtTreeMap.mem_insert.mpr (.inr known), List.Subset.refl _⟩

/-- A node that names no store may be filed under its own id. -/
theorem Sound.insert (sound : Sound ctx) {id : String} {node : Node} (named : node.id = id)
    (migrates : node.migrates = none) (seeds : node.seeds = []) (flows : node.flows = []) :
    Sound { ctx with nodes := ctx.nodes.insert id node } := by
  apply sound.extend (extends_insert ctx id node) _ fun _ listed => .inl listed
  intro other held filed
  rw [ExtTreeMap.getElem?_insert] at filed
  split at filed
  · rename_i same
    obtain rfl := Std.compare_eq_iff_eq.mp same
    cases filed
    exact .inr (named ▸ .of_storeless _ migrates seeds flows)
  · exact .inl filed

/-! ## Nodes and includes -/

theorem extends_addServiceNode (localPath : String) (ctx : ResolveCtx)
    (entry : String × ServiceConfig) : Extends ctx (addServiceNode localPath ctx entry) :=
  (extends_warn ctx _).trans (extends_insert _ _ _)

theorem extends_addRepoNodes (ctx : ResolveCtx) (repo : String × ComponentConfig) :
    Extends ctx (addRepoNodes ctx repo) := by
  have services := extends_foldl (extends_addServiceNode repo.1) repo.2.services.toList
  rw [addRepoNodes]
  split
  · exact (extends_warn ctx _).trans (services _)
  · exact services ctx

theorem Sound.addRepoNodes (sound : Sound ctx) (repo : String × ComponentConfig) :
    Sound (ctx.addRepoNodes repo) := by
  have services : ∀ ctx, Sound ctx →
      Sound (repo.2.services.toList.foldl (addServiceNode repo.1) ctx) := by
    intro ctx sound
    refine List.foldlRecOn _ _ sound fun ctx sound entry _ => ?_
    exact (sound.warn _).insert rfl rfl rfl rfl
  rw [ResolveCtx.addRepoNodes]
  split
  · exact services _ (sound.warn _)
  · exact services _ sound

/-- The first phase only adds nodes. -/
theorem addRepoNodes_same (ctx : ResolveCtx) (repo : String × ComponentConfig) :
    (ctx.addRepoNodes repo).scanned = ctx.scanned ∧
      (ctx.addRepoNodes repo).repoIndex = ctx.repoIndex ∧
      (ctx.addRepoNodes repo).stubRepoIds = ctx.stubRepoIds := by
  simp only [addRepoNodes]
  refine List.foldlRecOn (motive := fun next : ResolveCtx => next.scanned = ctx.scanned ∧
    next.repoIndex = ctx.repoIndex ∧ next.stubRepoIds = ctx.stubRepoIds) _ _ ?_
    fun next same entry _ => same
  split <;> exact ⟨rfl, rfl, rfl⟩

/-- Every service of a repo gets a node. -/
theorem mem_addRepoNodes (ctx : ResolveCtx) (repo : String × ComponentConfig) {name : String}
    (service : name ∈ repo.2.services) : nodeId name repo.1 ∈ (ctx.addRepoNodes repo).nodes := by
  have filed := Execution.foldl_establishes (addServiceNode repo.1)
    (fun ctx entry => nodeId entry.1 repo.1 ∈ ctx.nodes) (fun _ _ => ExtTreeMap.mem_insert_self)
    (fun ctx entry other known => (extends_addServiceNode repo.1 ctx entry).nodes _ known)
  obtain ⟨config, lookup⟩ :=
    Option.isSome_iff_exists.mp (ExtTreeMap.mem_iff_isSome_getElem?.mp service)
  exact filed _ _ _ (ExtTreeMap.mem_toList_iff_getElem?_eq_some.mpr lookup)

/-- After the first phase every scanned service has its node. -/
theorem declared_addRepoNodes (scans : ctx.scanned = scanned) :
    Declared scanned (scanned.toList.foldl ResolveCtx.addRepoNodes ctx) where
  scanned_eq := (extends_foldl extends_addRepoNodes _ _).scanned.trans scans
  service_known := by
    apply Execution.foldl_establishes ResolveCtx.addRepoNodes
      (fun ctx repo => ∀ name ∈ repo.2.services, nodeId name repo.1 ∈ ctx.nodes)
    · exact fun ctx repo name service => mem_addRepoNodes ctx repo service
    · exact fun ctx repo other known name service =>
        (extends_addRepoNodes ctx repo).nodes _ (known name service)

theorem extends_stub (ctx : ResolveCtx) (norm localPath : String) (defaultBranch : Option String) :
    Extends ctx (ctx.stub norm localPath defaultBranch).1 := by
  refine ⟨rfl, fun id known => ?_, List.Subset.refl _⟩
  simp only [stub]
  split
  · exact known
  · exact ExtTreeMap.mem_insert.mpr (.inr known)

theorem Sound.stub (sound : Sound ctx) (norm localPath : String) (defaultBranch : Option String) :
    Sound (ctx.stub norm localPath defaultBranch).1 := by
  have index : Sound { ctx with
      stubRepoIds := ctx.stubRepoIds.insert norm ((ctx.stubRepoIds[norm]?).getD localPath) } :=
    sound.extend ⟨rfl, fun _ known => known, List.Subset.refl _⟩ (fun _ _ filed => .inl filed)
      fun _ listed => .inl listed
  simp only [ResolveCtx.stub]
  split
  · exact index
  · exact index.insert rfl rfl rfl rfl

section Include

variable (toLowercase : String → String)

/-- One include adds a stand-in at most. -/
theorem addInclude_spec (repo : String × ComponentConfig)
    (acc : ResolveCtx × OrderedMap String String) (entry : String × Include) :
    Extends acc.1 (addInclude toLowercase repo acc entry).1 ∧
      (Sound acc.1 → Sound (addInclude toLowercase repo acc entry).1) := by
  obtain ⟨ctx, resolved⟩ := acc
  simp only [addInclude]
  split <;> split
  · exact ⟨extends_warn ctx _, fun sound => sound.warn _⟩
  · exact ⟨(extends_warn ctx _).trans (extends_stub _ _ _ _), fun sound =>
      (sound.warn _).stub _ _ _⟩
  · exact ⟨.refl ctx, id⟩
  · exact ⟨extends_stub _ _ _ _, fun sound => sound.stub _ _ _⟩

theorem addIncludes_spec (ctx : ResolveCtx) (repo : String × ComponentConfig) :
    Extends ctx (addIncludes toLowercase ctx repo) ∧
      (Sound ctx → Sound (addIncludes toLowercase ctx repo)) := by
  have entries : Extends ctx (repo.2.include_.toList.foldl
      (addInclude toLowercase repo) (ctx, ∅)).1 ∧
      (Sound ctx → Sound (repo.2.include_.toList.foldl
        (addInclude toLowercase repo) (ctx, ∅)).1) := by
    refine List.foldlRecOn (motive := fun acc : ResolveCtx × OrderedMap String String =>
      Extends ctx acc.1 ∧ (Sound ctx → Sound acc.1)) _ _ ⟨.refl ctx, id⟩ ?_
    rintro acc ⟨later, kept⟩ entry -
    obtain ⟨next, sound⟩ := addInclude_spec toLowercase repo acc entry
    exact ⟨later.trans next, fun initial => sound (kept initial)⟩
  refine ⟨entries.1.trans ((extends_warn _ _).trans ⟨rfl, fun _ known => known,
    List.Subset.refl _⟩), fun sound => ?_⟩
  exact ((entries.2 sound).warn _).extend ⟨rfl, fun _ known => known, List.Subset.refl _⟩
    (fun _ _ filed => .inl filed) fun _ listed => .inl listed

end Include

/-! ## Tasks -/

variable {repo : String × ComponentConfig}

/-- A store a task keeps is a service of its own repo. -/
theorem storeOf_eq_some {name field store id : String}
    (found : (storeOf repo name field store).1 = some id) :
    ∃ service ∈ repo.2.services, id = nodeId service repo.1 := by
  simp only [storeOf] at found
  split at found
  · cases found
  · split at found
    · rename_i contained
      cases found
      exact ⟨store, ExtTreeMap.mem_iff_contains.mpr contained, rfl⟩
    · cases found

theorem checkStores_known {name : String} {service : ServiceConfig} {id : String}
    (names : id ∈ (checkStores repo name service).1.1.toList ++
      (checkStores repo name service).1.2) :
    ∃ service ∈ repo.2.services, id = nodeId service repo.1 := by
  simp only [checkStores] at names
  split at names
  · simp at names
  · simp only [List.mem_append, Option.mem_toList, Option.bind_eq_some_iff,
      Option.map_eq_some_iff, List.mem_filterMap, List.mem_map] at names
    rcases names with ⟨-, ⟨store, -, rfl⟩, found⟩ | ⟨-, ⟨store, -, rfl⟩, found⟩
    · exact storeOf_eq_some found
    · exact storeOf_eq_some found

/-- A migration that nothing refuses seeds nothing and leaves `run` unset. -/
theorem checkStores_migration {name : String} {service : ServiceConfig}
    (free : ∀ warning ∈ (checkStores repo name service).2, ¬warning.isBlocking)
    (migrates : (checkStores repo name service).1.1.isSome) :
    (checkStores repo name service).1.2 = [] ∧ service.run = none := by
  cases declared : service.migrates with
  | none =>
      simp only [checkStores, declared] at migrates
      split at migrates <;> simp at migrates
  | some store =>
      simp only [checkStores, declared, Option.isNone_some, Bool.false_and, Bool.false_eq_true,
        if_false, Option.isSome_some, if_true, Bool.true_and, List.mem_append] at free ⊢
      constructor
      · cases seeds : service.seeds with
        | nil => rfl
        | cons seed rest =>
            -- the store it migrates and the one it seeds are refused together
            simp only [seeds, List.isEmpty_cons, Bool.not_false, if_true] at free
            exact absurd rfl (free _ (.inl (.inl (.inr List.mem_cons_self))))
      · cases policy : service.run with
        | none => rfl
        | some run =>
            simp only [policy, Option.isSome_some, if_true] at free
            exact absurd rfl (free _ (.inl (.inl (.inl List.mem_cons_self))))

theorem extends_markTask (repo : String × ComponentConfig) (ctx : ResolveCtx)
    (entry : String × ServiceConfig) : Extends ctx (markTask repo ctx entry) := by
  simp only [markTask]
  split
  · exact .refl ctx
  · exact (extends_warn ctx _).trans
      ⟨rfl, fun _ known => ExtTreeMap.mem_modify.mpr known, List.Subset.refl _⟩

/-- Marking a service as a task keeps the resolution sound: its stores are services of its repo. -/
theorem Sound.markTask (sound : Sound ctx) (declared : Declared scanned ctx)
    (scans : repo ∈ scanned.toList) (entry : String × ServiceConfig) :
    Sound (markTask repo ctx entry) := by
  have later := extends_markTask repo ctx entry
  simp only [ResolveCtx.markTask] at later ⊢
  split at later
  · rename_i plain
    rwa [if_pos plain]
  · rename_i task
    rw [if_neg task]
    apply sound.extend later _ fun _ listed => .inl listed
    intro id node filed
    simp only [OrderedMap.get_modify] at filed
    split at filed
    · obtain ⟨old, held, rfl⟩ := Option.map_eq_some_iff.mp filed
      have before := sound.node_sound id old held
      refine .inr ⟨before.named, fun store names => ?_, fun _ => rfl, fun free migrates => ?_,
        before.flows_unset⟩
      · obtain ⟨service, listed, rfl⟩ := checkStores_known names
        exact later.nodes _ (declared.service_known repo scans service listed)
      · obtain ⟨seedless, unset⟩ := checkStores_migration (fun warning reported => free warning
          (List.mem_append_right _ (List.mem_append_right _ reported))) migrates
        exact ⟨seedless, by simp [unset]⟩
    · exact .inl filed

theorem extends_markTasks (ctx : ResolveCtx) (repo : String × ComponentConfig) :
    Extends ctx (markTasks ctx repo) :=
  extends_foldl (extends_markTask repo) _ ctx

theorem Sound.markTasks (sound : Sound ctx) (declared : Declared scanned ctx)
    (scans : repo ∈ scanned.toList) : Sound (markTasks ctx repo) := by
  have both : Declared scanned (ResolveCtx.markTasks ctx repo) ∧
      Sound (ResolveCtx.markTasks ctx repo) := by
    refine List.foldlRecOn (motive := fun ctx => Declared scanned ctx ∧ Sound ctx) _ _
      ⟨declared, sound⟩ ?_
    rintro ctx ⟨declared, sound⟩ entry -
    exact ⟨(extends_markTask repo ctx entry).declared declared, sound.markTask declared scans entry⟩
  exact both.2

/-! ## Members of flows -/

/-- The members of a repo are known nodes. -/
theorem repoMembers_known (ctx : ResolveCtx) (fuel : Nat) {found : List String × List String}
    (known : ∀ id ∈ found.2, id ∈ ctx.nodes) (repo : String) :
    ∀ id ∈ (ctx.repoMembers fuel found repo).2, id ∈ ctx.nodes := by
  induction fuel generalizing found repo with
  | zero => exact known
  | succ fuel ih =>
      rw [repoMembers]
      split
      · exact known
      split
      · refine List.foldlRecOn (motive := fun found : List String × List String =>
          ∀ id ∈ found.2, id ∈ ctx.nodes) _ _ ?_ fun found known repo _ => ih known repo
        intro id member
        rcases List.mem_append.mp member with old | own
        · exact known id old
        · obtain ⟨entry, listed, rfl⟩ := List.mem_map.mp own
          have lookup := ExtTreeMap.mem_toList_iff_getElem?_eq_some.mp (List.mem_filter.mp listed).1
          exact ExtTreeMap.mem_iff_isSome_getElem?.mpr (Option.isSome_of_eq_some lookup)
      · intro id member
        split at member
        · rename_i contained
          rcases List.mem_append.mp member with old | new
          · exact known id old
          · obtain rfl := List.mem_singleton.mp new
            exact ExtTreeMap.contains_iff_mem.mp contained
        · exact known id member

/-- The members of a flow are known nodes. -/
theorem expandFlow_known (declared : Declared scanned ctx) (fuel depth : Nat) {found : Expansion}
    (known : ∀ id ∈ found.out, id ∈ ctx.nodes) (flow : String × String) :
    ∀ id ∈ (ctx.expandFlow fuel depth found flow).out, id ∈ ctx.nodes := by
  induction fuel generalizing depth found flow with
  | zero => exact known
  | succ fuel ih =>
      obtain ⟨repo, flow⟩ := flow
      simp only [expandFlow]
      split
      · exact known
      have append : ∀ found : Expansion, (∀ id ∈ found.out, id ∈ ctx.nodes) → ∀ new ∈ ctx.nodes,
          ∀ id ∈ found.out ++ [new], id ∈ ctx.nodes := by
        intro found known new filed id member
        rcases List.mem_append.mp member with old | own
        · exact known id old
        · exact List.mem_singleton.mp own ▸ filed
      split
      · split
        · rename_i contained
          exact append found known repo (ExtTreeMap.contains_iff_mem.mp contained)
        · exact known
      · rename_i component lookup
        have listed : (repo, component) ∈ scanned.toList := by
          rw [declared.scanned_eq] at lookup
          exact ExtTreeMap.mem_toList_iff_getElem?_eq_some.mpr lookup
        refine List.foldlRecOn (motive := fun found : Expansion => ∀ id ∈ found.out, id ∈ ctx.nodes)
          _ _ known fun found known entry _ => ?_
        split
        · rename_i name _
          split
          · rename_i service
            exact append found known _ (declared.service_known _ listed name
              (ExtTreeMap.contains_iff_mem.mp service))
          split
          · exact ih _ known _
          split
          · exact ctx.repoMembers_known _ known _
          · split <;> exact known
        · split
          · split
            · exact ih _ known _
            · split <;> exact known
          · split <;> exact known

theorem foreignMembers_known (declared : Declared scanned ctx) {localPath : String}
    {target : Target} {members : List String}
    (found : ctx.foreignMembers localPath target = .ok members) :
    ∀ id ∈ members, id ∈ ctx.nodes := by
  cases target with
  | bare name =>
      simp only [foreignMembers, Except.ok.injEq] at found
      subst found
      intro id member
      exact ctx.repoMembers_known _ (by simp) _ id (mem_intoIter.mp member)
  | qualified owner name =>
      simp only [foreignMembers] at found
      split at found
      · cases found
      split at found
      · cases found
      · cases found
        intro id member
        exact expandFlow_known declared _ _ (by simp) _ id (mem_intoIter.mp member)

/-! ## Dependencies -/

theorem extends_addMember (source : String) (entry : DependsOnEntry) (via : String)
    (ctx : ResolveCtx) (member : String) :
    Extends ctx (addMember source entry via ctx member) := by
  rw [addMember]
  split
  · split
    · exact ⟨rfl, fun _ known => known, List.Subset.refl _⟩
    · exact .refl ctx
  · exact ⟨rfl, fun _ known => known, List.Subset.refl _⟩

theorem Sound.push (sound : Sound ctx) {edge : Edge} (source : edge.from ∈ ctx.nodes)
    (target : edge.to ∈ ctx.nodes) : Sound { ctx with edges := ctx.edges ++ [edge] } := by
  refine sound.extend ⟨rfl, fun _ known => known, List.Subset.refl _⟩ (fun _ _ filed => .inl filed)
    fun other listed => ?_
  rcases List.mem_append.mp listed with old | new
  · exact .inl old
  · rw [List.mem_singleton.mp new]
    exact .inr ⟨source, target⟩

theorem Sound.addMember (sound : Sound ctx) {source member : String}
    (known : source ∈ ctx.nodes) (filed : member ∈ ctx.nodes) (entry : DependsOnEntry)
    (via : String) : Sound (addMember source entry via ctx member) := by
  rw [ResolveCtx.addMember]
  split
  · split
    · exact sound.extend ⟨rfl, fun _ known => known, List.Subset.refl _⟩
        (fun _ _ filed => .inl filed) fun _ listed => .inl listed
    · exact sound
  · exact sound.push known filed

theorem Sound.addMembers (sound : Sound ctx) {source : String} {members : List String}
    (known : source ∈ ctx.nodes) (filed : ∀ id ∈ members, id ∈ ctx.nodes) (entry : DependsOnEntry)
    (via : String) : Sound (members.foldl (ResolveCtx.addMember source entry via) ctx) := by
  induction members generalizing ctx with
  | nil => exact sound
  | cons member members ih =>
      have later := extends_addMember source entry via ctx member
      apply ih (sound.addMember known (filed member List.mem_cons_self) entry via)
      · exact later.nodes _ known
      · exact fun id listed => later.nodes _ (filed id (List.mem_cons_of_mem _ listed))

theorem extends_addForeign (ctx : ResolveCtx) (localPath source key : String) (target : Target)
    (entry : DependsOnEntry) : Extends ctx (ctx.addForeign localPath source key target entry) := by
  simp only [addForeign]
  split
  · exact extends_warn ctx _
  have checked : Extends ctx (if entry.required then ctx
      else ctx.warn (checkRuntimeCondition source key entry.condition)) := by
    split
    · exact .refl ctx
    · exact extends_warn ctx _
  revert checked
  generalize (if entry.required then ctx
    else ctx.warn (checkRuntimeCondition source key entry.condition)) = checkedCtx
  intro checked
  apply checked.trans
  split
  · exact extends_warn _ _
  · exact extends_foldl (extends_addMember source entry _) _ _

theorem Sound.addForeign (sound : Sound ctx) (declared : Declared scanned ctx) {source : String}
    (known : source ∈ ctx.nodes)
    (localPath key : String) (target : Target) (entry : DependsOnEntry) :
    Sound (ctx.addForeign localPath source key target entry) := by
  simp only [ResolveCtx.addForeign]
  split
  · exact sound.warn _
  have checked : Extends ctx (if entry.required then ctx
        else ctx.warn (checkRuntimeCondition source key entry.condition)) ∧
      Sound (if entry.required then ctx
        else ctx.warn (checkRuntimeCondition source key entry.condition)) := by
    split
    · exact ⟨.refl ctx, sound⟩
    · exact ⟨extends_warn ctx _, sound.warn _⟩
  revert checked
  generalize (if entry.required then ctx
    else ctx.warn (checkRuntimeCondition source key entry.condition)) = checkedCtx
  rintro ⟨later, kept⟩
  split
  · exact kept.warn _
  · rename_i members found
    exact kept.addMembers (later.nodes _ known)
      (foreignMembers_known (later.declared declared) found) entry _

theorem extends_addDependency (repo : String × ComponentConfig) (source : String)
    (ctx : ResolveCtx) (dependency : String × DependsOnEntry) :
    Extends ctx (addDependency repo source ctx dependency) := by
  simp only [addDependency]
  split
  · split
    · split
      · exact extends_warn ctx _
      · exact (extends_warn ctx _).trans ⟨rfl, fun _ known => known, List.Subset.refl _⟩
    split
    · exact extends_warn ctx _
    split
    · exact extends_addForeign ctx _ _ _ _ _
    · exact extends_warn ctx _
  · split
    · exact extends_addForeign ctx _ _ _ _ _
    · exact extends_warn ctx _

theorem Sound.addDependency (sound : Sound ctx) (declared : Declared scanned ctx)
    (scans : repo ∈ scanned.toList) {source : String} (known : source ∈ ctx.nodes)
    (dependency : String × DependsOnEntry) : Sound (addDependency repo source ctx dependency) := by
  simp only [ResolveCtx.addDependency]
  split
  · split
    · rename_i name _ service
      split
      · exact sound.warn _
      · exact (sound.warn _).push known
          (declared.service_known repo scans name (ExtTreeMap.contains_iff_mem.mp service))
    split
    · exact sound.warn _
    split
    · exact sound.addForeign declared known _ _ _ _
    · exact sound.warn _
  · split
    · exact sound.addForeign declared known _ _ _ _
    · exact sound.warn _

theorem extends_addDependencyEdges (ctx : ResolveCtx) (repo : String × ComponentConfig) :
    Extends ctx (addDependencyEdges ctx repo) :=
  extends_foldl (fun ctx _ => extends_foldl (extends_addDependency repo _) _ ctx) _ ctx

theorem Sound.addDependencyEdges (sound : Sound ctx) (declared : Declared scanned ctx)
    (scans : repo ∈ scanned.toList) : Sound (addDependencyEdges ctx repo) := by
  have both : Declared scanned (ctx.addDependencyEdges repo) ∧
    Sound (ctx.addDependencyEdges repo) := by
    refine List.foldlRecOn (motive := fun ctx => Declared scanned ctx ∧ Sound ctx) _ _
      ⟨declared, sound⟩ ?_
    rintro ctx ⟨declared, sound⟩ entry listed
    have service : entry.1 ∈ repo.2.services :=
      ExtTreeMap.mem_iff_isSome_getElem?.mpr (Option.isSome_of_eq_some
        (ExtTreeMap.mem_toList_iff_getElem?_eq_some.mp listed))
    refine List.foldlRecOn (motive := fun ctx => Declared scanned ctx ∧ Sound ctx) _ _
      ⟨declared, sound⟩ ?_
    rintro ctx ⟨declared, sound⟩ dependency -
    exact ⟨(extends_addDependency repo _ ctx dependency).declared declared,
      sound.addDependency declared scans (declared.service_known repo scans _ service) dependency⟩
  exact both.2

end ResolveCtx

/-- A remote is filed under the first scanned folder that has it. -/
theorem getElem?_repoIndexOf (toLowercase : String → String)
    (scanned : OrderedMap String ComponentConfig) (facts : OrderedMap String RepoFacts)
    (norm : String) :
    (repoIndexOf toLowercase scanned facts)[norm]? =
      (scanned.toList.find? fun entry => ((facts[entry.1]?).bind RepoFacts.repo).map
        (RepoUrl.normalizeRepoUrl toLowercase) == some norm).map Prod.fst := by
  rw [repoIndexOf]
  refine (OrderedMap.getElem?_foldl_insert_absent (fun entry => ((facts[entry.1]?).bind
    RepoFacts.repo).map (RepoUrl.normalizeRepoUrl toLowercase)) Prod.fst ?_ ?_ _ _ _).trans
    (by simp)
  · intro index entry unread
    rw [Option.map_eq_none_iff.mp unread]
  · intro index entry norm read
    obtain ⟨repo, origin, rfl⟩ := Option.map_eq_some_iff.mp read
    rw [origin]

/-- The resolution up to the declared edges knows every service and is sound. -/
theorem declaredCtx_spec (toLowercase : String → String)
    (scanned : OrderedMap String ComponentConfig) (facts : OrderedMap String RepoFacts) :
    ResolveCtx.Declared scanned (declaredCtx toLowercase scanned facts) ∧
      (declaredCtx toLowercase scanned facts).Sound := by
  have empty : ResolveCtx.Sound
      { scanned, repoIndex := repoIndexOf toLowercase scanned facts, facts } :=
    ⟨fun id node filed => by simp at filed, fun edge listed => by simp at listed⟩
  simp only [declaredCtx]
  refine List.foldlRecOn (motive := fun ctx => ResolveCtx.Declared scanned ctx ∧ ctx.Sound) _ _ ?_
    fun ctx kept repo scans => ⟨(ResolveCtx.extends_addDependencyEdges ctx repo).declared kept.1,
      kept.2.addDependencyEdges kept.1 scans⟩
  refine List.foldlRecOn (motive := fun ctx => ResolveCtx.Declared scanned ctx ∧ ctx.Sound) _ _ ?_
    fun ctx kept repo scans => ⟨(ResolveCtx.extends_markTasks ctx repo).declared kept.1,
      kept.2.markTasks kept.1 scans⟩
  refine List.foldlRecOn (motive := fun ctx => ResolveCtx.Declared scanned ctx ∧ ctx.Sound) _ _
    ⟨ResolveCtx.declared_addRepoNodes rfl, ?_⟩ fun ctx kept repo _ => ?_
  · exact List.foldlRecOn _ _ empty fun ctx sound repo _ => sound.addRepoNodes repo
  · obtain ⟨later, sound⟩ := ResolveCtx.addIncludes_spec toLowercase ctx repo
    exact ⟨later.declared kept.1, sound kept.2⟩

end Resolver
end Fghj
