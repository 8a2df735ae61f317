import Fghj.ResolverSpec

/-!
# Waiting on stores

What the resolver adds to the declared edges: a wait of every migration and seed on its stores, and
a wait on its migration of whatever waits on a store. An edge is only added between two nodes that
no edge joins yet, whether that edge is needed to start or not.
-/

namespace Fghj

open Std

/-- Some edge leads from the first node to the second, needed to start or not. -/
def Linked (edges : List Edge) (id dep : String) : Prop :=
  ∃ edge ∈ edges, edge.from = id ∧ edge.to = dep

variable {id dep : String} {edges : List Edge}

theorem Needs.linked (needs : Needs edges id dep) : Linked edges id dep := by
  obtain ⟨edge, listed, -, source, target⟩ := needs
  exact ⟨edge, listed, source, target⟩

theorem needs_append {front back : List Edge} :
    Needs (front ++ back) id dep ↔ Needs front id dep ∨ Needs back id dep := by
  simp only [Needs, List.mem_append, or_and_right, exists_or]

theorem linked_iff_any :
    Linked edges id dep ↔ edges.any fun edge => edge.from == id && edge.to == dep := by
  simp [Linked]

/-- The files join the two nodes, but never as needed to start. -/
def OnlyOptional (edges : List Edge) (id dep : String) : Prop :=
  Linked edges id dep ∧ ¬Needs edges id dep

theorem not_onlyOptional_iff :
    ¬OnlyOptional edges id dep ↔ Needs edges id dep ∨ ¬Linked edges id dep := by
  rw [OnlyOptional, not_and_or, not_not, or_comm]

namespace Resolver
namespace ResolveCtx

variable {ctx next last : ResolveCtx}

/-- The node names the store. -/
def NamesStore (ctx : ResolveCtx) (id store : String) : Prop :=
  ∃ task, ctx.nodes[id]? = some task ∧ store ∈ storesOf task

/-- The node migrates the store. -/
def MigratesStore (ctx : ResolveCtx) (id store : String) : Prop :=
  ∃ task, ctx.nodes[id]? = some task ∧ task.migrates = some store

theorem MigratesStore.names {id store : String} (migrates : ctx.MigratesStore id store) :
    ctx.NamesStore id store := by
  obtain ⟨task, filed, named⟩ := migrates
  exact ⟨task, filed, by simp [storesOf, named]⟩

/-! ## Waits on stores -/

/-- The resolution went on by pushing needed edges between nodes that nothing joined. -/
structure Pushes (between : String → String → Prop) (ctx next : ResolveCtx) : Prop where
  later : Extends ctx next
  nodes_eq : next.nodes = ctx.nodes
  kept : ∀ edge ∈ ctx.edges, edge ∈ next.edges
  new : ∀ edge ∈ next.edges, edge ∈ ctx.edges ∨
    edge.neededToStart ∧ between edge.from edge.to ∧ ¬Linked ctx.edges edge.from edge.to

variable {between : String → String → Prop}

theorem Pushes.refl (between : String → String → Prop) (ctx : ResolveCtx) :
    Pushes between ctx ctx :=
  ⟨.refl ctx, rfl, fun _ listed => listed, fun _ listed => .inl listed⟩

theorem Pushes.linked (pushes : Pushes between ctx next) (linked : Linked ctx.edges id dep) :
    Linked next.edges id dep := by
  obtain ⟨edge, listed, ends⟩ := linked
  exact ⟨edge, pushes.kept edge listed, ends⟩

theorem Pushes.trans (first : Pushes between ctx next) (second : Pushes between next last) :
    Pushes between ctx last where
  later := first.later.trans second.later
  nodes_eq := second.nodes_eq.trans first.nodes_eq
  kept := fun edge listed => second.kept edge (first.kept edge listed)
  new := by
    intro edge listed
    rcases second.new edge listed with old | ⟨needed, joins, apart⟩
    · exact first.new edge old
    · exact .inr ⟨needed, joins, fun linked => apart (first.linked linked)⟩

theorem Pushes.warn (between : String → String → Prop) (ctx : ResolveCtx)
    (warnings : List Warning) : Pushes between ctx (ctx.warn warnings) :=
  ⟨extends_warn ctx warnings, rfl, fun _ listed => listed, fun _ listed => .inl listed⟩

theorem Pushes.foldl {α : Type} {step : ResolveCtx → α → ResolveCtx} {entries : List α}
    (each : ∀ ctx, ∀ entry ∈ entries, Pushes between ctx (step ctx entry)) (ctx : ResolveCtx) :
    Pushes between ctx (entries.foldl step ctx) :=
  List.foldlRecOn _ _ (.refl between ctx) fun _ pushes entry listed =>
    pushes.trans (each _ entry listed)

/-- What is needed after pushing: what was needed before, and what was pushed. -/
theorem Pushes.needs_iff (pushes : Pushes between ctx next) :
    Needs next.edges id dep ↔ Needs ctx.edges id dep ∨
      ¬Linked ctx.edges id dep ∧ Linked next.edges id dep := by
  constructor
  · rintro ⟨edge, listed, needed, rfl, rfl⟩
    rcases pushes.new edge listed with old | ⟨-, -, apart⟩
    · exact .inl ⟨edge, old, needed, rfl, rfl⟩
    · exact .inr ⟨apart, edge, listed, rfl, rfl⟩
  · rintro (⟨edge, listed, needs⟩ | ⟨apart, edge, listed, rfl, rfl⟩)
    · exact ⟨edge, pushes.kept edge listed, needs⟩
    · rcases pushes.new edge listed with old | ⟨needed, -, -⟩
      · exact absurd ⟨edge, old, rfl, rfl⟩ apart
      · exact ⟨edge, listed, needed, rfl, rfl⟩

/-- What is joined after pushing was joined before, or is what is pushed between. -/
theorem Pushes.linked_cases (pushes : Pushes between ctx next) (linked : Linked next.edges id dep) :
    Linked ctx.edges id dep ∨ between id dep := by
  obtain ⟨edge, listed, rfl, rfl⟩ := linked
  rcases pushes.new edge listed with old | ⟨-, joins, -⟩
  · exact .inl ⟨edge, old, rfl, rfl⟩
  · exact .inr joins

theorem addStoreEdge_pushes (between : String → String → Prop) (task : String) (ctx : ResolveCtx)
    (store : String) (joins : between task store) :
    Pushes between ctx (addStoreEdge task ctx store) := by
  rw [addStoreEdge]
  split
  · exact .refl between ctx
  split
  · exact .warn between ctx _
  split
  · exact .refl between ctx
  · rename_i apart
    refine ⟨⟨rfl, fun _ known => known, List.Subset.refl _⟩, rfl,
      fun edge listed => List.mem_append_left _ listed, fun edge listed => ?_⟩
    rcases List.mem_append.mp listed with old | new
    · exact .inl old
    · rw [List.mem_singleton.mp new]
      exact .inr ⟨rfl, joins, fun linked => apart (linked_iff_any.mp linked)⟩

/-- A store that stays up is joined to its task afterwards; a task as a store is refused. -/
theorem addStoreEdge_links (task : String) (ctx : ResolveCtx) (store : String)
    (free : (addStoreEdge task ctx store).Unblocked) {target : Node}
    (filed : ctx.nodes[store]? = some target) :
    target.kind ≠ .task ∧ Linked (addStoreEdge task ctx store).edges task store := by
  simp only [addStoreEdge, filed] at free ⊢
  split at free
  · exact absurd rfl (free.of_warn _ List.mem_cons_self)
  · rename_i stays
    rw [if_neg stays]
    split
    · rename_i linked
      exact ⟨stays, linked_iff_any.mpr linked⟩
    · exact ⟨stays, _, List.mem_append_right _ List.mem_cons_self, rfl, rfl⟩

/-- The stores of one task: each stays up and is joined to the task. -/
theorem addStoreEdges_link (task : String) (stores : List String) (ctx : ResolveCtx)
    (free : (stores.foldl (addStoreEdge task) ctx).Unblocked) :
    ∀ store ∈ stores, ∀ target, ctx.nodes[store]? = some target →
      target.kind ≠ .task ∧ Linked (stores.foldl (addStoreEdge task) ctx).edges task store := by
  induction stores generalizing ctx with
  | nil => intro store listed; cases listed
  | cons store stores ih =>
      have first := addStoreEdge_pushes (fun _ _ => True) task ctx store trivial
      have rest : Pushes (fun _ _ => True) (addStoreEdge task ctx store)
          (stores.foldl (addStoreEdge task) (addStoreEdge task ctx store)) :=
        .foldl (fun ctx other _ => addStoreEdge_pushes _ task ctx other trivial) _
      intro other listed target filed
      rcases List.mem_cons.mp listed with rfl | later
      · obtain ⟨stays, linked⟩ := addStoreEdge_links task ctx other
          (rest.later.unblocked free) filed
        exact ⟨stays, rest.linked linked⟩
      · exact ih _ free other later target (first.nodes_eq ▸ filed)

/-- The edges of one task. -/
theorem addStoreTask_pushes (between : String → String → Prop)
    (acc : ResolveCtx × OrderedMap String String) (task : Node)
    (joins : ∀ store ∈ storesOf task, between task.id store) :
    Pushes between acc.1 (addStoreTask acc task).1 := by
  have stores : Pushes between acc.1 ((storesOf task).foldl (addStoreEdge task.id) acc.1) :=
    .foldl (fun ctx store listed => addStoreEdge_pushes _ task.id ctx store
      (joins store listed)) acc.1
  rw [addStoreTask]
  split
  · exact stores
  split
  · exact stores
  · exact stores.trans (.warn between _ _)

/-- The migrations after one task; a second one of the same store is refused. -/
theorem addStoreTask_migrations (acc : ResolveCtx × OrderedMap String String) (task : Node) :
    Extends ((storesOf task).foldl (addStoreEdge task.id) acc.1) (addStoreTask acc task).1 ∧
      (addStoreTask acc task).1.edges = ((storesOf task).foldl (addStoreEdge task.id) acc.1).edges ∧
      (task.migrates = none ∧ (addStoreTask acc task).2 = acc.2 ∨
        ∃ store, task.migrates = some store ∧
          (addStoreTask acc task).2 = acc.2.insert store task.id ∧
          ((addStoreTask acc task).1.Unblocked → acc.2[store]? = none)) := by
  rw [addStoreTask]
  split
  · rename_i none
    exact ⟨.refl _, rfl, .inl ⟨none, rfl⟩⟩
  · rename_i store migrates
    split
    · rename_i fresh
      exact ⟨.refl _, rfl, .inr ⟨store, migrates, rfl, fun _ => fresh⟩⟩
    · refine ⟨extends_warn _ _, rfl, .inr ⟨store, migrates, rfl, fun free => ?_⟩⟩
      exact absurd rfl (free.of_warn _ List.mem_cons_self)

/-- What the first loop has seen to for a task: its stores stay up, it is joined to each of them,
and it alone migrates the store it migrates. -/
def Served (acc : ResolveCtx × OrderedMap String String) (task : Node) : Prop :=
  acc.1.Unblocked →
    (∀ store ∈ storesOf task, ∀ target, acc.1.nodes[store]? = some target →
      target.kind ≠ .task ∧ Linked acc.1.edges task.id store) ∧
    ∀ store, task.migrates = some store → acc.2[store]? = some task.id

theorem served_addStoreTask (acc : ResolveCtx × OrderedMap String String) (task : Node) :
    Served (addStoreTask acc task) task := by
  intro free
  obtain ⟨later, edges, migrations⟩ := addStoreTask_migrations acc task
  have pushes := addStoreTask_pushes (fun _ _ => True) acc task fun _ _ => trivial
  constructor
  · rw [pushes.nodes_eq, edges]
    exact addStoreEdges_link task.id (storesOf task) acc.1 (later.unblocked free)
  · intro store migrates
    rcases migrations with ⟨none, -⟩ | ⟨named, same, recorded, -⟩
    · rw [none] at migrates
      cases migrates
    · obtain rfl : named = store := Option.some.inj (same.symm.trans migrates)
      rw [recorded]
      exact ExtTreeMap.getElem?_insert_self

theorem Served.addStoreTask {acc : ResolveCtx × OrderedMap String String} {other : Node}
    (served : Served acc other) (task : Node) : Served (addStoreTask acc task) other := by
  intro free
  obtain ⟨-, -, migrations⟩ := addStoreTask_migrations acc task
  have pushes := addStoreTask_pushes (fun _ _ => True) acc task fun _ _ => trivial
  obtain ⟨stays, alone⟩ := served (pushes.later.unblocked free)
  constructor
  · intro store names target filed
    obtain ⟨kind, linked⟩ := stays store names target (pushes.nodes_eq ▸ filed)
    exact ⟨kind, pushes.linked linked⟩
  · intro store migrates
    rcases migrations with ⟨-, same⟩ | ⟨named, -, recorded, fresh⟩
    · rw [same]
      exact alone store migrates
    · rw [recorded, ExtTreeMap.getElem?_insert]
      split
      · rename_i clash
        obtain rfl := Std.compare_eq_iff_eq.mp clash
        rw [alone named migrates] at fresh
        cases fresh free
      · exact alone store migrates

/-- What the second loop reads: the resolution with its waits on stores, and the migration of every
migrated store. -/
def storeWaits (ctx : ResolveCtx) : ResolveCtx × OrderedMap String String :=
  ((OrderedMap.listed ctx.nodes).filter fun node =>
    node.migrates.isSome || !node.seeds.isEmpty).foldl addStoreTask (ctx, ∅)

theorem addStoreEdges_eq (ctx : ResolveCtx) :
    ctx.addStoreEdges = { ctx.storeWaits.1 with
      edges := ctx.storeWaits.1.edges ++ impliedEdges ctx.storeWaits.1.edges ctx.storeWaits.2 []
        (ctx.storeWaits.1.edges.filter Edge.neededToStart) } := rfl

theorem mem_tasks {task : Node} (sound : Sound ctx) :
    task ∈ (OrderedMap.listed ctx.nodes).filter (fun node =>
      node.migrates.isSome || !node.seeds.isEmpty) ↔
      ctx.nodes[task.id]? = some task ∧ storesOf task ≠ [] := by
  rw [List.mem_filter, OrderedMap.mem_listed]
  have filed : (∃ key : String, ctx.nodes[key]? = some task) ↔ ctx.nodes[task.id]? = some task := by
    constructor
    · rintro ⟨key, lookup⟩
      rwa [(sound.node_sound key task lookup).named]
    · exact fun lookup => ⟨task.id, lookup⟩
  rw [filed]
  cases migrates : task.migrates <;> cases seeds : task.seeds <;> simp [storesOf, migrates, seeds]

/-- The waits on stores, from a sound resolution that is not refused. -/
theorem storeWaits_pushes (sound : Sound ctx) : Pushes ctx.NamesStore ctx ctx.storeWaits.1 := by
  refine List.foldlRecOn (motive := fun acc : ResolveCtx × OrderedMap String String =>
    Pushes ctx.NamesStore ctx acc.1) _ _ (.refl _ ctx) fun acc pushes task listed => ?_
  obtain ⟨filed, -⟩ := (mem_tasks sound).mp listed
  exact pushes.trans (addStoreTask_pushes _ acc task fun store names => ⟨task, filed, names⟩)

/-- After the first loop nothing is refused about any task that names a store. -/
theorem storeWaits_served (sound : Sound ctx) {task : Node}
    (filed : ctx.nodes[task.id]? = some task) (names : storesOf task ≠ []) :
    Served ctx.storeWaits task :=
  Execution.foldl_establishes addStoreTask Served served_addStoreTask
    (fun _ task _ served => served.addStoreTask task) _ _ task
      ((mem_tasks sound).mpr ⟨filed, names⟩)

/-- Every migration the second loop reads is that of a task. -/
theorem storeWaits_migrations (sound : Sound ctx) {store migration : String}
    (recorded : ctx.storeWaits.2[store]? = some migration) :
    ctx.MigratesStore migration store := by
  revert recorded
  refine List.foldlRecOn (motive := fun acc : ResolveCtx × OrderedMap String String =>
    acc.2[store]? = some migration → ctx.MigratesStore migration store) _ _
    (fun recorded => by simp at recorded) fun acc holds task listed recorded => ?_
  obtain ⟨filed, -⟩ := (mem_tasks sound).mp listed
  obtain ⟨-, -, ⟨-, same⟩ | ⟨named, migrates, inserted, -⟩⟩ := addStoreTask_migrations acc task
  · exact holds (same ▸ recorded)
  · rw [inserted, ExtTreeMap.getElem?_insert] at recorded
    split at recorded
    · rename_i clash
      obtain rfl := Std.compare_eq_iff_eq.mp clash
      obtain rfl := Option.some.inj recorded
      exact ⟨task, filed, migrates⟩
    · exact holds recorded

/-! ## Waits on migrations -/

theorem impliedEdges_needed (edges : List Edge) (migrations : OrderedMap String String)
    (seen : List (String × String)) (rest : List Edge) :
    ∀ edge ∈ impliedEdges edges migrations seen rest, edge.neededToStart := by
  induction rest generalizing seen with
  | nil => intro edge listed; cases listed
  | cons first rest ih =>
      intro edge listed
      rw [impliedEdges] at listed
      split at listed
      · exact ih seen edge listed
      split at listed
      · exact ih seen edge listed
      · rcases List.mem_cons.mp listed with rfl | later
        · rfl
        · exact ih _ edge later

/-- What the implied edges join: whatever waits on a migrated store to its migration, unless they
are joined already. -/
theorem linked_impliedEdges {migrations : OrderedMap String String} {seen : List (String × String)}
    {rest : List Edge} {id migration : String} :
    Linked (impliedEdges edges migrations seen rest) id migration ↔
      id ≠ migration ∧ ¬Linked edges id migration ∧ (id, migration) ∉ seen ∧
        ∃ edge ∈ rest, edge.from = id ∧ migrations[edge.to]? = some migration := by
  induction rest generalizing seen with
  | nil => simp [impliedEdges, Linked]
  | cons first rest ih =>
      simp only [List.exists_mem_cons_iff]
      rw [impliedEdges]
      cases lookup : migrations[first.to]? with
      | none => simp [ih]
      | some target =>
          simp only [Option.some.injEq]
          have skips : (first.from == target ||
              (edges.any fun other => other.from == first.from && other.to == target) ||
              (first.from, target) ∈ seen) = true ↔
              first.from = target ∨ Linked edges first.from target ∨ (first.from,
                target) ∈ seen := by
            simp only [Bool.or_eq_true, beq_iff_eq, ← linked_iff_any, decide_eq_true_eq, or_assoc]
          by_cases joined : first.from = target ∨ Linked edges first.from target ∨
              (first.from, target) ∈ seen
          · rw [if_pos (skips.mpr joined), ih]
            constructor
            · rintro ⟨apart, free, unseen, found⟩
              exact ⟨apart, free, unseen, .inr found⟩
            · rintro ⟨apart, free, unseen, ⟨rfl, rfl⟩ | found⟩
              · rcases joined with same | linked | seen
                · exact absurd same apart
                · exact absurd linked free
                · exact absurd seen unseen
              · exact ⟨apart, free, unseen, found⟩
          · rw [if_neg fun skip => joined (skips.mp skip)]
            simp only [not_or] at joined
            have split : Linked (impliedEdge first target ::
                impliedEdges edges migrations ((first.from, target) :: seen) rest) id migration ↔
                (first.from = id ∧ target = migration) ∨
                Linked (impliedEdges edges migrations ((first.from, target) :: seen) rest) id
                  migration := by
              simp [Linked, impliedEdge]
            rw [split, ih]
            constructor
            · rintro (⟨rfl, rfl⟩ | ⟨apart, free, unseen, found⟩)
              · exact ⟨joined.1, joined.2.1, joined.2.2, .inl ⟨rfl, rfl⟩⟩
              · exact ⟨apart, free, fun listed => unseen (List.mem_cons_of_mem _ listed),
                  .inr found⟩
            · rintro ⟨apart, free, unseen, new | found⟩
              · exact .inl new
              · by_cases same : first.from = id ∧ target = migration
                · exact .inl same
                · refine .inr ⟨apart, free, fun listed => ?_, found⟩
                  rcases List.mem_cons.mp listed with pair | old
                  · exact same ⟨(Prod.mk.inj pair).1.symm, (Prod.mk.inj pair).2.symm⟩
                  · exact unseen old

/-! ## The phase -/

theorem extends_addStoreEdges (sound : Sound ctx) : Extends ctx ctx.addStoreEdges := by
  rw [addStoreEdges_eq]
  exact (storeWaits_pushes sound).later.trans ⟨rfl, fun _ known => known, List.Subset.refl _⟩

theorem addStoreEdges_nodes (sound : Sound ctx) : ctx.addStoreEdges.nodes = ctx.nodes :=
  (storeWaits_pushes sound).nodes_eq

/-- A store that a task names stays up. -/
theorem NamesStore.stays (sound : Sound ctx) (free : ctx.addStoreEdges.Unblocked)
    {id store : String} (names : ctx.NamesStore id store) :
    ∃ target, ctx.nodes[store]? = some target ∧ target.kind ≠ .task := by
  obtain ⟨task, filed, named⟩ := names
  obtain rfl := (sound.node_sound id task filed).named
  have known := (sound.node_sound task.id task filed).stores_known store named
  obtain ⟨target, lookup⟩ :=
    Option.isSome_iff_exists.mp (ExtTreeMap.mem_iff_isSome_getElem?.mp known)
  have served := storeWaits_served sound filed (List.ne_nil_of_mem named) free
  rw [(storeWaits_pushes sound).nodes_eq] at served
  exact ⟨target, lookup, (served.1 store named target lookup).1⟩

/-- A task is no store. -/
theorem not_namesStore_of_names (sound : Sound ctx) (free : ctx.addStoreEdges.Unblocked)
    {task other store : String} (names : ctx.NamesStore task store) :
    ¬ctx.NamesStore other task := by
  intro named
  obtain ⟨target, filed, stays⟩ := named.stays sound free
  obtain ⟨node, lookup, listed⟩ := names
  obtain rfl := Option.some.inj (filed.symm.trans lookup)
  exact stays ((sound.node_sound task target filed).store_task (List.ne_nil_of_mem listed))

/-- What waits on a node once the stores are waited on. -/
theorem needs_storeWaits (sound : Sound ctx) (free : ctx.addStoreEdges.Unblocked) :
    Needs ctx.storeWaits.1.edges id dep ↔
      Needs ctx.edges id dep ∨ ¬Linked ctx.edges id dep ∧ ctx.NamesStore id dep := by
  have pushes := storeWaits_pushes sound
  rw [pushes.needs_iff]
  constructor
  · rintro (needs | ⟨apart, linked⟩)
    · exact .inl needs
    · exact .inr ⟨apart, (pushes.linked_cases linked).resolve_left apart⟩
  · rintro (needs | ⟨apart, names⟩)
    · exact .inl needs
    · obtain ⟨target, lookup, -⟩ := names.stays sound free
      obtain ⟨task, filed, named⟩ := names
      obtain rfl := (sound.node_sound id task filed).named
      have served := storeWaits_served sound filed (List.ne_nil_of_mem named) free
      rw [pushes.nodes_eq] at served
      exact .inr ⟨apart, (served.1 dep named target lookup).2⟩

/-- What waits on a node once the phase is over. -/
theorem needs_addStoreEdges (sound : Sound ctx) (free : ctx.addStoreEdges.Unblocked) :
    Needs ctx.addStoreEdges.edges id dep ↔ Needs ctx.storeWaits.1.edges id dep ∨
      id ≠ dep ∧ ¬Linked ctx.storeWaits.1.edges id dep ∧
        ∃ store, Needs ctx.storeWaits.1.edges id store ∧ ctx.MigratesStore dep store := by
  have needed : Needs (impliedEdges ctx.storeWaits.1.edges ctx.storeWaits.2 []
      (ctx.storeWaits.1.edges.filter Edge.neededToStart)) id dep ↔
      Linked (impliedEdges ctx.storeWaits.1.edges ctx.storeWaits.2 []
        (ctx.storeWaits.1.edges.filter Edge.neededToStart)) id dep := by
    refine ⟨Needs.linked, ?_⟩
    rintro ⟨edge, listed, ends⟩
    exact ⟨edge, listed, impliedEdges_needed _ _ _ _ edge listed, ends⟩
  rw [addStoreEdges_eq, needs_append, needed, linked_impliedEdges]
  apply or_congr_right
  apply and_congr_right
  intro
  apply and_congr_right
  intro
  constructor
  · rintro ⟨-, edge, listed, rfl, recorded⟩
    obtain ⟨kept, starts⟩ := List.mem_filter.mp listed
    exact ⟨edge.to, ⟨edge, kept, starts, rfl, rfl⟩, storeWaits_migrations sound recorded⟩
  · rintro ⟨store, ⟨edge, kept, starts, rfl, rfl⟩, task, filed, migrates⟩
    refine ⟨List.not_mem_nil, edge, List.mem_filter.mpr ⟨kept, starts⟩, rfl, ?_⟩
    obtain rfl := (sound.node_sound dep task filed).named
    exact (storeWaits_served sound filed (by simp [storesOf, migrates]) free).2 edge.to migrates

/-- What waits on a store: what the files make wait on it, and the tasks that name it where no file
joins the two. -/
theorem needs_store (sound : Sound ctx) (free : ctx.addStoreEdges.Unblocked)
    {task store : String} (named : ctx.NamesStore task store) {id : String} :
    Needs ctx.addStoreEdges.edges id store ↔
      Needs ctx.edges id store ∨ ¬Linked ctx.edges id store ∧ ctx.NamesStore id store := by
  rw [needs_addStoreEdges sound free, ← needs_storeWaits sound free, or_iff_left]
  -- a store is no migration, so nothing is implied towards it
  rintro ⟨-, -, other, -, migrates⟩
  exact not_namesStore_of_names sound free migrates.names named

/-- What waits on a migration: what the files make wait on it, and what waits on its store where no
file joins the two. -/
theorem needs_migration (sound : Sound ctx) (free : ctx.addStoreEdges.Unblocked)
    {migration store : String} (migrates : ctx.MigratesStore migration store) {id : String}
    (other : id ≠ migration) :
    Needs ctx.addStoreEdges.edges id migration ↔ Needs ctx.edges id migration ∨
      ¬Linked ctx.edges id migration ∧ Needs ctx.addStoreEdges.edges id store := by
  have pushes := storeWaits_pushes sound
  have noStore : ¬ctx.NamesStore id migration := not_namesStore_of_names sound free migrates.names
  have linked : Linked ctx.storeWaits.1.edges id migration ↔ Linked ctx.edges id migration :=
    ⟨fun joined => (pushes.linked_cases joined).resolve_right noStore, pushes.linked⟩
  have waits : Needs ctx.addStoreEdges.edges id store ↔ Needs ctx.storeWaits.1.edges id store := by
    rw [needs_store sound free migrates.names, needs_storeWaits sound free]
  rw [needs_addStoreEdges sound free, linked, waits, needs_storeWaits sound free]
  constructor
  · rintro ((needs | ⟨-, names⟩) | ⟨-, apart, others, needs, also⟩)
    · exact .inl needs
    · exact absurd names noStore
    · obtain ⟨task, filed, named⟩ := migrates
      obtain ⟨same, lookup, named'⟩ := also
      obtain rfl := Option.some.inj (filed.symm.trans lookup)
      obtain rfl := Option.some.inj (named.symm.trans named')
      exact .inr ⟨apart, needs⟩
  · rintro (needs | ⟨apart, needs⟩)
    · exact .inl (.inl needs)
    · exact .inr ⟨other, apart, store, needs, migrates⟩

theorem Sound.addStoreEdges (sound : Sound ctx) : Sound ctx.addStoreEdges := by
  have pushes := storeWaits_pushes sound
  have waits : Sound ctx.storeWaits.1 := by
    apply sound.extend pushes.later
    · exact fun id node filed => .inl (pushes.nodes_eq ▸ filed)
    · intro edge listed
      rw [pushes.nodes_eq]
      rcases pushes.new edge listed with old | ⟨-, ⟨task, filed, names⟩, -⟩
      · exact .inl old
      · exact .inr ⟨ExtTreeMap.mem_iff_isSome_getElem?.mpr (Option.isSome_of_eq_some filed),
          (sound.node_sound edge.from task filed).stores_known edge.to names⟩
  refine waits.extend ⟨rfl, fun _ known => known, List.Subset.refl _⟩ (fun _ _ filed => .inl filed)
    fun edge listed => ?_
  rcases List.mem_append.mp listed with old | implied
  · exact .inl old
  · obtain ⟨-, -, -, cause, kept, same, recorded⟩ :=
      linked_impliedEdges.mp ⟨edge, implied, rfl, rfl⟩
    obtain ⟨task, filed, -⟩ := storeWaits_migrations sound recorded
    refine .inr ⟨same ▸ (waits.ends_known cause (List.mem_filter.mp kept).1).1, ?_⟩
    rw [show ctx.addStoreEdges.nodes = ctx.nodes from pushes.nodes_eq]
    exact ExtTreeMap.mem_iff_isSome_getElem?.mpr (Option.isSome_of_eq_some filed)

end ResolveCtx
end Resolver
end Fghj
