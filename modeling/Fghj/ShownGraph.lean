import Fghj.ImpliedEdges

/-!
# The graph as it is drawn

The page draws a migration as a part of its store, so its edges move to the store's card, and leaves
out the implied edges, of which the edge to the store says enough. Each pair of cards is joined by
one edge. Seeds can be hidden, edges and all.
-/

namespace Fghj

open Std
open Resolver (MigrationsImplied)

variable {node : Node}

namespace GraphView

/-! ## Folding the migrations -/

/-- `byId` -/
def byId (nodes : List Node) : OrderedMap String Node :=
  nodes.foldl (fun found node => found.insert node.id node) ∅

/-- The store of each migration, and the migration of each store. -/
structure Folded where
  storeOf : OrderedMap String String := ∅
  migrationOf : OrderedMap String Node := ∅

/-- `n.migrates && byId[n.migrates]` -/
def foldsInto (nodes : List Node) (node : Node) : Option String :=
  node.migrates.filter fun store => store ≠ "" && (byId nodes).contains store

def foldNode (nodes : List Node) (folded : Folded) (node : Node) : Folded :=
  match foldsInto nodes node with
  | none => folded
  | some store =>
      { storeOf := folded.storeOf.insert node.id store
        migrationOf := folded.migrationOf.insert store node }

def folded (nodes : List Node) : Folded := nodes.foldl (foldNode nodes) {}

/-- `storeOf[id] ?? id`, for ids that are not names of properties that every object has. -/
def card (nodes : List Node) (id : String) : String := ((folded nodes).storeOf[id]?).getD id

/-- `${from}|${to}` -/
def pairKey (source target : String) : String := source ++ "|" ++ target

/-- The edges to draw, each pair of cards once. -/
def foldEdges (nodes : List Node) (hidden : List String) : List String → List Edge → List Edge
  | _, [] => []
  | seen, edge :: rest =>
      if edge.implied || edge.from ∈ hidden || edge.to ∈ hidden then foldEdges nodes hidden
        seen rest
      else
        let source := card nodes edge.from
        let target := card nodes edge.to
        let key := pairKey source target
        if source = target || key ∈ seen then foldEdges nodes hidden seen rest
        else
          { edge with «from» := source, «to» := target } ::
            foldEdges nodes hidden (key :: seen) rest

/-- What the page draws. -/
structure Shown where
  nodes : List Node
  edges : List Edge
  migrationOf : OrderedMap String Node

def hiddenSeeds (nodes : List Node) (showSeeds : Bool) : List String :=
  if showSeeds then [] else (nodes.filter fun node => !node.seeds.isEmpty).map Node.id

def foldMigrations (graph : Graph) (showSeeds : Bool) : Shown :=
  let hidden := hiddenSeeds graph.nodes showSeeds
  { nodes := graph.nodes.filter fun node =>
      !(folded graph.nodes).storeOf.contains node.id && !decide (node.id ∈ hidden)
    edges := foldEdges graph.nodes hidden [] graph.edges
    migrationOf := (folded graph.nodes).migrationOf }

/-! ## Keys -/

theorem pairKey_inj {source target other rest : String} (bare : '|' ∉ source.toList)
    (otherBare : '|' ∉ other.toList) :
    pairKey source target = pairKey other rest ↔ source = other ∧ target = rest := by
  rw [← String.toList_inj, ← @String.toList_inj source, ← @String.toList_inj target]
  have whole (front back : String) :
      (pairKey front back).toList = front.toList ++ '|' :: back.toList := by
    simp [pairKey]
  rw [whole, whole]
  exact Text.append_separator_inj bare otherBare

variable {nodes : List Node}

/-- What the edges to draw join: the ends of an edge that is drawn, moved to their cards, unless
they are on one card or the pair has been drawn. -/
theorem linked_foldEdges {hidden seen : List String} {edges : List Edge}
    (bare : ∀ edge ∈ edges, '|' ∉ (card nodes edge.from).toList) {source target : String} :
    Linked (foldEdges nodes hidden seen edges) source target ↔
      source ≠ target ∧ pairKey source target ∉ seen ∧ ∃ edge ∈ edges, edge.implied = false ∧
        edge.from ∉ hidden ∧ edge.to ∉ hidden ∧
        card nodes edge.from = source ∧ card nodes edge.to = target := by
  induction edges generalizing seen with
  | nil => simp [foldEdges, Linked]
  | cons edge rest ih =>
      have later := fun seen => @ih seen fun other listed =>
        bare other (List.mem_cons_of_mem _ listed)
      simp only [List.exists_mem_cons_iff]
      simp only [foldEdges, Bool.or_eq_true, decide_eq_true_eq]
      split
      · rename_i skipped
        rw [later]
        have unseen : ¬(edge.implied = false ∧ edge.from ∉ hidden ∧ edge.to ∉ hidden ∧
            card nodes edge.from = source ∧ card nodes edge.to = target) := by
          rintro ⟨plain, fromShown, toShown, -⟩
          simp [plain, fromShown, toShown] at skipped
        rw [or_iff_right unseen]
      rename_i drawn
      simp only [not_or, Bool.not_eq_true] at drawn
      obtain ⟨⟨plain, fromShown⟩, toShown⟩ := drawn
      have head : (edge.implied = false ∧ edge.from ∉ hidden ∧ edge.to ∉ hidden ∧
          card nodes edge.from = source ∧ card nodes edge.to = target) ↔
          card nodes edge.from = source ∧ card nodes edge.to = target := by
        simp [plain, fromShown, toShown]
      rw [head]
      split
      · rename_i repeated
        rw [later]
        constructor
        · rintro ⟨apart, fresh, found⟩
          exact ⟨apart, fresh, .inr found⟩
        · rintro ⟨apart, fresh, ⟨rfl, rfl⟩ | found⟩
          · rcases repeated with same | known
            · exact absurd same apart
            · exact absurd known fresh
          · exact ⟨apart, fresh, found⟩
      · rename_i fresh
        rw [not_or] at fresh
        have first : Linked
            ({ edge with «from» := card nodes edge.from, «to» := card nodes edge.to } ::
            foldEdges nodes hidden (pairKey (card nodes edge.from)
              (card nodes edge.to) :: seen) rest)
              source target ↔
            (card nodes edge.from = source ∧ card nodes edge.to = target) ∨
              Linked (foldEdges nodes hidden
                (pairKey (card nodes edge.from) (card nodes edge.to) :: seen) rest) source
                  target := by
          simp [Linked]
        rw [first, later]
        constructor
        · rintro (⟨rfl, rfl⟩ | ⟨apart, unseen, found⟩)
          · exact ⟨fresh.1, fresh.2, .inl ⟨rfl, rfl⟩⟩
          · exact ⟨apart, fun known => unseen (List.mem_cons_of_mem _ known), .inr found⟩
        · rintro ⟨apart, unseen, now | found⟩
          · exact .inl now
          · by_cases same : card nodes edge.from = source ∧ card nodes edge.to = target
            · exact .inl same
            · refine .inr ⟨apart, fun known => ?_, found⟩
              rcases List.mem_cons.mp known with key | old
              · -- the key names the pair, since no card's id holds the bar
                obtain ⟨other, listed, -, -, -, rfl, rfl⟩ := found
                have both := (pairKey_inj (bare other (List.mem_cons_of_mem _ listed))
                  (bare edge List.mem_cons_self)).mp key
                exact same ⟨both.1.symm, both.2.symm⟩
              · exact unseen old

/-- A drawn edge is an edge of the graph moved to the cards of its ends. -/
theorem mem_foldEdges {hidden seen : List String} {edges : List Edge} {drawn : Edge}
    (listed : drawn ∈ foldEdges nodes hidden seen edges) :
    ∃ edge ∈ edges, drawn =
      { edge with «from» := card nodes edge.from, «to» := card nodes edge.to } := by
  induction edges generalizing seen with
  | nil => cases listed
  | cons edge rest ih =>
      have later : ∀ {seen}, drawn ∈ foldEdges nodes hidden seen rest → ∃ other ∈ edge :: rest,
          drawn = { other with «from» := card nodes other.from, «to» := card nodes other.to } := by
        intro seen member
        obtain ⟨other, known, same⟩ := ih member
        exact ⟨other, List.mem_cons_of_mem _ known, same⟩
      simp only [foldEdges] at listed
      split at listed
      · exact later listed
      split at listed
      · exact later listed
      · rcases List.mem_cons.mp listed with rfl | member
        · exact ⟨edge, List.mem_cons_self, rfl⟩
        · exact later member

/-- Each pair of cards is joined once. -/
theorem nodup_foldEdges {hidden seen : List String} {edges : List Edge}
    (bare : ∀ edge ∈ edges, '|' ∉ (card nodes edge.from).toList) :
    ((foldEdges nodes hidden seen edges).map fun edge => (edge.from, edge.to)).Nodup := by
  induction edges generalizing seen with
  | nil => exact List.nodup_nil
  | cons edge rest ih =>
      have later := fun other listed => bare other (List.mem_cons_of_mem edge listed)
      simp only [foldEdges]
      split
      · exact ih later
      split
      · exact ih later
      · rw [List.map_cons, List.nodup_cons]
        refine ⟨fun again => ?_, ih later⟩
        obtain ⟨other, listed, pair⟩ := List.mem_map.mp again
        have linked := (linked_foldEdges later).mp ⟨other, listed, rfl, rfl⟩
        obtain ⟨source, target⟩ := Prod.mk.inj pair
        exact linked.2.1 (source ▸ target ▸ List.mem_cons_self)

/-! ## Cards -/

theorem contains_byId {id : String} : (byId nodes).contains id ↔ id ∈ nodes.map Node.id := by
  have kept (found : OrderedMap String Node) :
      (nodes.foldl (fun found node => found.insert node.id node) found).contains id ↔
        found.contains id ∨ id ∈ nodes.map Node.id := by
    induction nodes generalizing found with
    | nil => simp
    | cons node nodes ih =>
        rw [List.foldl_cons, ih, ExtTreeMap.contains_insert, Bool.or_eq_true, beq_iff_eq,
          Std.compare_eq_iff_eq, List.map_cons, List.mem_cons]
        tauto
  rw [byId, kept]
  simp

/-- The migrations that are folded, each with its store. -/
def foldedPairs (nodes rest : List Node) : List (Node × String) :=
  rest.filterMap fun node => (foldsInto nodes node).map (Prod.mk node)

theorem foldl_foldNode (nodes rest : List Node) (acc : Folded) :
    rest.foldl (foldNode nodes) acc =
      { storeOf := (foldedPairs nodes rest).foldl
          (fun stores pair => stores.insert pair.1.id pair.2) acc.storeOf
        migrationOf := (foldedPairs nodes rest).foldl
          (fun migrations pair => migrations.insert pair.2 pair.1) acc.migrationOf } := by
  induction rest generalizing acc with
  | nil => rfl
  | cons node rest ih =>
      have split : foldedPairs nodes (node :: rest) =
          (foldsInto nodes node).toList.map (Prod.mk node) ++ foldedPairs nodes rest := by
        rw [foldedPairs, foldedPairs, List.filterMap_cons]
        cases foldsInto nodes node <;> rfl
      rw [List.foldl_cons, ih, split, List.foldl_append, List.foldl_append, foldNode]
      cases foldsInto nodes node <;> rfl

theorem mem_foldedPairs {nodes rest : List Node} {store : String} :
    (node, store) ∈ foldedPairs nodes rest ↔ node ∈ rest ∧ foldsInto nodes node = some store := by
  simp only [foldedPairs, List.mem_filterMap, Option.map_eq_some_iff]
  constructor
  · rintro ⟨other, listed, named, folds, pair⟩
    obtain ⟨rfl, rfl⟩ := Prod.mk.inj pair
    exact ⟨listed, folds⟩
  · rintro ⟨listed, folds⟩
    exact ⟨node, listed, store, folds, rfl⟩

theorem sublist_foldedPairs (nodes rest : List Node) :
    ((foldedPairs nodes rest).map fun pair => pair.1.id).Sublist (rest.map Node.id) := by
  induction rest with
  | nil => exact .slnil
  | cons node rest ih =>
      rw [foldedPairs, List.filterMap_cons]
      cases foldsInto nodes node with
      | none => exact ih.trans (List.sublist_cons_self _ _)
      | some store => exact ih.cons_cons _

end GraphView

/-- The card a node is on: that of the store it migrates, or its own. -/
def Node.home (node : Node) : String := node.migrates.getD node.id

/-- Hiding the seeds hides a node that seeds something. -/
def Node.Visible (node : Node) (showSeeds : Bool) : Prop := showSeeds = true ∨ node.seeds = []

namespace GraphView

/-! ## Drawable graphs -/

/-- The edge joins visible nodes on the two cards. -/
def EndsOn (graph : Graph) (showSeeds : Bool) (edge : Edge) (source target : String) : Prop :=
  ∃ one ∈ graph.nodes, ∃ other ∈ graph.nodes, one.id = edge.from ∧ other.id = edge.to ∧
    one.Visible showSeeds ∧ other.Visible showSeeds ∧ one.home = source ∧ other.home = target

/-- Some edge of the graph, implied or not, joins visible nodes on the two cards. -/
def CardsJoined (graph : Graph) (showSeeds : Bool) (source target : String) : Prop :=
  ∃ edge ∈ graph.edges, EndsOn graph showSeeds edge source target

/-- The names of the properties that every plain object of the page has. -/
def inherited : List String :=
  ["__proto__", "constructor", "hasOwnProperty", "isPrototypeOf", "propertyIsEnumerable",
    "toLocaleString", "toString", "valueOf", "__defineGetter__", "__defineSetter__",
    "__lookupGetter__", "__lookupSetter__"]

/-- Ids that the page's objects and keys tell apart: none is empty, holds the bar that a key is put
together with, or names a property that every object has. -/
def PlainIds (graph : Graph) : Prop :=
  ∀ node ∈ graph.nodes, node.id ≠ "" ∧ '|' ∉ node.id.toList ∧ node.id ∉ inherited

instance (graph : Graph) : Decidable (PlainIds graph) := List.decidableBAll _ _

variable {graph : Graph}

/-- Every migration of a graph that can be started is folded into its store. -/
theorem foldsInto_eq (startable : graph.Startable) (plain : PlainIds graph)
    (member : node ∈ graph.nodes) : foldsInto graph.nodes node = node.migrates := by
  rw [foldsInto]
  cases migrates : node.migrates with
  | none => rfl
  | some store =>
      obtain ⟨target, listed, rfl, -⟩ := startable.store_stays node member store migrates
      have known := contains_byId.mpr (List.mem_map_of_mem listed)
      simp [known, (plain target listed).1]

/-- `storeOf` holds what each node migrates. -/
theorem getElem?_storeOf (startable : graph.Startable) (plain : PlainIds graph)
    (member : node ∈ graph.nodes) : (folded graph.nodes).storeOf[node.id]? = node.migrates := by
  have pairsDistinct := startable.ids_nodup.sublist (sublist_foldedPairs graph.nodes graph.nodes)
  rw [folded, foldl_foldNode]
  cases migrates : node.migrates with
  | some store =>
      have folds := (foldsInto_eq startable plain member).trans migrates
      exact OrderedMap.getElem?_foldl_insert pairsDistinct (mem_foldedPairs.mpr ⟨member, folds⟩) _
  | none =>
      rw [OrderedMap.getElem?_foldl_insert_ne, ExtTreeMap.getElem?_empty]
      intro filed
      obtain ⟨⟨other, store⟩, listed, same⟩ := List.mem_map.mp filed
      obtain ⟨known, folds⟩ := mem_foldedPairs.mp listed
      obtain rfl := List.inj_on_of_nodup_map startable.ids_nodup known member same
      rw [foldsInto_eq startable plain known, migrates] at folds
      cases folds

/-- `migrationOf` holds the one migration of each store. -/
theorem getElem?_migrationOf (startable : graph.Startable) (plain : PlainIds graph)
    (implied : MigrationsImplied graph) {store : String} :
    (folded graph.nodes).migrationOf[store]? = some node ↔
      node ∈ graph.nodes ∧ node.migrates = some store := by
  have listed_iff {node : Node} {store : String} :
      (node, store) ∈ foldedPairs graph.nodes graph.nodes ↔
        node ∈ graph.nodes ∧ node.migrates = some store := by
    rw [mem_foldedPairs]
    exact and_congr_right fun member => by rw [foldsInto_eq startable plain member]
  have storesDistinct : ((foldedPairs graph.nodes graph.nodes).map fun pair => pair.2).Nodup := by
    have pairs : (foldedPairs graph.nodes graph.nodes).Nodup :=
      (startable.ids_nodup.sublist (sublist_foldedPairs graph.nodes graph.nodes)).of_map
    refine pairs.map_on ?_
    rintro ⟨one, store⟩ listed ⟨other, _⟩ also rfl
    obtain ⟨member, migrates⟩ := listed_iff.mp listed
    obtain ⟨known, alsoMigrates⟩ := listed_iff.mp also
    have same := implied.one one member other known store migrates alsoMigrates
    rw [List.inj_on_of_nodup_map startable.ids_nodup member known same]
  rw [folded, foldl_foldNode]
  constructor
  · intro lookup
    have filed : store ∈ (foldedPairs graph.nodes graph.nodes).map fun pair => pair.2 := by
      by_contra absent
      rw [OrderedMap.getElem?_foldl_insert_ne absent] at lookup
      simp at lookup
    obtain ⟨⟨other, named⟩, listed, rfl⟩ := List.mem_map.mp filed
    rw [OrderedMap.getElem?_foldl_insert storesDistinct listed] at lookup
    obtain rfl := Option.some.inj lookup
    exact listed_iff.mp listed
  · intro migrates
    exact OrderedMap.getElem?_foldl_insert storesDistinct (listed_iff.mpr migrates) _

/-- The card a node is on: that of the store it migrates, or its own. -/
theorem card_eq (startable : graph.Startable) (plain : PlainIds graph)
    (member : node ∈ graph.nodes) :
    card graph.nodes node.id = node.home := by
  rw [card, getElem?_storeOf startable plain member, Node.home]

/-- What stays up is no migration and no seed. -/
theorem storeless_of_stays (startable : graph.Startable) (member : node ∈ graph.nodes)
    (stays : node.kind ≠ .task) : node.migrates = none ∧ node.seeds = [] := by
  constructor
  · by_contra migrates
    exact stays (startable.store_task node member (.inl (Option.isSome_iff_ne_none.mpr migrates)))
  · by_contra seeds
    exact stays (startable.store_task node member (.inr seeds))

/-- A node's card is the card of a node that is no migration, and hidden only if the node is. -/
theorem exists_home (startable : graph.Startable) (member : node ∈ graph.nodes) :
    ∃ target ∈ graph.nodes, target.id = node.home ∧ target.migrates = none ∧
      ∀ showSeeds, node.Visible showSeeds → target.Visible showSeeds := by
  cases migrates : node.migrates with
  | none => exact ⟨node, member, by simp [Node.home, migrates], migrates, fun _ visible => visible⟩
  | some store =>
      obtain ⟨target, listed, named, stays⟩ := startable.store_stays node member store migrates
      obtain ⟨unmigrating, unseeding⟩ := storeless_of_stays startable listed stays
      exact ⟨target, listed, by simp [Node.home, migrates, named], unmigrating,
        fun _ _ => .inr unseeding⟩

theorem bare_card (startable : graph.Startable) (plain : PlainIds graph) :
    ∀ edge ∈ graph.edges, '|' ∉ (card graph.nodes edge.from).toList := by
  intro edge listed
  obtain ⟨node, member, named⟩ := List.mem_map.mp (startable.ends_known edge listed).1
  obtain ⟨target, known, home, -⟩ := exists_home startable member
  rw [← named, card_eq startable plain member, ← home]
  exact (plain target known).2.1

variable {showSeeds : Bool}

theorem hidden_iff (startable : graph.Startable) (member : node ∈ graph.nodes) :
    node.id ∈ hiddenSeeds graph.nodes showSeeds ↔ ¬node.Visible showSeeds := by
  cases showSeeds with
  | true => simp [hiddenSeeds, Node.Visible]
  | false =>
      simp only [hiddenSeeds, Bool.false_eq_true, if_false, List.mem_map, List.mem_filter,
        Bool.not_eq_true', List.isEmpty_eq_false_iff, Node.Visible, false_or]
      constructor
      · rintro ⟨other, ⟨listed, seeds⟩, same⟩
        obtain rfl := List.inj_on_of_nodup_map startable.ids_nodup listed member same
        exact seeds
      · exact fun seeds => ⟨node, ⟨member, seeds⟩, rfl⟩

/-- An edge whose ends are drawn, from one card to another. -/
theorem drawn_iff (startable : graph.Startable) (plain : PlainIds graph) {edge : Edge}
    (listed : edge ∈ graph.edges) {source target : String} :
    (edge.from ∉ hiddenSeeds graph.nodes showSeeds ∧ edge.to ∉ hiddenSeeds graph.nodes showSeeds ∧
        card graph.nodes edge.from = source ∧ card graph.nodes edge.to = target) ↔
      EndsOn graph showSeeds edge source target := by
  obtain ⟨fromKnown, toKnown⟩ := startable.ends_known edge listed
  obtain ⟨one, member, oneNamed⟩ := List.mem_map.mp fromKnown
  obtain ⟨other, filed, otherNamed⟩ := List.mem_map.mp toKnown
  rw [← oneNamed, ← otherNamed, hidden_iff startable member, hidden_iff startable filed,
    card_eq startable plain member, card_eq startable plain filed, not_not, not_not]
  constructor
  · rintro ⟨oneShown, otherShown, source, target⟩
    exact ⟨one, member, other, filed, oneNamed, otherNamed, oneShown, otherShown, source, target⟩
  · rintro ⟨first, listed, second, known, firstNamed, secondNamed, ends⟩
    have same := List.inj_on_of_nodup_map startable.ids_nodup listed member
      (firstNamed.trans oneNamed.symm)
    have sameToo := List.inj_on_of_nodup_map startable.ids_nodup known filed
      (secondNamed.trans otherNamed.symm)
    exact same ▸ sameToo ▸ ends

/-- Leaving out the implied edges leaves out no pair of cards. -/
theorem linked_foldMigrations (startable : graph.Startable) (plain : PlainIds graph)
    (implied : MigrationsImplied graph) {source target : String} :
    Linked (foldMigrations graph showSeeds).edges source target ↔
      source ≠ target ∧ CardsJoined graph showSeeds source target := by
  rw [foldMigrations, linked_foldEdges (bare_card startable plain)]
  apply and_congr_right
  intro
  rw [and_iff_right List.not_mem_nil]
  constructor
  · rintro ⟨edge, listed, -, ends⟩
    exact ⟨edge, listed, (drawn_iff startable plain listed).mp ends⟩
  · rintro ⟨edge, listed, ends⟩
    cases drawn : edge.implied with
    | false => exact ⟨edge, listed, drawn, (drawn_iff startable plain listed).mpr ends⟩
    | true =>
        -- the edge to the store joins the same cards
        obtain ⟨other, known, unimplied, same, node, member, named, migrates⟩ :=
          implied.cause edge listed drawn
        obtain ⟨one, filed, end_, found, oneNamed, endNamed, oneShown, -, source, target⟩ := ends
        obtain rfl := List.inj_on_of_nodup_map startable.ids_nodup found member
          (endNamed.trans named.symm)
        obtain ⟨store, stored, storeNamed, stays⟩ := startable.store_stays end_ found _ migrates
        obtain ⟨unmigrating, unseeding⟩ := storeless_of_stays startable stored stays
        refine ⟨other, known, unimplied, (drawn_iff startable plain known).mpr
          ⟨one, filed, store, stored, oneNamed.trans same.symm, storeNamed, oneShown,
            .inr unseeding, source, ?_⟩⟩
        rw [← target, Node.home, Node.home, unmigrating, migrates]
        exact storeNamed

/-- A shown card is a node that is neither a migration nor hidden. -/
theorem mem_shown_nodes (startable : graph.Startable) (plain : PlainIds graph) :
    node ∈ (foldMigrations graph showSeeds).nodes ↔
      node ∈ graph.nodes ∧ node.migrates = none ∧ node.Visible showSeeds := by
  simp only [foldMigrations, List.mem_filter, Bool.and_eq_true, Bool.not_eq_true',
    decide_eq_false_iff_not]
  refine and_congr_right fun member => ?_
  rw [hidden_iff startable member, not_not, ← Bool.not_eq_true, ExtTreeMap.contains_iff_mem,
    ExtTreeMap.mem_iff_isSome_getElem?, getElem?_storeOf startable plain member,
    Bool.not_eq_true, Option.isSome_eq_false_iff, Option.isNone_iff_eq_none]

end GraphView

/-! ## What is drawn -/

namespace GraphView

variable {graph : Graph} {showSeeds : Bool}

/-- What the page shows of a graph. -/
structure ShowsGraph (graph : Graph) (showSeeds : Bool) : Prop where
  cards : ∀ node, node ∈ (foldMigrations graph showSeeds).nodes ↔
    node ∈ graph.nodes ∧ node.migrates = none ∧ node.Visible showSeeds
  segments : ∀ store node, (foldMigrations graph showSeeds).migrationOf[store]? = some node ↔
    node ∈ graph.nodes ∧ node.migrates = some store
  ends : ∀ edge ∈ (foldMigrations graph showSeeds).edges,
    edge.from ∈ (foldMigrations graph showSeeds).nodes.map Node.id ∧
      edge.to ∈ (foldMigrations graph showSeeds).nodes.map Node.id ∧ edge.from ≠ edge.to
  once : ((foldMigrations graph showSeeds).edges.map fun edge => (edge.from, edge.to)).Nodup
  joined : ∀ source target, Linked (foldMigrations graph showSeeds).edges source target ↔
    source ≠ target ∧ CardsJoined graph showSeeds source target

/-- A visible node is on a shown card. -/
theorem home_shown (startable : graph.Startable) (plain : PlainIds graph)
    (member : node ∈ graph.nodes) (visible : node.Visible showSeeds) :
    node.home ∈ (foldMigrations graph showSeeds).nodes.map Node.id := by
  obtain ⟨target, listed, named, unmigrating, shows⟩ := exists_home startable member
  rw [← named]
  exact List.mem_map_of_mem
    ((mem_shown_nodes startable plain).mpr ⟨listed, unmigrating, shows showSeeds visible⟩)

theorem showsGraph (startable : graph.Startable) (plain : PlainIds graph)
    (implied : MigrationsImplied graph) (showSeeds : Bool) : ShowsGraph graph showSeeds where
  cards := fun _ => mem_shown_nodes startable plain
  segments := fun _ _ => getElem?_migrationOf startable plain implied
  ends := by
    intro edge listed
    obtain ⟨apart, -, -, one, member, other, filed, -, -, oneShown, otherShown, source, target⟩ :=
      (linked_foldMigrations startable plain implied).mp ⟨edge, listed, rfl, rfl⟩
    rw [← source, ← target] at apart ⊢
    exact ⟨home_shown startable plain member oneShown, home_shown startable plain filed otherShown,
      apart⟩
  once := nodup_foldEdges (bare_card startable plain)
  joined := fun _ _ => linked_foldMigrations startable plain implied

end GraphView

/-! ## The graph of a workspace -/

/-- The page shows every visible node of a graph that nothing refuses, on its own card or its
store's, and joins two cards once exactly when some edge of the graph, implied or not, does. -/
theorem shows_graph {toLowercase : String → String} {workspaceName : String}
    {scanned : OrderedMap String ComponentConfig} {facts : OrderedMap String RepoFacts}
    (unrefused :
      (Resolver.resolveUniverse toLowercase workspaceName scanned facts).blockingWarnings = [])
    (plain : GraphView.PlainIds
      (Resolver.resolveUniverse toLowercase workspaceName scanned facts)) (showSeeds : Bool) :
    GraphView.ShowsGraph
      (Resolver.resolveUniverse toLowercase workspaceName scanned facts) showSeeds :=
  GraphView.showsGraph (Resolver.resolveUniverse_startable unrefused) plain
    (Resolver.migrationsImplied_resolveUniverse unrefused) showSeeds

theorem shows_graph_shop :
    GraphView.ShowsGraph
      (Resolver.resolveUniverse String.toLower "ws" (Resolver.shopFiles []) ∅) false :=
  shows_graph (by decide +kernel) (by decide +kernel) false

end Fghj
