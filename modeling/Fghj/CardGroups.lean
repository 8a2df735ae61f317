import Fghj.Library.Grouping
import Fghj.Library.UnionFind
import Fghj.ShownGraph

/-!
# The groups of the cards

The page lays out each connected group of cards on its own. It finds the groups by union-find over
the drawn edges: they are the connected components, whatever order the edges come in.
-/

namespace Fghj

open Std (ExtTreeMap)

namespace GraphView

/-! ## Order -/

/-- One character in UTF-16. -/
def unitsOf (char : Char) : List Nat :=
  if char.toNat < 0x10000 then [char.toNat]
  else [0xD800 + (char.toNat - 0x10000) / 0x400, 0xDC00 + (char.toNat - 0x10000) % 0x400]

/-- What `sort` compares strings by. -/
def codeUnits (text : String) : List Nat := text.toList.flatMap unitsOf

def sortIds (ids : List String) : List String :=
  ids.insertionSort fun one other => codeUnits one ≤ codeUnits other

/-- `first || second` -/
def orElse (first second : Int) : Int := if first = 0 then second else first

variable (localeCompare : String → String → Int)

def compareEdges (one other : Edge) : Int :=
  orElse (localeCompare one.from other.from) (localeCompare one.to other.to)

/-- Biggest group first. -/
def compareGroups (one other : List String) : Int :=
  orElse ((other.length : Int) - one.length) (localeCompare (one.headD "") (other.headD ""))

/-! ## Groups -/

/-- The edges between two known cards, in order. -/
def layoutEdges (shown : Shown) : List Edge :=
  let known := shown.nodes.map Node.id
  (shown.edges.filter fun edge =>
    edge.from ∈ known && edge.to ∈ known && edge.from != edge.to).insertionSort fun one other =>
      compareEdges localeCompare one other ≤ 0

def pairsOf (edges : List Edge) : List (String × String) :=
  edges.map fun edge => (edge.from, edge.to)

/-- The parents after all edges are united. -/
def parents (edges : List Edge) : String → String :=
  (pairsOf edges).foldl (UnionFind.unite edges.length) id

/-- One card joins the group of its root. -/
def groupCard (fuel : Nat) (acc : (String → String) × List (String × List String)) (id : String) :
    (String → String) × List (String × List String) :=
  let found := UnionFind.find fuel acc.1 id
  (found.2, Grouping.pushUnder acc.2 found.1 id)

def groups (edges : List Edge) (ids : List String) : List (List String) :=
  (ids.foldl (groupCard edges.length) (parents edges, [])).2.map Prod.snd

def connectedGroups (edges : List Edge) (ids : List String) : List (List String) :=
  ((groups edges ids).filter fun members => 1 < members.length).insertionSort fun one other =>
    compareGroups localeCompare one other ≤ 0

def isolatedCards (edges : List Edge) (ids : List String) : List String :=
  ((groups edges ids).filter fun members => members.length = 1).map fun members => members.headD ""

/-- The connected groups of a shown graph. -/
def connectedOf (shown : Shown) : List (List String) :=
  connectedGroups localeCompare (layoutEdges localeCompare shown)
    (sortIds (shown.nodes.map Node.id))

/-- The cards of a shown graph without an edge. -/
def isolatedOf (shown : Shown) : List String :=
  isolatedCards (layoutEdges localeCompare shown) (sortIds (shown.nodes.map Node.id))

/-! ## The groups are the connected components -/

theorem foldl_groupCard {fuel steps : Nat} {parent roots : String → String} (enough : steps ≤ fuel)
    (represents : UnionFind.Represents parent steps roots) (ids : List String)
    (grouped : List (String × List String)) :
    (ids.foldl (groupCard fuel) (parent, grouped)).2 =
      ids.foldl (fun grouped id => Grouping.pushUnder grouped (roots id) id) grouped := by
  induction ids generalizing parent grouped with
  | nil => rfl
  | cons id ids ih =>
      obtain ⟨found, kept⟩ := represents.find enough id
      rw [List.foldl_cons, List.foldl_cons, groupCard, found]
      exact ih kept _

/-- The cards are grouped by their roots, and two have one root exactly when edges connect them. -/
theorem groups_eq (edges : List Edge) (ids : List String) :
    ∃ roots, UnionFind.Separates roots (pairsOf edges) ∧
      groups edges ids = Grouping.blocks roots ids := by
  obtain ⟨roots, represents, separates⟩ :=
    UnionFind.exists_roots_foldl_unite (pairsOf edges) (Nat.le_of_eq (List.length_map _))
  refine ⟨roots, separates, ?_⟩
  rw [groups, parents, foldl_groupCard (Nat.le_of_eq (List.length_map _)) represents,
    Grouping.foldl_pushUnder_snd]

/-- The edge joins two different known cards. -/
def JoinsCards (shown : Shown) (one other : String) : Prop :=
  Linked shown.edges one other ∧ one ≠ other ∧
    one ∈ shown.nodes.map Node.id ∧ other ∈ shown.nodes.map Node.id

variable {localeCompare} {shown : Shown}

theorem mem_layoutEdges {edge : Edge} : edge ∈ layoutEdges localeCompare shown ↔
    edge ∈ shown.edges ∧ edge.from ∈ shown.nodes.map Node.id ∧ edge.to ∈ shown.nodes.map Node.id ∧
      edge.from ≠ edge.to := by
  rw [layoutEdges, List.mem_insertionSort]
  simp [and_assoc]

variable {one other : String}

theorem mem_pairsOf_layoutEdges :
    (one, other) ∈ pairsOf (layoutEdges localeCompare shown) ↔ JoinsCards shown one other := by
  rw [pairsOf, List.mem_map, JoinsCards]
  constructor
  · rintro ⟨edge, listed, pair⟩
    obtain ⟨rfl, rfl⟩ := Prod.mk.inj pair
    obtain ⟨member, source, target, apart⟩ := mem_layoutEdges.mp listed
    exact ⟨⟨edge, member, rfl, rfl⟩, apart, source, target⟩
  · rintro ⟨⟨edge, member, rfl, rfl⟩, apart, source, target⟩
    exact ⟨edge, mem_layoutEdges.mpr ⟨member, source, target, apart⟩, rfl⟩

/-- The drawn edges connect the cards, in whatever direction. -/
abbrev Together (shown : Shown) : String → String → Prop := Relation.EqvGen (JoinsCards shown)

theorem connected_iff :
    UnionFind.Connected (pairsOf (layoutEdges localeCompare shown)) one other ↔
      Together shown one other := by
  have same : (fun one other => (one, other) ∈ pairsOf (layoutEdges localeCompare shown)) =
      JoinsCards shown := by
    funext one other
    exact propext mem_pairsOf_layoutEdges
  rw [UnionFind.Connected, same]

/-- What the groups of a shown graph are. -/
structure Components (shown : Shown) (connected : List (List String))
    (isolated : List String) : Prop where
  /-- Every card is in one group. -/
  parts : (connected.flatten ++ isolated).Perm (shown.nodes.map Node.id)
  /-- A connected group is everything that edges connect to one of its cards. -/
  whole : ∀ members ∈ connected, 2 ≤ members.length ∧
    ∀ one ∈ members, ∀ other, other ∈ members ↔ Together shown one other
  /-- An isolated card has no edge. -/
  alone : ∀ id, id ∈ isolated ↔ id ∈ shown.nodes.map Node.id ∧
    ∀ other, ¬JoinsCards shown id other ∧ ¬JoinsCards shown other id

/-- Whatever edges connect is known if one of its ends is. -/
theorem Together.known (together : Together shown one other) :
    one ∈ shown.nodes.map Node.id ↔ other ∈ shown.nodes.map Node.id := by
  induction together with
  | rel _ _ joins => exact iff_of_true joins.2.2.1 joins.2.2.2
  | refl _ => exact Iff.rfl
  | symm _ _ _ ih => exact ih.symm
  | trans _ _ _ _ _ left right => exact left.trans right

/-- A card that edges connect to another one has an edge. -/
theorem Together.exists_joins (together : Together shown one other) (apart : one ≠ other) :
    ∃ next, JoinsCards shown one next ∨ JoinsCards shown next one := by
  by_contra none
  simp only [not_exists, not_or] at none
  have stuck : ∀ {first second : String}, Together shown first second →
      (first = one ↔ second = one) := by
    intro first second together
    induction together with
    | rel here there joins =>
        constructor
        · rintro rfl
          exact absurd joins (none there).1
        · rintro rfl
          exact absurd joins (none here).2
    | refl _ => exact Iff.rfl
    | symm _ _ _ ih => exact ih.symm
    | trans _ _ _ _ _ left right => exact left.trans right
  exact apart ((stuck together).mp rfl).symm

theorem map_headD_eq_flatten {blocks : List (List String)}
    (single : ∀ members ∈ blocks, members.length = 1) :
    blocks.map (fun members => members.headD "") = blocks.flatten := by
  induction blocks with
  | nil => rfl
  | cons members blocks ih =>
      obtain ⟨id, rfl⟩ := List.length_eq_one_iff.mp (single members List.mem_cons_self)
      rw [List.map_cons, List.flatten_cons,
        ih fun other listed => single other (List.mem_cons_of_mem _ listed)]
      rfl

/-- Every block has one card or more than one. -/
theorem groups_split {blocks : List (List String)} (some : ∀ members ∈ blocks, members ≠ []) :
    ((blocks.filter fun members => 1 < members.length).flatten ++
      (blocks.filter fun members => members.length = 1).map fun members => members.headD "").Perm
        blocks.flatten := by
  rw [map_headD_eq_flatten fun members listed => by simpa using (List.mem_filter.mp listed).2,
    ← List.flatten_append]
  have others : blocks.filter (fun members => members.length = 1) =
      blocks.filter fun members => !decide (1 < members.length) := by
    refine List.filter_congr fun members listed => ?_
    have positive := List.length_pos_iff.mpr (some members listed)
    rw [← decide_not, decide_eq_decide]
    omega
  rw [others]
  exact (List.filter_append_perm _ blocks).flatten

/-- The groups of the drawn graph are its connected components. -/
theorem components (distinct : (shown.nodes.map Node.id).Nodup) :
    Components shown (connectedOf localeCompare shown) (isolatedOf localeCompare shown) := by
  rw [connectedOf, isolatedOf]
  set ids := sortIds (shown.nodes.map Node.id) with ids_eq
  have sorted : ids.Perm (shown.nodes.map Node.id) := List.perm_insertionSort _ _
  obtain ⟨roots, separates, grouped⟩ := groups_eq (layoutEdges localeCompare shown) ids
  have together (one other : String) : roots one = roots other ↔ Together shown one other :=
    (separates one other).trans connected_iff
  have ofRoot {members : List String} (listed : members ∈ groups
    (layoutEdges localeCompare shown) ids)
      {one : String} (inside : one ∈ members) (other : String) :
      other ∈ members ↔ Together shown one other := by
    rw [grouped] at listed
    obtain ⟨first, -, rfl⟩ := Grouping.mem_blocks.mp listed
    obtain ⟨known, same⟩ := List.mem_filter.mp inside
    have same : roots one = roots first := of_decide_eq_true same
    rw [List.mem_filter, decide_eq_true_eq, ← same, eq_comm, together, and_iff_right_iff_imp]
    intro joined
    exact sorted.mem_iff.mpr (joined.known.mp (sorted.mem_iff.mp known))
  refine ⟨?_, ?_, ?_⟩
  · refine .trans (.trans ?_ (@groups_split (groups (layoutEdges localeCompare shown) ids) ?_)) ?_
    · exact (List.perm_insertionSort _ _).flatten.append_right _
    · rw [grouped]
      exact (Grouping.grouped_blocks ids).ne_nil
    · rw [grouped]
      exact (Grouping.blocks_perm ids).trans sorted
  · intro members listed
    obtain ⟨member, several⟩ := List.mem_filter.mp ((List.mem_insertionSort _).mp listed)
    exact ⟨of_decide_eq_true several, fun one inside => ofRoot member inside⟩
  · intro id
    rw [isolatedCards, List.mem_map, ← sorted.mem_iff]
    constructor
    · rintro ⟨members, listed, rfl⟩
      obtain ⟨member, single⟩ := List.mem_filter.mp listed
      obtain ⟨id, rfl⟩ := List.length_eq_one_iff.mp (of_decide_eq_true single)
      have apart {other : String} (joined : Together shown id other) : other = id :=
        List.mem_singleton.mp ((ofRoot member List.mem_cons_self other).mpr joined)
      refine ⟨?_, fun other => ⟨fun joins => ?_, fun joins => ?_⟩⟩
      · rw [grouped] at member
        obtain ⟨first, -, whole⟩ := Grouping.mem_blocks.mp member
        have inside : id ∈ ids.filter fun other => roots other = roots first :=
          whole ▸ List.mem_cons_self
        exact (List.mem_filter.mp inside).1
      · exact joins.2.1 (apart (.rel _ _ joins)).symm
      · exact joins.2.1 (apart (.symm _ _ (.rel _ _ joins)))
    · rintro ⟨known, alone⟩
      have member : ids.filter (fun other => roots other = roots id) ∈
          groups (layoutEdges localeCompare shown) ids := by
        rw [grouped]
        exact Grouping.mem_blocks.mpr ⟨id, known, rfl⟩
      have inside : id ∈ ids.filter (fun other => roots other = roots id) := by simp [known]
      have only : ids.filter (fun other => roots other = roots id) = [id] := by
        refine List.perm_singleton.mp ((List.perm_ext_iff_of_nodup
          ((sorted.nodup_iff.mpr distinct).filter _) (List.nodup_singleton id)).mpr fun other => ?_)
        rw [List.mem_singleton]
        constructor
        · intro listed
          by_contra different
          obtain ⟨next, joins⟩ :=
            ((ofRoot member inside other).mp listed).exists_joins (Ne.symm different)
          rcases joins with joins | joins
          · exact (alone next).1 joins
          · exact (alone next).2 joins
        · rintro rfl
          exact inside
      refine ⟨[id], List.mem_filter.mpr ⟨only ▸ member, rfl⟩, rfl⟩

end GraphView

/-! ## The graph of a workspace -/

section Workspace

open GraphView

variable {toLowercase : String → String} {workspaceName : String}
  {scanned : OrderedMap String ComponentConfig} {facts : OrderedMap String RepoFacts}

/-- The cards of a resolved graph. -/
abbrev shownOf (toLowercase : String → String) (workspaceName : String)
    (scanned : OrderedMap String ComponentConfig) (facts : OrderedMap String RepoFacts)
    (showSeeds : Bool) : Shown :=
  foldMigrations (Resolver.resolveUniverse toLowercase workspaceName scanned facts) showSeeds

theorem shownOf_nodup (showSeeds : Bool) :
    ((shownOf toLowercase workspaceName scanned facts showSeeds).nodes.map Node.id).Nodup :=
  (Resolver.ResolveCtx.resolved_ids_nodup
    (Resolver.declaredCtx_spec toLowercase scanned facts).2).sublist
      (List.filter_sublist.map Node.id)

/-- Union-find puts the cards of any resolved graph in groups that are its connected components. -/
theorem layout_components (toLowercase : String → String) (workspaceName : String)
    (scanned : OrderedMap String ComponentConfig) (facts : OrderedMap String RepoFacts)
    (showSeeds : Bool) (localeCompare : String → String → Int) :
    Components (shownOf toLowercase workspaceName scanned facts showSeeds)
      (connectedOf localeCompare (shownOf toLowercase workspaceName scanned facts showSeeds))
      (isolatedOf localeCompare (shownOf toLowercase workspaceName scanned facts showSeeds)) :=
  components (shownOf_nodup showSeeds)

end Workspace
end Fghj
