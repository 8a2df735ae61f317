import Fghj.CardLayout

/-!
# The layout depends on the graph alone

Cards and edges are sorted before anything is laid out, so the order in which the files list them
changes nothing. The order of the ids is that of their UTF-16 units, the order of the edges that of
the reader's language.
-/

namespace Fghj
namespace GraphView

/-! ## The order of the ids -/

theorem valid_toNat (char : Char) :
    char.toNat < 0xD800 ∨ 0xDFFF < char.toNat ∧ char.toNat < 0x110000 := char.valid

/-- No character's units begin another's: a first unit of two is no character of its own. -/
theorem unitsOf_append_inj {one other : Char} {rest more : List Nat}
    (same : unitsOf one ++ rest = unitsOf other ++ more) : one = other ∧ rest = more := by
  have first := valid_toNat one
  have second := valid_toNat other
  simp only [unitsOf] at same
  split at same <;> split at same <;>
    simp only [List.cons_append, List.nil_append, List.cons.injEq] at same
  · exact ⟨Char.toNat_inj.mp same.1, same.2⟩
  · omega
  · omega
  · exact ⟨Char.toNat_inj.mp (by omega), same.2.2⟩

theorem codeUnits_inj {one other : String} (same : codeUnits one = codeUnits other) :
    one = other := by
  rw [codeUnits, codeUnits] at same
  rw [← String.toList_inj]
  generalize one.toList = left at same ⊢
  generalize other.toList = right at same ⊢
  have some (char : Char) (rest : List Nat) : unitsOf char ++ rest ≠ [] := by
    rw [unitsOf]
    split <;> simp
  induction left generalizing right with
  | nil =>
      cases right with
      | nil => rfl
      | cons char right => exact absurd same.symm (some char _)
  | cons char left ih =>
      cases right with
      | nil => exact absurd same (some char _)
      | cons next right =>
          obtain ⟨rfl, rest⟩ := unitsOf_append_inj same
          rw [ih right rest]

theorem sortIds_congr {ids others : List String} (perm : ids.Perm others) :
    sortIds ids = sortIds others := by
  have sorted (ids : List String) :
      (sortIds ids).Pairwise fun one other => codeUnits one ≤ codeUnits other :=
    haveI : Std.Total fun one other : String => codeUnits one ≤ codeUnits other :=
      ⟨fun one other => le_total (codeUnits one) (codeUnits other)⟩
    haveI : IsTrans String fun one other => codeUnits one ≤ codeUnits other :=
      ⟨fun _ _ _ first second => le_trans first second⟩
    List.pairwise_insertionSort _ ids
  refine List.Perm.eq_of_pairwise (fun one other _ _ first second =>
    codeUnits_inj (le_antisymm first second)) (sorted ids) (sorted others) ?_
  exact (List.perm_insertionSort _ ids).trans (perm.trans (List.perm_insertionSort _ others).symm)

/-! ## The order of the edges -/

/-- The reader's language orders strings, some of them as equals. -/
structure Collates (localeCompare : String → String → Int) : Prop where
  flip : ∀ one other, localeCompare one other < 0 ↔ 0 < localeCompare other one
  trans : ∀ one other third, localeCompare one other ≤ 0 → localeCompare other third ≤ 0 →
    localeCompare one third ≤ 0

/-- No two of the ids are equals in the reader's language. -/
def TellsApart (localeCompare : String → String → Int) (ids : List String) : Prop :=
  ∀ one ∈ ids, ∀ other ∈ ids, localeCompare one other = 0 → one = other

variable {localeCompare : String → String → Int} {one other third : Edge}

theorem Collates.zero (collates : Collates localeCompare) (one other : String) :
    localeCompare one other = 0 ↔ localeCompare other one = 0 := by
  have there := collates.flip one other
  have back := collates.flip other one
  omega

theorem compareEdges_le : compareEdges localeCompare one other ≤ 0 ↔
    localeCompare one.from other.from < 0 ∨
      localeCompare one.from other.from = 0 ∧ localeCompare one.to other.to ≤ 0 := by
  rw [compareEdges, orElse]
  split <;> omega

/-- Of two edges one may stand before the other. -/
theorem compareEdges_total (collates : Collates localeCompare) (one other : Edge) :
    compareEdges localeCompare one other ≤ 0 ∨ compareEdges localeCompare other one ≤ 0 := by
  have sources := collates.flip other.from one.from
  have targets := collates.flip other.to one.to
  have zero := collates.zero one.from other.from
  rw [compareEdges_le, compareEdges_le]
  omega

theorem compareEdges_trans (collates : Collates localeCompare)
    (first : compareEdges localeCompare one other ≤ 0)
    (second : compareEdges localeCompare other third ≤ 0) :
    compareEdges localeCompare one third ≤ 0 := by
  rw [compareEdges_le] at *
  have sources := collates.trans one.from other.from third.from
  have targets := collates.trans one.to other.to third.to
  -- Were the outer two equals, so would the middle one be.
  have back := collates.trans third.from one.from other.from
  have forth := collates.trans other.from third.from one.from
  have ends := collates.flip one.from third.from
  have upper := collates.flip one.from other.from
  have lower := collates.flip other.from third.from
  have zero := collates.zero one.from third.from
  have left := collates.zero one.from other.from
  have right := collates.zero other.from third.from
  omega

/-- Edges that may stand either way round have the same ends. -/
theorem compareEdges_antisymm {ids : List String} (collates : Collates localeCompare)
    (apart : TellsApart localeCompare ids)
    (known : one.from ∈ ids ∧ one.to ∈ ids) (also : other.from ∈ ids ∧ other.to ∈ ids)
    (first : compareEdges localeCompare one other ≤ 0)
    (second : compareEdges localeCompare other one ≤ 0) :
    one.from = other.from ∧ one.to = other.to := by
  rw [compareEdges_le] at first second
  have sources := collates.flip one.from other.from
  have sourcesBack := collates.flip other.from one.from
  have targets := collates.flip one.to other.to
  have targetsBack := collates.flip other.to one.to
  exact ⟨apart _ known.1 _ also.1 (by omega), apart _ known.2 _ also.2 (by omega)⟩

/-! ## The layout -/

variable {shown other : Shown}

/-- The two graphs have the same cards and edges, whatever order they list them in. -/
structure SameShown (shown other : Shown) : Prop where
  nodes : shown.nodes.Perm other.nodes
  edges : shown.edges.Perm other.edges

theorem SameShown.ids (same : SameShown shown other) :
    (shown.nodes.map Node.id).Perm (other.nodes.map Node.id) := same.nodes.map Node.id

/-- Each pair of cards is joined by one edge, so sorting the edges forgets their order. -/
theorem layoutEdges_congr (collates : Collates localeCompare)
    (apart : TellsApart localeCompare (shown.nodes.map Node.id)) (same : SameShown shown other)
    (once : (shown.edges.map fun edge => (edge.from, edge.to)).Nodup) :
    layoutEdges localeCompare shown = layoutEdges localeCompare other := by
  have sorted (edges : List Edge) :
      (edges.insertionSort fun one other => compareEdges localeCompare one other ≤ 0).Pairwise
        fun one other => compareEdges localeCompare one other ≤ 0 :=
    haveI : Std.Total fun one other => compareEdges localeCompare one other ≤ 0 :=
      ⟨compareEdges_total collates⟩
    haveI : IsTrans Edge fun one other => compareEdges localeCompare one other ≤ 0 :=
      ⟨fun _ _ _ => compareEdges_trans collates⟩
    List.pairwise_insertionSort _ edges
  have known : shown.edges.filter (fun edge => edge.from ∈ shown.nodes.map Node.id &&
        edge.to ∈ shown.nodes.map Node.id && edge.from != edge.to) =
      shown.edges.filter fun edge => edge.from ∈ other.nodes.map Node.id &&
        edge.to ∈ other.nodes.map Node.id && edge.from != edge.to := by
    refine List.filter_congr fun edge _ => ?_
    simp only [same.ids.mem_iff]
  refine List.Perm.eq_of_pairwise (fun one two first second before after => ?_) (sorted _)
    (sorted _) ?_
  · obtain ⟨listed, source, target, -⟩ := mem_layoutEdges.mp first
    obtain ⟨also, otherSource, otherTarget, -⟩ := mem_layoutEdges.mp second
    rw [← same.ids.mem_iff] at otherSource otherTarget
    obtain ⟨from_eq, to_eq⟩ := compareEdges_antisymm collates apart ⟨source, target⟩
      ⟨otherSource, otherTarget⟩ before after
    exact List.inj_on_of_nodup_map once listed (same.edges.mem_iff.mpr also)
      (Prod.ext from_eq to_eq)
  · simp only [layoutEdges]
    rw [known]
    exact (List.perm_insertionSort _ _).trans
      ((same.edges.filter _).trans (List.perm_insertionSort _ _).symm)

/-- An id has one node, so its repo does not depend on the order. -/
theorem repoOf_congr (same : SameShown shown other) (distinct : (shown.nodes.map Node.id).Nodup) :
    repoOf shown.nodes = repoOf other.nodes := by
  have found (nodes : List Node) (id : String) (distinct : (nodes.map Node.id).Nodup)
      (node : Node) :
      nodes.reverse.find? (fun node => node.id == id) = some node ↔
        node ∈ nodes ∧ node.id = id := by
    constructor
    · intro lookup
      exact ⟨List.mem_reverse.mp (List.mem_of_find?_eq_some lookup), by
        simpa using List.find?_some lookup⟩
    · rintro ⟨member, rfl⟩
      cases lookup : nodes.reverse.find? fun other => other.id == node.id with
      | none => simpa using List.find?_eq_none.mp lookup node (List.mem_reverse.mpr member)
      | some first =>
          have listed := List.mem_reverse.mp (List.mem_of_find?_eq_some lookup)
          have named : first.id = node.id := by simpa using List.find?_some lookup
          rw [List.inj_on_of_nodup_map distinct listed member named]
  funext id
  have lookup : shown.nodes.reverse.find? (fun node => node.id == id) =
      other.nodes.reverse.find? fun node => node.id == id := by
    ext node
    rw [found shown.nodes id distinct, found other.nodes id (same.ids.nodup_iff.mp distinct),
      same.nodes.mem_iff]
  rw [repoOf, repoOf, lookup]

/-- The graphs that dagre is given, one a group. -/
def fed (localeCompare : String → String → Int) (shown : Shown) :
    List ((String → Option String) × List String × List Edge) :=
  let edges := layoutEdges localeCompare shown
  (connectedOf localeCompare shown).map fun members =>
    (repoOf shown.nodes, members, edges.filter fun edge => edge.from ∈ members)

/-- The same cards and edges give dagre the same graphs and are laid out in the same way, whatever
order they are listed in. -/
theorem layout_congr {page : Page} (collates : Collates page.localeCompare)
    (apart : TellsApart page.localeCompare (shown.nodes.map Node.id))
    (same : SameShown shown other) (distinct : (shown.nodes.map Node.id).Nodup)
    (once : (shown.edges.map fun edge => (edge.from, edge.to)).Nodup) :
    fed page.localeCompare shown = fed page.localeCompare other ∧
      layout page shown = layout page other := by
  have edges := layoutEdges_congr collates apart same once
  have ids := sortIds_congr same.ids
  have repos := repoOf_congr same distinct
  constructor
  · simp only [fed, connectedOf, edges, ids, repos]
  · simp only [layout, sheetOf, connectedOf, isolatedOf, edges, ids, repos]

theorem collates_shopPage : Collates shopPage.localeCompare where
  flip := by
    intro one other
    simp only [shopPage]
    rcases lt_trichotomy one other with before | rfl | after
    · simp [before, not_lt_of_gt before, (ne_of_lt before).symm]
    · simp
    · simp [after, not_lt_of_gt after, (ne_of_lt after).symm]
  trans := by
    have le_iff (one other : String) : shopPage.localeCompare one other ≤ 0 ↔ one ≤ other := by
      simp only [shopPage]
      rcases lt_trichotomy one other with before | rfl | after
      · simp [before, before.le]
      · simp
      · simp [not_lt_of_gt after, (ne_of_lt after).symm, not_le_of_gt after]
    intro one other third first second
    rw [le_iff] at *
    exact first.trans second

theorem tellsApart_shopPage (ids : List String) : TellsApart shopPage.localeCompare ids := by
  intro one _ other _ zero
  simp only [shopPage] at zero
  split at zero
  · cases zero
  · split at zero
    · assumption
    · cases zero

/-- The shop's cards and edges, listed the other way round. -/
def shopReversed : Shown :=
  let shown := shownOf String.toLower "ws" (Resolver.shopFiles []) ∅ true
  { shown with nodes := shown.nodes.reverse, edges := shown.edges.reverse }

theorem layout_congr_shop :
    let shown := shownOf String.toLower "ws" (Resolver.shopFiles []) ∅ true
    fed shopPage.localeCompare shown = fed shopPage.localeCompare shopReversed ∧
      layout shopPage shown = layout shopPage shopReversed :=
  layout_congr collates_shopPage (tellsApart_shopPage _)
    ⟨(List.reverse_perm _).symm, (List.reverse_perm _).symm⟩ (shownOf_nodup true) (by decide)

end GraphView
end Fghj
