import Fghj.CardGroups
import Mathlib.Data.Rat.Floor

/-!
# Where the cards stand

Each connected group of cards is laid out on its own, and the groups are stacked from top to bottom.
The groups are found by union-find over the drawn edges. Cards without an edge are packed into a
grid underneath. The layout within a group is dagre's, which is not part of this model.
-/

namespace Fghj

open Std (ExtTreeMap)

variable {one other : String}

namespace GraphView

def nodeW : ℚ := 320
def nodeH : ℚ := 146
def levelGap : ℚ := 400
def rowGap : ℚ := 182
def pad : ℚ := 20
def groupGap : ℚ := 60

structure Point where
  x : ℚ
  y : ℚ
  deriving DecidableEq

/-- What dagre makes of one group. -/
structure Dagre where
  width : ℚ
  height : ℚ
  /-- The centre of each card. -/
  node : String → Point
  /-- The ends of each edge and the points it passes. -/
  edges : List ((String × String) × List Point)

/-- What the browser and dagre bring along. -/
structure Page where
  localeCompare : String → String → Int
  /-- By the repos that keep their cards together, the members of a group and its edges. -/
  dagre : (String → Option String) → List String → List Edge → Dagre

variable (page : Page)

/-! ## Places -/

/-- What is laid out so far, and the height at which it goes on. -/
structure Sheet where
  pos : OrderedMap String Point := ∅
  routes : OrderedMap String (List Point) := ∅
  bottom : OrderedMap String ℚ := ∅
  y : ℚ := pad
  width : ℚ := 0

def placeGroup (repoOf : String → Option String) (edges : List Edge) (sheet : Sheet)
    (members : List String) : Sheet :=
  let dg := page.dagre repoOf members (edges.filter fun edge => edge.from ∈ members)
  { pos := members.foldl (fun pos id => pos.insert id
      { x := pad + (dg.node id).x - nodeW / 2, y := sheet.y + (dg.node id).y - nodeH / 2 })
        sheet.pos
    bottom := members.foldl (fun bottom id => bottom.insert id (sheet.y + dg.height)) sheet.bottom
    routes := dg.edges.foldl (fun routes edge =>
      let key := pairKey edge.1.1 edge.1.2
      if routes.contains key then routes
      else routes.insert key (edge.2.map fun p => { x := pad + p.x, y := sheet.y + p.y }))
        sheet.routes
    y := sheet.y + dg.height + groupGap
    width := max sheet.width dg.width }

/-- As many as the widest group spans, and at least three. -/
def perRow (width : ℚ) : Nat := (max 3 ⌊(width + levelGap - nodeW) / levelGap⌋).toNat

/-- `Math.ceil(count / row)` -/
def rowsOf (count row : Nat) : Nat := (count + row - 1) / row

/-- A card of the grid. -/
def gridPlace (row : Nat) (y : ℚ) (i : Nat) : Point :=
  { x := pad + (i % row : Nat) * levelGap, y := y + (i / row : Nat) * rowGap }

def placeIsolated (isolated : List String) (sheet : Sheet) : Sheet :=
  if isolated.isEmpty then sheet
  else
    let row := perRow sheet.width
    { sheet with
      pos := isolated.zipIdx.foldl (fun pos entry =>
        pos.insert entry.1 (gridPlace row sheet.y entry.2)) sheet.pos
      width := max sheet.width (min isolated.length row * levelGap - (levelGap - nodeW))
      y := sheet.y + rowsOf isolated.length row * rowGap - (rowGap - nodeH) + groupGap }

structure Layout where
  width : ℚ
  height : ℚ
  pos : OrderedMap String Point
  routes : OrderedMap String (List Point)
  bottom : OrderedMap String ℚ

/-- `repoOf[id]` -/
def repoOf (nodes : List Node) (id : String) : Option String :=
  (nodes.reverse.find? fun node => node.id == id).bind Node.localPath

/-- The sheet with every group and the grid on it. -/
def sheetOf (shown : Shown) : Sheet :=
  let edges := layoutEdges page.localeCompare shown
  placeIsolated (isolatedOf page.localeCompare shown)
    ((connectedOf page.localeCompare shown).foldl (placeGroup page (repoOf shown.nodes) edges) {})

def layout (shown : Shown) : Layout :=
  let sheet := sheetOf page shown
  { width := sheet.width + 2 * pad
    height := max 300 (sheet.y - groupGap + pad)
    pos := sheet.pos
    routes := sheet.routes
    bottom := sheet.bottom }

variable {page} {shown : Shown}

/-! ## No two cards overlap -/

/-- There is a gap between the two cards. -/
def Apart (one other : Point) : Prop :=
  one.x + nodeW < other.x ∨ other.x + nodeW < one.x ∨
    one.y + nodeH < other.y ∨ other.y + nodeH < one.y

theorem Apart.symm {one other : Point} (apart : Apart one other) : Apart other one := by
  rcases apart with left | right | above | below
  · exact .inr (.inl left)
  · exact .inl right
  · exact .inr (.inr (.inr above))
  · exact .inr (.inr (.inl below))

/-- What dagre sees to: the cards are within the size it gives and apart, and every edge it was
given has a route. -/
structure Fits (dg : Dagre) (members : List String) (edges : List Edge) : Prop where
  inside : ∀ id ∈ members, nodeW / 2 ≤ (dg.node id).x ∧ (dg.node id).x + nodeW / 2 ≤ dg.width ∧
    nodeH / 2 ≤ (dg.node id).y ∧ (dg.node id).y + nodeH / 2 ≤ dg.height
  apart : ∀ one ∈ members, ∀ other ∈ members, one ≠ other → Apart (dg.node one) (dg.node other)
  routed : ∀ edge ∈ edges, ∃ points, ((edge.from, edge.to), points) ∈ dg.edges

/-- What a sheet with these cards on it is like. -/
structure Stacked (edges : List Edge) (done : List String) (sheet : Sheet) : Prop where
  placed : ∀ id : String, (∃ place, sheet.pos[id]? = some place) ↔ id ∈ done
  apart : ∀ (one other : String) p q, sheet.pos[one]? = some p → sheet.pos[other]? = some q →
    one ≠ other → Apart p q
  inside : ∀ (id : String) p, sheet.pos[id]? = some p → pad ≤ p.x ∧
    p.x + nodeW ≤ pad + sheet.width ∧ pad ≤ p.y ∧ p.y + nodeH + groupGap ≤ sheet.y
  /-- The line under a group is below its own cards and crosses no other one. -/
  under : ∀ (id : String) b, sheet.bottom[id]? = some b → b + groupGap ≤ sheet.y ∧
    (∀ p, sheet.pos[id]? = some p → p.y + nodeH ≤ b) ∧
    ∀ (other : String) p, sheet.pos[other]? = some p → p.y + nodeH ≤ b ∨ b + groupGap ≤ p.y
  bottomed : ∀ id ∈ done, ∃ b, sheet.bottom[id]? = some b
  routed : ∀ edge ∈ edges, edge.from ∈ done →
    ∃ route, sheet.routes[pairKey edge.from edge.to]? = some route
  below : pad ≤ sheet.y

theorem stacked_empty (edges : List Edge) : Stacked edges [] {} where
  placed := by simp
  apart := by simp
  inside := by simp
  under := by simp
  bottomed := by simp
  routed := by simp
  below := le_refl _

/-- The routes of a group join those before it. -/
theorem routes_placeGroup {repoOf : String → Option String} {edges : List Edge} {sheet : Sheet}
    {members : List String} {key : String} :
    (∃ route, (placeGroup page repoOf edges sheet members).routes[key]? = some route) ↔
      (∃ route, sheet.routes[key]? = some route) ∨
        ∃ edge ∈ (page.dagre repoOf members (edges.filter fun edge => edge.from ∈ members)).edges,
          pairKey edge.1.1 edge.1.2 = key := by
  rw [placeGroup]
  generalize (page.dagre repoOf members (edges.filter fun edge =>
    edge.from ∈ members)).edges = listed
  generalize sheet.routes = routes
  induction listed generalizing routes with
  | nil => simp
  | cons edge listed ih =>
      rw [List.foldl_cons, ih, List.exists_mem_cons_iff]
      by_cases known : routes.contains (pairKey edge.1.1 edge.1.2)
      · have already : pairKey edge.1.1 edge.1.2 = key → ∃ route, routes[key]? = some route := by
          rintro rfl
          exact Option.isSome_iff_exists.mp (ExtTreeMap.isSome_getElem?_eq_contains.trans known)
        simp only [known, if_true]
        tauto
      · simp only [known, Bool.false_eq_true, if_false, ExtTreeMap.getElem?_insert,
          Std.compare_eq_iff_eq]
        by_cases same : pairKey edge.1.1 edge.1.2 = key
        · simp [same]
        · simp [same]

theorem getElem?_foldl_insert_id {β : Type} (value : String → β) (ids : List String)
    (entries : OrderedMap String β) (id : String) :
    (ids.foldl (fun entries id => entries.insert id (value id)) entries)[id]? =
      if id ∈ ids then some (value id) else entries[id]? := by
  split
  · rename_i listed
    exact OrderedMap.getElem?_foldl_insert_of_mem (fun id => id) value
      (by simpa using listed) entries
  · rename_i absent
    refine OrderedMap.getElem?_foldl_insert_ne ?_ entries
    rwa [List.map_id']

/-- Where a group's card stands. -/
def placeOf (dg : Dagre) (y : ℚ) (id : String) : Point :=
  { x := pad + (dg.node id).x - nodeW / 2, y := y + (dg.node id).y - nodeH / 2 }

variable {id : String} {p : Point}

section Step

variable {repoOf : String → Option String} {edges : List Edge} {sheet : Sheet} {done : List String}
  {members : List String}

/-- What dagre makes of a group. -/
abbrev dagreOf (page : Page) (repoOf : String → Option String) (edges : List Edge)
    (members : List String) : Dagre :=
  page.dagre repoOf members (edges.filter fun edge => edge.from ∈ members)

/-- Dagre's part in laying out a group. -/
abbrev FitsGroup (page : Page) (repoOf : String → Option String) (edges : List Edge)
    (members : List String) : Prop :=
  Fits (dagreOf page repoOf edges members) members (edges.filter fun edge => edge.from ∈ members)

theorem pos_placeGroup (id : String) : (placeGroup page repoOf edges sheet members).pos[id]? =
    if id ∈ members then some (placeOf (dagreOf page repoOf edges members) sheet.y id)
    else sheet.pos[id]? :=
  getElem?_foldl_insert_id (placeOf _ sheet.y) members sheet.pos id

theorem bottom_placeGroup (id : String) : (placeGroup page repoOf edges sheet members).bottom[id]? =
    if id ∈ members then some (sheet.y + (dagreOf page repoOf edges members).height)
    else sheet.bottom[id]? :=
  getElem?_foldl_insert_id (fun _ => sheet.y + _) members sheet.bottom id

/-- A card on the sheet is one of the group or was there before. -/
theorem pos_placeGroup_cases
    (held : (placeGroup page repoOf edges sheet members).pos[id]? = some p) :
    (id ∈ members ∧ p = placeOf (dagreOf page repoOf edges members) sheet.y id) ∨
      (id ∉ members ∧ sheet.pos[id]? = some p) := by
  rw [pos_placeGroup] at held
  split at held
  · rename_i listed
    exact .inl ⟨listed, (Option.some.inj held).symm⟩
  · rename_i absent
    exact .inr ⟨absent, held⟩

/-- The cards of a group are within its height. -/
theorem FitsGroup.within (fits : FitsGroup page repoOf edges members) (listed : id ∈ members)
    (y : ℚ) :
    y ≤ (placeOf (dagreOf page repoOf edges members) y id).y ∧
      (placeOf (dagreOf page repoOf edges members) y id).y + nodeH ≤
        y + (dagreOf page repoOf edges members).height := by
  obtain ⟨-, -, above, below⟩ := fits.inside id listed
  simp only [placeOf, nodeH] at above below ⊢
  constructor <;> linarith

theorem FitsGroup.height_nonneg (fits : FitsGroup page repoOf edges members) (some : members ≠ []) :
    0 ≤ (dagreOf page repoOf edges members).height := by
  obtain ⟨id, listed⟩ := List.exists_mem_of_ne_nil members some
  obtain ⟨-, -, above, below⟩ := fits.inside id listed
  simp only [nodeH] at above below
  linarith

/-- A card on the sheet is above the cards of the next group. -/
theorem Stacked.apart_of_group (stacked : Stacked edges done sheet)
    (fits : FitsGroup page repoOf edges members) (held : sheet.pos[one]? = some p)
    (listed : other ∈ members) :
    Apart p (placeOf (dagreOf page repoOf edges members) sheet.y other) := by
  have above := (stacked.inside one p held).2.2.2
  have below := (fits.within listed sheet.y).1
  simp only [groupGap] at above
  exact .inr (.inr (.inl (by linarith)))

theorem Stacked.apart_placeGroup (stacked : Stacked edges done sheet)
    (fits : FitsGroup page repoOf edges members) {p q : Point}
    (first : (placeGroup page repoOf edges sheet members).pos[one]? = some p)
    (second : (placeGroup page repoOf edges sheet members).pos[other]? = some q)
    (different : one ≠ other) : Apart p q := by
  rcases pos_placeGroup_cases first with ⟨listed, rfl⟩ | ⟨-, held⟩ <;>
    rcases pos_placeGroup_cases second with ⟨also, rfl⟩ | ⟨-, alsoHeld⟩
  · rcases fits.apart one listed other also different with left | right | above | below
    · exact .inl (by simp only [placeOf]; linarith)
    · exact .inr (.inl (by simp only [placeOf]; linarith))
    · exact .inr (.inr (.inl (by simp only [placeOf]; linarith)))
    · exact .inr (.inr (.inr (by simp only [placeOf]; linarith)))
  · exact (stacked.apart_of_group fits alsoHeld listed).symm
  · exact stacked.apart_of_group fits held also
  · exact stacked.apart one other p q held alsoHeld different

theorem Stacked.inside_placeGroup (stacked : Stacked edges done sheet)
    (fits : FitsGroup page repoOf edges members) (some : members ≠ [])
    (held : (placeGroup page repoOf edges sheet members).pos[id]? = .some p) :
    pad ≤ p.x ∧ p.x + nodeW ≤ pad + max sheet.width (dagreOf page repoOf edges members).width ∧
      pad ≤ p.y ∧ p.y + nodeH + groupGap ≤
        sheet.y + (dagreOf page repoOf edges members).height + groupGap := by
  have top := stacked.below
  rcases pos_placeGroup_cases held with ⟨listed, rfl⟩ | ⟨-, old⟩
  · have wide := le_max_right sheet.width (dagreOf page repoOf edges members).width
    obtain ⟨left, right, -, -⟩ := fits.inside id listed
    obtain ⟨above, under⟩ := fits.within listed sheet.y
    refine ⟨?_, ?_, by linarith, by linarith⟩
    · simp only [placeOf]
      linarith
    · simp only [placeOf]
      linarith
  · have wide := le_max_left sheet.width (dagreOf page repoOf edges members).width
    have tall := fits.height_nonneg some
    obtain ⟨left, right, above, under⟩ := stacked.inside id p old
    refine ⟨left, by linarith, above, ?_⟩
    simp only [groupGap] at under ⊢
    linarith

theorem Stacked.under_placeGroup (stacked : Stacked edges done sheet)
    (fits : FitsGroup page repoOf edges members) (some : members ≠ []) {b : ℚ}
    (held : (placeGroup page repoOf edges sheet members).bottom[id]? = .some b) :
    b + groupGap ≤ sheet.y + (dagreOf page repoOf edges members).height + groupGap ∧
      (∀ p, (placeGroup page repoOf edges sheet members).pos[id]? = .some p → p.y + nodeH ≤ b) ∧
      ∀ (other : String) p, (placeGroup page repoOf edges sheet members).pos[other]? = .some p →
        p.y + nodeH ≤ b ∨ b + groupGap ≤ p.y := by
  have tall := fits.height_nonneg some
  rw [bottom_placeGroup] at held
  split at held
  · -- the line of the group itself: everything is above it
    obtain rfl := Option.some.inj held
    have above (other : String) (p : Point)
        (placed : (placeGroup page repoOf edges sheet members).pos[other]? = .some p) :
        p.y + nodeH ≤ sheet.y + (dagreOf page repoOf edges members).height := by
      rcases pos_placeGroup_cases placed with ⟨listed, rfl⟩ | ⟨-, old⟩
      · exact (fits.within listed sheet.y).2
      · have above := (stacked.inside other p old).2.2.2
        simp only [groupGap] at above
        linarith
    exact ⟨le_of_eq rfl, above id, fun other p placed => .inl (above other p placed)⟩
  · -- the line of an earlier group: the new cards are below it
    rename_i absent
    obtain ⟨high, own, others⟩ := stacked.under id b held
    have gap : 0 ≤ groupGap := by norm_num [groupGap]
    refine ⟨by linarith, fun p placed => ?_, fun other p placed => ?_⟩
    · rcases pos_placeGroup_cases placed with ⟨listed, -⟩ | ⟨-, old⟩
      · exact absurd listed absent
      · exact own p old
    · rcases pos_placeGroup_cases placed with ⟨listed, rfl⟩ | ⟨-, old⟩
      · exact .inr (high.trans (fits.within listed sheet.y).1)
      · exact others other p old

/-- A group goes below everything that is on the sheet. -/
theorem Stacked.placeGroup (stacked : Stacked edges done sheet)
    (fits : FitsGroup page repoOf edges members) (some : members ≠ []) :
    Stacked edges (done ++ members) (placeGroup page repoOf edges sheet members) where
  placed := by
    intro id
    rw [List.mem_append, pos_placeGroup, ← stacked.placed]
    split
    · rename_i listed
      simp [listed]
    · rename_i absent
      simp [absent]
  apart := fun one other p q first second => stacked.apart_placeGroup fits first second
  inside := fun id p held => stacked.inside_placeGroup fits some held
  under := fun id b held => stacked.under_placeGroup fits some held
  bottomed := by
    intro id listed
    rw [bottom_placeGroup]
    split
    · exact ⟨_, rfl⟩
    · rename_i absent
      exact stacked.bottomed id ((List.mem_append.mp listed).resolve_right absent)
  routed := by
    intro edge listed starts
    rw [routes_placeGroup]
    rcases List.mem_append.mp starts with old | new
    · exact .inl (stacked.routed edge listed old)
    · obtain ⟨points, routed⟩ :=
        fits.routed edge (List.mem_filter.mpr ⟨listed, decide_eq_true new⟩)
      exact .inr ⟨_, routed, rfl⟩
  below := by
    have top := stacked.below
    have tall := fits.height_nonneg some
    simp only [GraphView.placeGroup, groupGap]
    linarith

/-- Group after group, the sheet fills from top to bottom. -/
theorem Stacked.foldl_placeGroup {grouped : List (List String)} (stacked : Stacked edges done sheet)
    (fits : ∀ members ∈ grouped, members ≠ [] ∧ FitsGroup page repoOf edges members) :
    Stacked edges (done ++ grouped.flatten) (grouped.foldl (GraphView.placeGroup page repoOf edges)
      sheet) := by
  induction grouped generalizing sheet done with
  | nil => simpa using stacked
  | cons members grouped ih =>
      obtain ⟨some, here⟩ := fits members List.mem_cons_self
      rw [List.foldl_cons, List.flatten_cons, ← List.append_assoc]
      exact ih (stacked.placeGroup here some) fun other listed =>
        fits other (List.mem_cons_of_mem _ listed)

end Step

/-! ## The grid of isolated cards -/

theorem step_lt {m n : Nat} (less : m < n) {step size : ℚ} (small : size < step) (up : 0 ≤ step) :
    (m : ℚ) * step + size < n * step := by
  have next : (m : ℚ) + 1 ≤ n := by exact_mod_cast less
  have further : ((m : ℚ) + 1) * step ≤ n * step := mul_le_mul_of_nonneg_right next up
  linarith

theorem apart_gridPlace {row i j : Nat} (y : ℚ) (different : i ≠ j) :
    Apart (gridPlace row y i) (gridPlace row y j) := by
  have wide {m n : Nat} (less : m < n) : (m : ℚ) * levelGap + nodeW < n * levelGap :=
    step_lt less (by norm_num [nodeW, levelGap]) (by norm_num [levelGap])
  have tall {m n : Nat} (less : m < n) : (m : ℚ) * rowGap + nodeH < n * rowGap :=
    step_lt less (by norm_num [nodeH, rowGap]) (by norm_num [rowGap])
  simp only [Apart, gridPlace]
  rcases Nat.lt_trichotomy (i % row) (j % row) with left | same | right
  · exact .inl (by linarith [wide left])
  · have rows : i / row ≠ j / row := fun also => different (by
      rw [← Nat.div_add_mod i row, ← Nat.div_add_mod j row, same, also])
    rcases Nat.lt_or_gt_of_ne rows with above | below
    · exact .inr (.inr (.inl (by linarith [tall above])))
    · exact .inr (.inr (.inr (by linarith [tall below])))
  · exact .inr (.inl (by linarith [wide right]))

theorem perRow_pos (width : ℚ) : 0 < perRow width := by
  have three : (3 : Int) ≤ max 3 ⌊(width + levelGap - nodeW) / levelGap⌋ := le_max_left _ _
  rw [perRow]
  omega

/-- The grid is as wide as its longest row and as tall as its rows. -/
theorem gridPlace_within {row count i : Nat} (some : 0 < row) (listed : i < count) (y : ℚ) :
    pad ≤ (gridPlace row y i).x ∧
      (gridPlace row y i).x + nodeW ≤ pad + (min count row * levelGap - (levelGap - nodeW)) ∧
      y ≤ (gridPlace row y i).y ∧
      (gridPlace row y i).y + nodeH ≤ y + rowsOf count row * rowGap - (rowGap - nodeH) := by
  have column : ((i % row : Nat) : ℚ) + 1 ≤ (min count row : Nat) := by
    have inRow := Nat.mod_lt i some
    have least := Nat.mod_le i row
    have below : i % row + 1 ≤ min count row := le_min (by omega) inRow
    exact_mod_cast below
  have line : ((i / row : Nat) : ℚ) + 1 ≤ (rowsOf count row : Nat) := by
    have below : i / row + 1 ≤ rowsOf count row := by
      rw [rowsOf, ← Nat.add_div_right i some]
      exact Nat.div_le_div_right (by omega)
    exact_mod_cast below
  have left : (0 : ℚ) ≤ ((i % row : Nat) : ℚ) := Nat.cast_nonneg _
  have above : (0 : ℚ) ≤ ((i / row : Nat) : ℚ) := Nat.cast_nonneg _
  simp only [gridPlace, levelGap, rowGap, nodeW, nodeH]
  refine ⟨by linarith, by linarith, by linarith, by linarith⟩

theorem le_gridPlace (row : Nat) (y : ℚ) (i : Nat) : y ≤ (gridPlace row y i).y := by
  have down : (0 : ℚ) ≤ ((i / row : Nat) : ℚ) * rowGap :=
    mul_nonneg (Nat.cast_nonneg _) (by norm_num [rowGap])
  simp only [gridPlace]
  linarith

section Grid

variable {isolated : List String} {sheet : Sheet}

theorem pos_placeIsolated_of_mem (distinct : isolated.Nodup) {i : Nat}
    (listed : isolated[i]? = some id) :
    (placeIsolated isolated sheet).pos[id]? = some (gridPlace (perRow sheet.width) sheet.y i) := by
  have some : isolated.isEmpty = false := by
    cases isolated with
    | nil => simp at listed
    | cons first rest => rfl
  have member : (id, i) ∈ isolated.zipIdx := List.mem_zipIdx_iff_getElem?.mpr listed
  rw [placeIsolated, some]
  refine OrderedMap.getElem?_foldl_insert ?_ member sheet.pos
  rwa [List.zipIdx_map_fst]

theorem pos_placeIsolated_of_not_mem (absent : id ∉ isolated) :
    (placeIsolated isolated sheet).pos[id]? = sheet.pos[id]? := by
  rw [placeIsolated]
  split
  · rfl
  · refine OrderedMap.getElem?_foldl_insert_ne ?_ sheet.pos
    rwa [List.zipIdx_map_fst]

/-- A card is one of the grid or was there before. -/
theorem pos_placeIsolated_cases (distinct : isolated.Nodup)
    (held : (placeIsolated isolated sheet).pos[id]? = some p) :
    (∃ i, isolated[i]? = some id ∧ p = gridPlace (perRow sheet.width) sheet.y i) ∨
      (id ∉ isolated ∧ sheet.pos[id]? = some p) := by
  by_cases listed : id ∈ isolated
  · obtain ⟨i, found⟩ := List.mem_iff_getElem?.mp listed
    rw [pos_placeIsolated_of_mem distinct found] at held
    exact .inl ⟨i, found, (Option.some.inj held).symm⟩
  · rw [pos_placeIsolated_of_not_mem listed] at held
    exact .inr ⟨listed, held⟩

theorem placeIsolated_same : (placeIsolated isolated sheet).routes = sheet.routes ∧
    (placeIsolated isolated sheet).bottom = sheet.bottom := by
  rw [placeIsolated]
  split <;> exact ⟨rfl, rfl⟩

theorem le_placeIsolated : sheet.width ≤ (placeIsolated isolated sheet).width ∧
    sheet.y ≤ (placeIsolated isolated sheet).y := by
  rw [placeIsolated]
  split
  · exact ⟨le_rfl, le_rfl⟩
  · rename_i some
    have first : 0 < isolated.length := by
      rwa [List.isEmpty_iff, ← ne_eq, ← List.length_pos_iff] at some
    have rows := (gridPlace_within (perRow_pos sheet.width) first sheet.y).2.2
    refine ⟨le_max_left _ _, ?_⟩
    have top : (0 : ℚ) ≤ nodeH + groupGap := by norm_num [nodeH, groupGap]
    dsimp only
    linarith [rows.1, rows.2]

theorem grid_inside {i : Nat} (listed : i < isolated.length) :
    (gridPlace (perRow sheet.width) sheet.y i).x + nodeW ≤
        pad + (placeIsolated isolated sheet).width ∧
      (gridPlace (perRow sheet.width) sheet.y i).y + nodeH + groupGap ≤
        (placeIsolated isolated sheet).y := by
  have some : ¬isolated.isEmpty := by
    rw [List.isEmpty_iff, ← ne_eq, ← List.length_pos_iff]
    omega
  obtain ⟨-, right, -, under⟩ := gridPlace_within (perRow_pos sheet.width) listed sheet.y
  rw [placeIsolated, if_neg some]
  constructor
  · refine right.trans (add_le_add_right ?_ pad)
    exact le_max_right _ _
  · dsimp only
    linarith

end Grid

/-! ## The layout -/

/-- The layout of a shown graph. -/
structure LaidOut (shown : Shown) (l : Layout) : Prop where
  placed : ∀ id : String, (∃ p, l.pos[id]? = some p) ↔ id ∈ shown.nodes.map Node.id
  apart : ∀ (one other : String) p q, l.pos[one]? = some p → l.pos[other]? = some q →
    one ≠ other → Apart p q
  inside : ∀ (id : String) p, l.pos[id]? = some p → pad ≤ p.x ∧ p.x + nodeW + pad ≤ l.width ∧
    pad ≤ p.y ∧ p.y + nodeH + pad ≤ l.height
  routed : ∀ one other, JoinsCards shown one other →
    ∃ route, l.routes[pairKey one other]? = some route
  /-- An edge can run back underneath its group: the line there is below every card of the group and
  crosses no other one. -/
  under : ∀ one other, JoinsCards shown one other → ∃ b, l.bottom[one]? = some b ∧
    (∀ id, Together shown one id → ∀ p, l.pos[id]? = some p → p.y + nodeH ≤ b) ∧
    ∀ (id : String) p, l.pos[id]? = some p → p.y + nodeH ≤ b ∨ b + groupGap ≤ p.y

/-- The cards of a group have their line at one height. -/
theorem bottom_foldl_placeGroup {repoOf : String → Option String} {edges : List Edge}
    {sheet : Sheet} {grouped : List (List String)} (disjoint : grouped.Pairwise List.Disjoint)
    {members : List String} (listed : members ∈ grouped) (first : one ∈ members)
    (second : other ∈ members) :
    (grouped.foldl (placeGroup page repoOf edges) sheet).bottom[one]? =
      (grouped.foldl (placeGroup page repoOf edges) sheet).bottom[other]? := by
  have later : ∀ {id : String} (grouped : List (List String)) (sheet : Sheet),
      (∀ group ∈ grouped, id ∉ group) →
        (grouped.foldl (placeGroup page repoOf edges) sheet).bottom[id]? = sheet.bottom[id]? := by
    intro id grouped
    induction grouped with
    | nil => exact fun _ _ => rfl
    | cons group grouped ih =>
        intro sheet absent
        rw [List.foldl_cons, ih _ fun other listed => absent other (List.mem_cons_of_mem _ listed),
          bottom_placeGroup, if_neg (absent group List.mem_cons_self)]
  induction grouped generalizing sheet with
  | nil => cases listed
  | cons group grouped ih =>
      obtain ⟨here, rest⟩ := List.pairwise_cons.mp disjoint
      rw [List.foldl_cons]
      rcases List.mem_cons.mp listed with rfl | among
      · have gone {id : String} (inside : id ∈ members) : ∀ group ∈ grouped, id ∉ group :=
          fun group member also => here group member inside also
        rw [later grouped _ (gone first), later grouped _ (gone second), bottom_placeGroup,
          bottom_placeGroup, if_pos first, if_pos second]
      · exact ih rest among

/-- Dagre's part in laying out a shown graph. -/
def DagreFits (page : Page) (shown : Shown) : Prop :=
  ∀ members ∈ connectedOf page.localeCompare shown,
    FitsGroup page (repoOf shown.nodes) (layoutEdges page.localeCompare shown) members

section Layout

variable {edges : List Edge} {connected : List (List String)} {isolated : List String}
  {stack : Sheet} (distinct : (shown.nodes.map Node.id).Nodup)
  (parts : Components shown connected isolated) (stacked : Stacked edges connected.flatten stack)

include distinct parts

theorem Components.grid_nodup : isolated.Nodup :=
  (parts.parts.nodup_iff.mpr distinct).of_append_right

omit distinct in
/-- A card with an edge is in a connected group. -/
theorem Components.grouped (joins : JoinsCards shown one other) : one ∈ connected.flatten := by
  rcases List.mem_append.mp (parts.parts.mem_iff.mpr joins.2.2.1) with grouped | alone
  · exact grouped
  · exact absurd joins (((parts.alone one).mp alone).2 other).1

include stacked

theorem placed_layout (id : String) :
    (∃ p, (placeIsolated isolated stack).pos[id]? = some p) ↔ id ∈ shown.nodes.map Node.id := by
  rw [← parts.parts.mem_iff, List.mem_append]
  by_cases alone : id ∈ isolated
  · obtain ⟨i, found⟩ := List.mem_iff_getElem?.mp alone
    simp [pos_placeIsolated_of_mem (parts.grid_nodup distinct) found, alone]
  · simp only [pos_placeIsolated_of_not_mem alone, alone, or_false]
    exact stacked.placed id

theorem apart_layout {p q : Point} (first : (placeIsolated isolated stack).pos[one]? = some p)
    (second : (placeIsolated isolated stack).pos[other]? = some q) (different : one ≠ other) :
    Apart p q := by
  have lower {id : String} {p : Point} (i : Nat) (held : stack.pos[id]? = some p) :
      Apart p (gridPlace (perRow stack.width) stack.y i) := by
    have above := (stacked.inside id p held).2.2.2
    have gap : 0 < groupGap := by norm_num [groupGap]
    exact .inr (.inr (.inl (by linarith [le_gridPlace (perRow stack.width) stack.y i])))
  have gridDistinct := parts.grid_nodup distinct
  rcases pos_placeIsolated_cases gridDistinct first with ⟨i, found, rfl⟩ | ⟨-, held⟩ <;>
    rcases pos_placeIsolated_cases gridDistinct second with ⟨j, also, rfl⟩ | ⟨-, alsoHeld⟩
  · refine apart_gridPlace _ fun same => different ?_
    rw [same] at found
    exact Option.some.inj (found.symm.trans also)
  · exact (lower i alsoHeld).symm
  · exact lower j held
  · exact stacked.apart one other p q held alsoHeld different

theorem inside_layout (held : (placeIsolated isolated stack).pos[id]? = some p) :
    pad ≤ p.x ∧ p.x + nodeW + pad ≤ (placeIsolated isolated stack).width + 2 * pad ∧
      pad ≤ p.y ∧
      p.y + nodeH + pad ≤ max 300 ((placeIsolated isolated stack).y - groupGap + pad) := by
  have tall := le_max_right 300 ((placeIsolated isolated stack).y - groupGap + pad)
  rcases pos_placeIsolated_cases (parts.grid_nodup distinct) held with ⟨i, found, rfl⟩ | ⟨-, old⟩
  · have listed : i < isolated.length := (List.getElem?_eq_some_iff.mp found).1
    obtain ⟨left, -, above, -⟩ := gridPlace_within (perRow_pos stack.width) listed stack.y
    obtain ⟨right, under⟩ := @grid_inside _ stack _ listed
    have top := stacked.below
    exact ⟨left, by linarith, by linarith, by linarith⟩
  · have grown := @le_placeIsolated isolated stack
    obtain ⟨left, right, above, under⟩ := stacked.inside id p old
    exact ⟨left, by linarith, above, by linarith⟩

theorem under_layout
    (level : ∀ members ∈ connected, ∀ one ∈ members, ∀ other ∈ members,
      stack.bottom[one]? = stack.bottom[other]?)
    (joins : JoinsCards shown one other) :
    ∃ b, stack.bottom[one]? = some b ∧
      (∀ id, Together shown one id → ∀ p, (placeIsolated isolated stack).pos[id]? = some p →
        p.y + nodeH ≤ b) ∧
      ∀ (id : String) p, (placeIsolated isolated stack).pos[id]? = some p →
        p.y + nodeH ≤ b ∨ b + groupGap ≤ p.y := by
  have among := parts.grouped joins
  have gridDistinct := parts.grid_nodup distinct
  obtain ⟨b, line⟩ := stacked.bottomed one among
  obtain ⟨high, -, others⟩ := stacked.under one b line
  refine ⟨b, line, fun id together p held => ?_, fun id p held => ?_⟩
  · obtain ⟨members, listed, inside⟩ := List.mem_flatten.mp among
    have also : id ∈ members := ((parts.whole members listed).2 one inside id).mpr together
    have lineToo : stack.bottom[id]? = some b := level members listed one inside id also ▸ line
    rcases pos_placeIsolated_cases gridDistinct held with ⟨i, found, -⟩ | ⟨-, old⟩
    · -- a card of the group is not in the grid
      exact absurd (List.mem_of_getElem? found)
        (List.disjoint_of_nodup_append (parts.parts.nodup_iff.mpr distinct)
          (List.mem_flatten.mpr ⟨members, listed, also⟩))
    · exact (stacked.under id b lineToo).2.1 p old
  · rcases pos_placeIsolated_cases gridDistinct held with ⟨i, found, rfl⟩ | ⟨-, old⟩
    · exact .inr (high.trans (le_gridPlace _ _ _))
    · exact others id p old

end Layout

/-- The groups stand one below the other, the isolated cards below them, and no two cards
overlap. -/
theorem laidOut (distinct : (shown.nodes.map Node.id).Nodup) (fits : DagreFits page shown) :
    LaidOut shown (layout page shown) := by
  set connected := connectedOf page.localeCompare shown with connected_eq
  set isolated := isolatedOf page.localeCompare shown with isolated_eq
  set stack := connected.foldl (placeGroup page (repoOf shown.nodes)
    (layoutEdges page.localeCompare shown)) {}
    with stack_eq
  have parts : Components shown connected isolated := components distinct
  have stacked : Stacked (layoutEdges page.localeCompare shown) connected.flatten stack := by
    refine (stacked_empty _).foldl_placeGroup fun members listed => ⟨?_, fits members listed⟩
    rintro rfl
    have several := (parts.whole [] listed).1
    simp at several
  have level : ∀ members ∈ connected, ∀ one ∈ members, ∀ other ∈ members,
      stack.bottom[one]? = stack.bottom[other]? := by
    have disjoint := (List.nodup_flatten.mp
      (parts.parts.nodup_iff.mpr distinct).of_append_left).2
    exact fun members listed one first other second =>
      bottom_foldl_placeGroup disjoint listed first second
  have whole : layout page shown =
      { width := (placeIsolated isolated stack).width + 2 * pad
        height := max 300 ((placeIsolated isolated stack).y - groupGap + pad)
        pos := (placeIsolated isolated stack).pos
        routes := stack.routes
        bottom := stack.bottom } := by
    rw [← (@placeIsolated_same isolated stack).1, ← (@placeIsolated_same isolated stack).2]
    rfl
  rw [whole]
  refine
    { placed := placed_layout distinct parts stacked
      apart := fun one other p q => apart_layout distinct parts stacked
      inside := fun id p => inside_layout distinct parts stacked
      routed := ?_
      under := fun one other => under_layout distinct parts stacked level }
  intro one other joins
  obtain ⟨⟨edge, listed, rfl, rfl⟩, apart, source, target⟩ := joins
  exact stacked.routed edge (mem_layoutEdges.mpr ⟨listed, source, target, apart⟩)
    (parts.grouped ⟨⟨edge, listed, rfl, rfl⟩, apart, source, target⟩)

end GraphView

/-! ## The graph of a workspace -/

section Workspace

open GraphView

variable {toLowercase : String → String} {workspaceName : String}
  {scanned : OrderedMap String ComponentConfig} {facts : OrderedMap String RepoFacts}

/-- If dagre keeps the cards of each group apart and within the size it gives, the layout of any
resolved graph keeps all cards apart and within the drawing. -/
theorem layout_apart {showSeeds : Bool} {page : Page}
    (fits : DagreFits page (shownOf toLowercase workspaceName scanned facts showSeeds)) :
    LaidOut (shownOf toLowercase workspaceName scanned facts showSeeds)
      (layout page (shownOf toLowercase workspaceName scanned facts showSeeds)) :=
  laidOut (shownOf_nodup showSeeds) fits

end Workspace

/-- Two services with a store each, a migration of the one store, and a service on its own. -/
def marketServices : List (String × ServiceConfig) :=
  [("api", { image := some "nginx", dependsOn := [("db", {})] }),
    ("db", { image := some "postgres" }),
    ("mail", { image := some "mailpit" }),
    ("migrate", { image := some "dbmate", command := ["up"], migrates := some "db" }),
    ("queue", { image := some "redis" }),
    ("worker", { image := some "worker", dependsOn := [("queue", {})] })]

def marketFiles : OrderedMap String ComponentConfig :=
  (∅ : OrderedMap String ComponentConfig).insert "shop" { services := .ofList marketServices }

/-- Two cards next to each other, and the order of code points. -/
def shopPage : GraphView.Page where
  localeCompare := fun one other => if one < other then -1 else if one = other then 0 else 1
  dagre := fun _ members edges =>
    { width := 720
      height := 146
      node := fun id => if members.head? = some id then ⟨160, 73⟩ else ⟨560, 73⟩
      edges := edges.map fun edge => ((edge.from, edge.to), [⟨320, 73⟩, ⟨360, 73⟩, ⟨400, 73⟩]) }

/-- Two cards of a group are next to each other. -/
theorem fitsGroup_shopPage {repoOf : String → Option String} {edges : List Edge}
    (apart : other ≠ one) : GraphView.FitsGroup shopPage repoOf edges [one, other] := by
  refine ⟨?_, ?_, fun edge member => ⟨_, List.mem_map_of_mem member⟩⟩
  · simp only [List.mem_cons, List.not_mem_nil, or_false, forall_eq_or_imp, forall_eq]
    norm_num [shopPage, apart.symm, GraphView.nodeW, GraphView.nodeH]
  · simp only [List.mem_cons, List.not_mem_nil, or_false, forall_eq_or_imp, forall_eq]
    norm_num [shopPage, apart.symm, GraphView.Apart, GraphView.nodeW, GraphView.nodeH]

theorem layout_apart_shop :
    GraphView.LaidOut (shownOf String.toLower "ws" marketFiles ∅ true)
      (GraphView.layout shopPage (shownOf String.toLower "ws" marketFiles ∅ true)) := by
  have groups : GraphView.connectedOf shopPage.localeCompare
      (shownOf String.toLower "ws" marketFiles ∅ true) =
      [["api.shop", "db.shop"], ["queue.shop", "worker.shop"]] := by
    decide
  refine layout_apart fun members listed => ?_
  rw [groups] at listed
  rcases List.mem_pair.mp listed with rfl | rfl <;> exact fitsGroup_shopPage (by decide)

end Fghj
