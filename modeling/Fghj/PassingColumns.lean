import Fghj.ColumnRuns

/-!
# The columns an edge passes

An edge between two real columns passes a dummy in each skipped column between them. The dummies
are lined up by where their edges start and end, so two edges cross on the way no more often than
their ends do.
-/

namespace Fghj
namespace ColumnOrder

open Crossings

variable {V κ : Type} [DecidableEq V]

/-- The nodes of an edge between real columns. -/
structure Route (V : Type) where
  start : V
  dummies : List V
  stop : V

def Route.nodes (route : Route V) : List V := route.start :: (route.dummies ++ [route.stop])

/-- An edge of the graph from one node to another. -/
def Leads (graph : Graph V) (v w : V) : Prop := ∃ e ∈ graph.edges, e.v = v ∧ e.w = w

/-- The route is one of the graph: from a real column through skipped ones to the next. -/
structure Route.On (graph : Graph V) (route : Route V) : Prop where
  leads : route.nodes.IsChain (Leads graph)
  start_real : route.start ∉ graph.skipped
  skips : ∀ d ∈ route.dummies, d ∈ graph.skipped
  stop_real : route.stop ∉ graph.skipped

/-- How often two edges cross on the way, column by column. -/
def crossingsOf (order : V → Nat) : List V → List V → Nat
  | v :: next :: route, w :: after :: other =>
      (if ((order v : Int) - order w) * ((order next : Int) - order after) < 0 then 1 else 0) +
        crossingsOf order (next :: route) (after :: other)
  | _, _ => 0

/-! ## Dummies and their ends -/

section Ends

variable {graph : Graph V} (layered : graph.Layered)

include layered

theorem reach_left_of_leads {v d : V} (leads : Leads graph v d) (member : d ∈ graph.skipped) :
    reach graph .left d = reach graph .left v := by
  obtain ⟨e, listed, rfl, rfl⟩ := leads
  obtain ⟨only, single⟩ := layered.one_in e.w member
  obtain rfl : e = only := by
    simpa [single] using mem_inEdges.mpr ⟨listed, rfl⟩
  exact reach_left_of_skipped layered member single

theorem reach_right_of_leads {d v : V} (leads : Leads graph d v) (member : d ∈ graph.skipped) :
    reach graph .right d = reach graph .right v := by
  obtain ⟨e, listed, rfl, rfl⟩ := leads
  obtain ⟨only, single⟩ := layered.one_out e.v member
  obtain rfl : e = only := by
    simpa [single] using mem_outEdges.mpr ⟨listed, rfl⟩
  exact reach_right_of_skipped layered member single

theorem reach_left_dummies {v : V} {dummies : List V}
    (leads : (v :: dummies).IsChain (Leads graph)) (skips : ∀ d ∈ dummies, d ∈ graph.skipped) :
    ∀ d ∈ dummies, reach graph .left d = reach graph .left v := by
  induction dummies generalizing v with
  | nil => exact fun d member => absurd member List.not_mem_nil
  | cons next dummies ih =>
      obtain ⟨first, rest⟩ := List.isChain_cons_cons.mp leads
      obtain ⟨here, later⟩ := List.forall_mem_cons.mp skips
      have same := reach_left_of_leads layered first here
      exact List.forall_mem_cons.mpr ⟨same, fun d member => (ih rest later d member).trans same⟩

theorem reach_right_dummies {dummies : List V} {stop : V}
    (leads : (dummies ++ [stop]).IsChain (Leads graph)) (skips : ∀ d ∈ dummies, d ∈ graph.skipped) :
    ∀ d ∈ dummies, reach graph .right d = reach graph .right stop := by
  induction dummies with
  | nil => exact fun d member => absurd member List.not_mem_nil
  | cons first dummies ih =>
      obtain ⟨here, later⟩ := List.forall_mem_cons.mp skips
      have rest := ih leads.tail later
      refine List.forall_mem_cons.mpr ⟨?_, rest⟩
      cases dummies with
      | nil => exact reach_right_of_leads layered (List.isChain_pair.mp leads) here
      | cons next dummies =>
          have step := (List.isChain_cons_cons.mp leads).1
          exact (reach_right_of_leads layered step here).trans (rest next List.mem_cons_self)

/-- The dummies of a route begin and end where it does. -/
theorem Route.On.reach_eq {route : Route V} (on : route.On graph) {d : V}
    (member : d ∈ route.dummies) :
    reach graph .left d = route.start ∧ reach graph .right d = route.stop := by
  have leads := on.leads
  rw [Route.nodes, ← List.cons_append] at leads
  have front := (List.isChain_append.mp leads).1
  have back : (route.dummies ++ [route.stop]).IsChain (Leads graph) := on.leads.tail
  rw [reach_left_dummies layered front on.skips d member,
    reach_right_dummies layered back on.skips d member,
    reach_of_not_skipped on.start_real, reach_of_not_skipped on.stop_real]
  exact ⟨rfl, rfl⟩

theorem rank_eq_of_leads {v w next after : V} (first : Leads graph v next)
    (second : Leads graph w after) (same : graph.rank v = graph.rank w) :
    graph.rank next = graph.rank after := by
  obtain ⟨e, listed, rfl, rfl⟩ := first
  obtain ⟨f, member, rfl, rfl⟩ := second
  have one := layered.next e listed f.w (layered.mem f member).2
  have two := layered.next f member e.w (layered.mem e listed).2
  have less := layered.lt e listed
  have lower := layered.lt f member
  omega

theorem skipped_iff_of_leads {v w next after : V} (first : Leads graph v next)
    (second : Leads graph w after) (same : graph.rank next = graph.rank after) :
    next ∈ graph.skipped ↔ after ∈ graph.skipped := by
  obtain ⟨e, listed, -, rfl⟩ := first
  obtain ⟨f, member, -, rfl⟩ := second
  rw [mem_skipped, mem_skipped, same]
  simp [(layered.mem e listed).2, (layered.mem f member).2]

/-- Two routes that start in one column go through the same columns. -/
theorem rank_dummies {v w stop last : V} {dummies others : List V}
    (leads : (v :: (dummies ++ [stop])).IsChain (Leads graph))
    (otherLeads : (w :: (others ++ [last])).IsChain (Leads graph))
    (same : graph.rank v = graph.rank w) (skips : ∀ d ∈ dummies, d ∈ graph.skipped)
    (otherSkips : ∀ d ∈ others, d ∈ graph.skipped) (real : stop ∉ graph.skipped)
    (otherReal : last ∉ graph.skipped) :
    List.Forall₂ (fun d other => graph.rank d = graph.rank other) dummies others ∧
      graph.rank stop = graph.rank last := by
  induction dummies generalizing v w others with
  | nil =>
      have first := List.isChain_pair.mp leads
      cases others with
      | nil =>
          exact ⟨.nil, rank_eq_of_leads layered first (List.isChain_pair.mp otherLeads) same⟩
      | cons d others =>
          have second := (List.isChain_cons_cons.mp otherLeads).1
          have ranks := rank_eq_of_leads layered first second same
          exact absurd ((skipped_iff_of_leads layered first second ranks).mpr
            (otherSkips d List.mem_cons_self)) real
  | cons d dummies ih =>
      obtain ⟨first, rest⟩ := List.isChain_cons_cons.mp leads
      obtain ⟨here, later⟩ := List.forall_mem_cons.mp skips
      cases others with
      | nil =>
          have second := List.isChain_pair.mp otherLeads
          have ranks := rank_eq_of_leads layered first second same
          exact absurd ((skipped_iff_of_leads layered first second ranks).mp here) otherReal
      | cons other others =>
          obtain ⟨second, otherRest⟩ := List.isChain_cons_cons.mp otherLeads
          have ranks := rank_eq_of_leads layered first second same
          obtain ⟨alike, stops⟩ := ih rest otherRest ranks later
            (List.forall_mem_cons.mp otherSkips).2
          exact ⟨.cons ranks alike, stops⟩

end Ends

/-! ## Crossings on the way -/

section Count

variable {order : V → Nat}

omit [DecidableEq V] in
theorem crossingsOf_comm (route other : List V) :
    crossingsOf order route other = crossingsOf order other route := by
  induction route generalizing other with
  | nil => simp [crossingsOf]
  | cons v route ih =>
      cases other with
      | nil => simp [crossingsOf]
      | cons w other =>
          cases route with
          | nil => simp [crossingsOf]
          | cons next route =>
              cases other with
              | nil => simp [crossingsOf]
              | cons after other =>
                  have turned : ((order v : Int) - order w) * (order next - order after) =
                      ((order w : Int) - order v) * (order after - order next) := by
                    rw [← Int.neg_sub (order w : Int), ← Int.neg_sub (order after : Int),
                      Int.neg_mul_neg]
                  rw [crossingsOf, crossingsOf, turned, ih]

omit [DecidableEq V] in
/-- A route that is above another in every skipped column crosses it in the last step at most. -/
theorem crossingsOf_le {v w stop last : V} {dummies others : List V} (start : order v ≤ order w)
    (above : List.Forall₂ (fun d other => order d < order other) dummies others) :
    crossingsOf order (v :: (dummies ++ [stop])) (w :: (others ++ [last])) ≤ 1 ∧
      (0 < crossingsOf order (v :: (dummies ++ [stop])) (w :: (others ++ [last])) →
        order last < order stop) := by
  induction above generalizing v w with
  | nil =>
      simp only [List.nil_append, crossingsOf, Nat.add_zero]
      split
      · rename_i crosses
        rw [mul_neg_iff] at crosses
        refine ⟨Nat.le_refl 1, fun _ => ?_⟩
        omega
      · exact ⟨Nat.zero_le 1, fun none => absurd none (Nat.lt_irrefl 0)⟩
  | @cons d other dummies others less _ ih =>
      have apart : ¬((order v : Int) - order w) * ((order d : Int) - order other) < 0 := by
        rw [mul_neg_iff]
        omega
      rw [List.cons_append, List.cons_append, crossingsOf, if_neg apart, Nat.zero_add]
      exact ih less.le

end Count

/-! ## Lining up -/

section LineUp

instance total_byEnds : Std.Total (byEnds (V := V)) where
  total a b := by
    simp only [byEnds]
    omega

instance trans_byEnds : IsTrans (V × Nat × Nat) byEnds where
  trans a b c first second := by
    simp only [byEnds] at first second ⊢
    omega

variable {graph : Graph V} (pos : V → Nat)

/-- A dummy with where its edge starts and ends. -/
def endsOf (graph : Graph V) (v : V) : V × Nat × Nat :=
  (v, pos (reach graph .left v), pos (reach graph .right v))

/-- A skipped column as it is lined up. -/
def linedUp (graph : Graph V) (layer : List V) : List V :=
  ((layer.map (endsOf pos graph)).insertionSort byEnds).map Prod.fst

theorem lineUp_eq (layered : graph.Layered) {layer : List V}
    (skips : ∀ v ∈ layer, v ∈ graph.skipped) :
    lineUp (linksOf graph .left) (linksOf graph .right) pos layer =
      some (linedUp pos graph layer) := by
  have keyed : ∀ v ∈ layer, (do
      let start ← (linksOf graph .left v).head?
      let stop ← (linksOf graph .right v).head?
      return (v, pos start.v, pos stop.v) : Option (V × Nat × Nat)) =
        some (endsOf pos graph v) := by
    intro v member
    obtain ⟨e, onlyIn⟩ := layered.one_in v (skips v member)
    obtain ⟨f, onlyOut⟩ := layered.one_out v (skips v member)
    have backwards := reach_left_of_skipped layered (skips v member) onlyIn
    have onwards := reach_right_of_skipped layered (skips v member) onlyOut
    have before : linksOf graph .left v = [⟨reach graph .left v, e.weighs⟩] := by
      rw [backwards, linksOf, Side.edgesOf, onlyIn]
      rfl
    have after : linksOf graph .right v = [⟨reach graph .right v, f.weighs⟩] := by
      rw [onwards, linksOf, Side.edgesOf, onlyOut]
      rfl
    rw [before, after]
    rfl
  rw [lineUp, Listing.mapM_eq_some keyed]
  rfl

omit [DecidableEq V] in
theorem map_fst_endsOf (layer : List V) [DecidableEq V] :
    (layer.map (endsOf pos graph)).map Prod.fst = layer := by
  rw [List.map_map]
  exact List.map_id _

theorem linedUp_perm (graph : Graph V) (layer : List V) : (linedUp pos graph layer).Perm layer := by
  have sorted := (List.perm_insertionSort byEnds (layer.map (endsOf pos graph))).map Prod.fst
  rwa [map_fst_endsOf] at sorted

theorem pairwise_linedUp (graph : Graph V) (layer : List V) :
    (linedUp pos graph layer).Pairwise fun v w =>
      byEnds (endsOf pos graph v) (endsOf pos graph w) := by
  rw [linedUp, List.pairwise_map]
  refine (List.pairwise_insertionSort byEnds _).imp_of_mem fun {a b} first second ordered => ?_
  rw [List.mem_insertionSort] at first second
  obtain ⟨v, -, rfl⟩ := List.mem_map.mp first
  obtain ⟨w, -, rfl⟩ := List.mem_map.mp second
  exact ordered

variable {layer : List V} (nodup : layer.Nodup) {v w : V}

include nodup

/-- Dummies are lined up by where their edges start and end. -/
theorem linedUp_lt (first : v ∈ layer) (second : w ∈ layer)
    (less : ¬byEnds (endsOf pos graph w) (endsOf pos graph v)) :
    (linedUp pos graph layer).idxOf v < (linedUp pos graph layer).idxOf w := by
  have perm := linedUp_perm pos graph layer
  have apart : v ≠ w := by
    rintro rfl
    exact less (.inr ⟨rfl, Nat.le_refl _⟩)
  have ordered :=
    Listing.sublist_or_sublist (perm.mem_iff.mpr first) (perm.mem_iff.mpr second) apart
  rcases ordered with sub | sub
  · exact Listing.idxOf_lt_of_sublist (perm.nodup_iff.mpr nodup) sub
  · exact absurd (List.pairwise_pair.mp ((pairwise_linedUp pos graph layer).sublist sub)) less

/-- Dummies whose edges start and end alike keep the order they came in. -/
theorem linedUp_tied (sub : [v, w].Sublist layer)
    (tied : byEnds (endsOf pos graph v) (endsOf pos graph w)) :
    (linedUp pos graph layer).idxOf v < (linedUp pos graph layer).idxOf w := by
  have linedNodup := (linedUp_perm pos graph layer).nodup_iff.mpr nodup
  refine Listing.idxOf_lt_of_sublist linedNodup ?_
  exact (List.pair_sublist_insertionSort tied (sub.map (endsOf pos graph))).map Prod.fst

end LineUp

/-! ## What is found -/

/-- The order that is found: each real column with its groups in one piece, no more crossings than
the grouped order at the start, and skipped columns in which edges cross no more than they must. -/
structure Orders (groupOf : V → Option V) (graph : Graph V) (right : V → List (Link V))
    (result : Ordered V) : Prop where
  layers_perm : List.Forall₂ List.Perm result.layers graph.layers
  passing_perm : List.Forall₂ List.Perm result.passing graph.passing
  order_eq : Placed result.order (result.layers ++ result.passing)
  grouped : ∀ layer ∈ result.layers, Grouping.Contiguous (group groupOf) layer
  passing_grouped : ∀ layer ∈ result.passing, (layer.map (group groupOf)).Nodup →
    Grouping.Contiguous (group groupOf) layer
  booked : Booked right graph.layers result.board
  start_perm : List.Forall₂ List.Perm result.start graph.layers
  start_grouped : ∀ layer ∈ result.start, Grouping.Contiguous (group groupOf) layer
  le : crossings right result.order result.layers ≤
    crossings right (result.start.foldl index fun _ => 0) result.start
  once : ∀ route other : Route V, route.On graph → other.On graph →
    graph.rank route.start = graph.rank other.start →
      route.start ≠ other.start ∨ route.stop ≠ other.stop →
        crossingsOf result.order route.nodes other.nodes ≤ 1 ∧
          (0 < crossingsOf result.order route.nodes other.nodes →
            ((result.order route.start : Int) - result.order other.start) *
              ((result.order route.stop : Int) - result.order other.stop) < 0)
  -- edges that start and end alike stand in the order they came in
  alike : ∀ route other : Route V, route.On graph → other.On graph →
    route.start = other.start → route.stop = other.stop →
      ∀ d ∈ route.dummies, ∀ e ∈ other.dummies, graph.rank d = graph.rank e →
        (result.order d < result.order e ↔
          (graph.column (graph.rank d)).idxOf d < (graph.column (graph.rank d)).idxOf e)

omit [DecidableEq V] in
theorem Grouped.contiguous {groupOf : V → Option V} {layer : List V}
    (grouped : Grouped groupOf layer) : Grouping.Contiguous (group groupOf) layer := by
  obtain ⟨blocks, grouping, rfl⟩ := grouped
  exact grouping.contiguous

section Found

variable {graph : Graph V} {order pos : V → Nat} {best : List (List V)}

theorem mem_of_leads (layered : graph.Layered) {v : V} {rest : List V}
    (leads : (v :: rest).IsChain (Leads graph)) : ∀ w ∈ rest, w ∈ graph.nodes := by
  induction rest generalizing v with
  | nil => exact fun w member => absurd member List.not_mem_nil
  | cons next rest ih =>
      obtain ⟨⟨e, listed, -, rfl⟩, later⟩ := List.isChain_cons_cons.mp leads
      exact List.forall_mem_cons.mpr ⟨(layered.mem e listed).2, ih later⟩

theorem Route.On.mem {route : Route V} (layered : graph.Layered) (on : route.On graph) :
    route.start ∈ graph.nodes ∧ route.stop ∈ graph.nodes := by
  have leads := on.leads
  rw [Route.nodes] at leads
  refine ⟨?_, mem_of_leads layered leads route.stop (by simp)⟩
  obtain ⟨next, rest, shape⟩ : ∃ next rest, route.dummies ++ [route.stop] = next :: rest := by
    cases route.dummies <;> simp
  rw [shape] at leads
  obtain ⟨e, listed, same, -⟩ := (List.isChain_cons_cons.mp leads).1
  exact same ▸ (layered.mem e listed).1

/-- The positions of the real columns, with the skipped columns lined up by them. -/
structure Final (graph : Graph V) (best : List (List V)) (pos order : V → Nat) : Prop where
  perm : List.Forall₂ List.Perm best graph.layers
  placed : Placed order (best ++ graph.passing.map (linedUp pos graph))
  order_eq : ∀ v ∉ graph.skipped, order v = pos v

variable (layered : graph.Layered) (final : Final graph best pos order)

include final

/-- Nodes of one real column have different places. -/
theorem Final.inj {v w : V} (first : v ∈ graph.nodes) (second : w ∈ graph.nodes)
    (real : v ∉ graph.skipped) (same : graph.rank v = graph.rank w) (equal : order v = order w) :
    v = w := by
  have member : v ∈ graph.column (graph.rank v) := mem_column.mpr ⟨first, rfl⟩
  have listed : graph.column (graph.rank v) ∈ graph.layers := by
    have known := mem_all.mpr ⟨v, first, rfl⟩
    refine List.mem_filter.mpr ⟨known, ?_⟩
    rw [Bool.not_eq_true', ← Bool.not_eq_true]
    exact fun passes => real ((isPassing_of_mem known member).mpr passes)
  obtain ⟨layer, inside, perm⟩ := Listing.exists_of_forall₂ final.perm listed
  have here : v ∈ layer := perm.mem_iff.mpr member
  have there : w ∈ layer := perm.mem_iff.mpr (mem_column.mpr ⟨second, same.symm⟩)
  rw [final.placed layer (List.mem_append_left _ inside) v here,
    final.placed layer (List.mem_append_left _ inside) w there] at equal
  exact (List.idxOf_inj here).mp equal

/-- The place of a dummy is the one it is lined up at. -/
theorem Final.order_skipped {v : V} (member : v ∈ graph.skipped) :
    order v = (linedUp pos graph (graph.column (graph.rank v))).idxOf v := by
  obtain ⟨known, passes⟩ := mem_skipped.mp member
  have listed : graph.column (graph.rank v) ∈ graph.passing :=
    List.mem_filter.mpr ⟨mem_all.mpr ⟨v, known, rfl⟩, passes⟩
  refine final.placed _ (List.mem_append_right _ (List.mem_map_of_mem listed)) v ?_
  exact (linedUp_perm pos graph _).mem_iff.mpr (mem_column.mpr ⟨known, rfl⟩)

include layered

/-- In a skipped column an edge is above another if it starts, or else ends, above it. -/
theorem Final.lt {v w : V} (first : v ∈ graph.skipped) (second : w ∈ graph.skipped)
    (same : graph.rank v = graph.rank w)
    (less : ¬byEnds (endsOf pos graph w) (endsOf pos graph v)) : order v < order w := by
  rw [final.order_skipped first, final.order_skipped second, ← same]
  exact linedUp_lt pos (column_nodup layered _) (mem_column.mpr ⟨(mem_skipped.mp first).1, rfl⟩)
    (mem_column.mpr ⟨(mem_skipped.mp second).1, same.symm⟩) less

theorem Final.above {route other : Route V} (on : route.On graph) (otherOn : other.On graph)
    (same : graph.rank route.start = graph.rank other.start)
    (less : order route.start < order other.start ∨
      order route.start = order other.start ∧ order route.stop < order other.stop) :
    crossingsOf order route.nodes other.nodes ≤ 1 ∧
      (0 < crossingsOf order route.nodes other.nodes →
        order route.start < order other.start ∧ order other.stop < order route.stop) := by
  obtain ⟨ranks, -⟩ := rank_dummies layered on.leads otherOn.leads same on.skips otherOn.skips
    on.stop_real otherOn.stop_real
  have above : List.Forall₂ (fun d e => order d < order e) route.dummies other.dummies := by
    refine Listing.forall₂_of_mem ranks fun d member e listed rank => ?_
    refine final.lt layered (on.skips d member) (otherOn.skips e listed) rank ?_
    obtain ⟨start, stop⟩ := on.reach_eq layered member
    obtain ⟨otherStart, otherStop⟩ := otherOn.reach_eq layered listed
    simp only [byEnds, endsOf, start, stop, otherStart, otherStop,
      ← final.order_eq _ on.start_real, ← final.order_eq _ on.stop_real,
      ← final.order_eq _ otherOn.start_real, ← final.order_eq _ otherOn.stop_real]
    omega
  have starts : order route.start ≤ order other.start := by omega
  obtain ⟨once, last⟩ := @crossingsOf_le _ order _ _ route.stop other.stop _ _ starts above
  refine ⟨once, fun crosses => ?_⟩
  have stops := last crosses
  omega

/-- Two edges that do not join the same cards cross at most once on the way, and only where they
cross in the real columns. -/
theorem Final.once {route other : Route V} (on : route.On graph) (otherOn : other.On graph)
    (same : graph.rank route.start = graph.rank other.start)
    (apart : route.start ≠ other.start ∨ route.stop ≠ other.stop) :
    crossingsOf order route.nodes other.nodes ≤ 1 ∧
      (0 < crossingsOf order route.nodes other.nodes →
        ((order route.start : Int) - order other.start) *
          ((order route.stop : Int) - order other.stop) < 0) := by
  obtain ⟨-, stops⟩ := rank_dummies layered on.leads otherOn.leads same on.skips otherOn.skips
    on.stop_real otherOn.stop_real
  have starts := final.inj (on.mem layered).1 (otherOn.mem layered).1 on.start_real same
  have ends := final.inj (on.mem layered).2 (otherOn.mem layered).2 on.stop_real stops
  have distinct : order route.start ≠ order other.start ∨ order route.stop ≠ order other.stop :=
    apart.imp (mt starts) (mt ends)
  rw [mul_neg_iff]
  by_cases less : order route.start < order other.start ∨
      order route.start = order other.start ∧ order route.stop < order other.stop
  · obtain ⟨once, crosses⟩ := final.above layered on otherOn same less
    refine ⟨once, fun positive => ?_⟩
    have := crosses positive
    omega
  · obtain ⟨once, crosses⟩ := final.above layered otherOn on same.symm (by omega)
    rw [crossingsOf_comm]
    refine ⟨once, fun positive => ?_⟩
    have := crosses positive
    omega

/-- Edges between the same cards stand in each skipped column as they came in. -/
theorem Final.alike {route other : Route V} (on : route.On graph) (otherOn : other.On graph)
    (starts : route.start = other.start) (stops : route.stop = other.stop) {d e : V}
    (first : d ∈ route.dummies) (second : e ∈ other.dummies) (same : graph.rank d = graph.rank e) :
    order d < order e ↔ (graph.column (graph.rank d)).idxOf d <
      (graph.column (graph.rank d)).idxOf e := by
  obtain ⟨start, stop⟩ := on.reach_eq layered first
  obtain ⟨otherStart, otherStop⟩ := otherOn.reach_eq layered second
  have nodup := column_nodup layered (graph.rank d)
  have here : d ∈ graph.column (graph.rank d) :=
    mem_column.mpr ⟨(mem_skipped.mp (on.skips d first)).1, rfl⟩
  have there : e ∈ graph.column (graph.rank d) :=
    mem_column.mpr ⟨(mem_skipped.mp (otherOn.skips e second)).1, same.symm⟩
  have ends : (endsOf pos graph d).2 = (endsOf pos graph e).2 := by
    simp only [endsOf, start, stop, otherStart, otherStop, starts, stops]
  have tied : byEnds (endsOf pos graph d) (endsOf pos graph e) :=
    .inr ⟨congrArg Prod.fst ends, (congrArg Prod.snd ends).le⟩
  have back : byEnds (endsOf pos graph e) (endsOf pos graph d) :=
    .inr ⟨congrArg Prod.fst ends.symm, (congrArg Prod.snd ends.symm).le⟩
  rw [final.order_skipped (on.skips d first),
    final.order_skipped (otherOn.skips e second), ← same]
  by_cases equal : d = e
  · rw [equal]
    simp
  · rcases Listing.sublist_or_sublist here there equal with sub | sub
    · exact iff_of_true (linedUp_tied pos nodup sub tied) (Listing.idxOf_lt_of_sublist nodup sub)
    · exact iff_of_false (Nat.lt_asymm (linedUp_tied pos nodup sub back))
        (Nat.lt_asymm (Listing.idxOf_lt_of_sublist nodup sub))

end Found

section Result

variable [LinearOrder κ] (groupOf : V → Option V) (keys : Nat → Nat → Keys κ V) {graph : Graph V}

theorem joined_perm (layers : List (List V)) :
    List.Forall₂ List.Perm (layers.map fun layer => (blocksOf groupOf layer).flatten) layers := by
  rw [List.forall₂_map_left_iff, List.forall₂_same]
  exact fun layer _ => Grouping.blocks_perm layer

theorem linedUp_perms (graph : Graph V) (pos : V → Nat) (layers : List (List V)) :
    List.Forall₂ List.Perm (layers.map (linedUp pos graph)) layers := by
  rw [List.forall₂_map_left_iff, List.forall₂_same]
  exact fun layer _ => linedUp_perm pos graph layer

omit [DecidableEq V] in
theorem all_perm (graph : Graph V) : (graph.layers ++ graph.passing).Perm graph.all := by
  have split := List.filter_append_perm (fun layer => graph.isPassing layer) graph.all
  exact List.perm_append_comm.trans split

omit [LinearOrder κ] in
/-- The positions of an order of the real columns, with the skipped columns behind it. -/
theorem final_foldl_index (layered : graph.Layered) {best : List (List V)}
    (perm : List.Forall₂ List.Perm best graph.layers) (before : V → Nat) :
    Final graph best (best.foldl index before)
      ((graph.passing.map (linedUp (best.foldl index before) graph)).foldl index
        (best.foldl index before)) where
  perm := perm
  placed := by
    rw [← List.foldl_append]
    refine placed_foldl_index before ?_
    have columns :=
      List.rel_append perm (linedUp_perms graph (best.foldl index before) graph.passing)
    exact ((List.Perm.flatten_congr columns).trans (all_perm graph).flatten).nodup_iff.mpr
      (all_nodup layered)
  order_eq := by
    intro v real
    refine foldl_index_of_not_mem _ fun member => real ?_
    exact (List.Perm.flatten_congr (linedUp_perms graph _ graph.passing)).mem_iff.mp member

omit [LinearOrder κ] in
/-- Every skipped column is lined up. -/
theorem mapM_lineUp (layered : graph.Layered) (pos : V → Nat) :
    graph.passing.mapM (lineUp (linksOf graph .left) (linksOf graph .right) pos) =
      some (graph.passing.map (linedUp pos graph)) :=
  Listing.mapM_eq_some fun layer member => lineUp_eq _ layered fun _ inside =>
    List.mem_flatten.mpr ⟨layer, member, inside⟩

omit [LinearOrder κ] in
/-- What the sweeps keep holds of the columns with each group joined into one block. -/
theorem kept_start {left right : V → List (Link V)} {cols : List (List V)}
    (layered : Crossings.Layered left right cols) (before : V → Nat) :
    let joined := cols.map fun layer => (blocksOf groupOf layer).flatten
    let pos := joined.foldl index before
    Kept groupOf right cols (crossings right pos joined)
      { layers := joined
        board := { pos }
        best := joined
        bestCrossings := crossings right pos joined
        stale := 0 } := by
  intro joined pos
  have perm : List.Forall₂ List.Perm joined cols := joined_perm groupOf cols
  have grouped : ∀ layer ∈ joined, Grouped groupOf layer := by
    rw [List.forall_mem_map]
    exact fun layer _ => grouped_blocksOf groupOf layer
  have placed : Placed pos joined := placed_foldl_index before (layered.of_perm perm).nodup
  exact
    { good := ⟨grouped, ⟨perm, placed⟩, ⟨by simp, by simp⟩⟩
      perm
      grouped
      counted := fun now again => crossings_congr layered perm placed again
      le := Nat.le_refl _ }

/-- The run ends, and the order it gives each column is a good one. -/
theorem columnOrder_spec (layered : graph.Layered) :
    ∃ right result, links graph .right = some right ∧
      columnOrder groupOf keys graph = some result ∧ Orders groupOf graph right result := by
  have cols := layered_layers layered
  set left := linksOf graph .left with left_eq
  set right := linksOf graph .right with right_eq
  have start := kept_start groupOf cols (graph.layers.foldl index fun _ => 0)
  set joined := graph.layers.map fun layer => (blocksOf groupOf layer).flatten with joined_eq
  set pos := joined.foldl index (graph.layers.foldl index fun _ => 0) with pos_eq
  have kept := start.sweeps cols keys maxSweeps 0
  set run := sweeps groupOf left right keys maxSweeps 0
    { layers := joined
      board := { pos }
      best := joined
      bestCrossings := crossings right pos joined
      stale := 0 } with run_eq
  have final := final_foldl_index layered kept.perm run.board.pos
  have found : columnOrder groupOf keys graph = some
      { start := joined
        layers := run.best
        passing := graph.passing.map (linedUp (run.best.foldl index run.board.pos) graph)
        order := (graph.passing.map (linedUp (run.best.foldl index run.board.pos) graph)).foldl
          index (run.best.foldl index run.board.pos)
        board := run.board } := by
    rw [columnOrder, links_eq layered, links_eq layered]
    change (graph.passing.mapM (lineUp left right (run.best.foldl index run.board.pos))).bind _ = _
    rw [mapM_lineUp layered]
    rfl
  have perm : List.Forall₂ List.Perm joined graph.layers := joined_perm groupOf graph.layers
  have places : Placed _ run.best := fun layer member =>
    final.placed layer (List.mem_append_left _ member)
  refine ⟨right, _, links_eq layered .right, found, ?_⟩
  exact
    { layers_perm := kept.perm
      passing_perm := linedUp_perms graph _ graph.passing
      order_eq := final.placed
      grouped := fun layer member => (kept.grouped layer member).contiguous
      passing_grouped := fun _ _ nodup => Grouping.contiguous_of_nodup nodup
      booked := kept.good.booked
      start_perm := perm
      start_grouped := fun layer member => (start.grouped layer member).contiguous
      le := by
        have again := placed_foldl_index (fun _ => 0) (cols.of_perm perm).nodup
        have same : crossings right (joined.foldl index fun _ => 0) joined =
          crossings right pos joined := start.counted _ again
        change crossings right _ run.best ≤ crossings right (joined.foldl index _) joined
        rw [kept.counted _ places, same]
        exact kept.le
      once := fun route other on otherOn => final.once layered on otherOn
      alike := fun route other on otherOn starts stops d first e second =>
        final.alike layered on otherOn starts stops first second }

end Result

/-! ### Edges that join the same cards -/

/-- Three edges join the same two cards through two skipped columns. -/
def tied : Graph String where
  nodes := ["a", "d1", "e1", "f1", "e2", "d2", "f2", "x"]
  rank v := if v = "a" then 0 else if v ∈ ["d1", "e1", "f1"] then 1 else if v = "x" then 3 else 2
  order v := if v ∈ ["e1", "d2"] then 1 else if v ∈ ["f1", "f2"] then 2 else 0
  dummy v := v ∉ ["a", "x"]
  edges :=
    [⟨"a", "d1", some 1⟩, ⟨"a", "e1", some 1⟩, ⟨"a", "f1", some 1⟩, ⟨"d1", "d2", some 1⟩,
      ⟨"e1", "e2", some 1⟩, ⟨"f1", "f2", some 1⟩, ⟨"d2", "x", some 1⟩, ⟨"e2", "x", some 1⟩,
      ⟨"f2", "x", some 1⟩]

def tiedGroup (v : String) : Option String := if v ∈ ["d1", "f1"] then some "g" else none

def level (_ _ : Nat) : Keys Nat String where
  block _ := 0
  card _ := 0

theorem tied_layered : tied.Layered where
  nodup := by decide
  mem := by decide
  lt := by decide
  next := by decide
  one_in := by
    have single : ∀ v ∈ tied.skipped, (tied.inEdges v).length = 1 := by decide
    exact fun v member => List.length_eq_one_iff.mp (single v member)
  one_out := by
    have single : ∀ v ∈ tied.skipped, (tied.outEdges v).length = 1 := by decide
    exact fun v member => List.length_eq_one_iff.mp (single v member)
  even := by decide

instance decidableLeads {V : Type} [DecidableEq V] (graph : Graph V) (v w : V) :
    Decidable (Leads graph v w) :=
  inferInstanceAs (Decidable (∃ e ∈ graph.edges, e.v = v ∧ e.w = w))

def firstTied : Route String := ⟨"a", ["d1", "d2"], "x"⟩
def secondTied : Route String := ⟨"a", ["e1", "e2"], "x"⟩

theorem firstTied_on : firstTied.On tied where
  leads := by decide
  start_real := by decide
  skips := by decide
  stop_real := by decide

theorem secondTied_on : secondTied.On tied where
  leads := by decide
  start_real := by decide
  skips := by decide
  stop_real := by decide

theorem columnOrder_spec_tied : tied.Layered ∧ ∃ right result,
    links tied .right = some right ∧ columnOrder tiedGroup level tied = some result ∧
      Orders tiedGroup tied right result :=
  ⟨tied_layered, columnOrder_spec tiedGroup level tied_layered⟩

/-- Two of the edges cross between the skipped columns and not in the order of the real ones, and
the dummies of a group are not in one piece. -/
theorem tied_crosses : tied.Layered ∧ firstTied.On tied ∧ secondTied.On tied ∧
    ∃ result, columnOrder tiedGroup level tied = some result ∧
      crossingsOf result.order firstTied.nodes secondTied.nodes = 1 ∧
      ¬((result.order firstTied.start : Int) - result.order secondTied.start) *
        ((result.order firstTied.stop : Int) - result.order secondTied.stop) < 0 ∧
      ∃ layer ∈ result.passing, ¬Grouping.Contiguous (group tiedGroup) layer := by
  refine ⟨tied_layered, firstTied_on, secondTied_on, ?_⟩
  have runs : (columnOrder tiedGroup level tied).isSome := by decide
  have counts : (columnOrder tiedGroup level tied).all fun result =>
      crossingsOf result.order firstTied.nodes secondTied.nodes = 1 := by decide
  have lined : (columnOrder tiedGroup level tied).all fun result =>
      ["d1", "e1", "f1"] ∈ result.passing := by decide
  obtain ⟨result, found⟩ := Option.isSome_iff_exists.mp runs
  rw [found, Option.all_some, decide_eq_true_iff] at counts lined
  refine ⟨result, found, counts, ?_, _, lined, fun contiguous => ?_⟩
  · -- both edges start at one card
    rw [show firstTied.start = secondTied.start from rfl, sub_self, zero_mul]
    exact lt_irrefl 0
  · have alike := contiguous "d1" "e1" "f1" (.refl _) (by decide)
    exact absurd alike (by decide)

end ColumnOrder
end Fghj
