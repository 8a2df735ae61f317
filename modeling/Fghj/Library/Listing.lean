import Mathlib.Data.List.Destutter
import Mathlib.Data.List.Flatten
import Mathlib.Data.List.Forall2
import Mathlib.Data.List.Induction
import Mathlib.Data.List.Perm.Subperm
import Mathlib.Data.List.Sort
import Mathlib.Tactic.Tauto

/-!
# Listings

A listing that was sorted and rid of repetitions is known by its members. A listing whose entries
are put in another order, each of them changed by a relation, still offers the same items, and what
a first match finds in it depends on the order only as far as two matches differ. Of two items in
one listing, one comes first. Where the last hit decides, two readings of a listing part only at the
last item that one of them hits.
-/

namespace Fghj
namespace Listing

/-! ## Sorted, without repetitions -/

section Sorted

variable {α : Type} [LinearOrder α]

/-- The items in order, each of them once. -/
def sortDedup (items : List α) : List α := (items.insertionSort (· ≤ ·)).destutter (· ≠ ·)

theorem mem_destutter_iff {items : List α} {item : α} :
    item ∈ items.destutter (· ≠ ·) ↔ item ∈ items := by
  have kept : ∀ (items : List α) (first : α),
      item ∈ items.destutter' (· ≠ ·) first ↔ item ∈ first :: items := by
    intro items
    induction items with
    | nil => simp
    | cons next items ih =>
        intro first
        rw [List.destutter'_cons]
        by_cases same : first = next
        · subst same
          simp [ih]
        · simp [same, ih]
  cases items with
  | nil => simp
  | cons first items => exact kept items first

@[simp]
theorem mem_sortDedup {items : List α} {item : α} : item ∈ sortDedup items ↔ item ∈ items := by
  rw [sortDedup, mem_destutter_iff, List.mem_insertionSort]

theorem pairwise_lt_of_isChain_ne {items : List α} (ordered : items.Pairwise (· ≤ ·))
    (stepped : items.IsChain (· ≠ ·)) : items.Pairwise (· < ·) := by
  induction items with
  | nil => exact List.Pairwise.nil
  | cons first items ih =>
      rw [List.pairwise_cons] at ordered
      have later := ih ordered.2 stepped.tail
      refine List.pairwise_cons.mpr ⟨fun item member => ?_, later⟩
      cases items with
      | nil => cases member
      | cons next items =>
          have below : first < next :=
            lt_of_le_of_ne (ordered.1 next List.mem_cons_self) (List.isChain_cons_cons.mp stepped).1
          rcases List.mem_cons.mp member with rfl | after
          · exact below
          · exact below.trans ((List.pairwise_cons.mp later).1 item after)

theorem pairwise_sortDedup (items : List α) : (sortDedup items).Pairwise (· < ·) := by
  apply pairwise_lt_of_isChain_ne
  · exact (List.pairwise_insertionSort (· ≤ ·) items).sublist (List.destutter_sublist _ _)
  · exact List.isChain_destutter _ _

/-- Listings of the same items are sorted into the same list. -/
theorem sortDedup_congr {items others : List α} (same : ∀ item, item ∈ items ↔ item ∈ others) :
    sortDedup items = sortDedup others := by
  apply (pairwise_sortDedup items).eq_of_mem_iff (pairwise_sortDedup others)
  intro item
  rw [mem_sortDedup, mem_sortDedup, same]

end Sorted

/-! ## Reordered -/

section Reordered

variable {α β γ : Type}

/-- The entries of one listing, changed by a relation and put in another order. -/
def Reorders (related : α → β → Prop) (entries : List α) (others : List β) : Prop :=
  ∃ moved : List α, entries.Perm moved ∧ List.Forall₂ related moved others

/-- A reordered listing offers the same items. -/
theorem Reorders.flatMap_perm {related : α → β → Prop} {entries : List α} {others : List β}
    (reorders : Reorders related entries others) {items : α → List γ} {offers : β → List γ}
    (same : ∀ entry other, related entry other → (items entry).Perm (offers other)) :
    (entries.flatMap items).Perm (others.flatMap offers) := by
  obtain ⟨moved, permuted, pairs⟩ := reorders
  refine (permuted.flatMap_right items).trans ?_
  induction pairs generalizing entries with
  | nil => exact List.Perm.refl _
  | cons first rest ih =>
      rw [List.flatMap_cons, List.flatMap_cons]
      exact (same _ _ first).append (ih (List.Perm.refl _))

/-- Every entry can be put first. -/
theorem Reorders.front {related : α → α → Prop} (unchanged : ∀ entry, related entry entry)
    {entries : List α} {entry other : α} (member : entry ∈ entries)
    (changed : related entry other) :
    ∃ others, Reorders related entries (other :: others) := by
  obtain ⟨before, after, rfl⟩ := List.append_of_mem member
  refine ⟨before ++ after, entry :: (before ++ after), List.perm_middle, ?_⟩
  exact List.Forall₂.cons changed (List.forall₂_same.mpr fun entry _ => unchanged entry)

/-- A first match does not depend on the order where all matches agree. -/
theorem find?_perm {items others : List α} (permuted : items.Perm others) {accepts : α → Bool}
    {value : α → β}
    (agree : ∀ item ∈ items, ∀ other ∈ items, accepts item → accepts other →
      value item = value other) :
    (items.find? accepts).map value = (others.find? accepts).map value := by
  cases found : items.find? accepts with
  | none =>
      have absent : others.find? accepts = none := by
        rw [List.find?_eq_none] at found ⊢
        exact fun item member => found item (permuted.mem_iff.mpr member)
      rw [absent]
  | some item =>
      have member := List.mem_of_find?_eq_some found
      have accepted := List.find?_some found
      cases elsewhere : others.find? accepts with
      | none =>
          exact ((List.find?_eq_none.mp elsewhere) item (permuted.mem_iff.mp member) accepted).elim
      | some other =>
          have listed := permuted.mem_iff.mpr (List.mem_of_find?_eq_some elsewhere)
          exact congrArg some (agree item member other listed accepted (List.find?_some elsewhere))

end Reordered

/-! ## In groups -/

section Groups

variable {α β κ : Type} [DecidableEq κ] {group : α → List β} {key : α → κ} {tag : β → κ}

/-- The pieces with an item's key are the item's own. -/
theorem filter_flatMap (tagged : ∀ item, ∀ piece ∈ group item, tag piece = key item) {first : α}
    {items : List α} (fresh : key first ∉ items.map key) :
    ((first :: items).flatMap group).filter (fun piece => tag piece = key first) = group first := by
  have own : (group first).filter (fun piece => tag piece = key first) = group first :=
    List.filter_eq_self.mpr fun piece member => decide_eq_true (tagged first piece member)
  have others : (items.flatMap group).filter (fun piece => tag piece = key first) = [] := by
    refine List.filter_eq_nil_iff.mpr fun piece member => ?_
    obtain ⟨item, listed, inside⟩ := List.mem_flatMap.mp member
    rw [decide_eq_true_eq, tagged item piece inside]
    exact fun same => fresh (List.mem_map.mpr ⟨item, listed, same⟩)
  rw [List.flatMap_cons, List.filter_append, own, others, List.append_nil]

/-- Items of distinct keys are known by their groups in one list, where each piece tells its item's
key. -/
theorem eq_of_flatMap_eq (tagged : ∀ item, ∀ piece ∈ group item, tag piece = key item)
    (apart : ∀ item other, group item = group other → group item ≠ [] → item = other)
    {items others : List α} (solid : ∀ item ∈ items, group item ≠ [])
    (alsoSolid : ∀ item ∈ others, group item ≠ []) (distinct : (items.map key).Nodup)
    (alsoDistinct : (others.map key).Nodup)
    (same : items.flatMap group = others.flatMap group) : items = others := by
  have starts : ∀ {first piece pieces} items, group first = piece :: pieces →
      (List.flatMap group (first :: items)).head? = some piece := by
    intro first piece pieces items shape
    rw [List.flatMap_cons, shape]
    rfl
  induction items generalizing others with
  | nil =>
      cases others with
      | nil => rfl
      | cons head tail =>
          obtain ⟨piece, pieces, shape⟩ := List.exists_cons_of_ne_nil
            (alsoSolid head List.mem_cons_self)
          have first := starts tail shape
          rw [← same] at first
          cases first
  | cons first items ih =>
      obtain ⟨piece, pieces, shape⟩ := List.exists_cons_of_ne_nil (solid first List.mem_cons_self)
      cases others with
      | nil =>
          have front := starts items shape
          rw [same] at front
          cases front
      | cons head tail =>
          obtain ⟨other, rest, alsoShape⟩ :=
            List.exists_cons_of_ne_nil (alsoSolid head List.mem_cons_self)
          have front := starts items shape
          rw [same, starts tail alsoShape, Option.some_inj] at front
          have keys : key first = key head := by
            rw [← tagged first piece (shape ▸ List.mem_cons_self), ← front,
              tagged head other (alsoShape ▸ List.mem_cons_self)]
          rw [List.map_cons, List.nodup_cons] at distinct alsoDistinct
          have groups : group first = group head := by
            rw [← filter_flatMap tagged distinct.1, same, keys,
              filter_flatMap tagged alsoDistinct.1]
          obtain rfl := apart first head groups (solid first List.mem_cons_self)
          rw [List.flatMap_cons, List.flatMap_cons, List.append_cancel_left_eq] at same
          rw [ih (fun item member => solid item (List.mem_cons_of_mem _ member))
            (fun item member => alsoSolid item (List.mem_cons_of_mem _ member)) distinct.2
            alsoDistinct.2 same]

end Groups

/-! ## Read item by item -/

/-- Where every item is read, so is the list. -/
theorem mapM_eq_some {α β : Type} {reader : α → Option β} {told : α → β} {items : List α}
    (each : ∀ item ∈ items, reader item = some (told item)) :
    items.mapM reader = some (items.map told) := by
  induction items with
  | nil => rfl
  | cons item items ih =>
      obtain ⟨here, later⟩ := List.forall_mem_cons.mp each
      rw [List.mapM_cons, here, ih later]
      rfl

/-- Where each item that is read at all is read as a function tells, so is the list. -/
theorem mapM_eq_map {α β : Type} {reader : α → Option β} {items : List α} {results : List β}
    (told : α → β) (each : ∀ item ∈ items, ∀ result, reader item = some result →
      result = told item) (accepted : items.mapM reader = some results) :
    results = items.map told := by
  induction items generalizing results with
  | nil =>
      cases accepted
      rfl
  | cons item items ih =>
      rw [List.mapM_cons] at accepted
      obtain ⟨first, here, accepted⟩ := Option.bind_eq_some_iff.mp accepted
      obtain ⟨rest, later, same⟩ := Option.bind_eq_some_iff.mp accepted
      cases same
      rw [List.map_cons, each item List.mem_cons_self first here,
        ih (fun other member => each other (List.mem_cons_of_mem _ member)) later]

/-- Where the list is read, so is every item. -/
theorem exists_of_mapM {α β : Type} {reader : α → Option β} {items : List α} {results : List β}
    (accepted : items.mapM reader = some results) {item : α} (member : item ∈ items) :
    ∃ result, reader item = some result := by
  induction items generalizing results with
  | nil => cases member
  | cons first items ih =>
      rw [List.mapM_cons] at accepted
      obtain ⟨here, found, accepted⟩ := Option.bind_eq_some_iff.mp accepted
      obtain ⟨rest, later, -⟩ := Option.bind_eq_some_iff.mp accepted
      rcases List.mem_cons.mp member with rfl | inside
      · exact ⟨here, found⟩
      · exact ih later inside

/-! ## Item for item -/

section Pairs

variable {α β : Type} {related : α → β → Prop} {items : List α} {others : List β}

theorem exists_of_forall₂ (all : List.Forall₂ related items others) {other : β}
    (member : other ∈ others) : ∃ item ∈ items, related item other := by
  induction all with
  | nil => cases member
  | cons here _ ih =>
      rcases List.mem_cons.mp member with rfl | later
      · exact ⟨_, List.mem_cons_self, here⟩
      · obtain ⟨item, listed, related⟩ := ih later
        exact ⟨item, List.mem_cons_of_mem _ listed, related⟩

theorem forall₂_of_mem {stronger : α → β → Prop} (all : List.Forall₂ related items others)
    (each : ∀ item ∈ items, ∀ other ∈ others, related item other → stronger item other) :
    List.Forall₂ stronger items others := by
  induction all with
  | nil => exact .nil
  | cons here _ ih =>
      refine .cons (each _ List.mem_cons_self _ List.mem_cons_self here) (ih ?_)
      intro item member other listed
      exact each item (List.mem_cons_of_mem _ member) other (List.mem_cons_of_mem _ listed)

end Pairs

/-! ## Which comes first -/

section First

variable {α : Type} {items : List α} {one other : α}

theorem sublist_or_sublist (first : one ∈ items) (second : other ∈ items) (apart : one ≠ other) :
    [one, other].Sublist items ∨ [other, one].Sublist items := by
  induction items with
  | nil => cases first
  | cons item items ih =>
      rcases List.mem_cons.mp first with rfl | here
      · have later : other ∈ items := (List.mem_cons.mp second).resolve_left apart.symm
        exact .inl ((List.singleton_sublist.mpr later).cons_cons one)
      · rcases List.mem_cons.mp second with rfl | later
        · exact .inr ((List.singleton_sublist.mpr here).cons_cons other)
        · exact (ih here later).imp (.cons item) (.cons item)

theorem idxOf_lt_of_sublist [DecidableEq α] (nodup : items.Nodup)
    (sub : [one, other].Sublist items) : items.idxOf one < items.idxOf other := by
  induction items with
  | nil => cases sub
  | cons item items ih =>
      obtain ⟨absent, rest⟩ := List.nodup_cons.mp nodup
      cases sub with
      | cons _ later =>
          have first : one ∈ items := later.subset (by simp)
          have second : other ∈ items := later.subset (by simp)
          rw [List.idxOf_cons_ne _ (ne_of_mem_of_not_mem first absent).symm,
            List.idxOf_cons_ne _ (ne_of_mem_of_not_mem second absent).symm]
          exact Nat.succ_lt_succ (ih rest later)
      | cons_cons _ later =>
          have second : other ∈ items := later.subset (by simp)
          rw [List.idxOf_cons_self, List.idxOf_cons_ne _ (ne_of_mem_of_not_mem second absent).symm]
          exact Nat.succ_pos _

end First

/-! ## Filtered and gathered -/

section Gathered

variable {α : Type}

theorem nodup_eraseDups [DecidableEq α] (items : List α) : items.eraseDups.Nodup := by
  match items with
  | [] => exact .nil
  | item :: items =>
      rw [List.eraseDups_cons, List.nodup_cons]
      exact ⟨by simp [List.mem_eraseDups], nodup_eraseDups _⟩
termination_by items.length
decreasing_by exact Nat.lt_succ_of_le (List.length_filter_le _ _)

/-- A filter that lets fewer items through leaves fewer. -/
theorem length_filter_lt {items : List α} {item : α} {narrow wide : α → Bool}
    (member : item ∈ items) (weaker : ∀ other ∈ items, narrow other → wide other)
    (passes : wide item = true) (fails : narrow item = false) :
    (items.filter narrow).length < (items.filter wide).length := by
  have within : items.filter narrow = (items.filter wide).filter narrow := by
    rw [List.filter_filter]
    refine List.filter_congr fun other listed => ?_
    cases inside : narrow other
    · rfl
    · exact (weaker other listed inside).symm
  rw [within, List.length_filter_lt_length_iff_exists]
  exact ⟨item, List.mem_filter.mpr ⟨member, passes⟩, by simp [fails]⟩

/-- Items gathered key by key are the items of these keys. -/
theorem flatMap_filter_perm {κ : Type} [DecidableEq κ] (key : α → κ) (items : List α)
    {keys : List κ} (nodup : keys.Nodup) :
    (keys.flatMap fun k => items.filter fun item => key item = k).Perm
      (items.filter fun item => key item ∈ keys) := by
  induction keys with
  | nil => simp
  | cons k keys ih =>
      obtain ⟨absent, rest⟩ := List.nodup_cons.mp nodup
      have split := List.filter_append_perm (fun item => decide (key item = k))
        (items.filter fun item => key item ∈ k :: keys)
      rw [List.filter_filter, List.filter_filter] at split
      have own : (items.filter fun item => decide (key item = k) && decide (key item ∈ k :: keys)) =
          items.filter fun item => key item = k := by
        refine List.filter_congr fun item _ => ?_
        by_cases same : key item = k <;> simp [same]
      have others : (items.filter fun item =>
          !decide (key item = k) && decide (key item ∈ k :: keys)) =
          items.filter fun item => key item ∈ keys := by
        refine List.filter_congr fun item _ => ?_
        by_cases same : key item = k <;> simp [same, absent]
      rw [own, others] at split
      rw [List.flatMap_cons]
      exact (ih rest |>.append_left _).trans split

theorem subperm_flatMap {β : Type} {items : List α} {f g : α → List β}
    (each : ∀ item ∈ items, (f item).Subperm (g item)) :
    (items.flatMap f).Subperm (items.flatMap g) := by
  induction items with
  | nil => exact List.Subperm.refl _
  | cons item items ih =>
      rw [List.forall_mem_cons] at each
      rw [List.flatMap_cons, List.flatMap_cons]
      exact each.1.append (ih each.2)

end Gathered

/-! ## The last hit -/

section LastHit

variable {α β : Type} {tells hits alsoHits : α → Prop} {items before after : List α} {item : α}

/-- The last item that hits tells it. -/
def LastTells (tells hits : α → Prop) (items : List α) : Prop :=
  ∃ before item after, items = before ++ item :: after ∧ tells item ∧ hits item ∧
    ∀ later ∈ after, ¬hits later

theorem lastTells_nil : ¬LastTells tells hits [] := by
  rintro ⟨before, item, after, same, -⟩
  exact List.append_ne_nil_of_right_ne_nil before (List.cons_ne_nil item after) same.symm

theorem lastTells_concat : LastTells tells hits (items ++ [item]) ↔
    hits item ∧ tells item ∨ ¬hits item ∧ LastTells tells hits items := by
  constructor
  · rintro ⟨before, last, after, same, said, hit, missed⟩
    rcases List.eq_nil_or_concat after with rfl | ⟨after, final, rfl⟩
    · obtain ⟨-, rfl⟩ := List.append_inj' same rfl |>.imp_right (List.cons.inj · |>.1)
      exact .inl ⟨hit, said⟩
    · rw [List.concat_eq_append] at same missed
      rw [← List.cons_append, ← List.append_assoc] at same
      obtain ⟨rfl, rfl⟩ := List.append_inj' same rfl |>.imp_right (List.cons.inj · |>.1)
      exact .inr ⟨missed item (by simp), before, last, after, rfl, said, hit,
        fun later member => missed later (List.mem_append_left _ member)⟩
  · rintro (⟨hit, said⟩ | ⟨miss, before, last, after, rfl, said, hit, missed⟩)
    · exact ⟨items, item, [], rfl, said, hit, by simp⟩
    · refine ⟨before, last, after ++ [item], by simp, said, hit, ?_⟩
      simpa [or_imp, forall_and] using ⟨missed, miss⟩

theorem lastTells_of_last (missed : ∀ later ∈ after, ¬hits later) :
    LastTells tells hits (before ++ item :: after) ↔
      hits item ∧ tells item ∨ ¬hits item ∧ LastTells tells hits before := by
  induction after using List.reverseRecOn with
  | nil => exact lastTells_concat
  | append_singleton after final ih =>
      rw [← List.cons_append, ← List.append_assoc, lastTells_concat,
        ih fun later member => missed later (List.mem_append_left _ member)]
      have miss := missed final (by simp)
      tauto

/-- Either nothing hits, or there is a last item that does. -/
theorem exists_last (hits : α → Prop) (items : List α) : (∀ item ∈ items, ¬hits item) ∨
    ∃ before item after, items = before ++ item :: after ∧ hits item ∧
      ∀ later ∈ after, ¬hits later := by
  induction items using List.reverseRecOn with
  | nil => simp
  | append_singleton items item ih =>
      by_cases hit : hits item
      · exact .inr ⟨items, item, [], rfl, hit, by simp⟩
      · refine ih.imp (fun missed => ?_) ?_
        · simpa [or_imp, forall_and] using ⟨missed, hit⟩
        · rintro ⟨before, last, after, rfl, found, missed⟩
          exact ⟨before, last, after ++ [item], by simp, found,
            by simpa [or_imp, forall_and] using ⟨missed, hit⟩⟩

/-- Two readings give the same word just when both hit the last item that one of them hits, or when
the items before it, in the reading that misses it, already give its word. -/
theorem lastTells_iff_lastTells :
    (LastTells tells hits items ↔ LastTells tells alsoHits items) ↔
      ∀ before item after, items = before ++ item :: after → hits item ∨ alsoHits item →
        (∀ later ∈ after, ¬hits later ∧ ¬alsoHits later) →
          hits item ∧ alsoHits item ∨
            ¬hits item ∧ (LastTells tells hits before ↔ tells item) ∨
            ¬alsoHits item ∧ (LastTells tells alsoHits before ↔ tells item) := by
  constructor
  · rintro same before item after rfl hit missed
    rw [lastTells_of_last fun later member => (missed later member).1,
      lastTells_of_last fun later member => (missed later member).2] at same
    tauto
  · intro decided
    rcases exists_last (fun item => hits item ∨ alsoHits item) items with missed | last
    · have silent {either : α → Prop} (fewer : ∀ item, either item → hits item ∨ alsoHits item) :
          ¬LastTells tells either items := by
        rintro ⟨before, item, after, rfl, -, hit, -⟩
        exact missed item (by simp) (fewer item hit)
      exact iff_of_false (silent fun _ => .inl) (silent fun _ => .inr)
    · obtain ⟨before, item, after, rfl, hit, missed⟩ := last
      simp only [not_or] at missed
      have here := decided before item after rfl hit missed
      rw [lastTells_of_last fun later member => (missed later member).1,
        lastTells_of_last fun later member => (missed later member).2]
      tauto

/-- What is told of the items, and where nothing is told nothing hits. -/
theorem lastTells_filterMap {told : α → Option β} {tells hits : β → Prop} {alsoTells : α → Prop}
    (same : ∀ item result, told item = some result → (tells result ↔ alsoTells item)) :
    LastTells tells hits (items.filterMap told) ↔
      LastTells alsoTells (fun item => ∃ result, told item = some result ∧ hits result) items := by
  induction items using List.reverseRecOn with
  | nil => exact iff_of_false lastTells_nil lastTells_nil
  | append_singleton items item ih =>
      rw [lastTells_concat, ← ih, List.filterMap_append]
      cases found : told item with
      | none => simp [found]
      | some result =>
          rw [List.filterMap_cons_some found, List.filterMap_nil, lastTells_concat]
          simp [same item result found]

end LastHit

end Listing
end Fghj
