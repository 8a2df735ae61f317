import Mathlib.Data.List.Basic
import Mathlib.Data.List.Forall2
import Mathlib.Data.List.Induction
import Mathlib.Data.List.Perm.Basic

/-!
# Lists grouped by a key

The items of a list are put into blocks, one for each key, in the order in which the keys first
occur. In a list made of such blocks the items of a key stand next to each other, however the
blocks are ordered and the items within them.
-/

namespace Fghj
namespace Grouping

variable {α κ : Type} (key : α → κ)

/-- Blocks of one key each, no two of them of the same. -/
structure Blocks (blocks : List (List α)) : Prop where
  ne_nil : ∀ block ∈ blocks, block ≠ []
  alike : ∀ block ∈ blocks, ∀ one ∈ block, ∀ other ∈ block, key one = key other
  apart : blocks.Pairwise fun block other => ∀ one ∈ block, ∀ two ∈ other, key one ≠ key two

/-- What stands between two items of a key is of that key. -/
def Contiguous (items : List α) : Prop :=
  ∀ one middle other, [one, middle, other].Sublist items → key one = key other →
    key middle = key one

variable {key}

theorem Blocks.nil : Blocks key [] := ⟨by simp, by simp, .nil⟩

theorem Blocks.tail {block : List α} {blocks : List (List α)}
    (grouped : Blocks key (block :: blocks)) : Blocks key blocks where
  ne_nil := fun other member => grouped.ne_nil other (List.mem_cons_of_mem _ member)
  alike := fun other member => grouped.alike other (List.mem_cons_of_mem _ member)
  apart := grouped.apart.of_cons

theorem Blocks.of_perm {blocks others : List (List α)} (grouped : Blocks key blocks)
    (perm : others.Perm blocks) : Blocks key others where
  ne_nil := fun block member => grouped.ne_nil block (perm.subset member)
  alike := fun block member => grouped.alike block (perm.subset member)
  apart := by
    refine (perm.pairwise_iff fun apart one first two second same => ?_).mpr grouped.apart
    exact apart two second one first same.symm

theorem Blocks.of_forall₂ {blocks others : List (List α)} (grouped : Blocks key blocks)
    (perm : List.Forall₂ List.Perm others blocks) : Blocks key others := by
  induction perm with
  | nil => exact .nil
  | @cons block other blocks others here later ih =>
      have rest := ih grouped.tail
      obtain ⟨apart, -⟩ := List.pairwise_cons.mp grouped.apart
      refine ⟨?_, ?_, List.pairwise_cons.mpr ⟨?_, rest.apart⟩⟩
      · rw [List.forall_mem_cons]
        refine ⟨fun empty => grouped.ne_nil other List.mem_cons_self ?_, rest.ne_nil⟩
        rw [empty] at here
        exact here.symm.eq_nil
      · rw [List.forall_mem_cons]
        exact ⟨fun one first two second => grouped.alike other List.mem_cons_self one
          (here.subset first) two (here.subset second), rest.alike⟩
      · intro block member one first two second
        have listed : two ∈ others.flatten :=
          (List.Perm.flatten_congr later).subset (List.mem_flatten.mpr ⟨block, member, second⟩)
        obtain ⟨before, among, inside⟩ := List.mem_flatten.mp listed
        exact apart before among one (here.subset first) two inside

/-- In a list of blocks the items of a key stand next to each other. -/
theorem Blocks.contiguous {blocks : List (List α)} (grouped : Blocks key blocks) :
    Contiguous key blocks.flatten := by
  intro one middle other
  induction blocks with
  | nil => exact fun sub => absurd (List.sublist_nil.mp sub) (List.cons_ne_nil _ _)
  | cons block blocks ih =>
      intro sub same
      obtain ⟨apart, -⟩ := List.pairwise_cons.mp grouped.apart
      have split : ∀ u ∈ block, ∀ v ∈ blocks.flatten, key u ≠ key v := by
        intro u first v second
        obtain ⟨later, listed, inside⟩ := List.mem_flatten.mp second
        exact apart later listed u first v inside
      rw [List.flatten_cons, List.sublist_append_iff] at sub
      obtain ⟨front, back, shape, here, later⟩ := sub
      -- how many of the three are in the first block
      match front, back, shape, here, later with
      | [], _, rfl, _, later => exact ih grouped.tail later same
      | [_], _, rfl, here, later =>
          exact absurd same (split _ (here.subset (by simp)) _ (later.subset (by simp)))
      | [_, _], _, rfl, here, later =>
          exact absurd same (split _ (here.subset (by simp)) _ (later.subset (by simp)))
      | [_, _, _], _, rfl, here, _ =>
          exact grouped.alike block List.mem_cons_self _ (here.subset (by simp)) _
            (here.subset (by simp))

theorem contiguous_of_nodup {items : List α} (nodup : (items.map key).Nodup) :
    Contiguous key items := by
  intro one middle other sub same
  have distinct := nodup.sublist (sub.map key)
  simp [same] at distinct

variable [DecidableEq κ]

variable (key) in
/-- One block for each key, in the order of their first items. -/
def blocks (items : List α) : List (List α) :=
  (items.map key).eraseDups.map fun k => items.filter fun item => key item = k

theorem blocks_cons (item : α) (items : List α) :
    blocks key (item :: items) =
      (item :: items.filter fun other => key other = key item) ::
        blocks key (items.filter fun other => key other ≠ key item) := by
  have keys : (items.map key).filter (fun k => !k == key item) =
      (items.filter fun other => key other ≠ key item).map key := by
    rw [List.filter_map]
    simp only [Function.comp_def, ne_eq, decide_not]
    rfl
  rw [blocks, List.map_cons, List.eraseDups_cons, keys, List.map_cons, blocks]
  refine congrArg₂ List.cons (by simp) (List.map_congr_left fun k member => ?_)
  obtain ⟨other, listed, rfl⟩ := List.mem_map.mp (List.mem_eraseDups.mp member)
  have apart : key other ≠ key item := by simpa using (List.mem_filter.mp listed).2
  rw [List.filter_cons_of_neg (by simpa using Ne.symm apart), List.filter_filter]
  refine List.filter_congr fun two _ => ?_
  by_cases same : key two = key other
  · simp [same, apart]
  · simp [same]

variable (key) in
/-- To go through a list key by key. -/
theorem key_induction {motive : List α → Prop} (nil : motive [])
    (cons : ∀ item items, motive (items.filter fun other => key other ≠ key item) →
      motive (item :: items)) : ∀ items, motive items
  | [] => nil
  | item :: items => cons item items (key_induction nil cons _)
termination_by items => items.length
decreasing_by exact Nat.lt_succ_of_le (List.length_filter_le _ _)

theorem blocks_perm (items : List α) : (blocks key items).flatten.Perm items := by
  induction items using key_induction key with
  | nil => exact .refl _
  | cons item items ih =>
      rw [blocks_cons, List.flatten_cons, List.cons_append]
      refine .cons item ((ih.append_left _).trans ?_)
      simpa using List.filter_append_perm (fun other => key other = key item) items

theorem mem_blocks {items block : List α} :
    block ∈ blocks key items ↔
      ∃ item ∈ items, block = items.filter fun other => key other = key item := by
  simp only [blocks, List.mem_map, List.mem_eraseDups]
  constructor
  · rintro ⟨_, ⟨item, listed, rfl⟩, rfl⟩
    exact ⟨item, listed, rfl⟩
  · rintro ⟨item, listed, rfl⟩
    exact ⟨_, ⟨item, listed, rfl⟩, rfl⟩

theorem grouped_blocks (items : List α) : Blocks key (blocks key items) := by
  induction items using key_induction key with
  | nil => exact .nil
  | cons item items ih =>
      have first : ∀ one ∈ item :: items.filter (fun other => key other = key item),
          key one = key item := by
        simp
      rw [blocks_cons]
      refine ⟨?_, ?_, List.pairwise_cons.mpr ⟨?_, ih.apart⟩⟩
      · exact List.forall_mem_cons.mpr ⟨List.cons_ne_nil _ _, ih.ne_nil⟩
      · exact List.forall_mem_cons.mpr ⟨fun one here two there =>
          (first one here).trans (first two there).symm, ih.alike⟩
      · intro block member one here two there
        have listed := (blocks_perm _).subset (List.mem_flatten.mpr ⟨block, member, there⟩)
        rw [first one here]
        exact fun same => by simpa [same] using (List.mem_filter.mp listed).2

theorem Blocks.blocks_flatten {grouping : List (List α)} (grouped : Blocks key grouping) :
    blocks key grouping.flatten = grouping := by
  induction grouping with
  | nil => rfl
  | cons block grouping ih =>
      obtain ⟨item, items, rfl⟩ :=
        List.exists_cons_of_ne_nil (grouped.ne_nil block List.mem_cons_self)
      obtain ⟨apart, -⟩ := List.pairwise_cons.mp grouped.apart
      have inside : ∀ other ∈ items, key other = key item := fun other member =>
        grouped.alike _ List.mem_cons_self other (List.mem_cons_of_mem _ member) item
          List.mem_cons_self
      have outside : ∀ other ∈ grouping.flatten, key other ≠ key item := by
        intro other member
        obtain ⟨later, listed, there⟩ := List.mem_flatten.mp member
        exact (apart later listed item List.mem_cons_self other there).symm
      have own : (items ++ grouping.flatten).filter (fun other => key other = key item) =
          items := by
        rw [List.filter_append, List.filter_eq_self.mpr (by simpa using inside),
          List.filter_eq_nil_iff.mpr (by simpa using outside), List.append_nil]
      have rest : (items ++ grouping.flatten).filter (fun other => key other ≠ key item) =
          grouping.flatten := by
        rw [List.filter_append, List.filter_eq_nil_iff.mpr (by simpa using inside),
          List.filter_eq_self.mpr (by simpa using outside), List.nil_append]
      rw [List.flatten_cons, List.cons_append, blocks_cons, own, rest, ih grouped.tail]

/-! ## Pushing under keys -/

/-- The item joins the others under its key; a new key comes last. -/
def pushUnder (groups : List (κ × List α)) (k : κ) (item : α) : List (κ × List α) :=
  if k ∈ groups.map Prod.fst then
    groups.map fun group => if group.1 = k then (group.1, group.2 ++ [item]) else group
  else groups ++ [(k, [item])]

variable (key) in
/-- The items of a key. -/
def itemsOf (items : List α) (k : κ) : List α := items.filter fun item => key item = k

theorem itemsOf_concat (items : List α) (item : α) (k : κ) :
    itemsOf key (items ++ [item]) k = itemsOf key items k ++ if key item = k then [item] else
      [] := by
  rw [itemsOf, itemsOf, List.filter_append]
  by_cases same : key item = k <;> simp [same]

/-- Pushing every item under its key makes the blocks. -/
theorem foldl_pushUnder (items : List α) :
    items.foldl (fun groups item => pushUnder groups (key item) item) [] =
      (items.map key).eraseDups.map fun k => (k, itemsOf key items k) := by
  induction items using List.reverseRecOn with
  | nil => rfl
  | append_singleton items item ih =>
      have keys : ((items.map key).eraseDups.map fun k => (k, itemsOf key items k)).map Prod.fst =
          (items.map key).eraseDups := by
        rw [List.map_map]
        exact List.map_id _
      rw [List.foldl_append, List.foldl_cons, List.foldl_nil, ih, pushUnder, keys, List.map_append,
        List.eraseDups_append, List.map_append]
      simp only [itemsOf_concat]
      split
      · rename_i known
        have none : ([item].map key).removeAll (items.map key) = [] := by
          simpa [List.removeAll] using known
        rw [none, List.eraseDups_nil, List.map_nil, List.append_nil, List.map_map]
        refine List.map_congr_left fun k _ => ?_
        by_cases same : k = key item
        · simp [same]
        · simp [same, Ne.symm same]
      · rename_i fresh
        rw [List.mem_eraseDups] at fresh
        have one : ([item].map key).removeAll (items.map key) = [key item] := by
          simpa [List.removeAll] using fresh
        have alone : itemsOf key items (key item) = [] :=
          List.filter_eq_nil_iff.mpr fun other listed same =>
            fresh (of_decide_eq_true same ▸ List.mem_map_of_mem listed)
        rw [one]
        congr 1
        · refine List.map_congr_left fun k listed => ?_
          have different : key item ≠ k := by
            rintro rfl
            exact fresh (List.mem_eraseDups.mp listed)
          simp [different]
        · simp [List.eraseDups_cons, alone]

theorem foldl_pushUnder_snd (items : List α) :
    (items.foldl (fun groups item => pushUnder groups (key item) item) []).map Prod.snd =
      blocks key items := by
  rw [foldl_pushUnder, List.map_map]
  rfl

end Grouping
end Fghj
