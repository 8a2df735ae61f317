import Fghj.Library.Digraph

/-!
# Traversals that see each vertex once

A recursive traversal marks a vertex as seen and works through its items: an item that leads to
another vertex is followed, any other is dealt with on the spot. With enough fuel the seen vertices
are the reachable ones, and whatever the vertices contribute is collected from exactly these.
-/

namespace Fghj
namespace Traversal

/-- What a traversal does at each vertex. -/
structure Plan (α ι σ : Type) where
  seen : σ → List α
  enter : σ → α → σ
  items : α → List ι
  /-- The vertex an item leads to. -/
  leads : α → ι → Option α
  /-- What is done at some depth with an item that leads nowhere. -/
  act : Nat → α → σ → ι → σ
  seen_enter : ∀ state vertex, seen (enter state vertex) = vertex :: seen state
  seen_act : ∀ depth vertex state item, seen (act depth vertex state item) = seen state

variable {α ι σ : Type} (plan : Plan α ι σ)

/-- Follow an item, or deal with it. -/
def dispatch (follow : σ → α → σ) (depth : Nat) (vertex : α) (state : σ) (item : ι) : σ :=
  match plan.leads vertex item with
  | some target => follow state target
  | none => plan.act depth vertex state item

/-- Some item of the vertex leads to the other. -/
def Next (vertex other : α) : Prop :=
  ∃ item ∈ plan.items vertex, plan.leads vertex item = some other

variable [DecidableEq α]

def traverse : Nat → Nat → σ → α → σ
  | 0, _, state, _ => state
  | fuel + 1, depth, state, vertex =>
      if vertex ∈ plan.seen state then state
      else
        (plan.items vertex).foldl (dispatch plan (traverse fuel (depth + 1)) depth vertex)
          (plan.enter state vertex)

/-- The traversal with its fuel in sight: nothing when the fuel runs out. -/
def traverseWithin : Nat → Nat → σ → α → Option σ
  | 0, _, _, _ => none
  | fuel + 1, depth, state, vertex =>
      if vertex ∈ plan.seen state then some state
      else
        (plan.items vertex).foldlM (fun state item =>
          match plan.leads vertex item with
          | some target => traverseWithin fuel (depth + 1) state target
          | none => some (plan.act depth vertex state item)) (plan.enter state vertex)

/-! ## Fuel -/

omit [DecidableEq α] in
theorem seen_subset_foldl {follow : σ → α → σ}
    (grows : ∀ state vertex, plan.seen state ⊆ plan.seen (follow state vertex)) (depth : Nat)
    (vertex : α) (items : List ι) (state : σ) :
    plan.seen state ⊆ plan.seen (items.foldl (dispatch plan follow depth vertex) state) := by
  induction items generalizing state with
  | nil => exact List.Subset.refl _
  | cons item items ih =>
      refine List.Subset.trans ?_ (ih _)
      rw [dispatch]
      split
      · exact grows state _
      · rw [plan.seen_act]
        exact List.Subset.refl _

theorem seen_subset_traverse (fuel depth : Nat) (state : σ) (vertex : α) :
    plan.seen state ⊆ plan.seen (traverse plan fuel depth state vertex) := by
  induction fuel generalizing depth state vertex with
  | zero => exact List.Subset.refl _
  | succ fuel ih =>
      rw [traverse]
      split
      · exact List.Subset.refl _
      · refine List.Subset.trans ?_ (seen_subset_foldl plan (ih (depth + 1)) depth vertex _ _)
        rw [plan.seen_enter]
        exact List.subset_cons_self _ _

variable {plan}

section Enough

variable {bound : List α} (known : ∀ vertex, plan.items vertex ≠ [] → vertex ∈ bound)

include known

/-- What is left to see at a vertex's items is less than what was left at the vertex. -/
theorem enough_below {fuel : Nat} {state : σ} {vertex : α}
    (enough : (Digraph.missing bound (plan.seen state)).length < fuel + 1)
    (fresh : vertex ∉ plan.seen state) (some_items : plan.items vertex ≠ []) {later : σ}
    (grown : plan.seen (plan.enter state vertex) ⊆ plan.seen later) :
    (Digraph.missing bound (plan.seen later)).length < fuel := by
  have dropped := Digraph.length_missing_lt (known vertex some_items) fresh
  have fewer := Digraph.length_missing_anti bound grown
  rw [plan.seen_enter] at fewer
  omega

/-- With enough fuel the traversal comes to its end. -/
theorem traverseWithin_eq_some {fuel depth : Nat} {state : σ} {vertex : α}
    (enough : (Digraph.missing bound (plan.seen state)).length < fuel) :
    traverseWithin plan fuel depth state vertex = some (traverse plan fuel depth state vertex) := by
  induction fuel generalizing depth state vertex with
  | zero => omega
  | succ fuel ih =>
      rw [traverseWithin, traverse]
      split
      · rfl
      · rename_i fresh
        -- every state on the way through the items has seen the vertex
        have along : ∀ (items : List ι) (later : σ), items ⊆ plan.items vertex →
            plan.seen (plan.enter state vertex) ⊆ plan.seen later →
            items.foldlM (fun state item =>
                match plan.leads vertex item with
                | some target => traverseWithin plan fuel (depth + 1) state target
                | none => some (plan.act depth vertex state item)) later =
              some (items.foldl (dispatch plan (traverse plan fuel (depth + 1)) depth vertex)
                later) := by
          intro items
          induction items with
          | nil => exact fun _ _ _ => rfl
          | cons item items rest =>
              intro later listed grown
              have some_items := List.ne_nil_of_mem (listed List.mem_cons_self)
              have step := seen_subset_foldl plan (seen_subset_traverse plan fuel (depth + 1)) depth
                vertex [item] later
              have others := rest _ (List.Subset.trans (List.subset_cons_self _ _) listed)
                (List.Subset.trans grown step)
              rw [List.foldlM_cons, List.foldl_cons]
              cases follows : plan.leads vertex item with
              | none => simpa [dispatch, follows] using others
              | some target =>
                  have returns := @ih (depth + 1) later target
                    (enough_below known enough fresh some_items grown)
                  simpa [dispatch, follows, returns] using others
        exact along _ _ (List.Subset.refl _) (List.Subset.refl _)

end Enough

/-! ## What is seen -/

/-- A part of a traversal saw everything that can be reached from its roots. -/
structure Covers (plan : Plan α ι σ) (roots : α → Prop) (before after : σ) : Prop where
  kept : plan.seen before ⊆ plan.seen after
  found : ∀ root, roots root → root ∈ plan.seen after
  closed : ∀ vertex ∈ plan.seen after, vertex ∉ plan.seen before →
    ∀ other, Next plan vertex other → other ∈ plan.seen after
  origin : ∀ vertex ∈ plan.seen after, vertex ∈ plan.seen before ∨
    ∃ root, roots root ∧ Relation.ReflTransGen (Next plan) root vertex

omit [DecidableEq α] in
/-- Nothing seen, and nothing to see. -/
theorem Covers.of_seen_eq {roots : α → Prop} {before after : σ}
    (same : plan.seen after = plan.seen before)
    (found : ∀ root, roots root → root ∈ plan.seen before) : Covers plan roots before after where
  kept := by rw [same]; exact List.Subset.refl _
  found := fun root member => same ▸ found root member
  closed := fun vertex member fresh => (fresh (same ▸ member)).elim
  origin := fun vertex member => .inl (same ▸ member)

omit [DecidableEq α] in
theorem Covers.trans {first second : α → Prop} {before between after : σ}
    (one : Covers plan first before between) (two : Covers plan second between after) :
    Covers plan (fun root => first root ∨ second root) before after where
  kept := List.Subset.trans one.kept two.kept
  found := by
    rintro root (member | member)
    · exact two.kept (one.found root member)
    · exact two.found root member
  closed := by
    intro vertex member fresh other next
    by_cases early : vertex ∈ plan.seen between
    · exact two.kept (one.closed vertex early fresh other next)
    · exact two.closed vertex member early other next
  origin := by
    intro vertex member
    rcases two.origin vertex member with early | ⟨root, start, path⟩
    · rcases one.origin vertex early with old | ⟨root, start, path⟩
      · exact .inl old
      · exact .inr ⟨root, .inl start, path⟩
    · exact .inr ⟨root, .inr start, path⟩

/-- With enough fuel a traversal covers its vertex. -/
theorem covers_traverse {bound : List α} (known : ∀ vertex, plan.items vertex ≠ [] → vertex ∈ bound)
    {fuel depth : Nat} {state : σ} {vertex : α}
    (enough : (Digraph.missing bound (plan.seen state)).length < fuel) :
    Covers plan (vertex = ·) state (traverse plan fuel depth state vertex) := by
  induction fuel generalizing depth state vertex with
  | zero => omega
  | succ fuel ih =>
      rw [traverse]
      split
      · rename_i member
        exact .of_seen_eq rfl fun root same => same ▸ member
      · rename_i fresh
        have along : ∀ (items : List ι) (later : σ), items ⊆ plan.items vertex →
            plan.seen (plan.enter state vertex) ⊆ plan.seen later →
            Covers plan (fun other => ∃ item ∈ items, plan.leads vertex item = some other) later
              (items.foldl (dispatch plan (traverse plan fuel (depth + 1)) depth vertex)
                later) := by
          intro items
          induction items with
          | nil => exact fun later _ _ => .of_seen_eq rfl (by simp)
          | cons item items rest =>
              intro later listed grown
              have step : Covers plan (fun other => plan.leads vertex item = some other) later
                  (dispatch plan (traverse plan fuel (depth + 1)) depth vertex later item) := by
                have some_items := List.ne_nil_of_mem (listed List.mem_cons_self)
                cases follows : plan.leads vertex item with
                | none =>
                    simp only [dispatch, follows]
                    exact .of_seen_eq (plan.seen_act _ _ _ _) fun root leads => nomatch leads
                | some target =>
                    simp only [dispatch, follows, Option.some.injEq]
                    exact ih (enough_below known enough fresh some_items grown)
              have later' := rest _ (List.Subset.trans (List.subset_cons_self _ _) listed)
                (List.Subset.trans grown step.kept)
              rw [List.foldl_cons]
              simpa only [List.exists_mem_cons_iff] using step.trans later'
        have covers := along (plan.items vertex) _ (List.Subset.refl _) (List.Subset.refl _)
        have grown := covers.kept
        rw [plan.seen_enter] at grown
        constructor
        · exact List.Subset.trans (List.subset_cons_self _ _) grown
        · rintro root rfl
          exact grown List.mem_cons_self
        · intro other member new target next
          by_cases here : other = vertex
          · subst here
            exact covers.found target next
          · apply covers.closed other member _ target next
            rw [plan.seen_enter, List.mem_cons, not_or]
            exact ⟨here, new⟩
        · intro other member
          rcases covers.origin other member with old | ⟨root, next, path⟩
          · rw [plan.seen_enter, List.mem_cons] at old
            rcases old with rfl | old
            · exact .inr ⟨other, rfl, .refl⟩
            · exact .inl old
          · exact .inr ⟨vertex, rfl, .head next path⟩

/-- A traversal that starts afresh sees what can be reached. -/
theorem mem_seen_traverse_iff {bound : List α}
    (known : ∀ vertex, plan.items vertex ≠ [] → vertex ∈ bound) {fuel depth : Nat} {state : σ}
    {vertex : α} (enough : bound.length < fuel) (afresh : plan.seen state = []) {other : α} :
    other ∈ plan.seen (traverse plan fuel depth state vertex) ↔
      Relation.ReflTransGen (Next plan) vertex other := by
  have fits := Digraph.length_missing_le bound (plan.seen state)
  have covers := @covers_traverse _ _ _ plan _ _ known fuel depth state vertex (by omega)
  constructor
  · intro member
    rcases covers.origin other member with old | ⟨root, rfl, path⟩
    · rw [afresh] at old
      cases old
    · exact path
  · intro path
    induction path with
    | refl => exact covers.found vertex rfl
    | tail _ next member =>
        exact covers.closed _ member (by rw [afresh]; exact List.not_mem_nil) _ next

/-! ## What is collected -/

section Collected

variable {β : Type} (holds : σ → β → Prop) (enters : α → β → Prop) (acts : α → ι → β → Prop)

/-- What a vertex contributes. -/
def Gives (plan : Plan α ι σ) (vertex : α) (value : β) : Prop :=
  enters vertex value ∨
    ∃ item ∈ plan.items vertex, plan.leads vertex item = none ∧ acts vertex item value

/-- Between two states a part of the traversal collected what is given, and what the vertices
contribute that it saw. -/
def Collects (plan : Plan α ι σ) (given : Prop) (before after : σ) (value : β) : Prop :=
  holds after value ↔ holds before value ∨ given ∨
    ∃ other ∈ plan.seen after, other ∉ plan.seen before ∧ Gives enters acts plan other value

section

variable {holds enters acts} {before between after : σ} {value : β}

omit [DecidableEq α] in
theorem Collects.of_seen_eq {given : Prop} (same : plan.seen after = plan.seen before)
    (held : holds after value ↔ holds before value ∨ given) :
    Collects holds enters acts plan given before after value := by
  rw [Collects, held, same, ← or_assoc, iff_self_or]
  rintro ⟨other, member, fresh, -⟩
  exact (fresh member).elim

theorem Collects.trans {first second : Prop} (kept : plan.seen before ⊆ plan.seen between)
    (grown : plan.seen between ⊆ plan.seen after)
    (one : Collects holds enters acts plan first before between value)
    (two : Collects holds enters acts plan second between after value) :
    Collects holds enters acts plan (first ∨ second) before after value := by
  rw [Collects] at one two ⊢
  rw [two, one]
  constructor
  · rintro ((held | given | ⟨other, member, fresh, gives⟩) | given | ⟨other, member, fresh, gives⟩)
    · exact .inl held
    · exact .inr (.inl (.inl given))
    · exact .inr (.inr ⟨other, grown member, fresh, gives⟩)
    · exact .inr (.inl (.inr given))
    · exact .inr (.inr ⟨other, member, fun old => fresh (kept old), gives⟩)
  · rintro (held | (given | given) | ⟨other, member, fresh, gives⟩)
    · exact .inl (.inl held)
    · exact .inl (.inr (.inl given))
    · exact .inr (.inl given)
    · by_cases early : other ∈ plan.seen between
      · exact .inl (.inr (.inr ⟨other, early, fresh, gives⟩))
      · exact .inr (.inr ⟨other, member, early, gives⟩)

end

section

variable {holds acts}
  (acting : ∀ depth vertex state item value, plan.leads vertex item = none →
    (holds (plan.act depth vertex state item) value ↔ holds state value ∨ acts vertex item value))

include acting

/-- The items of a vertex are collected from if following one is. -/
theorem collects_foldl {follow : σ → α → σ} {value : β}
    (grows : ∀ state vertex, plan.seen state ⊆ plan.seen (follow state vertex))
    (follows : ∀ state vertex, Collects holds enters acts plan False state
      (follow state vertex) value)
    (depth : Nat) (vertex : α) (items : List ι) (state : σ) :
    Collects holds enters acts plan
      (∃ item ∈ items, plan.leads vertex item = none ∧ acts vertex item value) state
      (items.foldl (dispatch plan follow depth vertex) state) value := by
  induction items generalizing state with
  | nil => exact .of_seen_eq rfl (by simp)
  | cons item items ih =>
      have first : Collects holds enters acts plan
          (plan.leads vertex item = none ∧ acts vertex item value) state
          (dispatch plan follow depth vertex state item) value := by
        cases leads : plan.leads vertex item with
        | none =>
            simp only [dispatch, leads, true_and]
            exact .of_seen_eq (plan.seen_act _ _ _ _) (acting _ _ _ _ _ leads)
        | some target =>
            simp only [dispatch, leads, reduceCtorEq, false_and]
            exact follows state target
      rw [List.foldl_cons]
      simp only [List.exists_mem_cons_iff]
      exact first.trans (seen_subset_foldl plan grows depth vertex [item] state)
        (seen_subset_foldl plan grows depth vertex items _) (ih _)

end

variable (entering : ∀ state vertex value,
    holds (plan.enter state vertex) value ↔ holds state value ∨ enters vertex value)
  (acting : ∀ depth vertex state item value, plan.leads vertex item = none →
    (holds (plan.act depth vertex state item) value ↔ holds state value ∨ acts vertex item value))

include entering acting

/-- A traversal collects what the vertices contribute that it sees. -/
theorem holds_traverse_iff (fuel depth : Nat) (state : σ) (vertex : α) (value : β) :
    holds (traverse plan fuel depth state vertex) value ↔ holds state value ∨
      ∃ other ∈ plan.seen (traverse plan fuel depth state vertex), other ∉ plan.seen state ∧
        Gives enters acts plan other value := by
  induction fuel generalizing depth state vertex with
  | zero =>
      rw [traverse, iff_self_or]
      rintro ⟨other, member, fresh, -⟩
      exact (fresh member).elim
  | succ fuel ih =>
      rw [traverse]
      split
      · rw [iff_self_or]
        rintro ⟨other, member, fresh, -⟩
        exact (fresh member).elim
      · rename_i fresh
        have collects := collects_foldl enters acting
          (seen_subset_traverse plan fuel (depth + 1))
          (fun state vertex => by rw [Collects, false_or]; exact ih (depth + 1) state vertex)
          depth vertex (plan.items vertex) (plan.enter state vertex)
        have grown := seen_subset_foldl plan (seen_subset_traverse plan fuel (depth + 1))
          depth vertex
          (plan.items vertex) (plan.enter state vertex)
        rw [Collects, entering] at collects
        rw [collects]
        generalize (plan.items vertex).foldl
          (dispatch plan (traverse plan fuel (depth + 1)) depth vertex)
          (plan.enter state vertex) = last at grown ⊢
        rw [plan.seen_enter] at grown ⊢
        constructor
        · rintro ((held | entered) | acted | ⟨other, member, new, gives⟩)
          · exact .inl held
          · exact .inr ⟨vertex, grown List.mem_cons_self, fresh, .inl entered⟩
          · exact .inr ⟨vertex, grown List.mem_cons_self, fresh, .inr acted⟩
          · exact .inr ⟨other, member, fun old => new (List.mem_cons_of_mem _ old), gives⟩
        · rintro (held | ⟨other, member, new, gives⟩)
          · exact .inl (.inl held)
          · by_cases here : other = vertex
            · subst here
              rcases gives with entered | acted
              · exact .inl (.inr entered)
              · exact .inr (.inl acted)
            · refine .inr (.inr ⟨other, member, ?_, gives⟩)
              rw [List.mem_cons, not_or]
              exact ⟨here, new⟩

/-- A traversal that starts afresh collects what the reachable vertices contribute. -/
theorem collects_reachable {bound : List α}
    (known : ∀ vertex, plan.items vertex ≠ [] → vertex ∈ bound) {fuel : Nat}
    (enough : bound.length < fuel) (depth : Nat) {state : σ} (afresh : plan.seen state = [])
    (vertex : α) (value : β) :
    holds (traverse plan fuel depth state vertex) value ↔ holds state value ∨
      ∃ other, Relation.ReflTransGen (Next plan) vertex other ∧
        Gives enters acts plan other value := by
  rw [holds_traverse_iff holds enters acts entering acting]
  simp only [mem_seen_traverse_iff known enough afresh, afresh, List.not_mem_nil, not_false_eq_true,
    true_and]

end Collected

/-! ## What is noted at the start only -/

section Noted

variable {γ : Type} (note : σ → List γ) (notes : α → ι → List γ)
  (entering : ∀ state vertex, note (plan.enter state vertex) = note state)
  (deep : ∀ depth vertex state item, plan.leads vertex item = none →
    note (plan.act (depth + 1) vertex state item) = note state)

include entering deep

theorem note_traverse_succ (fuel depth : Nat) (state : σ) (vertex : α) :
    note (traverse plan fuel (depth + 1) state vertex) = note state := by
  induction fuel generalizing depth state vertex with
  | zero => rfl
  | succ fuel ih =>
      rw [traverse]
      split
      · rfl
      · rw [← entering state vertex]
        generalize plan.enter state vertex = later
        induction plan.items vertex generalizing later with
        | nil => rfl
        | cons item items rest =>
            rw [List.foldl_cons, rest, dispatch]
            split
            · exact ih _ _ _
            · rename_i nowhere
              exact deep _ _ _ _ nowhere

/-- What is noted is noted of the items of the first vertex, in their order. -/
theorem note_traverse_zero
    (top : ∀ vertex state item, plan.leads vertex item = none →
      note (plan.act 0 vertex state item) = note state ++ notes vertex item)
    (fuel : Nat) {state : σ} {vertex : α} (fresh : vertex ∉ plan.seen state) :
    note (traverse plan (fuel + 1) 0 state vertex) = note state ++
      (plan.items vertex).flatMap fun item =>
        if (plan.leads vertex item).isSome then [] else notes vertex item := by
  rw [traverse, if_neg fresh, ← entering state vertex]
  generalize plan.enter state vertex = later
  induction plan.items vertex generalizing later with
  | nil => simp
  | cons item items rest =>
      rw [List.foldl_cons, rest, dispatch, List.flatMap_cons, ← List.append_assoc]
      congr 1
      cases follows : plan.leads vertex item with
      | none =>
          dsimp only
          rw [top _ _ _ follows]
          simp
      | some target =>
          dsimp only
          rw [note_traverse_succ note entering deep]
          simp

end Noted

end Traversal
end Fghj
