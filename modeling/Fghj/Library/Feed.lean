import Mathlib.Data.List.Basic
import Mathlib.Data.List.Induction

/-!
# Followed sets

A source holds some entries under names and tells its followers of them, name after name, and of
having dropped them all. A follower applies what it is told in order, to nothing or to a copy it
took while it was behind. What it comes to show is what the source holds as long as the source only
names what it holds, and names nothing between dropping its entries and telling so.
-/

namespace Fghj
namespace Feed

/-- What an update does to a follower. -/
inductive Effect (α : Type) where
  | upsert (item : α)
  | cleared
  | none
  deriving DecidableEq

section Follow

variable {α υ : Type} [DecidableEq α] (effect : υ → Effect α)

/-- What is shown after one update. -/
def apply (shown : List α) (update : υ) : List α :=
  match effect update with
  | .upsert item => if item ∈ shown then shown else shown ++ [item]
  | .cleared => []
  | .none => shown

/-- What is shown after some updates. -/
def applied (shown : List α) (updates : List υ) : List α := updates.foldl (apply effect) shown

variable {effect} {shown start : List α} {update : υ} {updates : List υ} {item other : α}

theorem mem_apply_upsert (upserts : effect update = .upsert item) :
    other ∈ apply effect shown update ↔ other ∈ shown ∨ other = item := by
  rw [apply, upserts]
  dsimp only
  split
  · rename_i member
    exact ⟨.inl, fun either => either.elim id fun same => same ▸ member⟩
  · rw [List.mem_append, List.mem_singleton]

theorem apply_cleared (clears : effect update = .cleared) : apply effect shown update = [] := by
  rw [apply, clears]

theorem apply_none (passes : effect update = .none) : apply effect shown update = shown := by
  rw [apply, passes]

theorem applied_append (shown : List α) (front back : List υ) :
    applied effect shown (front ++ back) = applied effect (applied effect shown front) back :=
  List.foldl_append

theorem applied_concat (shown : List α) (updates : List υ) (update : υ) :
    applied effect shown (updates ++ [update]) =
      apply effect (applied effect shown updates) update := by
  rw [applied, List.foldl_append]
  rfl

/-- What a follower shows was in its copy, or any other follower of the same updates shows it. -/
theorem mem_or_of_mem_applied (start : List α) (member : item ∈ applied effect shown updates) :
    item ∈ shown ∨ item ∈ applied effect start updates := by
  induction updates using List.reverseRecOn with
  | nil => exact .inl member
  | append_singleton updates update ih =>
      rw [applied_concat] at member ⊢
      cases does : effect update with
      | upsert named =>
          rw [mem_apply_upsert does] at member ⊢
          rcases member with before | same
          · exact (ih before).imp_right .inl
          · exact .inr (.inr same)
      | cleared =>
          rw [apply_cleared does] at member
          cases member
      | none =>
          rw [apply_none does] at member ⊢
          exact ih member

/-- What is in a follower's copy stays if any other follower of the same updates shows it. -/
theorem mem_applied_of_mem (copied : item ∈ shown) (member : item ∈ applied effect start updates) :
    item ∈ applied effect shown updates := by
  induction updates using List.reverseRecOn with
  | nil => exact copied
  | append_singleton updates update ih =>
      rw [applied_concat] at member ⊢
      cases does : effect update with
      | upsert named =>
          rw [mem_apply_upsert does] at member ⊢
          exact member.imp_left ih
      | cleared =>
          rw [apply_cleared does] at member
          cases member
      | none =>
          rw [apply_none does] at member ⊢
          exact ih member

end Follow

/-! ## A source and a follower -/

section Mirrors

variable {ι α : Type}

/-- A follower shows only what is held, unless it is about to be told that all is gone, and all of
it that is not yet to be named. -/
structure Mirrors (held : List ι) (name : ι → α) (owed : ι → Prop) (resetting : Prop)
    (shown : List α) : Prop where
  only : ¬resetting → ∀ item ∈ shown, ∃ entry ∈ held, name entry = item
  all : ∀ entry ∈ held, owed entry ∨ ¬resetting ∧ name entry ∈ shown

variable {held : List ι} {name nextName : ι → α} {owed nextOwed : ι → Prop}
  {resetting nextResetting : Prop} {shown : List α}

theorem Mirrors.empty (name : ι → α) (owed : ι → Prop) (resetting : Prop) :
    Mirrors [] name owed resetting [] :=
  ⟨fun _ _ member => (by cases member), fun _ member => (by cases member)⟩

/-- Entries keep their names, and what was to be told still is. -/
theorem Mirrors.congr (mirrors : Mirrors held name owed resetting shown)
    (names : ∀ entry ∈ held, nextName entry = name entry)
    (still : ∀ entry ∈ held, owed entry → nextOwed entry)
    (same : nextResetting ↔ resetting) : Mirrors held nextName nextOwed nextResetting shown where
  only := by
    intro calm item member
    obtain ⟨entry, inside, named⟩ := mirrors.only (fun resets => calm (same.mpr resets)) item member
    exact ⟨entry, inside, (names entry inside).trans named⟩
  all := by
    intro entry inside
    refine (mirrors.all entry inside).imp (still entry inside) fun told => ?_
    exact ⟨fun resets => told.1 (same.mp resets), names entry inside ▸ told.2⟩

/-- A new entry is still to be named. -/
theorem Mirrors.concat (mirrors : Mirrors held name owed resetting shown) {entry : ι}
    (names : ∀ entry ∈ held, nextName entry = name entry)
    (still : ∀ entry ∈ held, owed entry → nextOwed entry) (new : nextOwed entry)
    (same : nextResetting ↔ resetting) :
    Mirrors (held ++ [entry]) nextName nextOwed nextResetting shown := by
  have before := mirrors.congr names still same
  constructor
  · intro calm item member
    obtain ⟨old, inside, named⟩ := before.only calm item member
    exact ⟨old, List.mem_append_left _ inside, named⟩
  · intro other inside
    rcases List.mem_append.mp inside with old | last
    · exact before.all other old
    · rw [List.mem_singleton.mp last]
      exact .inl new

/-- Everything is dropped before that is told. -/
theorem Mirrors.dropped (name : ι → α) (owed : ι → Prop) (resets : resetting) (shown : List α) :
    Mirrors [] name owed resetting shown :=
  ⟨fun calm => absurd resets calm, fun _ member => (by cases member)⟩

/-- Where nothing is still to be told, exactly what is held is shown. -/
theorem Mirrors.mem_iff (mirrors : Mirrors held name owed resetting shown) (calm : ¬resetting)
    (settled : ∀ entry ∈ held, ¬owed entry) (item : α) : item ∈ shown ↔ item ∈ held.map name := by
  rw [List.mem_map]
  constructor
  · exact mirrors.only calm item
  · rintro ⟨entry, inside, rfl⟩
    exact ((mirrors.all entry inside).resolve_left (settled entry inside)).2

variable [DecidableEq α] {υ : Type} {effect : υ → Effect α} {update : υ}

/-- An entry that is held is named. -/
theorem Mirrors.upsert (mirrors : Mirrors held name owed resetting shown) {entry : ι}
    (inside : entry ∈ held) (calm : ¬resetting) (upserts : effect update = .upsert (name entry))
    (still : ∀ other ∈ held, owed other → nextOwed other ∨ other = entry)
    (same : nextResetting ↔ resetting) :
    Mirrors held name nextOwed nextResetting (apply effect shown update) where
  only := by
    intro _ item member
    rcases (mem_apply_upsert upserts).mp member with before | rfl
    · exact mirrors.only calm item before
    · exact ⟨entry, inside, rfl⟩
  all := by
    have told : ∀ other ∈ held, name other ∈ shown ∨ other = entry →
        ¬nextResetting ∧ name other ∈ apply effect shown update := by
      intro other _ either
      refine ⟨fun resets => calm (same.mp resets), (mem_apply_upsert upserts).mpr ?_⟩
      exact either.imp_right (congrArg name)
    intro other listed
    rcases mirrors.all other listed with owes | ⟨-, before⟩
    · exact (still other listed owes).imp_right fun this => told other listed (.inr this)
    · exact .inr (told other listed (.inl before))

/-- That everything is gone is told after it was, and before anything new is named. -/
theorem Mirrors.cleared (mirrors : Mirrors held name owed resetting shown) (resets : resetting)
    (clears : effect update = .cleared) (still : ∀ entry ∈ held, owed entry → nextOwed entry) :
    Mirrors held name nextOwed nextResetting (apply effect shown update) where
  only := by
    intro _ item member
    rw [apply_cleared clears] at member
    cases member
  all := by
    intro entry inside
    rcases mirrors.all entry inside with owes | ⟨calm, -⟩
    · exact .inl (still entry inside owes)
    · exact absurd resets calm

/-- A copy taken now is as good as all updates from the start, whichever of the last updates are
applied to it. -/
theorem Mirrors.copied {updates : List υ} {start : List α}
    (mirrors : Mirrors held name owed resetting (applied effect start updates)) :
    Mirrors held name owed resetting (applied effect (held.map name) updates) where
  only := by
    intro calm item member
    rcases mem_or_of_mem_applied start member with copy | told
    · obtain ⟨entry, inside, named⟩ := List.mem_map.mp copy
      exact ⟨entry, inside, named⟩
    · exact mirrors.only calm item told
  all := by
    intro entry inside
    refine (mirrors.all entry inside).imp_right fun told => ⟨told.1, ?_⟩
    exact mem_applied_of_mem (List.mem_map_of_mem inside) told.2

end Mirrors
end Feed
end Fghj
