import Mathlib.Data.List.Basic

/-!
# Lists of entries with repeated keys

Entries may repeat a key, and the values of a key are in order. What is told of such a list is told
of the values of its keys; the order among different keys has no meaning.
-/

namespace Fghj
namespace Multimap

variable {κ β : Type} [DecidableEq κ]

/-- The values of a key, in order. -/
def getAll (entries : List (κ × β)) (key : κ) : List β :=
  (entries.filter fun entry => entry.1 = key).map Prod.snd

/-- Drops every entry of a key. -/
def remove (entries : List (κ × β)) (key : κ) : List (κ × β) :=
  entries.filter fun entry => entry.1 ≠ key

/-- Makes a value the only one of its key. -/
def insert (key : κ) (value : β) : List (κ × β) → List (κ × β)
  | [] => [(key, value)]
  | entry :: entries =>
      if entry.1 = key then (key, value) :: remove entries key
      else entry :: insert key value entries

variable {entries : List (κ × β)} {key : κ} {value : β}

@[simp]
theorem getAll_remove (entries : List (κ × β)) (key other : κ) :
    getAll (remove entries key) other = if other = key then [] else getAll entries other := by
  rw [getAll, remove, List.filter_filter]
  split
  · rename_i same
    rw [same, List.map_eq_nil_iff, List.filter_eq_nil_iff]
    simp
  · rename_i different
    refine congrArg (List.map Prod.snd) (List.filter_congr fun entry _ => ?_)
    by_cases here : entry.1 = other
    · simp [here, different]
    · simp [here]

theorem getAll_cons (entry : κ × β) (entries : List (κ × β)) (key : κ) :
    getAll (entry :: entries) key =
      if entry.1 = key then entry.2 :: getAll entries key else getAll entries key := by
  rw [getAll, List.filter_cons]
  by_cases here : entry.1 = key
  · simp [here, getAll]
  · simp [here, getAll]

@[simp]
theorem getAll_insert (entries : List (κ × β)) (key : κ) (value : β) (other : κ) :
    getAll (insert key value entries) other =
      if other = key then [value] else getAll entries other := by
  induction entries with
  | nil =>
      rw [insert, getAll_cons]
      by_cases same : other = key
      · simp [same, getAll]
      · simp [same, Ne.symm same, getAll]
  | cons entry entries ih =>
      rw [insert]
      by_cases here : entry.1 = key
      · rw [if_pos here, getAll_cons, getAll_remove, getAll_cons, here]
        by_cases same : other = key
        · simp [same]
        · simp [same, Ne.symm same]
      · rw [if_neg here, getAll_cons, ih, getAll_cons]
        by_cases same : other = key
        · simp [same, here]
        · simp [same]

theorem remove_of_absent (absent : getAll entries key = []) : remove entries key = entries := by
  rw [getAll, List.map_eq_nil_iff, List.filter_eq_nil_iff] at absent
  refine List.filter_eq_self.mpr fun entry member => ?_
  simpa using absent entry member

/-- A value that is the only one of its key already is left alone. -/
theorem insert_of_getAll (only : getAll entries key = [value]) :
    insert key value entries = entries := by
  induction entries with
  | nil => cases only
  | cons entry entries ih =>
      rw [getAll_cons] at only
      rw [insert]
      by_cases here : entry.1 = key
      · rw [if_pos here, List.cons.injEq] at only
        rw [if_pos here, remove_of_absent only.2, ← only.1, ← here]
      · rw [if_neg here] at only
        rw [if_neg here, ih only]

/-- Drops every entry of some keys. -/
def removeAll (entries : List (κ × β)) (keys : List κ) : List (κ × β) := keys.foldl remove entries

@[simp]
theorem getAll_removeAll (entries : List (κ × β)) (keys : List κ) (other : κ) :
    getAll (removeAll entries keys) other = if other ∈ keys then [] else getAll entries other := by
  induction keys generalizing entries with
  | nil => simp [removeAll]
  | cons key keys ih =>
      rw [removeAll, List.foldl_cons, ← removeAll, ih, getAll_remove]
      by_cases same : other = key
      · simp [same]
      · simp [same]

theorem removeAll_of_absent {keys : List κ} (absent : ∀ key ∈ keys, getAll entries key = []) :
    removeAll entries keys = entries := by
  induction keys with
  | nil => rfl
  | cons key keys ih =>
      obtain ⟨first, later⟩ := List.forall_mem_cons.mp absent
      rw [removeAll, List.foldl_cons, remove_of_absent first]
      exact ih later

end Multimap
end Fghj
