import Mathlib.Tactic.Common

/-!
# Ordered maps with lawful keys

Finite maps ordered by their keys, over a key type whose comparison decides equality. The lookup
equations of the extensional tree maps join the simp set, so that `simp` evaluates a chain of
updates pointwise.
-/

namespace Fghj

open Std

/-- A finite map ordered by its keys. -/
abbrev OrderedMap (κ β : Type) [Ord κ] := ExtTreeMap κ β compare

namespace OrderedMap

attribute [simp] ExtTreeMap.getElem?_insert ExtTreeMap.getElem?_erase ExtTreeMap.getElem?_map
  ExtTreeMap.getElem?_filter' ExtTreeMap.getElem?_alter

variable {κ β : Type} [Ord κ] [TransOrd κ] [LawfulEqOrd κ]

@[simp]
theorem get_modify [DecidableEq κ] (entries : OrderedMap κ β) (key other : κ)
    (update : β → β) :
    (entries.modify key update)[other]? =
      if key = other then entries[other]?.map update else entries[other]? := by
  rw [ExtTreeMap.getElem?_modify]
  by_cases same : key = other
  · simp [same]
  · simp [same]

/-- The keys of a map are listed once each. -/
theorem nodup_fst_toList (entries : OrderedMap κ β) : (entries.toList.map Prod.fst).Nodup := by
  apply List.pairwise_map.mpr
  apply ExtTreeMap.distinct_keys_toList.imp
  intro first second different same
  exact different (by rw [same]; exact ReflOrd.compare_self)

theorem toList_insert_empty (key : κ) (value : β) :
    ((∅ : OrderedMap κ β).insert key value).toList = [(key, value)] := by
  have length : ((∅ : OrderedMap κ β).insert key value).toList.length = 1 := by
    rw [ExtTreeMap.length_toList, ExtTreeMap.size_insert]
    simp
  obtain ⟨entry, single⟩ := List.length_eq_one_iff.mp length
  have member : (key, value) ∈ ((∅ : OrderedMap κ β).insert key value).toList :=
    ExtTreeMap.mem_toList_iff_getElem?_eq_some.mpr ExtTreeMap.getElem?_insert_self
  rw [single, List.mem_singleton] at member
  rw [single, member]

/-- The values of a map in key order. -/
def listed (entries : OrderedMap κ β) : List β := entries.toList.map Prod.snd

/-- A value is listed exactly when some key holds it. -/
theorem mem_listed (entries : OrderedMap κ β) (value : β) :
    value ∈ listed entries ↔ ∃ key : κ, entries[key]? = some value := by
  rw [listed, List.mem_map]
  constructor
  · rintro ⟨⟨key, held⟩, member, rfl⟩
    exact ⟨key, ExtTreeMap.mem_toList_iff_getElem?_eq_some.mp member⟩
  · rintro ⟨key, lookup⟩
    exact ⟨(key, value), ExtTreeMap.mem_toList_iff_getElem?_eq_some.mpr lookup, rfl⟩

/-- Values that name their keys are listed under distinct names. -/
theorem nodup_map_listed (entries : OrderedMap κ β) {name : β → κ}
    (named : ∀ (key : κ) (value : β), entries[key]? = some value → name value = key) :
    ((listed entries).map name).Nodup := by
  have keys : (listed entries).map name = entries.toList.map Prod.fst := by
    rw [listed, List.map_map]
    apply List.map_congr_left
    rintro ⟨key, value⟩ member
    exact named key value (ExtTreeMap.mem_toList_iff_getElem?_eq_some.mp member)
  rw [keys]
  exact nodup_fst_toList entries

/-- A key that none of the entries is put under keeps what it holds. -/
theorem getElem?_foldl_insert_ne {ι : Type} {key : ι → κ} {value : ι → β} {items : List ι}
    {other : κ} (absent : other ∉ items.map key) (entries : OrderedMap κ β) :
    (items.foldl (fun entries item => entries.insert (key item) (value item)) entries)[other]? =
      entries[other]? := by
  induction items generalizing entries with
  | nil => rfl
  | cons first items ih =>
      rw [List.map_cons, List.mem_cons, not_or] at absent
      rw [List.foldl_cons, ih absent.2, ExtTreeMap.getElem?_insert, if_neg]
      rw [Std.compare_eq_iff_eq]
      exact Ne.symm absent.1

/-- Entries under distinct keys are all found after they were put in one by one. -/
theorem getElem?_foldl_insert {ι : Type} {key : ι → κ} {value : ι → β} {items : List ι}
    (distinct : (items.map key).Nodup) {item : ι} (member : item ∈ items)
    (entries : OrderedMap κ β) :
    (items.foldl (fun entries item => entries.insert (key item) (value item)) entries)[key item]? =
      some (value item) := by
  induction items generalizing entries with
  | nil => cases member
  | cons first items ih =>
      rw [List.map_cons, List.nodup_cons] at distinct
      rw [List.foldl_cons]
      rcases List.mem_cons.mp member with rfl | later
      · rw [getElem?_foldl_insert_ne distinct.1, ExtTreeMap.getElem?_insert_self]
      · exact ih distinct.2 later _

theorem foldl_insert_toList (entries : OrderedMap κ β) :
    entries.toList.foldl (fun entries entry => entries.insert entry.1 entry.2) ∅ = entries := by
  apply ExtTreeMap.ext_getElem?
  intro key
  cases held : entries[key]? with
  | none =>
      rw [getElem?_foldl_insert_ne, ExtTreeMap.getElem?_empty]
      intro listed
      obtain ⟨entry, member, rfl⟩ := List.mem_map.mp listed
      rw [ExtTreeMap.mem_toList_iff_getElem?_eq_some.mp member] at held
      cases held
  | some value =>
      have member := ExtTreeMap.mem_toList_iff_getElem?_eq_some.mpr held
      exact getElem?_foldl_insert (nodup_fst_toList entries) member ∅

/-- Values that name their keys, put in one by one as something else, make the map of what they
became. -/
theorem foldl_insert_listed {γ : Type} (entries : OrderedMap κ β) {name : β → κ}
    (named : ∀ (key : κ) (value : β), entries[key]? = some value → name value = key)
    (convert : β → γ) :
    (listed entries).foldl (fun others value => others.insert (name value) (convert value)) ∅ =
      entries.map fun _ value => convert value := by
  apply ExtTreeMap.ext_getElem?
  intro key
  rw [ExtTreeMap.getElem?_map]
  cases held : entries[key]? with
  | none =>
      rw [getElem?_foldl_insert_ne, ExtTreeMap.getElem?_empty, Option.map_none]
      intro present
      obtain ⟨value, member, rfl⟩ := List.mem_map.mp present
      obtain ⟨home, there⟩ := (mem_listed ..).mp member
      rw [named home value there, there] at held
      cases held
  | some value =>
      have member := (mem_listed ..).mpr ⟨key, held⟩
      have own := named key value held
      subst own
      exact getElem?_foldl_insert (nodup_map_listed entries named) member ∅

theorem foldl_erase_toList (entries : OrderedMap κ β) :
    entries.toList.foldl (fun others entry => others.erase entry.1) entries = ∅ := by
  have gone (items : List (κ × β)) (others : OrderedMap κ β) (key : κ)
      (covered : key ∈ items.map Prod.fst ∨ others[key]? = none) :
      (items.foldl (fun others entry => others.erase entry.1) others)[key]? = none := by
    induction items generalizing others with
    | nil => simpa using covered
    | cons first items ih =>
        apply ih
        rw [ExtTreeMap.getElem?_erase]
        rcases covered with listed | absent
        · rcases List.mem_cons.mp listed with rfl | later
          · simp
          · exact .inl later
        · simp [absent]
  apply ExtTreeMap.ext_getElem?
  intro key
  rw [ExtTreeMap.getElem?_empty]
  apply gone
  cases held : entries[key]? with
  | none => exact .inr rfl
  | some value =>
      exact .inl (List.mem_map_of_mem (ExtTreeMap.mem_toList_iff_getElem?_eq_some.mpr held))

/-- Values that depend on their keys alone are found under every key that was put in. -/
theorem getElem?_foldl_insert_of_mem {ι : Type} (key : ι → κ) (value : κ → β) {items : List ι}
    {other : κ} (member : other ∈ items.map key) (entries : OrderedMap κ β) :
    (items.foldl (fun entries item => entries.insert (key item) (value (key item)))
      entries)[other]? = some (value other) := by
  induction items generalizing entries with
  | nil => cases member
  | cons first items ih =>
      rw [List.foldl_cons]
      by_cases later : other ∈ items.map key
      · exact ih later _
      · rcases List.mem_cons.mp member with rfl | inside
        · rw [getElem?_foldl_insert_ne later, ExtTreeMap.getElem?_insert_self]
        · exact (later inside).elim

/-- The first entry listed under a key is the one the map holds. -/
theorem map_find?_toList [DecidableEq κ] {γ : Type} (entries : OrderedMap κ β) (value : κ × β → γ)
    (key : κ) :
    (entries.toList.find? fun entry => some entry.1 == some key).map value =
      (entries[key]?).map fun held => value (key, held) := by
  cases found : entries.toList.find? fun entry => some entry.1 == some key with
  | none =>
      have absent : entries[key]? = none := by
        rw [Option.eq_none_iff_forall_ne_some]
        intro held lookup
        have member := ExtTreeMap.mem_toList_iff_getElem?_eq_some.mpr lookup
        simpa using List.find?_eq_none.mp found (key, held) member
      rw [absent]
      rfl
  | some entry =>
      obtain ⟨name, held⟩ := entry
      have same : name = key := by simpa using List.find?_some found
      subst same
      have lookup := ExtTreeMap.mem_toList_iff_getElem?_eq_some.mp (List.mem_of_find?_eq_some found)
      rw [lookup]
      rfl

/-- Where entries are put in only under keys that nothing is under, the first one of a key stays. -/
theorem getElem?_foldl_insert_absent {ι : Type} (key : ι → Option κ) (value : ι → β)
    {step : OrderedMap κ β → ι → OrderedMap κ β}
    (skips : ∀ entries item, key item = none → step entries item = entries)
    (puts : ∀ entries item fresh, key item = some fresh → step entries item =
      if entries.contains fresh then entries else entries.insert fresh (value item))
    [DecidableEq κ] (items : List ι) (entries : OrderedMap κ β) (other : κ) :
    (items.foldl step entries)[other]? =
      (entries[other]?).or ((items.find? fun item => key item == some other).map value) := by
  induction items generalizing entries with
  | nil => simp
  | cons first items ih =>
      rw [List.foldl_cons, ih, List.find?_cons]
      cases named : key first with
      | none => simp [skips entries first named]
      | some tag =>
          rw [puts entries first tag named]
          by_cases same : tag = other
          · subst same
            cases held : entries[tag]? with
            | none => simp [ExtTreeMap.contains_eq_isSome_getElem?, held]
            | some old => simp [ExtTreeMap.contains_eq_isSome_getElem?, held]
          · rw [Option.some_beq_some, beq_eq_false_iff_ne.mpr same]
            split
            · rfl
            · rw [ExtTreeMap.getElem?_insert, if_neg]
              rwa [Std.compare_eq_iff_eq]

end OrderedMap
end Fghj
