import Fghj.Library.OrderedMap

/-!
# Records as JSON

JSON values and codecs for them: how a type is written and how it is read, with the law that what
was written reads back. A record is read by the names of its fields, in any order; a field that is
missing is an error unless it has a default, and so is one that is there twice.
-/

namespace Fghj

open Std

/-- A JSON value; numbers are integers. -/
inductive Json where
  | null
  | bool (value : Bool)
  | int (value : Int)
  | str (value : String)
  | arr (items : List Json)
  | obj (fields : List (String × Json))

namespace Json

/-- The value is `null`. -/
def isNull : Json → Bool
  | .null => true
  | _ => false

/-- A way to write a type as JSON that reads back. -/
structure Codec (α : Type) where
  write : α → Json
  read : Json → Option α
  read_write : ∀ value, read (write value) = some value

namespace Codec

variable {α : Type}

attribute [simp] read_write

/-- Truth values. -/
def bool : Codec Bool where
  write := .bool
  read
    | .bool value => some value
    | _ => none
  read_write _ := rfl

/-- Integers. -/
def int : Codec Int where
  write := .int
  read
    | .int value => some value
    | _ => none
  read_write _ := rfl

/-- Integers of sixteen bits; others are refused. -/
def u16 : Codec UInt16 where
  write value := .int value.toNat
  read
    | .int value => if 0 ≤ value ∧ value < 65536 then some (UInt16.ofNat value.toNat) else none
    | _ => none
  read_write value := by
    have small : value.toNat < 65536 := value.toNat_lt
    have inside : 0 ≤ (value.toNat : Int) ∧ (value.toNat : Int) < 65536 := by omega
    simp only [inside, and_self, if_true, Int.toNat_natCast, UInt16.ofNat_toNat]

/-- Strings. -/
def string : Codec String where
  write := .str
  read
    | .str value => some value
    | _ => none
  read_write _ := rfl

/-- Values that may be absent, over a codec that never writes `null`. -/
def option (codec : Codec α) (proper : ∀ value, (codec.write value).isNull = false) :
    Codec (Option α) where
  write
    | none => .null
    | some value => codec.write value
  read json := if json.isNull then some none else (codec.read json).map some
  read_write value := by
    cases value with
    | none => rfl
    | some value => simp [proper value]

/-- Lists. -/
def list (codec : Codec α) : Codec (List α) where
  write items := .arr (items.map codec.write)
  read
    | .arr items => items.mapM codec.read
    | _ => none
  read_write items := by
    induction items with
    | nil => rfl
    | cons first items ih =>
        simp only at ih
        simp [ih]

/-- Maps from strings; of two entries under one name the later stays. -/
def map (codec : Codec α) : Codec (OrderedMap String α) where
  write entries := .obj (entries.toList.map fun entry => (entry.1, codec.write entry.2))
  read
    | .obj fields =>
        fields.foldlM (fun entries field => (codec.read field.2).map (entries.insert field.1)) ∅
    | _ => none
  read_write entries := by
    have each (fields : List (String × α)) (start : OrderedMap String α) :
        (fields.map fun entry => (entry.1, codec.write entry.2)).foldlM
          (fun entries field => (codec.read field.2).map (entries.insert field.1)) start =
          some (fields.foldl (fun entries field => entries.insert field.1 field.2) start) := by
      induction fields generalizing start with
      | nil => rfl
      | cons first fields ih => simp [ih]
    simp only [each, Option.some.injEq]
    exact OrderedMap.foldl_insert_toList entries

end Codec

/-! ## Records -/

section Records

variable {α : Type}

/-- Read a record off an object that has none of its fields twice. -/
def record (names : List String) (read : List (String × Json) → Option α) : Json → Option α
  | .obj fields =>
      if ((fields.map Prod.fst).filter fun name => names.contains name).Nodup then read fields
      else none
  | _ => none

/-- A field that has to be there. -/
def required (codec : Codec α) (fields : List (String × Json)) (name : String) : Option α :=
  (fields.lookup name).bind codec.read

/-- A field that has a default. -/
def defaulted (codec : Codec α) (default : α) (fields : List (String × Json)) (name : String) :
    Option α :=
  match fields.lookup name with
  | none => some default
  | some json => codec.read json

@[simp]
theorem required_self (codec : Codec α) (value : α) (fields : List (String × Json))
    (name : String) : required codec ((name, codec.write value) :: fields) name = some value := by
  simp [required]

@[simp]
theorem required_of_ne (codec : Codec α) (json : Json) (fields : List (String × Json))
    {name other : String} (different : name ≠ other) :
    required codec ((other, json) :: fields) name = required codec fields name := by
  simp [required, List.lookup_cons, beq_eq_false_iff_ne.mpr different]

@[simp]
theorem defaulted_nil (codec : Codec α) (default : α) (name : String) :
    defaulted codec default [] name = some default := rfl

@[simp]
theorem defaulted_self (codec : Codec α) (default value : α) (fields : List (String × Json))
    (name : String) :
    defaulted codec default ((name, codec.write value) :: fields) name = some value := by
  simp [defaulted]

@[simp]
theorem defaulted_of_ne (codec : Codec α) (default : α) (json : Json)
    (fields : List (String × Json)) {name other : String} (different : name ≠ other) :
    defaulted codec default ((other, json) :: fields) name =
      defaulted codec default fields name := by
  simp [defaulted, List.lookup_cons, beq_eq_false_iff_ne.mpr different]

/-- An object is read field by field if its names are all known and distinct. -/
theorem record_obj {names : List String} {read : List (String × Json) → Option α}
    {fields : List (String × Json)} (distinct : (fields.map Prod.fst).Nodup) :
    record names read (.obj fields) = read fields := by
  have known : ((fields.map Prod.fst).filter fun name => names.contains name).Nodup :=
    distinct.filter _
  rw [record, if_pos known]

end Records

end Json
end Fghj
