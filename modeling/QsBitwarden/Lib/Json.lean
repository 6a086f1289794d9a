import Mathlib.Algebra.Order.Ring.Int
import Mathlib.Data.List.Forall2

/-!
# Json — parsed JSON values

A value as a parser leaves it, with objects as lists of entries in key order, one entry a key.

* **`Value`** — the six kinds of value. A number keeps the form it was read in, since an integer
  and a float of the same size are told apart.
* **`Fields`** — the entries of an object: `remove`, `modify` and `insert` work by key.
* **`Agree`** — two objects with the same keys whose values are related key by key; what changes
  each entry on its own maps agreeing objects to equal ones (`Agree.filterMap_eq`).
-/

namespace Json

inductive Number where
  | posInt (n : Nat)
  /-- The integer `-(n + 1)`. -/
  | negInt (n : Nat)
  | float (bits : UInt64)
  deriving DecidableEq

def Number.asU64 : Number → Option Nat
  | .posInt n => some n
  | _ => none

inductive Value where
  | null
  | bool (b : Bool)
  | number (n : Number)
  | string (s : String)
  | array (items : List Value)
  | object (fields : List (String × Value))

abbrev Fields := List (String × Value)

namespace Value

def asStr : Value → Option String
  | .string s => some s
  | _ => none

def asU64 : Value → Option Nat
  | .number n => n.asU64
  | _ => none

theorem asU64_eq_some {value : Value} {n : Nat} :
    value.asU64 = some n ↔ value = .number (.posInt n) := by
  constructor
  · intro h
    cases value with
    | number m =>
      cases m with
      | posInt m => rw [Option.some.inj h]
      | _ => cases h
    | _ => cases h
  · rintro rfl
    rfl

/-- The value of a key; only an object has any. -/
def get (value : Value) (key : String) : Option Value :=
  match value with
  | .object fields => fields.lookup key
  | _ => none

end Value

namespace Fields

def remove (key : String) (fields : Fields) : Fields := fields.filter fun entry => entry.1 ≠ key

def modify (key : String) (f : Value → Value) (fields : Fields) : Fields :=
  fields.map fun entry => if entry.1 = key then (entry.1, f entry.2) else entry

/-- Sets a key, keeping the order. -/
def insert (key : String) (value : Value) : Fields → Fields
  | [] => [(key, value)]
  | entry :: rest =>
    if entry.1 < key then entry :: insert key value rest
    else if entry.1 = key then (key, value) :: rest
    else (key, value) :: entry :: rest

end Fields

/-! ## Entry by entry -/

namespace Fields

theorem remove_eq_filterMap (key : String) (fields : Fields) :
    fields.remove key = fields.filterMap fun entry => if entry.1 = key then none else some entry := by
  unfold remove
  induction fields with
  | nil => rfl
  | cons entry rest ih =>
    by_cases h : entry.1 = key
    · rw [List.filter_cons_of_neg (by simp [h]), List.filterMap_cons_none (by simp [h])]
      exact ih
    · rw [List.filter_cons_of_pos (by simp [h]), List.filterMap_cons_some (b := entry) (by simp [h])]
      exact congrArg _ ih

theorem modify_eq_filterMap (key : String) (f : Value → Value) (fields : Fields) :
    fields.modify key f =
      fields.filterMap fun entry => some (if entry.1 = key then (entry.1, f entry.2) else entry) := by
  unfold modify
  rw [← List.filterMap_eq_map]
  rfl

theorem lookup_cons (key : String) (entry : String × Value) (rest : Fields) :
    List.lookup key (entry :: rest) = if key = entry.1 then some entry.2 else rest.lookup key := by
  rw [List.lookup_cons]
  by_cases h : key = entry.1 <;> simp [h, beq_false_of_ne]

theorem lookup_modify (key key' : String) (f : Value → Value) (fields : Fields) :
    (fields.modify key f).lookup key'
      = if key' = key then (fields.lookup key').map f else fields.lookup key' := by
  unfold modify
  induction fields with
  | nil => simp
  | cons entry rest ih =>
    rw [List.map_cons, lookup_cons, lookup_cons, ih]
    grind

theorem lookup_modify_ne {key key' : String} (h : key' ≠ key) (f : Value → Value)
    (fields : Fields) : (fields.modify key f).lookup key' = fields.lookup key' := by
  rw [lookup_modify, if_neg h]

theorem lookup_remove (key key' : String) (fields : Fields) :
    (fields.remove key).lookup key' = if key' = key then none else fields.lookup key' := by
  unfold remove
  induction fields with
  | nil => simp
  | cons entry rest ih =>
    rw [List.filter_cons, apply_ite (List.lookup key'), lookup_cons, lookup_cons, ih]
    grind

theorem lookup_insert (key key' : String) (value : Value) (fields : Fields) :
    (fields.insert key value).lookup key'
      = if key' = key then some value else fields.lookup key' := by
  induction fields with
  | nil => exact lookup_cons key' (key, value) []
  | cons entry rest ih =>
    have hlt : entry.1 < key → key ≠ entry.1 := fun h heq => String.lt_irrefl key (heq ▸ h)
    rw [insert, apply_ite (List.lookup key'), apply_ite (List.lookup key')]
    simp only [lookup_cons, ih]
    grind

/-- Drops or changes each entry as its key says. -/
def edit (by' : String → Option (Value → Value)) (fields : Fields) : Fields :=
  fields.filterMap fun entry => (by' entry.1).map fun change => (entry.1, change entry.2)

theorem lookup_edit (by' : String → Option (Value → Value)) (fields : Fields) (key : String) :
    (fields.edit by').lookup key = (by' key).bind fun change => (fields.lookup key).map change := by
  unfold edit
  induction fields with
  | nil => cases by' key <;> rfl
  | cons entry rest ih =>
    rw [lookup_cons]
    cases hby : by' entry.1 with
    | none =>
      rw [List.filterMap_cons_none (by rw [hby]; rfl), ih]
      grind
    | some change =>
      rw [List.filterMap_cons_some (by rw [hby]; rfl), lookup_cons, ih]
      grind

end Fields

/-- Two objects with the same keys, and values related key by key. -/
def Agree (related : String → Value → Value → Prop) (fields fields' : Fields) : Prop :=
  List.Forall₂ (fun entry entry' => entry.1 = entry'.1 ∧ related entry.1 entry.2 entry'.2)
    fields fields'

namespace Agree

variable {related : String → Value → Value → Prop} {fields fields' : Fields}

/-- What treats related entries alike makes agreeing objects equal. -/
theorem filterMap_eq {α : Type*} (h : Agree related fields fields') (f : String × Value → Option α)
    (hf : ∀ key value value', related key value value' → f (key, value) = f (key, value')) :
    fields.filterMap f = fields'.filterMap f := by
  induction h with
  | nil => rfl
  | @cons entry entry' rest rest' hentry _ ih =>
    obtain ⟨key, value⟩ := entry
    obtain ⟨key', value'⟩ := entry'
    obtain ⟨rfl, hrelated⟩ := hentry
    rw [List.filterMap_cons, List.filterMap_cons, hf key value value' hrelated, ih]

/-- A key is in both objects, with related values, or in neither. -/
theorem lookup (h : Agree related fields fields') (key : String) :
    (fields.lookup key = none ∧ fields'.lookup key = none) ∨
      ∃ value value', fields.lookup key = some value ∧ fields'.lookup key = some value' ∧
        related key value value' := by
  induction h with
  | nil => exact .inl ⟨rfl, rfl⟩
  | @cons entry entry' rest rest' hentry _ ih =>
    obtain ⟨key', value⟩ := entry
    obtain ⟨key'', value'⟩ := entry'
    obtain ⟨rfl, hrelated⟩ := hentry
    rw [Fields.lookup_cons, Fields.lookup_cons]
    split_ifs with heq
    · subst heq
      exact .inr ⟨value, value', rfl, rfl, hrelated⟩
    · exact ih

end Agree

end Json
