import QsBitwarden.Lib.Json

/-!
# Lib — JSON values as JavaScript reads them

A property that is not there reads as `undefined`, which is `none` here.

* **`truthy`**, **`nullish`** — the tests of `if (v)` and `v === undefined || v === null`.
* **`props`** — a value's properties, for names that only an object can have.
* **`Num`**, **`Coercions`** — `Number` and `String` of a value. What they make of arrays, objects
  and fractions is the engine's; on strings and whole numbers they do what the laws say.
* **`Coercions.text`**, **`Coercions.shown`** — the two ways of reading a text field.
* **`Texts`** — an object of texts under fixed keys.
-/

namespace Js

open Json

def truthyNumber : Number → Bool
  | .posInt n => n ≠ 0
  | .negInt _ => true
  -- Both zeros; JSON has no `NaN`.
  | .float bits => bits &&& 0x7fffffffffffffff ≠ 0

def truthy : Option Value → Bool
  | none | some .null => false
  | some (.bool b) => b
  | some (.number n) => truthyNumber n
  | some (.string s) => s ≠ ""
  | some (.array _) | some (.object _) => true

def nullish : Option Value → Bool
  | none | some .null => true
  | some _ => false

/-- What reading properties of a value finds. Values other than objects have none of the names that
are asked for. -/
def props : Option Value → Fields
  | some (.object fields) => fields
  | _ => []

/-! ## Coercions -/

/-- A number: a whole one, or any other double. -/
inductive Num where
  | int (i : Int)
  | other (bits : UInt64)
  deriving DecidableEq, Repr

def Num.nan : Num := .other 0x7ff8000000000000

/-- `Math.floor`, where the number is finite. -/
def Num.floor : Num → Option Int
  | .int i => some i
  | .other bits =>
    let exponent := (bits >>> 52 &&& 0x7ff).toNat
    let fraction := (bits &&& 0xfffffffffffff).toNat
    let digits : Int := if exponent = 0 then fraction else 2 ^ 52 + fraction
    let signed := if bits >>> 63 = 0 then digits else -digits
    if exponent = 0x7ff then none
    -- a subnormal has the exponent of the smallest normal numbers
    else if 1075 ≤ exponent then some (signed * 2 ^ (exponent - 1075))
    else some (signed / 2 ^ (1075 - max exponent 1))

/-- `String` and `Number` of a value. -/
structure Coercions where
  string : Value → String
  number : Value → Num
  string_string : ∀ s, string (.string s) = s
  number_null : number .null = .int 0
  number_posInt : ∀ n, n < 2 ^ 53 → number (.number (.posInt n)) = .int n
  /-- A larger one is rounded, and stays large. -/
  number_large : ∀ n, 2 ^ 53 ≤ n → ∃ m : Nat, 2 ^ 53 ≤ m ∧ number (.number (.posInt n)) = .int m
  number_negInt : ∀ n, ∃ m : Int, m < 0 ∧ number (.number (.negInt n)) = .int m
  number_digits : ∀ n : Nat, n < 2 ^ 53 → number (.string (toString n)) = .int n

namespace Coercions

variable (js : Coercions)

/-- `String(v)`. -/
def stringOf : Option Value → String
  | none => "undefined"
  | some v => js.string v

/-- `Number(v)`. -/
def numberOf : Option Value → Num
  | none => .nan
  | some v => js.number v

/-- `String(v || "")`. -/
def text (v : Option Value) : String := if truthy v then js.stringOf v else ""

/-- `String(v || other)`. -/
def textOr (v : Option Value) (other : String) : String := if truthy v then js.stringOf v else other

/-- `String(a || b || ... || "")`. -/
def firstText (vs : List (Option Value)) : String := js.text ((vs.find? truthy).getD none)

/-- `v === undefined || v === null ? "" : String(v)`. -/
def shown (v : Option Value) : String := if nullish v then "" else js.stringOf v

/-- `v ? String(v) : null`. -/
def textOrNull (v : Option Value) : Option String := if truthy v then some (js.stringOf v) else none

end Coercions

/-- Coercions that satisfy the laws; an array or an object is no number, and shows as an object. -/
def plain : Coercions where
  string
    | .string s => s
    | .number (.posInt n) => toString n
    | .number (.negInt n) => "-" ++ toString (n + 1)
    | .bool b => toString b
    | .null => "null"
    | _ => "[object Object]"
  number
    | .null => .int 0
    | .bool b => .int (if b then 1 else 0)
    | .number (.posInt n) => .int n
    | .number (.negInt n) => .int (-(n + 1))
    | .string s =>
      if s.toList.all Char.isDigit then .int (Nat.ofDigitChars 10 s.toList 0) else .nan
    | _ => .nan
  string_string _ := rfl
  number_null := rfl
  number_posInt _ _ := rfl
  number_large n h := ⟨n, h, rfl⟩
  number_negInt n := ⟨-(n + 1), by omega, rfl⟩
  number_digits n _ := by
    have hdigits : (toString n).toList = Nat.toDigits 10 n := by
      rw [Nat.toString_eq_ofList_toDigits, String.toList_ofList]
    have hall : (Nat.toDigits 10 n).all Char.isDigit :=
      List.all_eq_true.mpr fun c hc => Nat.isDigit_of_mem_toDigits (by decide) (by decide) hc
    dsimp only
    rw [hdigits, if_pos hall, Nat.ofDigitChars_ten_toDigits]

/-! ## Texts under fixed keys -/

/-- An object of texts. -/
abbrev Texts := List (String × String)

namespace Texts

def of (keys : List String) (f : String → String) : Texts := keys.map fun key => (key, f key)

def get (texts : Texts) (key : String) : String := (texts.lookup key).getD ""

def set (texts : Texts) (key value : String) : Texts :=
  texts.map fun entry => if entry.1 = key then (key, value) else entry

variable {keys : List String} {f : String → String} {key value : String}

theorem get_of (hkey : key ∈ keys) : (of keys f).get key = f key := by
  unfold get of
  induction keys with
  | nil => cases hkey
  | cons first rest ih =>
    rw [List.map_cons, List.lookup_cons]
    by_cases h : key = first
    · subst h
      simp
    · have hne : (key == first) = false := beq_false_of_ne h
      rw [hne]
      exact ih (List.mem_of_ne_of_mem h hkey)

theorem set_of : (of keys f).set key value
    = of keys fun other => if other = key then value else f other := by
  unfold set of
  rw [List.map_map]
  refine List.map_congr_left fun other _ => ?_
  by_cases h : other = key
  · subst h
    simp
  · simp [h]

theorem of_congr {g : String → String} (h : ∀ key ∈ keys, f key = g key) : of keys f = of keys g := by
  unfold of
  exact List.map_congr_left fun key hkey => by rw [h key hkey]

/-- Reading all keys of such an object gives it back. -/
theorem of_get : of keys (of keys f).get = of keys f := of_congr fun _ hkey => get_of hkey

end Texts

end Js
