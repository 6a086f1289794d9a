import Mathlib.Data.List.Perm.Subperm
import Mathlib.Data.Set.Function
import QsBitwarden.Lib.Js
import QsBitwarden.Panel.SessionKeys
import QsBitwarden.Panel.TotpModel

/-!
# Panel — remembered two-factor methods (`BitwardenModel.js`)

Which second factor an account used last, under a hash of its email. Stores written by older
versions have the emails themselves as keys; every write hashes what is left of them.

* **`twoFactorKeptEntries`** — the rebuild: two passes over the store, hashed keys first.
* **`keepFirst`** — what the passes do with the entries that count: the first of each key, while
  there is room. `lookup_keepFirst`: if there is room for all keys, nothing is lost.
* **`entriesFor`** — the entries that count, in the order of the passes; `lookup_entriesFor` finds
  in them what `rememberedTwoFactorMethodFor` finds in the store.
* **`two_factor_survives`** — what the three operations keep, set and drop.

A store is the list of its entries in the order in which they are enumerated. Lower-casing comes
from outside.
-/

namespace QsBitwarden.Panel.TwoFactor

open Json TotpModel

/-- What the functions call. -/
structure Calls where
  js : Js.Coercions
  toLowerCase : String → String

/-! ## Keys and methods -/

def maxRememberedAccounts : Nat := 10

/-- `TWO_FACTOR_METHODS`, without its texts. -/
def twoFactorMethods : List Int := [0, 3, 1]

def isTwoFactorMethod (method : Int) : Bool := twoFactorMethods.contains method

/-- `("00000000" + x.toString(16)).slice(-8)`. -/
def hexWord (x : Nat) : List Char :=
  let digits := List.replicate 8 '0' ++ Nat.toDigits 16 x
  digits.drop (digits.length - 8)

def sha256Hex (text : String) : String :=
  let h := (blocks (padMessage (Utf8.encode text.toList))).foldl Sha256.block
    { a := 0x6a09e667, b := 0xbb67ae85, c := 0x3c6ef372, d := 0xa54ff53a,
      e := 0x510e527f, f := 0x9b05688c, g := 0x1f83d9ab, hh := 0x5be0cd19 }
  String.ofList ([h.a, h.b, h.c, h.d, h.e, h.f, h.g, h.hh].flatMap hexWord)

/-- `[0-9a-f]`. -/
def isHexChar (c : Char) : Bool :=
  (48 ≤ c.toNat && c.toNat ≤ 57) || (97 ≤ c.toNat && c.toNat ≤ 102)

def isTwoFactorHashKey (key : String) : Bool :=
  key.toList.length == 64 && key.toList.all isHexChar

/-- `String.prototype.trim`. -/
def trimmed (s : String) : String := String.ofList (SessionKeys.jsTrim s.toList)

/-- `typeof raw` is a number, or a text that is not blank. -/
def countsAsNumber : Value → Bool
  | .number _ => true
  | .string s => decide (trimmed s ≠ "")
  | _ => false

/-- A method as a value. -/
def methodValue (method : Int) : Value := .number (.posInt method.toNat)

section Store

variable (calls : Calls)

def twoFactorPlainKey (email : String) : String := calls.toLowerCase (trimmed email)

def twoFactorAccountKey (email : String) : String :=
  let plain := twoFactorPlainKey calls email
  if plain = "" then "" else sha256Hex plain

def twoFactorStoredKey (key : String) : String :=
  if isTwoFactorHashKey key then key else twoFactorAccountKey calls key

def twoFactorMethodOf (raw : Option Value) : Int :=
  match raw with
  | none => -1
  | some v =>
    if countsAsNumber v then
      match (calls.js.number v).floor with
      | none => -1
      | some m => if isTwoFactorMethod m then m else -1
    else -1

/-! ## The store -/

/-- What is not an object is `none`. -/
abbrev Store := Option Fields

def twoFactorStoreHasPlainKeys : Store → Bool
  | none => false
  | some fields => fields.any fun entry => !isTwoFactorHashKey entry.1

def rememberedTwoFactorMethodFor (store : Store) (email : String) : Int :=
  let key := twoFactorAccountKey calls email
  match store with
  | none => -1
  | some fields =>
    if key = "" then -1
    else
      let found := twoFactorMethodOf calls (fields.lookup key)
      if 0 ≤ found then found
      else twoFactorMethodOf calls (fields.lookup (twoFactorPlainKey calls email))

/-- The result so far, and how many entries it was given. -/
structure Rebuilt where
  next : Fields
  kept : Nat

/-- The body of the loop, in one of the passes. -/
def keepEntry (key : String) (room : Nat) (hashed : Bool) (r : Rebuilt) (entry : String × Value) :
    Rebuilt :=
  if isTwoFactorHashKey entry.1 ≠ hashed then r
  else
    let other := twoFactorStoredKey calls entry.1
    if other = "" ∨ other = key ∨ (r.next.lookup other).isSome then r
    else
      let existing := twoFactorMethodOf calls (some entry.2)
      if existing < 0 then r
      else if room ≤ r.kept then r
      else ⟨r.next ++ [(other, methodValue existing)], r.kept + 1⟩

def twoFactorKeptEntries (store : Store) (key : String) (room : Nat) : Fields :=
  match store with
  | none => []
  | some fields =>
    let first := fields.foldl (keepEntry calls key room true) ⟨[], 0⟩
    (fields.foldl (keepEntry calls key room false) first).next

/-- `next[key] = value`. -/
def assign (fields : Fields) (key : String) (value : Value) : Fields :=
  if (fields.lookup key).isSome then fields.modify key fun _ => value else fields ++ [(key, value)]

/-- Nothing where there is nothing to write. -/
def migrateTwoFactorStore (store : Store) : Option Fields :=
  if twoFactorStoreHasPlainKeys store then
    some (twoFactorKeptEntries calls store "" maxRememberedAccounts)
  else none

def rememberTwoFactorMethodIn (store : Store) (email : String) (method : Int) : Option Fields :=
  let key := twoFactorAccountKey calls email
  if key = "" ∨ isTwoFactorMethod method = false then none
  else some (assign (twoFactorKeptEntries calls store key (maxRememberedAccounts - 1)) key
    (methodValue method))

def forgetTwoFactorMethodIn (store : Store) (email : String) : Option Fields :=
  let key := twoFactorAccountKey calls email
  if key = "" ∨ store = none then none
  else some (twoFactorKeptEntries calls store key maxRememberedAccounts)

end Store

/-- The store once a result is written; without one it stays. -/
def written (store : Store) (result : Option Fields) : Store := result.or store

/-! ## Hashes -/

theorem digitChar_isHexChar {d : Nat} (h : d < 16) : isHexChar d.digitChar = true := by
  have hall : ∀ d < 16, isHexChar (Nat.digitChar d) = true := by decide
  exact hall d h

theorem toDigits_all_isHexChar (n : Nat) : ∀ c ∈ Nat.toDigits 16 n, isHexChar c = true := by
  induction n using Nat.strongRecOn with
  | ind n ih =>
    rw [Nat.toDigits_eq_if (by decide)]
    intro c hc
    split at hc
    · rename_i hsmall
      rw [List.mem_singleton.mp hc]
      exact digitChar_isHexChar hsmall
    · rename_i hlarge
      rcases List.mem_append.mp hc with hc | hc
      · exact ih (n / 16) (by omega) c hc
      · rw [List.mem_singleton.mp hc]
        exact digitChar_isHexChar (Nat.mod_lt _ (by decide))

theorem length_hexWord (x : Nat) : (hexWord x).length = 8 := by
  simp only [hexWord, List.length_drop, List.length_append, List.length_replicate]
  omega

theorem hexWord_all_isHexChar {x : Nat} {c : Char} (h : c ∈ hexWord x) : isHexChar c = true := by
  rcases List.mem_append.mp (List.mem_of_mem_drop h) with hzero | hdigit
  · rw [List.eq_of_mem_replicate hzero]
    decide
  · exact toDigits_all_isHexChar x c hdigit

/-- A hash looks like one. -/
theorem isTwoFactorHashKey_sha256Hex (text : String) :
    isTwoFactorHashKey (sha256Hex text) = true := by
  rw [isTwoFactorHashKey, Bool.and_eq_true, beq_iff_eq, List.all_eq_true]
  constructor
  · rw [sha256Hex, String.toList_ofList]
    simp only [List.flatMap_cons, List.flatMap_nil, List.length_append, length_hexWord,
      List.length_nil]
  · intro c hc
    rw [sha256Hex, String.toList_ofList] at hc
    obtain ⟨word, _, hword⟩ := List.mem_flatMap.mp hc
    exact hexWord_all_isHexChar hword

theorem ne_empty_of_isTwoFactorHashKey {key : String} (h : isTwoFactorHashKey key = true) :
    key ≠ "" := by
  rintro rfl
  exact absurd h (by decide)

theorem sha256Hex_ne_empty (text : String) : sha256Hex text ≠ "" :=
  ne_empty_of_isTwoFactorHashKey (isTwoFactorHashKey_sha256Hex text)

/-! ## Keeping the first entry of each key -/

section KeepFirst

variable {κ ν : Type*} [DecidableEq κ]

def keepFirst (room : Nat) (kept : List (κ × ν)) (entry : κ × ν) : List (κ × ν) :=
  if (kept.lookup entry.1).isSome ∨ room ≤ kept.length then kept else kept ++ [entry]

variable {room : Nat} {kept entries : List (κ × ν)}

theorem length_keepFirst (h : kept.length ≤ room) :
    (entries.foldl (keepFirst room) kept).length ≤ room := by
  induction entries generalizing kept with
  | nil => exact h
  | cons entry rest ih =>
    apply ih
    grind [keepFirst]

theorem mem_of_mem_keepFirst {entry : κ × ν} (h : entry ∈ entries.foldl (keepFirst room) kept) :
    entry ∈ kept ∨ entry ∈ entries := by
  induction entries generalizing kept with
  | nil => exact .inl h
  | cons next rest ih =>
    have hone := ih h
    grind [keepFirst]

theorem lookup_isSome_iff_mem_keys {key : κ} :
    (kept.lookup key).isSome ↔ key ∈ kept.map Prod.fst := by
  rw [List.lookup_isSome_iff, List.mem_map]
  grind

theorem lookup_eq_none {key : κ} (h : ∀ entry ∈ kept, entry.1 ≠ key) : kept.lookup key = none :=
  List.lookup_eq_none_iff.mpr fun entry hentry => bne_iff_ne.mpr (h entry hentry).symm

/-- With room for all keys, what a key has first it keeps. `held` lists the keys. -/
theorem lookup_keepFirst {held : List κ} (hroom : held.length ≤ room)
    (hheld : ∀ entry ∈ kept ++ entries, entry.1 ∈ held) (hnodup : (kept.map Prod.fst).Nodup)
    (key : κ) :
    (entries.foldl (keepFirst room) kept).lookup key = (kept ++ entries).lookup key := by
  induction entries generalizing kept with
  | nil => rw [List.foldl_nil, List.append_nil]
  | cons entry rest ih =>
    rw [List.foldl_cons]
    by_cases hthere : (kept.lookup entry.1).isSome
    · have hstays : keepFirst room kept entry = kept := if_pos (.inl hthere)
      have hheld' : ∀ other ∈ kept ++ rest, other.1 ∈ held := fun other hother =>
        hheld other (by grind)
      -- a key with nothing kept is not that of `entry`
      rw [hstays, ih hheld' hnodup, List.lookup_append, List.lookup_append, List.lookup_cons]
      cases hkept : kept.lookup key with
      | some value => rfl
      | none => grind
    · have hfresh : entry.1 ∉ kept.map Prod.fst := fun hmem =>
        hthere (lookup_isSome_iff_mem_keys.mpr hmem)
      have hnodup' : ((kept ++ [entry]).map Prod.fst).Nodup := by
        rw [List.map_append]
        exact List.nodup_append.mpr ⟨hnodup, List.nodup_singleton _, by grind⟩
      -- the kept keys and this one are different members of `held`
      have hspace : (kept ++ [entry]).length ≤ held.length := by
        have hsubset : (kept ++ [entry]).map Prod.fst ⊆ held := by
          intro other hother
          obtain ⟨from', hfrom, rfl⟩ := List.mem_map.mp hother
          exact hheld from' (by grind)
        have hle := (List.subperm_of_subset hnodup' hsubset).length_le
        rwa [List.length_map] at hle
      have hadds : keepFirst room kept entry = kept ++ [entry] := by grind [keepFirst]
      rw [List.append_cons] at hheld ⊢
      rw [hadds, ih hheld hnodup']

end KeepFirst

/-! ## The passes -/

section Passes

variable {calls : Calls}

variable {email : String}

/-- The value that is kept for a value, if it is a method's. -/
def keptValue (calls : Calls) (v : Value) : Option Value :=
  let method := twoFactorMethodOf calls (some v)
  if method < 0 then none else some (methodValue method)

/-- What one pass may keep of an entry. -/
def candidate (calls : Calls) (key : String) (hashed : Bool) (entry : String × Value) :
    Option (String × Value) :=
  let other := twoFactorStoredKey calls entry.1
  if isTwoFactorHashKey entry.1 ≠ hashed ∨ other = "" ∨ other = key then none
  else (keptValue calls entry.2).map fun v => (other, v)

/-- The entries that count, in the order of the passes. -/
def entriesFor (calls : Calls) (key : String) (fields : Fields) : Fields :=
  fields.filterMap (candidate calls key true) ++ fields.filterMap (candidate calls key false)

theorem keepEntry_eq (key : String) (room : Nat) (hashed : Bool) (next : Fields)
    (entry : String × Value) :
    keepEntry calls key room hashed ⟨next, next.length⟩ entry
      = let next' := ((candidate calls key hashed entry).map (keepFirst room next)).getD next
        ⟨next', next'.length⟩ := by
  rw [keepEntry, candidate, keptValue]
  dsimp only
  generalize twoFactorStoredKey calls entry.1 = other
  generalize twoFactorMethodOf calls (some entry.2) = method
  grind [keepFirst]

/-- One pass keeps the first of its candidates. -/
theorem foldl_keepEntry (key : String) (room : Nat) (hashed : Bool) (fields next : Fields) :
    fields.foldl (keepEntry calls key room hashed) ⟨next, next.length⟩
      = let next' := (fields.filterMap (candidate calls key hashed)).foldl (keepFirst room) next
        ⟨next', next'.length⟩ := by
  induction fields generalizing next with
  | nil => rfl
  | cons entry rest ih =>
    rw [List.foldl_cons, keepEntry_eq, ih, List.filterMap_cons]
    cases candidate calls key hashed entry with
    | none => rfl
    | some kept => rfl

theorem twoFactorKeptEntries_eq (fields : Fields) (key : String) (room : Nat) :
    twoFactorKeptEntries calls (some fields) key room
      = (entriesFor calls key fields).foldl (keepFirst room) [] := by
  show (fields.foldl (keepEntry calls key room false)
    (fields.foldl (keepEntry calls key room true) ⟨[], ([] : Fields).length⟩)).next = _
  rw [foldl_keepEntry, foldl_keepEntry, entriesFor, List.foldl_append]

theorem length_twoFactorKeptEntries (store : Store) (key : String) (room : Nat) :
    (twoFactorKeptEntries calls store key room).length ≤ room := by
  cases store with
  | none => exact Nat.zero_le _
  | some fields =>
    rw [twoFactorKeptEntries_eq]
    exact length_keepFirst (Nat.zero_le _)

theorem twoFactorAccountKey_eq_hash (h : twoFactorAccountKey calls email ≠ "") :
    twoFactorAccountKey calls email = sha256Hex (twoFactorPlainKey calls email) := by
  grind [twoFactorAccountKey]

theorem twoFactorAccountKey_eq_empty :
    twoFactorAccountKey calls email = "" ↔ twoFactorPlainKey calls email = "" := by
  grind [twoFactorAccountKey, sha256Hex_ne_empty]

theorem isTwoFactorHashKey_accountKey (h : twoFactorAccountKey calls email ≠ "") :
    isTwoFactorHashKey (twoFactorAccountKey calls email) = true := by
  rw [twoFactorAccountKey_eq_hash h]
  exact isTwoFactorHashKey_sha256Hex _

/-- A candidate goes under the stored key of its entry, which is a hash. -/
theorem candidate_eq_some {key : String} {hashed : Bool} {entry out : String × Value}
    (h : candidate calls key hashed entry = some out) :
    isTwoFactorHashKey entry.1 = hashed ∧ out.1 = twoFactorStoredKey calls entry.1 ∧ out.1 ≠ key
      ∧ isTwoFactorHashKey out.1 = true ∧ keptValue calls entry.2 = some out.2 := by
  rw [candidate] at h
  split at h
  · cases h
  · rename_i hcounts
    obtain ⟨v, hv, rfl⟩ := Option.map_eq_some_iff.mp h
    have hpass : isTwoFactorHashKey entry.1 = hashed := by tauto
    have hempty : twoFactorStoredKey calls entry.1 ≠ "" := by tauto
    have hother : twoFactorStoredKey calls entry.1 ≠ key := by tauto
    refine ⟨hpass, rfl, hother, ?_, hv⟩
    dsimp only
    rw [twoFactorStoredKey] at hempty ⊢
    split
    · assumption
    · rename_i hplain
      rw [if_neg hplain] at hempty
      exact isTwoFactorHashKey_accountKey hempty

theorem mem_entriesFor {key : String} {fields : Fields} {out : String × Value}
    (h : out ∈ entriesFor calls key fields) :
    ∃ entry ∈ fields, out.1 = twoFactorStoredKey calls entry.1 ∧ out.1 ≠ key
      ∧ isTwoFactorHashKey out.1 = true ∧ keptValue calls entry.2 = some out.2 := by
  rcases List.mem_append.mp h with h | h
  all_goals
    obtain ⟨entry, hentry, hout⟩ := List.mem_filterMap.mp h
    exact ⟨entry, hentry, (candidate_eq_some hout).2⟩

theorem hashed_twoFactorKeptEntries (store : Store) (key : String) (room : Nat) :
    ∀ entry ∈ twoFactorKeptEntries calls store key room,
      entry.1 ≠ key ∧ isTwoFactorHashKey entry.1 = true := by
  intro entry hentry
  cases store with
  | none => cases hentry
  | some fields =>
    rw [twoFactorKeptEntries_eq] at hentry
    rcases mem_of_mem_keepFirst hentry with hnone | hmem
    · cases hnone
    · obtain ⟨_, _, _, hkey, hhash, _⟩ := mem_entriesFor hmem
      exact ⟨hkey, hhash⟩

end Passes

/-! ## Stores that old and new versions write -/

/-- The emails involved: hashing tells them apart and yields none of them. -/
structure Accounts (emails : Set String) : Prop where
  injOn : Set.InjOn sha256Hex emails
  apart : ∀ p ∈ emails, ∀ q ∈ emails, sha256Hex p ≠ q

/-- Plain keys are normalised emails and hashed ones are hashes of emails. As in any object a key is
there once. -/
structure WellKeyed (calls : Calls) (emails : Set String) (fields : Fields) : Prop where
  nodup : (fields.map Prod.fst).Nodup
  plain : ∀ entry ∈ fields, isTwoFactorHashKey entry.1 = false →
    twoFactorPlainKey calls entry.1 = entry.1 ∧ entry.1 ∈ emails
  hashed : ∀ entry ∈ fields, isTwoFactorHashKey entry.1 = true →
    ∃ email, twoFactorPlainKey calls email ∈ emails ∧ entry.1 = twoFactorAccountKey calls email

section Methods

variable {calls : Calls}

variable {email : String}

theorem nonneg_of_isTwoFactorMethod {method : Int} (h : isTwoFactorMethod method = true) :
    0 ≤ method ∧ method.toNat < 2 ^ 53 := by
  have hmem : method ∈ twoFactorMethods := List.contains_iff_mem.mp h
  simp only [twoFactorMethods, List.mem_cons, List.not_mem_nil, or_false] at hmem
  omega

theorem twoFactorMethodOf_methodValue {method : Int} (h : isTwoFactorMethod method = true) :
    twoFactorMethodOf calls (some (methodValue method)) = method := by
  obtain ⟨hnonneg, hsmall⟩ := nonneg_of_isTwoFactorMethod h
  have hnumber : calls.js.number (methodValue method) = .int method := by
    rw [methodValue, calls.js.number_posInt _ hsmall, Int.toNat_of_nonneg hnonneg]
  have hcounts : countsAsNumber (methodValue method) = true := rfl
  simp only [twoFactorMethodOf, hcounts, if_true, hnumber, Js.Num.floor, h]

/-- A value is read as a method of the table, or as `-1`. -/
theorem twoFactorMethodOf_cases (raw : Option Value) :
    twoFactorMethodOf calls raw = -1 ∨ isTwoFactorMethod (twoFactorMethodOf calls raw) = true := by
  unfold twoFactorMethodOf
  grind

theorem bind_keptValue_eq_none {raw : Option Value} (h : twoFactorMethodOf calls raw < 0) :
    raw.bind (keptValue calls) = none := by
  cases raw with
  | none => rfl
  | some v => exact if_pos h

theorem bind_keptValue_eq_some {raw : Option Value} (h : 0 ≤ twoFactorMethodOf calls raw) :
    raw.bind (keptValue calls) = some (methodValue (twoFactorMethodOf calls raw)) := by
  cases raw with
  | none =>
    have hnone : twoFactorMethodOf calls none = -1 := rfl
    omega
  | some v => exact if_neg (Int.not_lt.mpr h)

/-- What is kept of a value is read like the value. -/
theorem twoFactorMethodOf_keptValue (raw : Option Value) :
    twoFactorMethodOf calls (raw.bind (keptValue calls)) = twoFactorMethodOf calls raw := by
  rcases @twoFactorMethodOf_cases calls raw with hnone | hmethod
  · rw [bind_keptValue_eq_none (by omega), hnone]
    rfl
  · rw [bind_keptValue_eq_some (nonneg_of_isTwoFactorMethod hmethod).1,
      twoFactorMethodOf_methodValue hmethod]

/-- What a store has for an account: the value under the hash, else the one under the email. -/
def recorded (calls : Calls) (fields : Fields) (email : String) : Option Value :=
  let plain := twoFactorPlainKey calls email
  ((fields.lookup (sha256Hex plain)).bind (keptValue calls)).or
    ((fields.lookup plain).bind (keptValue calls))

theorem bind_recorded (fields : Fields) (email : String) :
    (recorded calls fields email).bind (keptValue calls) = recorded calls fields email := by
  have hkept : ∀ raw : Option Value,
      (raw.bind (keptValue calls)).bind (keptValue calls) = raw.bind (keptValue calls) := by
    intro raw
    rcases @twoFactorMethodOf_cases calls raw with hnone | hmethod
    · have hraw : raw.bind (keptValue calls) = none := bind_keptValue_eq_none (by omega)
      rw [hraw]
      rfl
    · have hnonneg := (nonneg_of_isTwoFactorMethod hmethod).1
      rw [bind_keptValue_eq_some (by rwa [twoFactorMethodOf_keptValue]),
        twoFactorMethodOf_keptValue, bind_keptValue_eq_some hnonneg]
  rw [recorded]
  cases hhash :
      (fields.lookup (sha256Hex (twoFactorPlainKey calls email))).bind (keptValue calls) with
  | some v => rw [Option.some_or, ← hhash, hkept]
  | none => rw [Option.none_or, hkept]

/-- What is recorded is a method. -/
theorem nonneg_recorded {fields : Fields} (h : (recorded calls fields email).isSome) :
    0 ≤ twoFactorMethodOf calls (recorded calls fields email) := by
  by_contra hneg
  rw [← bind_recorded, bind_keptValue_eq_none (Int.not_le.mp hneg)] at h
  cases h

theorem remembered_eq_recorded (h : twoFactorPlainKey calls email ≠ "") (fields : Fields) :
    rememberedTwoFactorMethodFor calls (some fields) email
      = twoFactorMethodOf calls (recorded calls fields email) := by
  have hkey : twoFactorAccountKey calls email = sha256Hex (twoFactorPlainKey calls email) :=
    if_neg h
  rw [rememberedTwoFactorMethodFor, recorded]
  dsimp only
  rw [hkey, if_neg (sha256Hex_ne_empty _)]
  by_cases hfound :
      0 ≤ twoFactorMethodOf calls (fields.lookup (sha256Hex (twoFactorPlainKey calls email)))
  · have hvalue := bind_keptValue_eq_some hfound
    rw [if_pos hfound, hvalue, Option.some_or, ← hvalue, twoFactorMethodOf_keptValue]
  · rw [if_neg hfound, bind_keptValue_eq_none (by omega), Option.none_or,
      twoFactorMethodOf_keptValue]

theorem remembered_blank (h : twoFactorPlainKey calls email = "") (store : Store) :
    rememberedTwoFactorMethodFor calls store email = -1 := by
  have hkey : twoFactorAccountKey calls email = "" := if_pos h
  cases store with
  | none => rfl
  | some fields => exact if_pos hkey

/-- No object and an empty one are read alike. -/
theorem remembered_getD (store : Store) (email : String) :
    rememberedTwoFactorMethodFor calls (some (store.getD [])) email
      = rememberedTwoFactorMethodFor calls store email := by
  cases store with
  | some fields => rfl
  | none =>
    by_cases hblank : twoFactorPlainKey calls email = ""
    · rw [remembered_blank hblank, remembered_blank hblank]
    · rw [remembered_eq_recorded hblank]
      rfl

theorem twoFactorKeptEntries_getD (store : Store) (key : String) (room : Nat) :
    twoFactorKeptEntries calls (some (store.getD [])) key room
      = twoFactorKeptEntries calls store key room := by
  cases store with
  | none => rfl
  | some fields => rfl

end Methods

/-! ## Nothing is lost -/

/-- Looking up `target` in what is made of the entries, if only the one under `source` is put under
`target`. -/
theorem lookup_filterMap {f : String × Value → Option (String × Value)} {g : Value → Option Value}
    {fields : Fields} {source target : String} (hnodup : (fields.map Prod.fst).Nodup)
    (honly : ∀ entry ∈ fields, ∀ out, f entry = some out → out.1 = target → entry.1 = source)
    (hsource : ∀ v, (source, v) ∈ fields → f (source, v) = (g v).map fun w => (target, w)) :
    (fields.filterMap f).lookup target = (fields.lookup source).bind g := by
  induction fields with
  | nil => rfl
  | cons entry rest ih =>
    rw [List.map_cons, List.nodup_cons] at hnodup
    have ih := ih hnodup.2 (fun entry' hentry => honly entry' (List.mem_cons_of_mem _ hentry))
      fun v hv => hsource v (List.mem_cons_of_mem _ hv)
    obtain ⟨name, value⟩ := entry
    rw [List.filterMap_cons]
    by_cases hname : name = source
    · subst hname
      rw [hsource value List.mem_cons_self, List.lookup_cons_self, Option.bind_some]
      cases hg : g value with
      | some w => exact List.lookup_cons_self
      | none =>
        -- the key is not there a second time
        have hrest : rest.lookup name = none := lookup_eq_none (by grind)
        rw [hrest] at ih
        exact ih
    · have hne : (source == name) = false := beq_false_of_ne (Ne.symm hname)
      rw [List.lookup_cons, hne, ← ih]
      cases hf : f (name, value) with
      | none => rfl
      | some out =>
        have htarget : (target == out.1) = false := beq_false_of_ne fun heq =>
          hname (honly _ List.mem_cons_self out hf heq.symm)
        show (out :: _).lookup target = _
        rw [List.lookup_cons, htarget]

section Kept

variable {calls : Calls} {emails : Set String} {fields : Fields} {email key : String}

theorem twoFactorStoredKey_hashed (h : isTwoFactorHashKey key = true) :
    twoFactorStoredKey calls key = key := if_pos h

theorem WellKeyed.twoFactorStoredKey_plain (h : WellKeyed calls emails fields)
    {entry : String × Value} (hentry : entry ∈ fields) (hplain : isTwoFactorHashKey entry.1 = false)
    (hne : twoFactorStoredKey calls entry.1 ≠ "") :
    twoFactorStoredKey calls entry.1 = sha256Hex entry.1 := by
  have hstored : twoFactorStoredKey calls entry.1 = twoFactorAccountKey calls entry.1 :=
    if_neg (by rw [hplain]; exact Bool.false_ne_true)
  rw [hstored] at hne ⊢
  rw [twoFactorAccountKey_eq_hash hne, (h.plain entry hentry hplain).1]

/-- The first pass finds the value under the hash. -/
theorem lookup_hashed (h : WellKeyed calls emails fields) {plain : String}
    (hother : sha256Hex plain ≠ key) :
    (fields.filterMap (candidate calls key true)).lookup (sha256Hex plain)
      = (fields.lookup (sha256Hex plain)).bind (keptValue calls) := by
  apply lookup_filterMap h.nodup
  · intro entry _ out hout htarget
    obtain ⟨hhash, hstored, _⟩ := candidate_eq_some hout
    rw [twoFactorStoredKey_hashed hhash] at hstored
    rw [← hstored, htarget]
  · intro v _
    have hhash := isTwoFactorHashKey_sha256Hex plain
    simp [candidate, twoFactorStoredKey_hashed hhash, hhash, sha256Hex_ne_empty, hother]

/-- Every key that counts is the hash of an email. -/
theorem WellKeyed.account (h : WellKeyed calls emails fields) {out : String × Value}
    (hout : out ∈ entriesFor calls key fields) :
    ∃ email, twoFactorPlainKey calls email ∈ emails ∧ twoFactorPlainKey calls email ≠ ""
      ∧ out.1 = sha256Hex (twoFactorPlainKey calls email) := by
  obtain ⟨entry, hentry, hstored, _, hhash, _⟩ := mem_entriesFor hout
  have hne : twoFactorStoredKey calls entry.1 ≠ "" := hstored ▸ ne_empty_of_isTwoFactorHashKey hhash
  cases hkind : isTwoFactorHashKey entry.1 with
  | true =>
    obtain ⟨email, hemail, hkey⟩ := h.hashed entry hentry hkind
    rw [twoFactorStoredKey_hashed hkind, hkey] at hstored hne
    refine ⟨email, hemail, fun hblank => hne (if_pos hblank), ?_⟩
    rw [hstored, twoFactorAccountKey_eq_hash hne]
  | false =>
    obtain ⟨hnormal, hemail⟩ := h.plain entry hentry hkind
    have hsha := h.twoFactorStoredKey_plain hentry hkind hne
    have hblank : entry.1 ≠ "" := by
      intro hblank
      rw [hblank] at hne hnormal
      exact hne ((if_neg (by decide)).trans (if_pos hnormal))
    exact ⟨entry.1, hnormal.symm ▸ hemail, hnormal.symm ▸ hblank,
      (hstored.trans hsha).trans (congrArg _ hnormal.symm)⟩

variable (haccounts : Accounts emails) (h : WellKeyed calls emails fields)
include haccounts h

/-- The second pass finds the value under the email. -/
theorem lookup_plain {plain : String} (hemail : plain ∈ emails) (hne : plain ≠ "")
    (hother : sha256Hex plain ≠ key) :
    (fields.filterMap (candidate calls key false)).lookup (sha256Hex plain)
      = (fields.lookup plain).bind (keptValue calls) := by
  apply lookup_filterMap h.nodup
  · intro entry hentry out hout htarget
    obtain ⟨hplain, hstored, _, hhash, _⟩ := candidate_eq_some hout
    have hstoredNe : twoFactorStoredKey calls entry.1 ≠ "" :=
      hstored ▸ ne_empty_of_isTwoFactorHashKey hhash
    rw [h.twoFactorStoredKey_plain hentry hplain hstoredNe] at hstored
    exact haccounts.injOn (h.plain entry hentry hplain).2 hemail (hstored.symm.trans htarget)
  · intro v hv
    -- a hashed key would be a hash that is an email
    have hplain : isTwoFactorHashKey plain = false := by
      by_contra hhash
      obtain ⟨owner, howner, hkey⟩ := h.hashed _ hv (by simpa using hhash)
      dsimp only at hkey
      rw [twoFactorAccountKey_eq_hash (hkey ▸ hne)] at hkey
      exact haccounts.apart _ howner _ hemail hkey.symm
    have hstored : twoFactorStoredKey calls plain = sha256Hex plain := by
      have hnormal := (h.plain _ hv hplain).1
      rw [twoFactorStoredKey, hplain, if_neg Bool.false_ne_true, twoFactorAccountKey, hnormal,
        if_neg hne]
    simp [candidate, hstored, hplain, sha256Hex_ne_empty, hother]

theorem lookup_entriesFor (hemail : twoFactorPlainKey calls email ∈ emails)
    (hne : twoFactorPlainKey calls email ≠ "")
    (hother : sha256Hex (twoFactorPlainKey calls email) ≠ key) :
    (entriesFor calls key fields).lookup (sha256Hex (twoFactorPlainKey calls email))
      = recorded calls fields email := by
  rw [entriesFor, List.lookup_append, lookup_hashed h hother,
    lookup_plain haccounts h hemail hne hother]
  rfl

/-- `held` has every account other than `key`'s with a method. -/
def Covers (calls : Calls) (emails : Set String) (fields : Fields) (key : String)
    (held : List String) : Prop :=
  ∀ email, twoFactorPlainKey calls email ∈ emails →
    sha256Hex (twoFactorPlainKey calls email) ≠ key →
    0 ≤ rememberedTwoFactorMethodFor calls (some fields) email →
    twoFactorPlainKey calls email ∈ held

/-- With room for the accounts other than `key`'s, the rebuilt store has what they had. -/
theorem lookup_twoFactorKeptEntries {held : List String} {room : Nat} (hroom : held.length ≤ room)
    (hheld : Covers calls emails fields key held)
    (hemail : twoFactorPlainKey calls email ∈ emails) (hne : twoFactorPlainKey calls email ≠ "")
    (hother : sha256Hex (twoFactorPlainKey calls email) ≠ key) :
    (twoFactorKeptEntries calls (some fields) key room).lookup
        (sha256Hex (twoFactorPlainKey calls email)) = recorded calls fields email := by
  have hcovered : ∀ out ∈ [] ++ entriesFor calls key fields, out.1 ∈ held.map sha256Hex := by
    intro out hout
    obtain ⟨owner, howner, hblank, hkey⟩ := h.account hout
    obtain ⟨_, _, _, hout', _⟩ := mem_entriesFor hout
    have hthere : (recorded calls fields owner).isSome := by
      rw [← lookup_entriesFor haccounts h howner hblank (hkey ▸ hout'), lookup_isSome_iff_mem_keys,
        ← hkey]
      exact List.mem_map_of_mem hout
    have hmethod : 0 ≤ rememberedTwoFactorMethodFor calls (some fields) owner := by
      rw [remembered_eq_recorded hblank]
      exact nonneg_recorded hthere
    rw [hkey]
    exact List.mem_map_of_mem (hheld owner howner (hkey ▸ hout') hmethod)
  rw [twoFactorKeptEntries_eq, lookup_keepFirst (by rwa [List.length_map]) hcovered List.nodup_nil,
    List.nil_append, lookup_entriesFor haccounts h hemail hne hother]

/-- No email is a key of the rebuilt store. -/
theorem lookup_email {room : Nat} {plain : String} (hplain : plain ∈ emails) :
    (twoFactorKeptEntries calls (some fields) key room).lookup plain = none := by
  rw [twoFactorKeptEntries_eq]
  apply lookup_eq_none
  intro out hout
  have hmem := mem_of_mem_keepFirst hout
  rw [or_iff_right List.not_mem_nil] at hmem
  obtain ⟨owner, howner, _, hkey⟩ := h.account hmem
  rw [hkey]
  exact haccounts.apart _ howner _ hplain

omit haccounts h

/-- A store that has nothing under an account's keys remembers nothing for it. -/
theorem remembered_of_lookup_none {next : Fields}
    (hhash : next.lookup (sha256Hex (twoFactorPlainKey calls email)) = none)
    (hplain : next.lookup (twoFactorPlainKey calls email) = none) :
    rememberedTwoFactorMethodFor calls (some next) email = -1 := by
  by_cases hblank : twoFactorPlainKey calls email = ""
  · exact remembered_blank hblank _
  · rw [remembered_eq_recorded hblank, recorded, hhash, hplain]
    rfl

/-- A store that has under the hash what another one recorded remembers the same. -/
theorem remembered_of_lookup {next : Fields} (hblank : twoFactorPlainKey calls email ≠ "")
    (hhash : next.lookup (sha256Hex (twoFactorPlainKey calls email)) = recorded calls fields email)
    (hplain : next.lookup (twoFactorPlainKey calls email) = none) :
    rememberedTwoFactorMethodFor calls (some next) email
      = rememberedTwoFactorMethodFor calls (some fields) email := by
  rw [remembered_eq_recorded hblank, remembered_eq_recorded hblank, recorded, hhash, hplain,
    bind_recorded, Option.bind_none, Option.or_none]

include haccounts h

/-- The rebuild keeps what is remembered for accounts other than `key`'s. -/
theorem remembered_twoFactorKeptEntries {held : List String} {room : Nat}
    (hroom : held.length ≤ room) (hheld : Covers calls emails fields key held)
    (hemail : twoFactorPlainKey calls email ∈ emails)
    (hother : sha256Hex (twoFactorPlainKey calls email) ≠ key) :
    rememberedTwoFactorMethodFor calls
        (some (twoFactorKeptEntries calls (some fields) key room)) email
      = rememberedTwoFactorMethodFor calls (some fields) email := by
  by_cases hblank : twoFactorPlainKey calls email = ""
  · rw [remembered_blank hblank, remembered_blank hblank]
  · exact remembered_of_lookup hblank
      (lookup_twoFactorKeptEntries haccounts h hroom hheld hemail hblank hother)
      (lookup_email haccounts h hemail)

end Kept

/-! ## The operations -/

inductive Operation where
  | migrate
  | remember (email : String) (method : Int)
  | forget (email : String)

namespace Operation

/-- What is to be written. -/
def result (calls : Calls) (store : Store) : Operation → Option Fields
  | migrate => migrateTwoFactorStore calls store
  | remember email method => rememberTwoFactorMethodIn calls store email method
  | forget email => forgetTwoFactorMethodIn calls store email

/-- The email an operation is given. -/
def email : Operation → Option String
  | migrate => none
  | remember email _ | forget email => some email

/-- The method an account should have afterwards: the one that was to be remembered, none if it was
to be forgotten, and what it had in any other case. A blank email or an unknown method is
refused. -/
def expected (calls : Calls) (store : Store) (op : Operation) (other : String) : Int :=
  let same := fun email => twoFactorPlainKey calls other = twoFactorPlainKey calls email
  let before := rememberedTwoFactorMethodFor calls store other
  match op with
  | migrate => before
  | remember email method =>
    if twoFactorPlainKey calls email ≠ "" ∧ isTwoFactorMethod method ∧ same email then method
    else before
  | forget email => if same email then -1 else before

end Operation

/-- At most `maxRememberedAccounts` of the accounts have a method. -/
def RoomFor (calls : Calls) (emails : Set String) (methods : String → Int) : Prop :=
  ∃ held : List String, held.length ≤ maxRememberedAccounts ∧
    ∀ email, twoFactorPlainKey calls email ∈ emails → 0 ≤ methods email →
      twoFactorPlainKey calls email ∈ held

section Operations

variable {calls : Calls} {store : Store} {emails : Set String}

variable {email other : String}

/-- `next[key] = value` for a new key. -/
theorem assign_new {fields : Fields} {key : String} (h : fields.lookup key = none) (value : Value) :
    assign fields key value = fields ++ [(key, value)] := by
  rw [assign, h]
  rfl

theorem lookup_key_eq_none (store : Store) (key : String) (room : Nat) :
    (twoFactorKeptEntries calls store key room).lookup key = none :=
  lookup_eq_none fun entry hentry => (hashed_twoFactorKeptEntries store key room entry hentry).1

/-- Accounts with different hashes are different. -/
theorem plainKey_ne {key e : String} (hkey : key = sha256Hex (twoFactorPlainKey calls email))
    (h : sha256Hex (twoFactorPlainKey calls e) ≠ key) :
    twoFactorPlainKey calls e ≠ twoFactorPlainKey calls email := fun heq =>
  h ((congrArg sha256Hex heq).trans hkey.symm)

theorem result_bounded {op : Operation} {next : Fields} (h : op.result calls store = some next) :
    next.length ≤ maxRememberedAccounts ∧ ∀ entry ∈ next, isTwoFactorHashKey entry.1 = true := by
  have hkept : ∀ key room, room ≤ maxRememberedAccounts →
      (twoFactorKeptEntries calls store key room).length ≤ maxRememberedAccounts ∧
      ∀ entry ∈ twoFactorKeptEntries calls store key room, isTwoFactorHashKey entry.1 = true :=
    fun key room hroom => ⟨(length_twoFactorKeptEntries _ _ _).trans hroom, fun entry hentry =>
      (hashed_twoFactorKeptEntries _ _ _ entry hentry).2⟩
  cases op with
  | migrate =>
    obtain ⟨_, h⟩ := Option.ite_none_right_eq_some.mp h
    cases h
    exact hkept _ _ le_rfl
  | forget email =>
    obtain ⟨_, h⟩ := Option.ite_none_left_eq_some.mp h
    cases h
    exact hkept _ _ le_rfl
  | remember email method =>
    obtain ⟨haccepted, h⟩ := Option.ite_none_left_eq_some.mp h
    cases h
    rw [assign_new (lookup_key_eq_none _ _ _)]
    have hlength := @length_twoFactorKeptEntries calls store (twoFactorAccountKey calls email)
      (maxRememberedAccounts - 1)
    refine ⟨?_, ?_⟩
    · rw [List.length_append, List.length_singleton]
      exact Nat.add_le_of_le_sub (by decide) hlength
    · rw [List.forall_mem_append, List.forall_mem_singleton]
      exact ⟨(hkept _ _ (Nat.sub_le _ _)).2,
        isTwoFactorHashKey_accountKey fun hblank => haccepted (.inl hblank)⟩

variable (haccounts : Accounts emails)
include haccounts

variable (hstore : WellKeyed calls emails (store.getD []))
include hstore

theorem remembered_migrate (hroom : RoomFor calls emails (Operation.migrate.expected calls store))
    (hother : twoFactorPlainKey calls other ∈ emails) :
    rememberedTwoFactorMethodFor calls (written store (migrateTwoFactorStore calls store)) other
      = rememberedTwoFactorMethodFor calls store other := by
  obtain ⟨held, hlength, hheld⟩ := hroom
  rw [migrateTwoFactorStore]
  split
  · show rememberedTwoFactorMethodFor calls (some (twoFactorKeptEntries calls store "" _)) other = _
    rw [← twoFactorKeptEntries_getD, ← remembered_getD store]
    refine remembered_twoFactorKeptEntries haccounts hstore hlength ?_ hother
      (sha256Hex_ne_empty _)
    intro email hemail _ hmethod
    rw [remembered_getD] at hmethod
    exact hheld email hemail hmethod
  · rfl

theorem remembered_forget (hemail : twoFactorPlainKey calls email ∈ emails)
    (hroom : RoomFor calls emails ((Operation.forget email).expected calls store))
    (hother : twoFactorPlainKey calls other ∈ emails) :
    rememberedTwoFactorMethodFor calls (written store (forgetTwoFactorMethodIn calls store email))
        other
      = (Operation.forget email).expected calls store other := by
  obtain ⟨held, hlength, hheld⟩ := hroom
  rw [forgetTwoFactorMethodIn, Operation.expected]
  dsimp only
  by_cases hrefused : twoFactorAccountKey calls email = "" ∨ store = none
  · rw [if_pos hrefused]
    show rememberedTwoFactorMethodFor calls store other = _
    split
    · rename_i hsame
      rcases hrefused with hblank | rfl
      · exact remembered_blank (hsame.trans (twoFactorAccountKey_eq_empty.mp hblank)) store
      · rfl
    · rfl
  · rw [if_neg hrefused]
    show rememberedTwoFactorMethodFor calls (some (twoFactorKeptEntries calls store _ _)) other = _
    have hkey := twoFactorAccountKey_eq_hash fun hblank => hrefused (.inl hblank)
    rw [← twoFactorKeptEntries_getD]
    split
    · rename_i hsame
      refine remembered_of_lookup_none ?_ (lookup_email haccounts hstore hother)
      rw [hsame, ← hkey]
      exact lookup_key_eq_none _ _ _
    · rename_i hdiffers
      rw [← remembered_getD store]
      refine remembered_twoFactorKeptEntries haccounts hstore hlength ?_ hother ?_
      · intro e he hne hmethod
        rw [remembered_getD] at hmethod
        apply hheld e he
        rw [Operation.expected]
        dsimp only
        rwa [if_neg (plainKey_ne hkey hne)]
      · rw [hkey]
        exact fun heq => hdiffers (haccounts.injOn hother hemail heq)

theorem remembered_remember {method : Int} (hemail : twoFactorPlainKey calls email ∈ emails)
    (hroom : RoomFor calls emails ((Operation.remember email method).expected calls store))
    (hother : twoFactorPlainKey calls other ∈ emails) :
    rememberedTwoFactorMethodFor calls
        (written store (rememberTwoFactorMethodIn calls store email method)) other
      = (Operation.remember email method).expected calls store other := by
  obtain ⟨held, hlength, hheld⟩ := hroom
  rw [rememberTwoFactorMethodIn]
  by_cases hrefused : twoFactorAccountKey calls email = "" ∨ isTwoFactorMethod method = false
  · rw [if_pos hrefused]
    show rememberedTwoFactorMethodFor calls store other = _
    refine (if_neg ?_).symm
    rw [twoFactorAccountKey_eq_empty] at hrefused
    grind
  rw [if_neg hrefused]
  obtain ⟨hkeyNe, hknown⟩ := not_or.mp hrefused
  have hmethod : isTwoFactorMethod method = true := Bool.eq_true_of_not_eq_false hknown
  have hkey := twoFactorAccountKey_eq_hash hkeyNe
  have hnonblank : twoFactorPlainKey calls email ≠ "" := mt twoFactorAccountKey_eq_empty.mpr hkeyNe
  have hexpected : ∀ e, (Operation.remember email method).expected calls store e
      = if twoFactorPlainKey calls e = twoFactorPlainKey calls email then method
        else rememberedTwoFactorMethodFor calls store e := fun e =>
    if_congr ⟨fun h => h.2.2, fun h => ⟨hnonblank, hmethod, h⟩⟩ rfl rfl
  rw [assign_new (lookup_key_eq_none _ _ _), hexpected, ← twoFactorKeptEntries_getD]
  show rememberedTwoFactorMethodFor calls (some (_ ++ _)) other = _
  -- no email is a key, the new one included
  have hplain : (twoFactorKeptEntries calls (some (store.getD [])) (twoFactorAccountKey calls email)
        (maxRememberedAccounts - 1)
      ++ [(twoFactorAccountKey calls email, methodValue method)]).lookup
        (twoFactorPlainKey calls other) = none := by
    have hne : (twoFactorPlainKey calls other == twoFactorAccountKey calls email) = false := by
      rw [hkey]
      exact beq_false_of_ne (haccounts.apart _ hemail _ hother).symm
    rw [List.lookup_append, lookup_email haccounts hstore hother, Option.none_or, List.lookup_cons,
      hne]
    rfl
  by_cases hsame : twoFactorPlainKey calls other = twoFactorPlainKey calls email
  · rw [if_pos hsame, remembered_eq_recorded (hsame ▸ hnonblank), recorded, hplain, hsame, ← hkey,
      List.lookup_append, lookup_key_eq_none, Option.none_or, List.lookup_cons_self,
      Option.bind_none, Option.or_none, twoFactorMethodOf_keptValue,
      twoFactorMethodOf_methodValue hmethod]
  rw [if_neg hsame]
  by_cases hblank : twoFactorPlainKey calls other = ""
  · rw [remembered_blank hblank, remembered_blank hblank]
  have hdiffers : sha256Hex (twoFactorPlainKey calls other) ≠ twoFactorAccountKey calls email := by
    rw [hkey]
    exact fun heq => hsame (haccounts.injOn hother hemail heq)
  -- the account itself is one of those that are held, so the others leave room for it
  have hmem : twoFactorPlainKey calls email ∈ held := by
    refine hheld email hemail ?_
    rw [hexpected, if_pos rfl]
    exact (nonneg_of_isTwoFactorMethod hmethod).1
  have herase :
      (held.erase (twoFactorPlainKey calls email)).length ≤ maxRememberedAccounts - 1 := by
    rw [List.length_erase_of_mem hmem]
    omega
  have hlookup := lookup_twoFactorKeptEntries haccounts hstore herase (fun e he hne hnonneg => by
    have hne' := plainKey_ne hkey hne
    rw [List.mem_erase_of_ne hne']
    apply hheld e he
    rw [hexpected, if_neg hne']
    rwa [remembered_getD] at hnonneg) hother hblank hdiffers
  rw [← remembered_getD store]
  refine remembered_of_lookup hblank ?_ hplain
  have hne :
      (sha256Hex (twoFactorPlainKey calls other) == twoFactorAccountKey calls email) = false :=
    beq_false_of_ne hdiffers
  rw [List.lookup_append, hlookup, List.lookup_cons, hne]
  exact Option.or_none

end Operations

/-- Nothing is remembered twice or lost: if the accounts with a method afterwards are at most
`maxRememberedAccounts`, each operation leaves every account the method it should have. Whatever the
store, what is written has only hashed keys, and at most that many. -/
theorem two_factor_survives (calls : Calls) (store : Store) (op : Operation) :
    (∀ next, op.result calls store = some next →
      next.length ≤ maxRememberedAccounts ∧ ∀ entry ∈ next, isTwoFactorHashKey entry.1 = true) ∧
    ∀ emails, Accounts emails → (∀ fields ∈ store, WellKeyed calls emails fields) →
      (∀ email ∈ op.email, twoFactorPlainKey calls email ∈ emails) →
      RoomFor calls emails (op.expected calls store) →
      ∀ other, twoFactorPlainKey calls other ∈ emails →
        rememberedTwoFactorMethodFor calls (written store (op.result calls store)) other
          = op.expected calls store other := by
  refine ⟨fun next hnext => result_bounded hnext, ?_⟩
  intro emails haccounts hstore hemail hroom other hother
  have hstore' : WellKeyed calls emails (store.getD []) := by
    cases store with
    | some fields => exact hstore fields rfl
    | none => exact ⟨List.nodup_nil, nofun, nofun⟩
  cases op with
  | migrate => exact remembered_migrate haccounts hstore' hroom hother
  | remember email method =>
    exact remembered_remember haccounts hstore' (hemail email rfl) hroom hother
  | forget email => exact remembered_forget haccounts hstore' (hemail email rfl) hroom hother

/-- Calls for texts in ASCII. -/
def asciiCalls : Calls where
  js := Js.plain
  toLowerCase s := String.ofList (s.toList.map Char.toLower)

/-- Two accounts, each under both keys; the second one's value under the hash is no method. -/
def bothKeys : Fields := [("a@x", .number (.posInt 3)), (sha256Hex "a@x", .number (.posInt 0)),
  ("b@x", .string "1"), (sha256Hex "b@x", .null)]

theorem bothKeys_wellKeyed : WellKeyed asciiCalls {"a@x", "b@x"} bothKeys := by
  have heval : (bothKeys.map Prod.fst).Nodup
      ∧ twoFactorPlainKey asciiCalls "a@x" = "a@x" ∧ twoFactorPlainKey asciiCalls "b@x" = "b@x"
      ∧ isTwoFactorHashKey "a@x" = false ∧ isTwoFactorHashKey "b@x" = false
      ∧ twoFactorAccountKey asciiCalls "a@x" = sha256Hex "a@x"
      ∧ twoFactorAccountKey asciiCalls "b@x" = sha256Hex "b@x" := by
    decide +kernel
  obtain ⟨hnodup, ha, hb, haPlain, hbPlain, haKey, hbKey⟩ := heval
  have haHash := isTwoFactorHashKey_sha256Hex "a@x"
  have hbHash := isTwoFactorHashKey_sha256Hex "b@x"
  refine ⟨hnodup, ?_, ?_⟩
  · simp only [bothKeys, List.forall_mem_cons, haHash, hbHash, ha, hb]
    simp
  · simp only [bothKeys, List.forall_mem_cons, haPlain, hbPlain]
    have hplain : ∀ {P : Prop}, false = true → P := fun h => absurd h Bool.false_ne_true
    exact ⟨hplain, fun _ => ⟨"a@x", by simp [ha], haKey.symm⟩, hplain,
      fun _ => ⟨"b@x", by simp [hb], hbKey.symm⟩, List.forall_mem_nil _⟩

/-- Forgetting the first account, whose email is given in capitals. -/
theorem two_factor_survives_both_keys :
    rememberedTwoFactorMethodFor asciiCalls (some bothKeys) "a@x" = 0
      ∧ (let after := written (some bothKeys)
          ((Operation.forget "A@X").result asciiCalls (some bothKeys))
        rememberedTwoFactorMethodFor asciiCalls after "a@x" = -1
          ∧ rememberedTwoFactorMethodFor asciiCalls after "b@x" = 1) := by
  have heval : rememberedTwoFactorMethodFor asciiCalls (some bothKeys) "a@x" = 0
      ∧ twoFactorPlainKey asciiCalls "A@X" = "a@x"
      ∧ twoFactorPlainKey asciiCalls "a@x" = "a@x" ∧ twoFactorPlainKey asciiCalls "b@x" = "b@x"
      ∧ (Operation.forget "A@X").expected asciiCalls (some bothKeys) "a@x" = -1
      ∧ (Operation.forget "A@X").expected asciiCalls (some bothKeys) "b@x" = 1
      ∧ sha256Hex "a@x" ≠ sha256Hex "b@x" ∧ isTwoFactorHashKey "a@x" = false
      ∧ isTwoFactorHashKey "b@x" = false := by
    decide +kernel
  obtain ⟨hbefore, hA, ha, hb, hforgotten, hkept, hdiffer, haPlain, hbPlain⟩ := heval
  have haccounts : Accounts {"a@x", "b@x"} := by
    constructor
    · intro p hp q hq hpq
      rcases hp with rfl | rfl <;> rcases hq with rfl | rfl
      · rfl
      · exact absurd hpq hdiffer
      · exact absurd hpq.symm hdiffer
      · rfl
    · intro p _ q hq heq
      have hhash := isTwoFactorHashKey_sha256Hex p
      rcases hq with rfl | rfl
      · exact Bool.false_ne_true (haPlain.symm.trans (heq ▸ hhash))
      · exact Bool.false_ne_true (hbPlain.symm.trans (heq ▸ hhash))
  have hroom : RoomFor asciiCalls {"a@x", "b@x"}
      ((Operation.forget "A@X").expected asciiCalls (some bothKeys)) :=
    ⟨["a@x", "b@x"], by decide, fun email hemail _ => by simpa using hemail⟩
  have hafter := (two_factor_survives asciiCalls (some bothKeys) (.forget "A@X")).2
    {"a@x", "b@x"} haccounts (fun fields hfields => by cases hfields; exact bothKeys_wellKeyed)
    (fun email hemail => by cases hemail; rw [hA]; exact .inl rfl) hroom
  refine ⟨hbefore, ?_, ?_⟩
  · rw [hafter "a@x" (ha.symm ▸ .inl rfl), hforgotten]
  · rw [hafter "b@x" (hb.symm ▸ .inr rfl), hkept]

end QsBitwarden.Panel.TwoFactor
