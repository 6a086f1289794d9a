import QsBitwarden.Lib.Json
import QsBitwarden.Lib.Table
import QsBitwarden.Lib.Words
import QsBitwarden.Vault.Output

/-!
# Vault — what the helper holds (`vault/src/store.rs`)

The session key, named secrets, and every item in full. The panel gets each item with its secrets
removed and asks for them one at a time.

* **`Store`** — the held values. `generation` counts `forget`s.
* **`stripItem`** — an item as the panel may see it.
* **`stripVault`** — a vault read: its items are held, and the rest is handed on.

Wiping memory is not modelled: nothing reads a wiped value.
-/

namespace QsBitwarden.Vault

open Json

/-- The library functions the helper calls: `serde_json` both ways, and `str::to_lowercase`. -/
structure Libs where
  parse : String → Option Value
  render : Value → Option String
  lowercase : String → String

/-! ## Paths into an item -/

def get (item : Fields) : List String → Option Value
  | [] => none
  | [last] => item.lookup last
  | key :: rest =>
    match item.lookup key with
    | some (.object next) => get next rest
    | _ => none

def text (item : Fields) (path : List String) : String := ((get item path).bind Value.asStr).getD ""

def present (item : Fields) (path : List String) : Bool :=
  match get item path with
  | some (.string s) => s ≠ ""
  | some .null | none => false
  | some (.array items) => !items.isEmpty
  | some _ => true

/-- Nothing is removed where a parent is no object. -/
def remove (item : Fields) : List String → Fields
  | [] => item
  | [last] => item.remove last
  | key :: rest =>
    item.modify key fun
      | .object next => .object (remove next rest)
      | other => other

/-! ## Stripping an item -/

def secretPaths : List (List String) :=
  [["login", "password"], ["login", "totp"], ["login", "fido2Credentials"], ["passwordHistory"],
    ["notes"], ["card", "code"], ["identity", "ssn"], ["identity", "passportNumber"],
    ["identity", "licenseNumber"]]

/-- Which secrets there were, for the panel's flags. -/
def heldFlags (item : Fields) : Fields :=
  [("password", ["login", "password"]), ("totp", ["login", "totp"]), ("notes", ["notes"]),
    ("cardCode", ["card", "code"]), ("ssn", ["identity", "ssn"]),
    ("passportNumber", ["identity", "passportNumber"]),
    ("licenseNumber", ["identity", "licenseNumber"])].foldl
    (fun held flag => held.insert flag.1 (.bool (present item flag.2))) []

def lastFour (number : String) : String := String.ofList (number.toList.reverse.take 4).reverse

def stripDigits : Value → Value
  | .string number => .string (lastFour number)
  | other => other

/-- A card number keeps only its last four. -/
def stripNumber (item : Fields) : Fields :=
  item.modify "card" fun
    | .object card => .object (Fields.modify "number" stripDigits card)
    | other => other

/-- Hidden custom fields lose their value. -/
def stripCustom (field : Value) : Value :=
  if (field.get "type").bind Value.asU64 = some 1 then
    match field with
    | .object map => .object (Fields.remove "value" map)
    | other => other
  else field

def stripCustoms (item : Fields) : Fields :=
  item.modify "fields" fun
    | .array fields => .array (fields.map stripCustom)
    | other => other

def stripItem (item : Fields) : Fields :=
  let held := heldFlags item
  let item := secretPaths.foldl remove item
  (stripCustoms (stripNumber item)).insert "qsbwHeld" (.object held)

/-! ## The store -/

structure Held where
  id : String
  /-- The item exactly as `bw` returned it. -/
  full : String
  haystack : String
  cardDigits : String
  deriving DecidableEq

structure Store where
  session : Option String
  secrets : Table String String
  items : List Held
  index : Table String Nat
  generation : Nat

/-- What a search compares. The notes of an item that asks for the master password are not. -/
def haystack (libs : Libs) (item : Fields) : String :=
  let name := ["title", "firstName", "middleName", "lastName"].map
    (fun key => trim (text item ["identity", key]).toList) |>.filter (· ≠ [])
  let uris := match get item ["login", "uris"] with
    | some (.array uris) => uris.filterMap fun entry => (entry.get "uri").bind Value.asStr
    | _ => []
  let parts := [
    text item ["name"], text item ["login", "username"],
    if (item.lookup "reprompt").bind Value.asU64 = some 1 then "" else text item ["notes"],
    text item ["publicKey"], text item ["fingerprint"], text item ["card", "brand"],
    text item ["card", "cardholderName"], text item ["identity", "email"],
    text item ["identity", "username"], text item ["identity", "company"],
    String.ofList (List.intercalate [' '] name)] ++ uris
  libs.lowercase ("\x00".intercalate parts)

/-- The record `hold` makes of an item, if the item has an id. -/
def heldOf (libs : Libs) (item : Fields) : Option Held := do
  let id ← (item.lookup "id").bind Value.asStr
  let full ← libs.render (.object item)
  let digits := (text item ["card", "number"]).toList.filter Char.isDigit
  return ⟨id, full, haystack libs item, String.ofList digits⟩

namespace Store

def new : Store := ⟨none, ∅, [], ∅, 0⟩

variable (store : Store)

def setSession (key : String) : Store := { store with session := some key }

def setSecret (name value : String) : Store :=
  { store with secrets := store.secrets.insert name value }

def forgetSecret (name : String) : Store := { store with secrets := store.secrets.erase name }

/-- Drops everything but the secrets named in `keep`: a lock, a logout or an account switch. -/
def forget (keep : List String) : Store where
  generation := (store.generation + 1) % 2 ^ 64
  session := none
  secrets := store.secrets.retain fun name => keep.contains name
  items := []
  index := ∅

/-- Drops one item; those behind it move up. -/
def forgetItem (id : String) : Store :=
  match store.index.lookup id with
  | none => store
  | some at' =>
    let items := store.items.eraseIdx at'
    { store with
      items
      index := (items.zipIdx.drop at').foldl (fun index entry => index.insert entry.1.id entry.2)
        (store.index.erase id) }

/-- Copies the session key into a secret, if there is one. -/
def holdSession (name : String) : Store :=
  match store.session with
  | none => store
  | some key => store.setSecret name key

/-- An item under a known id takes the old one's place. -/
def hold (libs : Libs) (store : Store) (item : Fields) : Store :=
  match heldOf libs item with
  | none => store
  | some held =>
    match store.index.lookup held.id with
    | some at' => { store with items := store.items.set at' held }
    | none =>
      { store with
        items := store.items ++ [held]
        index := store.index.insert held.id store.items.length }

/-- Holds the objects of an array; anything else in it is passed over. -/
def holdAll (libs : Libs) (store : Store) (items : List Value) : Store :=
  items.foldl (fun store item => match item with
    | .object item => store.hold libs item
    | _ => store) store

def clearItems (replace : Bool) : Store :=
  if replace then { store with items := [], index := ∅ } else store

/-- The item in full. A position outside the list would be a panic. -/
def item (id : String) : Option String := do
  let at' ← store.index.lookup id
  let held ← store.items[at']?
  return held.full

/-- Digits match the last four of a card number. -/
def matchesCard (held : Held) (digits : List Char) : Bool :=
  let card := held.cardDigits.toList
  !digits.isEmpty && 4 ≤ card.length && contains (card.drop (card.length - 4)) digits

/-- Ids whose search text contains the query, in load order. -/
def search (libs : Libs) (store : Store) (query : String) : List String :=
  let needle := (libs.lowercase (String.ofList (trim query.toList))).toList
  let digits := needle.filter Char.isDigit
  if needle.isEmpty then store.items.map (·.id)
  else
    (store.items.filter fun held =>
      contains held.haystack.toList needle || matchesCard held digits).map (·.id)

end Store

def stripValue : Value → Value
  | .object item => .object (stripItem item)
  | other => other

def stripItems : Value → Value
  | .array items => .array (items.map stripValue)
  | other => other

/-- The array under a key, if it is one. -/
def arrayAt (object : Fields) (key : String) : List Value :=
  match object.lookup key with
  | some (.array items) => items
  | _ => []

/-- Takes a vault read and returns it with every secret removed. `replace` swaps the whole store;
otherwise the items are added or updated. `none`: not a vault read. -/
def Store.stripVault (libs : Libs) (store : Store) (raw : String) (replace : Bool) :
    Option String × Store :=
  match libs.parse raw with
  | some (.object object) =>
    let store := store.clearItems replace
    let store := store.holdAll libs (arrayAt object "items")
    let object := Fields.modify "items" stripItems object
    -- Public records only: held for search, nothing to strip.
    let store := store.holdAll libs (arrayAt object "sshKeys")
    (libs.render (.object object), store)
  | _ => (none, store)

/-! ## What holding items does to the store -/

namespace Store

variable {libs : Libs} {store : Store} {held : Held}

/-- Everything but the items. -/
def outside (store : Store) : Option String × Table String String × Nat :=
  (store.session, store.secrets, store.generation)

theorem hold_outside (item : Fields) : (store.hold libs item).outside = store.outside := by
  unfold hold
  split
  · rfl
  · split <;> rfl

theorem mem_hold {item : Fields} (h : held ∈ (store.hold libs item).items) :
    held ∈ store.items ∨ heldOf libs item = some held := by
  unfold hold at h
  split at h
  · exact .inl h
  · next new hnew =>
    split at h
    · rcases List.mem_or_eq_of_mem_set h with hold | rfl
      · exact .inl hold
      · exact .inr hnew
    · rcases List.mem_append.mp h with hold | hlast
      · exact .inl hold
      · rw [List.mem_singleton.mp hlast]
        exact .inr hnew

theorem holdAll_cons (value : Value) (items : List Value) :
    store.holdAll libs (value :: items) =
      Store.holdAll libs (match value with
        | .object item => store.hold libs item
        | _ => store) items := rfl

theorem holdAll_outside (items : List Value) :
    (store.holdAll libs items).outside = store.outside := by
  induction items generalizing store with
  | nil => rfl
  | cons value items ih =>
    rw [holdAll_cons, ih]
    cases value with
    | object item => exact hold_outside item
    | _ => rfl

theorem mem_holdAll {items : List Value} (h : held ∈ (store.holdAll libs items).items) :
    held ∈ store.items ∨ ∃ item, .object item ∈ items ∧ heldOf libs item = some held := by
  induction items generalizing store with
  | nil => exact .inl h
  | cons value items ih =>
    rw [holdAll_cons] at h
    rcases ih h with hold | ⟨item, hmem, hheld⟩
    · cases value with
      | object item =>
        rcases mem_hold hold with hold | hheld
        · exact .inl hold
        · exact .inr ⟨item, List.mem_cons_self, hheld⟩
      | _ => exact .inl hold
    · exact .inr ⟨item, List.mem_cons_of_mem _ hmem, hheld⟩

theorem clearItems_outside (replace : Bool) : (store.clearItems replace).outside = store.outside := by
  unfold clearItems
  split <;> rfl

theorem mem_clearItems {replace : Bool} (h : held ∈ (store.clearItems replace).items) :
    held ∈ store.items := by
  unfold clearItems at h
  split at h
  · exact absurd h List.not_mem_nil
  · exact h

theorem stripVault_outside (raw : String) (replace : Bool) :
    (store.stripVault libs raw replace).2.outside = store.outside := by
  unfold stripVault
  split
  · show (holdAll libs (holdAll libs _ _) _).outside = _
    rw [holdAll_outside, holdAll_outside, clearItems_outside]
  · rfl

end Store

/-- Stripping the items does not touch the keys. -/
theorem arrayAt_stripItems (object : Fields) :
    arrayAt (Fields.modify "items" stripItems object) "sshKeys" = arrayAt object "sshKeys" := by
  unfold arrayAt
  rw [Fields.lookup_modify_ne (by decide)]

namespace Store

variable {libs : Libs} {store : Store} {held : Held}

theorem mem_stripVault {raw : String} {replace : Bool}
    (h : held ∈ (store.stripVault libs raw replace).2.items) :
    held ∈ store.items ∨ ∃ object item, libs.parse raw = some (.object object) ∧
      .object item ∈ arrayAt object "items" ++ arrayAt object "sshKeys" ∧
      heldOf libs item = some held := by
  unfold stripVault at h
  split at h
  · next object hparse =>
    rcases mem_holdAll h with h | ⟨item, hmem, hheld⟩
    · rcases mem_holdAll h with h | ⟨item, hmem, hheld⟩
      · exact .inl (mem_clearItems h)
      · exact .inr ⟨object, item, hparse, List.mem_append_left _ hmem, hheld⟩
    · rw [arrayAt_stripItems] at hmem
      exact .inr ⟨object, item, hparse, List.mem_append_right _ hmem, hheld⟩
  · exact .inl h

theorem mem_forgetItem {id : String} (h : held ∈ (store.forgetItem id).items) :
    held ∈ store.items := by
  unfold forgetItem at h
  split at h
  · exact h
  · exact List.mem_of_mem_eraseIdx h

theorem forgetItem_outside (id : String) : (store.forgetItem id).outside = store.outside := by
  unfold forgetItem
  split <;> rfl

end Store

end QsBitwarden.Vault
