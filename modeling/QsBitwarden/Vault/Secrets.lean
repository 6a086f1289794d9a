import QsBitwarden.Vault.Store

/-!
# Vault — one secret at a time (`vault/src/store.rs`)

A secret of a held item is asked for by name: a field of the item's own, or the custom field at a
position.

* **`SecretField`**, **`SecretField.parse`** — the names the helper knows.
* **`secretIn`** — the value a name has in an item; **`Store.itemSecret`** reads it off the text of
  the held item.
* **`itemSecret_held`** — for a held item that is all there is to it.
-/

namespace QsBitwarden.Vault

open Json

inductive SecretField where
  | password
  | notes
  | cardNumber
  | cardCode
  | ssn
  | passportNumber
  | licenseNumber
  /-- The custom field at this position in the item's `fields`. -/
  | custom (index : Nat)
  deriving DecidableEq, Repr

namespace SecretField

def customName : String := "customField:"

/-- Plain digits without a leading zero, so that a field has one name. -/
def parseIndex (index : List Char) : Option Nat :=
  if index.isEmpty || 4 < index.length || !index.all Char.isDigit
      || (1 < index.length && index.head? == some '0') then none
  else some (Nat.ofDigitChars 10 index 0)

def parse (name : String) : Option SecretField :=
  match name with
  | "password" => some .password
  | "notes" => some .notes
  | "cardNumber" => some .cardNumber
  | "cardCode" => some .cardCode
  | "ssn" => some .ssn
  | "passportNumber" => some .passportNumber
  | "licenseNumber" => some .licenseNumber
  | other =>
    if customName.toList.isPrefixOf other.toList then
      (parseIndex (other.toList.drop customName.length)).map .custom
    else none

def path : SecretField → Option (List String)
  | .password => some ["login", "password"]
  | .notes => some ["notes"]
  | .cardNumber => some ["card", "number"]
  | .cardCode => some ["card", "code"]
  | .ssn => some ["identity", "ssn"]
  | .passportNumber => some ["identity", "passportNumber"]
  | .licenseNumber => some ["identity", "licenseNumber"]
  | .custom _ => none

end SecretField

/-- The fields of an item that a linked custom field may show as a secret. -/
def linkedSecretPath : Nat → Option (List String)
  | 101 => some ["login", "password"]
  | 303 => some ["card", "code"]
  | 305 => some ["card", "number"]
  | 412 => some ["identity", "ssn"]
  | 414 => some ["identity", "passportNumber"]
  | 415 => some ["identity", "licenseNumber"]
  | _ => none

def getValue (value : Value) : List String → Option Value
  | [] => some value
  | key :: rest => (value.get key).bind fun next => getValue next rest

/-- The text of the custom field at a position, if it is hidden or links to a secret. -/
def customSecret (item : Value) (index : Nat) : Option String := do
  let fields ← item.get "fields"
  let custom ← match fields with
    | .array fields => fields[index]?
    | _ => none
  let type ← (custom.get "type").bind Value.asU64
  match type with
  | 1 => (custom.get "value").bind Value.asStr
  | 3 => do
    let linkedId ← (custom.get "linkedId").bind Value.asU64
    let path ← linkedSecretPath linkedId
    (getValue item path).bind Value.asStr
  | _ => none

def secretIn (item : Value) (field : SecretField) : Option String :=
  match field, field.path with
  | _, some path => (getValue item path).bind Value.asStr
  | .custom index, none => customSecret item index
  | _, none => none

namespace Store

/-- The value a field of a held item has. -/
def itemSecret (libs : Libs) (store : Store) (id : String) (field : SecretField) :
    Option String := do
  let full ← store.item id
  let item ← libs.parse full
  secretIn item field

/-- `item` is what the store holds under `id`. -/
def Holds (libs : Libs) (store : Store) (id : String) (item : Fields) : Prop :=
  ∃ full, store.item id = some full ∧ libs.parse full = some (.object item)

theorem itemSecret_held {libs : Libs} {store : Store} {id : String} {item : Fields}
    (h : Holds libs store id item) (field : SecretField) :
    store.itemSecret libs id field = secretIn (.object item) field := by
  obtain ⟨full, hfull, hparse⟩ := h
  rw [itemSecret, hfull]
  show ((libs.parse full).bind fun item => secretIn item field) = _
  rw [hparse]
  rfl

end Store

end QsBitwarden.Vault
