import QsBitwarden.Lib.Js
import QsBitwarden.Panel.SessionKeys

/-!
# Panel — items as rows and as details (`BitwardenModel.js`)

A vault item is read in three ways: as a row of the list, as the detail of one item, and as the
public detail that is left of either once its secrets are taken out.

* **`Shell`** — the coercions of the language, and the one text derived from a size.
* **`loginUris`**, **`cardDetail`**, **`identityDetail`**, **`itemCustomFields`** — the parts of an
  item.
* **`Detail`** — a row, a detail or a public detail; what one of them lacks is false or empty.
* **`itemRow`**, **`sshKeyRow`** — the rows of `parseItems` and `parseSshKeys`.
* **`itemDetailFromObject`**, **`publicItemDetail`**, **`detailSecretValue`** — the detail, what is
  public of it, and one secret of it.
* **`matchesQuery`** — the search of the list.

A row's subtitle is not modelled: neither search nor detail reads it.
-/

namespace QsBitwarden.Panel.Items

open Json Js

structure Shell extends Coercions where
  formatAttachmentSize : Option Value → String

def plainShell : Shell := { plain with formatAttachmentSize := fun _ => "" }

variable (js : Shell)

/-! ## Lists -/

def maxListEntries : Nat := 4096

/-- Objects with a `length` are lists too, as QML hands arrays back that way. -/
def toList : Option Value → List (Option Value)
  | some (.array items) => (items.take maxListEntries).map some
  | some (.object fields) =>
    match fields.lookup "length" with
    | some (.number n) =>
      match js.number (.number n) with
      | .int (.ofNat n) => (List.range (min n maxListEntries)).map fun i => fields.lookup (toString i)
      | _ => []
    | _ => []
  | _ => []

structure Attachment where
  id : String
  fileName : String
  size : String
  sizeName : String

/-- `text || other`. -/
def orElse (text other : String) : String := if text = "" then other else text

def parseAttachments (raw : Option Value) : List Attachment :=
  (toList js raw).filterMap fun entry =>
    let a := props entry
    if truthy (a.lookup "id") then
      some {
        id := js.stringOf (a.lookup "id")
        fileName := orElse (js.text (a.lookup "fileName")) "attachment"
        size := js.text (a.lookup "size")
        sizeName := orElse (js.text (a.lookup "sizeName"))
          (js.formatAttachmentSize (a.lookup "size")) }
    else none

/-! ## Parts of an item -/

def loginUris (login : Fields) : List String :=
  (toList js (login.lookup "uris")).filterMap fun entry =>
    let uri := (props entry).lookup "uri"
    if truthy uri then some (js.stringOf uri) else none

def cardKeys : List String := ["cardholderName", "brand", "number", "expMonth", "expYear", "code"]

def identityKeys : List String :=
  ["title", "firstName", "middleName", "lastName", "username", "company", "email", "phone", "ssn",
    "passportNumber", "licenseNumber", "address1", "address2", "address3", "city", "state",
    "postalCode", "country"]

/-- The texts of an object under `keys`, if there is something. -/
def textsOf (keys : List String) (value : Option Value) : Option Texts :=
  if truthy value then some (Texts.of keys fun key => js.text ((props value).lookup key)) else none

def cardDetail (card : Option Value) : Option Texts := textsOf js cardKeys card

def identityDetail (identity : Option Value) : Option Texts := textsOf js identityKeys identity

/-- The trimmed parts that are not empty. -/
def nonEmptyParts (parts : List String) : List (List Char) :=
  (parts.map fun part => SessionKeys.jsTrim part.toList).filter (· ≠ [])

def nameKeys : List String := ["title", "firstName", "middleName", "lastName"]

def joinName (part : String → String) : String :=
  String.ofList (List.intercalate [' '] (nonEmptyParts (nameKeys.map part)))

def identityFullName (identity : Fields) : String :=
  joinName fun key => js.text (identity.lookup key)

/-- The fields of an item's parts that a linked custom field can show. -/
def linkedPath : Int → Option (String × String)
  | 100 => some ("login", "username")
  | 101 => some ("login", "password")
  | 300 => some ("card", "cardholderName")
  | 301 => some ("card", "expMonth")
  | 302 => some ("card", "expYear")
  | 303 => some ("card", "code")
  | 304 => some ("card", "brand")
  | 305 => some ("card", "number")
  | 400 => some ("identity", "title")
  | 401 => some ("identity", "middleName")
  | 402 => some ("identity", "address1")
  | 403 => some ("identity", "address2")
  | 404 => some ("identity", "address3")
  | 405 => some ("identity", "city")
  | 406 => some ("identity", "state")
  | 407 => some ("identity", "postalCode")
  | 408 => some ("identity", "country")
  | 409 => some ("identity", "company")
  | 410 => some ("identity", "email")
  | 411 => some ("identity", "phone")
  | 412 => some ("identity", "ssn")
  | 413 => some ("identity", "username")
  | 414 => some ("identity", "passportNumber")
  | 415 => some ("identity", "licenseNumber")
  | 416 => some ("identity", "firstName")
  | 417 => some ("identity", "lastName")
  | _ => none

def part (item : Fields) (key : String) : Fields := props (item.lookup key)

/-- `Number(null)` is zero, and links to nothing. -/
def linkNumber (linkedId : Option Js.Num) : Js.Num := linkedId.getD (.int 0)

def linkedCustomFieldValue (item : Fields) (linkedId : Option Js.Num) : String :=
  match linkNumber linkedId with
  | .int 418 => identityFullName js (part item "identity")
  | .int id =>
    match linkedPath id with
    | some (owner, key) => js.shown ((part item owner).lookup key)
    | none => ""
  | .other _ => ""

def linkedCustomFieldIsSensitive (linkedId : Option Js.Num) : Bool :=
  [.int 101, .int 303, .int 305, .int 412, .int 414, .int 415].contains (linkNumber linkedId)

structure CustomField where
  name : String
  /-- The position among the item's own fields, nameless ones counted. -/
  index : Nat
  value : String
  type : Js.Num
  linkedId : Option Js.Num
  sensitive : Bool
  deriving DecidableEq

/-- `Number(v || other)`. -/
def numberOr (v : Option Value) (other : Int) : Js.Num := if truthy v then js.numberOf v else .int other

def fieldLink (field : Fields) : Option Js.Num :=
  if nullish (field.lookup "linkedId") then none else some (js.numberOf (field.lookup "linkedId"))

/-- The row of a custom field, which is at `index`. -/
def fieldRow (item field : Fields) (index : Nat) : CustomField :=
  let type := numberOr js (field.lookup "type") 0
  let linkedId := fieldLink js field
  { name := js.text (field.lookup "name")
    index
    value := if type = .int 3 then linkedCustomFieldValue js item linkedId
      else js.shown (field.lookup "value")
    type
    linkedId
    sensitive := type = .int 1 || (type = .int 3 && linkedCustomFieldIsSensitive linkedId) }

/-- A field without a name has no row. -/
def customField (item : Fields) (entry : Option Value) (index : Nat) : Option CustomField :=
  if truthy ((props entry).lookup "name") then some (fieldRow js item (props entry) index) else none

def itemCustomFields (fields : Option Value) (item : Fields) : List CustomField :=
  (toList js fields).zipIdx.filterMap fun entry => customField js item entry.1 entry.2

/-- Only 1 asks for the master password. -/
def repromptValue (value : Option Value) : Nat := if js.numberOf value = .int 1 then 1 else 0

inductive ItemType where
  | login
  | secureNote
  | card
  | identity
  | sshKey
  deriving DecidableEq, Repr

def itemTypeName (type : Option Value) : ItemType :=
  match js.stringOf type with
  | "2" => .secureNote
  | "3" => .card
  | "4" => .identity
  | "5" => .sshKey
  | _ => .login

/-! ## Rows and details -/

structure Detail where
  id : String
  organizationId : Option String
  folderId : Option String
  name : String
  type : ItemType
  typeCode : Js.Num
  favorite : Bool
  notes : String := ""
  username : String := ""
  password : String := ""
  hasPassword : Bool := false
  hasNotes : Bool := false
  hasTotp : Bool := false
  totpKey : String := ""
  uris : List String := []
  reprompt : Nat
  attachments : List Attachment := []
  hasAttachments : Bool := false
  card : Option Texts := none
  identity : Option Texts := none
  fields : List CustomField := []
  publicKey : String := ""
  fingerprint : String := ""
  /-- The item itself; a row the helper stripped has none. -/
  rawObject : Option Fields := none
  /-- Which secrets the helper holds of a row. -/
  heldFlags : Option Fields := none
  secretsHeld : Bool := false
  secretsWithheld : Bool := false

def untitled : String := "Untitled"

/-- The helper's record of what it took out of an item. -/
def heldRecord (it : Fields) : Option Fields :=
  match it.lookup "qsbwHeld" with
  | some (.object held) => some held
  | some (.array _) => some []
  | _ => none

/-- What row and detail of an ordinary item have in common. The detail is this; a row says less
about what the helper holds. -/
def ordinaryDetail (it : Fields) : Detail :=
  let login := part it "login"
  let attachments := parseAttachments js (it.lookup "attachments")
  { id := js.text (it.lookup "id")
    organizationId := js.textOrNull (it.lookup "organizationId")
    folderId := js.textOrNull (it.lookup "folderId")
    name := js.textOr (it.lookup "name") untitled
    type := itemTypeName js (it.lookup "type")
    typeCode := numberOr js (it.lookup "type") 1
    favorite := truthy (it.lookup "favorite")
    notes := js.text (it.lookup "notes")
    username := js.text (login.lookup "username")
    password := js.text (login.lookup "password")
    hasPassword := truthy (login.lookup "password")
    hasNotes := truthy (it.lookup "notes")
    hasTotp := truthy (login.lookup "totp")
    totpKey := js.text (login.lookup "totp")
    uris := loginUris js login
    reprompt := repromptValue js (it.lookup "reprompt")
    attachments
    hasAttachments := !attachments.isEmpty
    card := cardDetail js (it.lookup "card")
    identity := identityDetail js (it.lookup "identity")
    fields := itemCustomFields js (it.lookup "fields") it
    rawObject := some it }

/-- One row of `parseItems`. -/
def itemRow (it : Fields) : Detail :=
  let held := heldRecord it
  let holds := fun flag => held.any fun held => truthy (held.lookup flag)
  let detail := ordinaryDetail js it
  { detail with
    hasPassword := detail.hasPassword || holds "password"
    hasTotp := detail.hasTotp || holds "totp"
    hasNotes := detail.hasNotes || holds "notes"
    fields := if held.isSome then detail.fields else []
    heldFlags := held
    rawObject := if held.isSome then none else detail.rawObject
    secretsHeld := held.isSome }

/-- `parseItems` of a list already parsed. The order is the panel's, favourites and names first. -/
def parseItems (before : Detail → Detail → Bool) (items : List Value) : List Detail :=
  (items.filterMap fun
    | .object it => some (itemRow js it)
    -- An array is an object with none of the names.
    | .array _ => some (itemRow js [])
    | _ => none).mergeSort before

def sshPublicKey (it : Fields) : String :=
  js.firstText [(part it "sshKey").lookup "publicKey", it.lookup "publicKey"]

def sshFingerprint (it : Fields) : String :=
  js.firstText [(part it "sshKey").lookup "fingerprint", (part it "sshKey").lookup "keyFingerprint",
    it.lookup "fingerprint", it.lookup "keyFingerprint"]

/-- What an SSH record shows, without its own object. -/
def sshDetail (it : Fields) : Detail where
  id := js.text (it.lookup "id")
  organizationId := js.textOrNull (it.lookup "organizationId")
  folderId := js.textOrNull (it.lookup "folderId")
  name := js.textOr (it.lookup "name") untitled
  type := .sshKey
  typeCode := .int 5
  favorite := truthy (it.lookup "favorite")
  reprompt := repromptValue js (it.lookup "reprompt")
  publicKey := sshPublicKey js it
  fingerprint := sshFingerprint js it

/-- One row of `parseSshKeys`, which passes over records without an id. -/
def sshKeyRow (it : Fields) : Option Detail :=
  if truthy (it.lookup "id") then some (sshDetail js it) else none

def itemDetailFromObject (it : Fields) : Detail :=
  if js.numberOf (it.lookup "type") = .int 5 then { sshDetail js it with rawObject := some it }
  else ordinaryDetail js it

/-! ## What is public of a detail -/

/-- Stands for a secret that is there. -/
def withheld : String := "•"

/-- Whether there is a secret: what the helper reported, else whether the value is empty. A row
whose helper did not report one is drawn with it. -/
def Detail.has (src : Detail) (flag value : String) : Bool :=
  match (src.heldFlags.getD []).lookup flag with
  | some held => truthy (some held)
  | none => src.secretsHeld || value ≠ ""

def mark (there : Bool) : String := if there then withheld else ""

def publicCard (src : Detail) (card : Texts) : Texts :=
  let card := Texts.of cardKeys card.get
  let card := if card.get "number" ≠ "" then card.set "number" withheld else card
  card.set "code" (mark (src.has "cardCode" (card.get "code")))

def identityNumbers : List String := ["ssn", "passportNumber", "licenseNumber"]

def publicIdentity (src : Detail) (identity : Texts) : Texts :=
  identityNumbers.foldl
    (fun identity key => identity.set key (mark (src.has key (identity.get key))))
    (Texts.of identityKeys identity.get)

def publicField (f : CustomField) : CustomField :=
  { f with value := if f.sensitive then withheld else f.value }

/-- `Number(code || 1)`, for a number. -/
def codeOr (code : Js.Num) : Js.Num := if code = .int 0 ∨ code = .nan then .int 1 else code

def publicItemDetail (src : Detail) : Detail where
  id := src.id
  organizationId := src.organizationId.filter (· ≠ "")
  folderId := src.folderId.filter (· ≠ "")
  name := orElse src.name untitled
  type := src.type
  typeCode := codeOr src.typeCode
  favorite := src.favorite
  username := src.username
  hasPassword := src.hasPassword
  hasNotes := src.hasNotes || src.notes ≠ ""
  hasTotp := src.hasTotp
  uris := src.uris.take maxListEntries
  reprompt := if src.reprompt = 1 then 1 else 0
  attachments := src.attachments.take maxListEntries
  hasAttachments := !(src.attachments.take maxListEntries).isEmpty
  card := src.card.map (publicCard src)
  identity := src.identity.map (publicIdentity src)
  fields := (src.fields.take maxListEntries).map publicField
  secretsWithheld := true

/-! ## One secret of a detail -/

def customFieldKey : String := "customField:"

/-- The value that a key names; `none` if there is none. -/
def detailSecretValue (detail : Detail) (key : String) : Option String :=
  let card := detail.card.getD []
  let identity := detail.identity.getD []
  let value := match key with
    | "password" => some detail.password
    | "notes" => some detail.notes
    | "cardNumber" => card.lookup "number"
    | "cardCode" => card.lookup "code"
    | "ssn" => identity.lookup "ssn"
    | "passportNumber" => identity.lookup "passportNumber"
    | "licenseNumber" => identity.lookup "licenseNumber"
    | _ => none
  if customFieldKey.toList.isPrefixOf key.toList then
    let index := js.number (.string (String.ofList (key.toList.drop customFieldKey.length)))
    -- The last field at that position; positions are distinct.
    (detail.fields.take maxListEntries).foldl
      (fun value f => if .int f.index = index then some f.value else value) value
  else value

/-! ## Search -/

def digitsOf (text : List Char) : List Char := text.filter Char.isDigit

/-- The last four digits of a card number contain the digits of the query, if it has any. -/
def cardMatches (number query : List Char) : Bool :=
  let digits := digitsOf number
  4 ≤ digits.length && Vault.contains (digits.drop (digits.length - 4)) (digitsOf query)
    && digitsOf query ≠ []

/-- `lower` is `toLowerCase`. -/
def matchesQuery (lower : String → String) (item : Detail) (query : String) : Bool :=
  let q := SessionKeys.jsTrim (lower query).toList
  let has := fun value => Vault.contains (lower value).toList q
  if query = "" || q.isEmpty then true
  else
    has item.name || has item.username || (item.reprompt ≠ 1 && has item.notes)
      || has item.publicKey || has item.fingerprint
      || item.card.any (fun card => has (card.get "brand") || has (card.get "cardholderName")
          || cardMatches (card.get "number").toList q)
      || item.identity.any (fun identity => has (joinName identity.get)
          || has (identity.get "email") || has (identity.get "username")
          || has (identity.get "company"))
      || (item.uris.take maxListEntries).any has

end QsBitwarden.Panel.Items
