import QsBitwarden.Panel.Items

/-!
# Panel — the item form (`Service.qml`, `BitwardenModel.js`)

An item is edited in a form: its detail is loaded into the form's fields, these are edited, and
saving writes the form over a copy of the stored item.

* **`Form`**, **`FormField`** — the form and one of its custom fields.
* **`startEditItemNow`** — loads a detail.
* **`FieldEdit`** — what can be done to the custom fields while editing; the other fields of a form
  are set freely.
* **`validateItemForm`** — why a form cannot be saved.
* **`buildEditPayload`** — what a save writes. A value the form did not change is written back as it
  is stored (`formValue`).

Whether a field is revealed and what has been typed for a new one is not part of the form here.
-/

namespace QsBitwarden.Panel.ItemForm

open Json Js Items

variable (js : Shell)

/-! ## Custom fields -/

inductive FieldValue where
  | text (s : String)
  | flag (b : Bool)
  deriving DecidableEq, Repr

structure FormField where
  name : String
  value : FieldValue
  type : Js.Num
  /-- A number, as a value. -/
  linkedId : Option Value

def trimmed (text : String) : String := String.ofList (SessionKeys.jsTrim text.toList)

/-- The text is `true` in any case. No character but the letters themselves lowercases to one of
them. -/
def isTrueText (text : String) : Bool := text.toList.map Char.toLower = "true".toList

def customFieldBooleanValue (value : Option Value) : Bool :=
  value.any (fun
    | .bool b => b
    | _ => false) || isTrueText (js.stringOf value)

def numValue : Js.Num → Value
  | .int (.ofNat n) => .number (.posInt n)
  | .int (.negSucc n) => .number (.negInt n)
  | .other bits => .number (.float bits)

/-- `Number(v)` as a value. A number is itself. -/
def numberValue : Value → Value
  | .number n => .number n
  | other => numValue (js.number other)

/-- A stored custom field in the form. -/
def fieldForForm (field : Fields) : FormField where
  name := js.text (field.lookup "name")
  value := if js.numberOf (field.lookup "type") = .int 2
    then .flag (customFieldBooleanValue js (field.lookup "value"))
    else .text (js.shown (field.lookup "value"))
  type := numberOr js (field.lookup "type") 0
  linkedId := if nullish (field.lookup "linkedId") then none
    else (field.lookup "linkedId").map (numberValue js)

/-- A row of a detail in the form. -/
def rowForForm (row : CustomField) : FormField where
  name := row.name
  value := if row.type = .int 2 then .flag (isTrueText row.value) else .text row.value
  type := if row.type = .nan then .int 0 else row.type
  linkedId := row.linkedId.map numValue

/-- `copyCustomFieldsForForm` of the stored fields, or of the detail's rows if there are none. -/
def copyCustomFieldsForForm (fields : Option Value) (rows : List CustomField) : List FormField :=
  if truthy fields then
    match fields with
    | some (.array entries) =>
      (entries.filter fun entry => truthy (some entry)).map fun entry =>
        fieldForForm js (props (some entry))
    -- Nothing else has entries.
    | _ => []
  else rows.map rowForForm

/-! ## The form -/

structure Form where
  typeCode : Js.Num
  name : String
  username : String
  password : String
  totp : String
  uri : String
  notes : String
  favorite : Bool
  organizationId : String
  folderId : String
  collectionIds : List Value
  card : Texts
  identity : Texts
  customFields : List FormField

/-- Objects and arrays, which `typeof` calls objects. -/
def isObject : Value → Bool
  | .object _ | .array _ => true
  | _ => false

/-- The websites of a login that are objects. -/
def uriEntries (stored : Option Value) : List Value :=
  (toList js stored).filterMap fun entry => entry.filter isObject

/-- The first website's address as it is stored. -/
def firstUri (stored : Option Value) : Option String :=
  (uriEntries js stored).head?.map fun entry => js.shown ((props (some entry)).lookup "uri")

/-- Loads a detail into the form. `detailPassword` is what the detail screen has revealed. -/
def startEditItemNow (detailPassword : String) (item : Detail) : Form :=
  let raw := item.rawObject.getD []
  let login := part raw "login"
  { typeCode := codeOr item.typeCode
    name := item.name
    username := item.username
    password := orElse detailPassword (js.text (login.lookup "password"))
    totp := orElse item.totpKey (js.text (login.lookup "totp"))
    uri := (firstUri js (login.lookup "uris")).getD (item.uris.head?.getD "")
    notes := item.notes
    favorite := item.favorite
    organizationId := item.organizationId.getD ""
    folderId := item.folderId.getD ""
    collectionIds := match raw.lookup "collectionIds" with
      | some (.array ids) => ids
      | _ => []
    card := Texts.of cardKeys (item.card.getD []).get
    identity := Texts.of identityKeys (item.identity.getD []).get
    customFields := copyCustomFieldsForForm js (raw.lookup "fields") item.fields }

/-- Card or identity fields for the payload; none for logins and notes. -/
def Form.typeFields (form : Form) : Option Texts :=
  if form.typeCode = .int 3 then some form.card
  else if form.typeCode = .int 4 then some form.identity
  else none

/-! ## Editing custom fields -/

/-- The first field that a linked one can show; notes have none. -/
def firstLinkedOption (typeCode : Js.Num) : Option Nat :=
  if typeCode = .int 1 then some 100
  else if typeCode = .int 3 then some 300
  else if typeCode = .int 4 then some 400
  else none

inductive FieldEdit where
  | saveCustomFieldLabel (index : Nat) (draft : String)
  | setFormCustomFieldValue (index : Nat) (value : FieldValue)
  | setFormCustomFieldLinkedId (index : Nat) (linkedId : Value)
  | removeFormCustomField (index : Nat)
  | addFormCustomField (name : String) (type : Js.Num)

/-- A field as it is added. -/
def newField (typeCode : Js.Num) (name : String) (type : Js.Num) : FormField :=
  let type := if type = .int 3 ∧ firstLinkedOption typeCode = none then .int 0 else type
  { name := trimmed name
    value := if type = .int 2 then .flag false else .text ""
    type
    linkedId := if type = .int 3 then
        (firstLinkedOption typeCode).map fun id => .number (.posInt id)
      else none }

/-- An index outside the list changes nothing. -/
def FieldEdit.apply (typeCode : Js.Num) (fields : List FormField) : FieldEdit → List FormField
  | .saveCustomFieldLabel index draft =>
    if trimmed draft = "" then fields
    else fields.modify index fun field => { field with name := trimmed draft }
  | .setFormCustomFieldValue index value => fields.modify index fun field => { field with value }
  | .setFormCustomFieldLinkedId index linkedId =>
    fields.modify index fun field => { field with linkedId := some (numberValue js linkedId) }
  | .removeFormCustomField index => fields.eraseIdx index
  | .addFormCustomField name type =>
    if trimmed name = "" then fields else fields ++ [newField typeCode name type]

/-! ## Checking -/

def needsLabel (fields : List FormField) : Option Nat :=
  (fields.take maxListEntries).findIdx? fun field => trimmed field.name = ""

/-- Empty when the form can be saved, or the reason it cannot. -/
def validateItemForm (form : Form) : String :=
  if trimmed form.name = "" then "Item title is required"
  else if form.organizationId ∉ ["", "personal", "all"] ∧ form.collectionIds = [] then
    "Pick at least one collection for an organization item"
  else
    match needsLabel form.customFields with
    | some index => "Custom field " ++ toString (index + 1) ++ " needs a label"
    | none => ""

/-! ## Writing -/

def selectedOrganizationId (organizationId : String) : Value :=
  if organizationId ∈ ["", "personal", "all"] then .null else .string organizationId

def selectedFolderId (folderId : String) : Value :=
  if folderId ∈ ["", "all", "none"] then .null else .string folderId

/-- A form value written over a stored one; a changed one is cleaned. -/
def formValue (clean : String → Value) (stored : Option Value) (typed : String) : Value :=
  if typed = js.shown stored then stored.getD (.string typed) else clean typed

def trimmedText (value : String) : Value := .string (trimmed value)

def trimmedOrNull (value : String) : Value :=
  if trimmed value = "" then .null else trimmedText value

/-- The password is never trimmed. -/
def updateLoginFields (username password totp : String) (login : Fields) : Fields :=
  let login := login.insert "username" (formValue js trimmedText (login.lookup "username") username)
  let login := login.insert "password" (formValue js .string (login.lookup "password") password)
  login.insert "totp" (formValue js trimmedOrNull (login.lookup "totp") totp)

/-- The own properties of an object or an array. -/
def ownProps : Value → Fields
  | .object fields => fields
  | .array items => items.zipIdx.map fun entry => (toString entry.2, entry.1)
  | _ => []

/-- A website with another address; it keeps its match rule. -/
def replacedUri (first : Value) (text : String) : Value :=
  let fields := ownProps first
  .object ((fields.insert "match" ((fields.lookup "match").getD .null)).insert "uri"
    (trimmedText text))

/-- The websites an edit writes. The form has the first one's address. -/
def editedUris (stored : Option Value) (text : String) : Value :=
  match uriEntries js stored with
  | [] =>
    if trimmed text = "" then stored.getD (.array [])
    else .array [.object [("match", .null), ("uri", trimmedText text)]]
  | first :: rest =>
    if text = js.shown ((props (some first)).lookup "uri") then .array (first :: rest)
    else if trimmed text = "" then .array rest
    else .array (replacedUri first text :: rest)

/-- `updateCardFields` and `updateIdentityFields`, by their keys. -/
def updateFields (keys : List String) (texts : Texts) (object : Fields) : Fields :=
  keys.foldl (fun object key =>
    object.insert key (formValue js trimmedText (object.lookup key) (texts.get key))) object

/-- A type that is none of the four is text. -/
def cleanType : Js.Num → Js.Num
  | .int i => if i < 0 ∨ 3 < i then .int 0 else .int i
  -- The bits of a double above 3, of a negative one and of `NaN` are larger.
  | .other bits => if bits ≤ 0x4008000000000000 then .other bits else .int 0

def FieldValue.shown : FieldValue → String
  | .text s => s
  | .flag true => "true"
  | .flag false => "false"

def FieldValue.isTrue : FieldValue → Bool
  | .text s => isTrueText s
  | .flag b => b

/-- A custom field as it is written. -/
def customFieldPayload (field : FormField) : Fields :=
  let type := cleanType field.type
  let value : Value :=
    if type = .int 3 then .null
    else if type = .int 2 then .string (if field.value.isTrue then "true" else "false")
    else .string field.value.shown
  let clean := [("name", .string field.name), ("type", numValue type), ("value", value)]
  if type = .int 3 then
    match field.linkedId with
    | some linkedId => ("linkedId", numberValue js linkedId) :: clean
    | none => clean
  else clean

def customFieldsPayload (fields : List FormField) : List Value :=
  ((fields.take maxListEntries).filter fun field => trimmed field.name ≠ "").map fun field =>
    .object (customFieldPayload js field)

/-- Whether a value is this number. -/
def isNumber (value : Option Value) (n : Int) : Bool :=
  match value with
  | some (.number m) => js.number (.number m) = .int n
  | _ => false

/-- Writes to an object under a key, which is made if there is none. What is set on anything else is
lost. -/
def updatePart (key : String) (update : Fields → Fields) (payload : Fields) : Fields :=
  match payload.lookup key with
  | some (.object part) => payload.insert key (.object (update part))
  | other => if truthy other then payload else payload.insert key (.object (update []))

/-- Collections belong to an organization. -/
def writeCollections (collectionIds : List Value) (payload : Fields) : Fields :=
  if truthy (payload.lookup "organizationId") then
    let stored := payload.lookup "collectionIds"
    payload.insert "collectionIds"
      (if collectionIds ≠ [] then .array collectionIds
        else if truthy stored then stored.getD .null else .array [])
  else payload.remove "collectionIds"

def writeCommon (form : Form) (payload : Fields) : Fields :=
  let payload := payload.insert "name"
    (formValue js trimmedText (payload.lookup "name") (orElse form.name untitled))
  let payload := payload.insert "notes" (formValue js .string (payload.lookup "notes") form.notes)
  let payload := payload.insert "favorite" (.bool form.favorite)
  let payload := payload.insert "organizationId" (selectedOrganizationId form.organizationId)
  let payload := payload.insert "folderId" (selectedFolderId form.folderId)
  writeCollections form.collectionIds payload

/-- Each type writes only its own fields. -/
def writeType (form : Form) (payload : Fields) : Fields :=
  let type := payload.lookup "type"
  if isNumber js type 1 || !truthy type then
    updatePart "login" (fun login =>
      let login := updateLoginFields js form.username form.password form.totp login
      login.insert "uris" (editedUris js (login.lookup "uris") form.uri)) payload
  else
    match form.typeFields with
    | some texts =>
      if isNumber js type 3 then updatePart "card" (updateFields js cardKeys texts) payload
      else if isNumber js type 4 then
        updatePart "identity" (updateFields js identityKeys texts) payload
      else payload
    | none => payload

/-- SSH keys are read-only. -/
def buildEditPayload (existing : Detail) (form : Form) : Option Fields :=
  let raw := existing.rawObject.getD []
  if existing.typeCode = .int 5 ∨ js.numberOf (raw.lookup "type") = .int 5 then none
  else
    some ((writeType js form (writeCommon js form raw)).insert "fields"
      (.array (customFieldsPayload js form.customFields)))

end QsBitwarden.Panel.ItemForm
