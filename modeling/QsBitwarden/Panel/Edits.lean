import QsBitwarden.Panel.ItemForm
import QsBitwarden.Panel.Search

/-!
# Panel — an edit writes only what was changed

An item is loaded into the form, the form is edited, and the payload of the save is compared with
the stored item.

* **`Same`** — equal values, where a missing one, null and the empty text are the same.
* **`Editable`** — the stored items.
* **`origins`**, **`Traced`** — where the custom fields of an edited form come from.
* **`Kept`** — what a payload keeps. `edit_writes_changes` shows it for every form that can be
  saved; `collections_dropped` has an item whose collections and folder are not kept.
-/

namespace QsBitwarden.Panel.ItemForm

open Json Js Items Vault

variable {js : Shell}

/-! ## Values -/

/-- Null and the empty text say nothing. -/
def blankless : Option Value → Option Value
  | some .null => none
  | some (.string s) => if s = "" then none else some (.string s)
  | v => v

/-- Equal, where a missing value, null and the empty text are the same. -/
def Same (a b : Option Value) : Prop := blankless a = blankless b

theorem Same.refl (a : Option Value) : Same a a := rfl

/-- What the form did not change is written as it is stored. -/
theorem same_formValue {clean : String → Value} {stored : Option Value} {typed : String}
    (h : typed = js.shown stored) : Same (some (formValue js clean stored typed)) stored := by
  unfold formValue
  rw [if_pos h]
  cases stored with
  | none =>
    have hempty : typed = "" := h
    subst hempty
    rfl
  | some v => rfl

theorem text_eq_shown {v : Option Value} (h : SecretText v) : js.text v = js.shown v :=
  (text_eq h).trans (shown_eq h).symm

/-- A text of a part that is written, unless the part is not. -/
theorem same_part (clean : String → Value) {item payload written : Fields}
    {owner key typed : String} {c : Prop} [Decidable c]
    (hpart : part payload owner = if c then written else part item owner)
    (hwritten : written.lookup key
      = some (formValue js clean ((part item owner).lookup key) typed))
    (htyped : typed = js.shown ((part item owner).lookup key)) :
    Same (get payload [owner, key]) (get item [owner, key]) := by
  rw [get_nested, get_nested, hpart]
  split
  · rw [hwritten]
    exact same_formValue htyped
  · exact Same.refl _

/-- A text that is shown is the stored one. -/
theorem same_shown {v : Option Value} (h : SecretText v) :
    Same (some (.string (js.shown v))) v := by
  rw [shown_eq h]
  cases v with
  | none => rfl
  | some value =>
    rcases h value rfl with rfl | ⟨s, rfl⟩
    · rfl
    · rfl

/-! ## Lookups in what is written -/

section

variable {payload : Fields} {form : Form} {key : String}

theorem lookup_updateFields {keys : List String} (hkeys : keys.Nodup) (texts : Texts)
    (object : Fields) (key : String) :
    (updateFields js keys texts object).lookup key
      = if key ∈ keys then
          some (formValue js trimmedText (object.lookup key) (texts.get key))
        else object.lookup key := by
  unfold updateFields
  induction keys generalizing object with
  | nil => rfl
  | cons first keys ih =>
    obtain ⟨hfirst, hkeys⟩ := List.nodup_cons.mp hkeys
    rw [List.foldl_cons, ih hkeys, Fields.lookup_insert]
    grind

theorem lookup_updatePart {update : Fields → Fields} {key other : String} (h : other ≠ key) :
    (updatePart key update payload).lookup other = payload.lookup other := by
  unfold updatePart
  grind [Fields.lookup_insert]

theorem part_updatePart {update : Fields → Fields} {key : String} {object : Fields}
    (h : payload.lookup key = some (.object object)) :
    part (updatePart key update payload) key = update object := by
  unfold updatePart part
  rw [h, Fields.lookup_insert, if_pos rfl]
  rfl

/-- The keys that every type writes. -/
def commonKeys : List String :=
  ["name", "notes", "favorite", "organizationId", "folderId", "collectionIds"]

theorem lookup_writeCollections {ids : List Value} (h : key ≠ "collectionIds") :
    (writeCollections ids payload).lookup key = payload.lookup key := by
  unfold writeCollections
  grind [Fields.lookup_insert, Fields.lookup_remove]

theorem lookup_collectionIds {ids : List Value} (h : truthy (payload.lookup "organizationId"))
    (hids : ids ≠ []) :
    (writeCollections ids payload).lookup "collectionIds" = some (.array ids) := by
  unfold writeCollections
  dsimp only
  rw [if_pos h, if_pos hids, Fields.lookup_insert, if_pos rfl]

theorem lookup_writeCommon (h : key ∉ commonKeys) :
    (writeCommon js form payload).lookup key = payload.lookup key := by
  simp only [commonKeys, List.mem_cons, List.not_mem_nil, or_false, not_or] at h
  unfold writeCommon
  rw [lookup_writeCollections h.2.2.2.2.2]
  simp [Fields.lookup_insert, h]

theorem lookup_writeType (h : key ∉ ["login", "card", "identity"]) :
    (writeType js form payload).lookup key = payload.lookup key := by
  have hpart : ∀ update, ∀ other ∈ ["login", "card", "identity"],
      (updatePart other update payload).lookup key = payload.lookup key :=
    fun update other hother => lookup_updatePart fun heq => h (heq ▸ hother)
  unfold writeType
  grind

end

/-! ## Stored items -/

/-- The object that belongs to a type. -/
def ownKey : Nat → String
  | 1 => "login"
  | 2 => "secureNote"
  | 3 => "card"
  | _ => "identity"

/-- The texts of an item that the form has. -/
def formPaths : List (List String) :=
  [["name"], ["notes"], ["organizationId"], ["folderId"], ["login", "username"],
    ["login", "password"], ["login", "totp"]]
    ++ cardKeys.map (fun key => ["card", key]) ++ identityKeys.map fun key => ["identity", key]

/-- A stored custom field of type `n`. -/
structure StoredField (field : Fields) (n : Nat) : Prop where
  keys : ∀ key, key ∉ ["name", "type", "value", "linkedId"] → field.lookup key = none
  name : SecretText (field.lookup "name")
  small : n ≤ 3
  type : field.lookup "type" = some (.number (.posInt n))
  value : SecretText (field.lookup "value")
  flag : n = 2 → field.lookup "value" = some (.string "true")
    ∨ field.lookup "value" = some (.string "false")
  linked : n = 3 → nullish (field.lookup "value")
  link : ∀ v ∈ field.lookup "linkedId", v = .null ∨ ∃ m, v = .number m
  unlinked : n ≠ 3 → field.lookup "linkedId" = none

structure Editable (item : Fields) (n : Nat) : Prop where
  small : 1 ≤ n ∧ n ≤ 4
  type : item.lookup "type" = some (.number (.posInt n))
  own : ∃ own, item.lookup (ownKey n) = some (.object own)
  texts : ∀ path ∈ formPaths, SecretText (get item path)
  name : ∃ s, item.lookup "name" = some (.string s) ∧ trimmed s ≠ ""
  collections : item.lookup "collectionIds" = none ∨ item.lookup "collectionIds" = some .null
    ∨ ∃ ids, item.lookup "collectionIds" = some (.array ids)
  uris : get item ["login", "uris"] = none ∨ get item ["login", "uris"] = some .null
    ∨ ∃ entries, get item ["login", "uris"] = some (.array entries)
  fewUris : (websites item).length ≤ maxListEntries
  addresses : ∀ entry ∈ websites item, ∃ fields, entry = .object fields
  fields : item.lookup "fields" = none ∨ item.lookup "fields" = some .null
    ∨ ∃ entries, item.lookup "fields" = some (.array entries)
  fewFields : (fieldEntries item).length ≤ maxListEntries
  shapes : ∀ entry ∈ fieldEntries item, ∃ field n, entry = .object field ∧ StoredField field n

/-! ## Custom fields -/

/-- Two form fields agree on what is written under a key. Nothing edits a field's type. -/
def FormField.Agrees (e l : FormField) (key : String) : Prop :=
  if key = "name" then e.name = l.name
  else if key = "value" then e.value = l.value
  else if key = "linkedId" then e.linkedId = l.linkedId
  else True

section

variable {field : Fields} {n : Nat}

theorem int_inj (n c : Nat) : Js.Num.int n = .int c ↔ n = c := by
  rw [Js.Num.int.injEq, Int.natCast_inj]

theorem StoredField.number (h : StoredField field n) :
    js.number (.number (.posInt n)) = .int n :=
  js.number_posInt n (Nat.lt_of_le_of_lt h.small (by decide))

theorem type_fieldForForm (h : StoredField field n) : (fieldForForm js field).type = .int n := by
  show numberOr js (field.lookup "type") 0 = .int n
  rw [h.type, numberOr]
  split_ifs with ht
  · exact h.number
  · have hzero : n = 0 := by simpa [truthy, truthyNumber] using ht
    rw [hzero]
    rfl

theorem cleanType_small (h : n ≤ 3) : cleanType (.int n) = .int n := by
  have hnot : ¬((n : Int) < 0 ∨ 3 < (n : Int)) := by omega
  exact if_neg hnot

/-- A written field has the four keys. -/
theorem lookup_customFieldPayload (e : FormField) (key : String) :
    (customFieldPayload js e).lookup key =
      if key = "name" then some (.string e.name)
      else if key = "type" then some (numValue (cleanType e.type))
      else if key = "value" then some (
        if cleanType e.type = .int 3 then .null
        else if cleanType e.type = .int 2 then .string (if e.value.isTrue then "true" else "false")
        else .string e.value.shown)
      else if key = "linkedId" ∧ cleanType e.type = .int 3 then e.linkedId.map (numberValue js)
      else none := by
  unfold customFieldPayload
  cases e.linkedId <;> grind [Fields.lookup_cons]

/-- The value as it is written: null for a link, a flag as a text. -/
theorem same_fieldValue (h : StoredField field n) {value : FieldValue}
    (hvalue : value = (fieldForForm js field).value) :
    Same (some (if n = 3 then .null
        else if n = 2 then .string (if value.isTrue then "true" else "false")
        else .string value.shown)) (field.lookup "value") := by
  have hnumber : js.numberOf (field.lookup "type") = .int n := by
    rw [h.type]
    exact h.number
  have htwo : (Js.Num.int n = .int 2) ↔ n = 2 := int_inj n 2
  have hloaded : (fieldForForm js field).value
      = if n = 2 then .flag (customFieldBooleanValue js (field.lookup "value"))
        else .text (js.shown (field.lookup "value")) := by
    show (if js.numberOf (field.lookup "type") = .int 2 then _ else _) = _
    rw [hnumber]
    simp only [htwo]
  rw [hvalue, hloaded]
  by_cases hthree : n = 3
  · have hnull := h.linked hthree
    rw [if_pos hthree]
    cases hstored : field.lookup "value" with
    | none => rfl
    | some v =>
      rw [hstored] at hnull
      cases v with
      | null => rfl
      | _ => cases hnull
  rw [if_neg hthree]
  by_cases hflag : n = 2
  · have hbool : ∀ s, customFieldBooleanValue js (some (.string s)) = isTrueText s := fun s =>
      congrArg isTrueText (js.string_string s)
    rw [if_pos hflag, if_pos hflag]
    rcases h.flag hflag with hstored | hstored <;> rw [hstored, hbool] <;> rfl
  · rw [if_neg hflag, if_neg hflag]
    exact same_shown h.value

theorem same_field (h : StoredField field n) {e : FormField}
    (htype : e.type = (fieldForForm js field).type) {key : String}
    (hkey : e.Agrees (fieldForForm js field) key) :
    Same ((customFieldPayload js e).lookup key) (field.lookup key) := by
  have hclean : cleanType e.type = .int n := by
    rw [htype, type_fieldForForm h, cleanType_small h.small]
  have hthree : (Js.Num.int n = .int 3) ↔ n = 3 := int_inj n 3
  have htwo : (Js.Num.int n = .int 2) ↔ n = 2 := int_inj n 2
  rw [lookup_customFieldPayload, hclean]
  simp only [hthree, htwo]
  by_cases hvalue : key = "value"
  · subst hvalue
    exact same_fieldValue h hkey
  rw [if_neg hvalue]
  split_ifs with hname hkind hlinked
  · subst hname
    have hsame : e.name = js.text (field.lookup "name") := hkey
    rw [hsame, text_eq_shown h.name]
    exact same_shown h.name
  · subst hkind
    rw [h.type]
    exact Same.refl _
  · obtain ⟨rfl, hlink⟩ := hlinked
    have hsame : e.linkedId = if nullish (field.lookup "linkedId") then none
      else (field.lookup "linkedId").map (numberValue js) := hkey
    rw [hsame]
    cases hstored : field.lookup "linkedId" with
    | none => rfl
    | some v => rcases h.link v hstored with rfl | ⟨m, rfl⟩ <;> rfl
  · -- No other key is written, or stored.
    have hnone : field.lookup key = none := by
      by_cases hkey : key = "linkedId"
      · subst hkey
        exact h.unlinked fun hlink => hlinked ⟨rfl, hlink⟩
      · exact h.keys key (by simp [hname, hkind, hvalue, hkey])
    rw [hnone]
    exact Same.refl _

end

/-! ## Where the fields of a form come from -/

/-- Follows the loaded positions through an edit; an added field has none. -/
def FieldEdit.move (origins : List (Option Nat)) : FieldEdit → List (Option Nat)
  | .removeFormCustomField index => origins.eraseIdx index
  | .addFormCustomField name _ => if trimmed name = "" then origins else origins ++ [none]
  | _ => origins

/-- The loaded positions of the fields of a form after some edits. -/
def origins (count : Nat) (edits : List FieldEdit) : List (Option Nat) :=
  edits.foldl FieldEdit.move ((List.range count).map some)

/-- The fields of a form with their loaded positions: a field never comes later than it was loaded,
and keeps its type. -/
structure Traced (loaded fields : List FormField) (origins : List (Option Nat)) : Prop where
  length : fields.length = origins.length
  placed : ∀ {j i : Nat}, origins[j]? = some (some i) →
    j ≤ i ∧ ∃ e l, fields[j]? = some e ∧ loaded[i]? = some l ∧ e.type = l.type

section

variable {loaded fields : List FormField} {places : List (Option Nat)}

theorem Traced.start (loaded : List FormField) :
    Traced loaded loaded ((List.range loaded.length).map some) where
  length := by simp
  placed := by
    intro j i h
    have hlt : j < loaded.length := by
      have hj := (List.getElem?_eq_some_iff.mp h).1
      simpa using hj
    rw [List.getElem?_map, List.getElem?_range hlt] at h
    cases h
    exact ⟨Nat.le_refl j, loaded[j], loaded[j], List.getElem?_eq_getElem hlt,
      List.getElem?_eq_getElem hlt, rfl⟩

variable (h : Traced loaded fields places)
include h

theorem Traced.modify (index : Nat) (f : FormField → FormField) (hf : ∀ e, (f e).type = e.type) :
    Traced loaded (fields.modify index f) places where
  length := by
    rw [List.length_modify]
    exact h.length
  placed := by
    intro j i hplace
    obtain ⟨hle, e, l, he, hl, htype⟩ := h.placed hplace
    refine ⟨hle, if index = j then f e else e, l, ?_, hl, ?_⟩
    · rw [List.getElem?_modify, he]
      rfl
    · split
      · exact (hf e).trans htype
      · exact htype

theorem Traced.remove (index : Nat) :
    Traced loaded (fields.eraseIdx index) (places.eraseIdx index) where
  length := by rw [List.length_eraseIdx, List.length_eraseIdx, h.length]
  placed := by
    intro j i hplace
    rw [List.getElem?_eraseIdx] at hplace
    rw [List.getElem?_eraseIdx]
    by_cases hlt : j < index
    · rw [if_pos hlt] at hplace ⊢
      exact h.placed hplace
    · -- Those behind move down by one.
      rw [if_neg hlt] at hplace ⊢
      obtain ⟨hle, hfield⟩ := h.placed hplace
      exact ⟨by omega, hfield⟩

theorem Traced.add (field : FormField) :
    Traced loaded (fields ++ [field]) (places ++ [none]) where
  length := by rw [List.length_append, List.length_append, h.length]; rfl
  placed := by
    intro j i hplace
    have hlt : j < places.length := by
      by_contra hge
      have hj := (List.getElem?_eq_some_iff.mp hplace).1
      rw [List.length_append, List.length_singleton] at hj
      have hlast : j = places.length := by omega
      rw [hlast, List.getElem?_concat_length] at hplace
      cases hplace
    rw [List.getElem?_append_left hlt] at hplace
    rw [List.getElem?_append_left (by rw [h.length]; exact hlt)]
    exact h.placed hplace

theorem Traced.step (typeCode : Js.Num) (edit : FieldEdit) :
    Traced loaded (edit.apply js typeCode fields) (edit.move places) := by
  cases edit with
  | saveCustomFieldLabel index draft =>
    show Traced loaded (if trimmed draft = "" then fields else _) places
    by_cases hdraft : trimmed draft = ""
    · rw [if_pos hdraft]
      exact h
    · rw [if_neg hdraft]
      exact h.modify index _ fun _ => rfl
  | setFormCustomFieldValue index value => exact h.modify index _ fun _ => rfl
  | setFormCustomFieldLinkedId index linkedId => exact h.modify index _ fun _ => rfl
  | removeFormCustomField index => exact h.remove index
  | addFormCustomField name type =>
    show Traced loaded (if trimmed name = "" then fields else _)
      (if trimmed name = "" then places else places ++ [none])
    by_cases hname : trimmed name = ""
    · rw [if_pos hname, if_pos hname]
      exact h
    · rw [if_neg hname, if_neg hname]
      exact h.add _

omit h

theorem Traced.run (loaded : List FormField) (typeCode : Js.Num) (edits : List FieldEdit) :
    Traced loaded (edits.foldl (FieldEdit.apply js typeCode) loaded)
      (origins loaded.length edits) := by
  have hrun : ∀ {fields : List FormField} {places : List (Option Nat)},
      Traced loaded fields places →
      Traced loaded (edits.foldl (FieldEdit.apply js typeCode) fields)
        (edits.foldl FieldEdit.move places) := by
    induction edits with
    | nil => exact fun h => h
    | cons edit edits ih => exact fun h => ih (h.step typeCode edit)
  exact hrun (Traced.start loaded)

end

/-! ## Loading -/

section

variable {item : Fields} {n : Nat}

/-- The form as it is loaded. -/
def loadedForm (js : Shell) (detailPassword : String) (item : Fields) : Form :=
  startEditItemNow js detailPassword (itemDetailFromObject js item)

variable (h : Editable item n)
include h

theorem Editable.cases : n = 1 ∨ n = 2 ∨ n = 3 ∨ n = 4 := by
  have hsmall := h.small
  omega

theorem Editable.number : js.number (.number (.posInt n)) = .int n :=
  js.number_posInt n (Nat.lt_of_le_of_lt h.small.2 (by decide))

theorem itemType_number :
    js.numberOf (item.lookup "type") = .int n ∧ numberOr js (item.lookup "type") 1 = .int n := by
  have ht : truthy (some (.number (.posInt n))) := by
    simp [truthy, truthyNumber, Nat.ne_of_gt h.small.1]
  rw [h.type, numberOr, if_pos ht]
  exact ⟨h.number, h.number⟩

theorem itemDetail_eq : itemDetailFromObject js item = ordinaryDetail js item := by
  have hsmall := h.small
  refine if_neg ?_
  rw [(itemType_number h).1, Js.Num.int.injEq]
  omega

/-- Nothing else than a copy of the item is written over. -/
theorem buildEditPayload_eq (form : Form) :
    buildEditPayload js (itemDetailFromObject js item) form
      = some ((writeType js form (writeCommon js form item)).insert "fields"
        (.array (customFieldsPayload js form.customFields))) := by
  have hsmall := h.small
  rw [itemDetail_eq h]
  refine if_neg ?_
  show ¬(numberOr js (item.lookup "type") 1 = .int 5 ∨ js.numberOf (item.lookup "type") = .int 5)
  rw [(itemType_number h).1, (itemType_number h).2, or_self, Js.Num.int.injEq]
  omega

theorem loaded_typeCode (detailPassword : String) :
    (loadedForm js detailPassword item).typeCode = .int n := by
  unfold loadedForm
  rw [itemDetail_eq h]
  show codeOr (numberOr js (item.lookup "type") 1) = .int n
  have hsmall := h.small
  rw [(itemType_number h).2, codeOr, if_neg]
  rintro (hzero | hnan)
  · rw [Js.Num.int.injEq] at hzero
    omega
  · cases hnan

end

/-! ## Writing each type -/

section

variable {item : Fields} {n : Nat} {form : Form}

/-- What a save does to the login. -/
def writeLogin (js : Shell) (form : Form) (login : Fields) : Fields :=
  let login := updateLoginFields js form.username form.password form.totp login
  login.insert "uris" (editedUris js (login.lookup "uris") form.uri)

theorem lookup_writeLogin (login : Fields) (key : String) :
    (writeLogin js form login).lookup key =
      if key = "uris" then some (editedUris js (login.lookup "uris") form.uri)
      else if key = "totp" then some (formValue js trimmedOrNull (login.lookup "totp") form.totp)
      else if key = "password" then
        some (formValue js .string (login.lookup "password") form.password)
      else if key = "username" then
        some (formValue js trimmedText (login.lookup "username") form.username)
      else login.lookup key := by
  unfold writeLogin updateLoginFields
  simp only [Fields.lookup_insert]
  simp

theorem writeType_eq (h : Editable item n) {payload : Fields}
    (htype : payload.lookup "type" = some (.number (.posInt n))) (hcode : form.typeCode = .int n) :
    writeType js form payload =
      if n = 1 then updatePart "login" (writeLogin js form) payload
      else if n = 3 then updatePart "card" (updateFields js cardKeys form.card) payload
      else if n = 4 then updatePart "identity" (updateFields js identityKeys form.identity) payload
      else payload := by
  have hnumber : ∀ c : Nat, isNumber js (some (.number (.posInt n))) c = decide (n = c) := by
    intro c
    show decide (js.number (.number (.posInt n)) = .int c) = decide (n = c)
    rw [h.number, decide_eq_decide, int_inj]
  have ht : truthy (some (.number (.posInt n))) = true := by
    simp [truthy, truthyNumber, Nat.ne_of_gt h.small.1]
  unfold writeType Form.typeFields
  dsimp only
  rw [htype, hcode, ht, show isNumber js _ 1 = _ from hnumber 1,
    show isNumber js _ 3 = _ from hnumber 3, show isNumber js _ 4 = _ from hnumber 4]
  rcases h.cases with rfl | rfl | rfl | rfl <;> rfl

/-- What is written of an item's parts. -/
theorem part_payload (h : Editable item n) (hcode : form.typeCode = .int n) {payload : Fields}
    (hpayload : buildEditPayload js (itemDetailFromObject js item) form = some payload) :
    part payload "login" = (if n = 1 then writeLogin js form (part item "login")
      else part item "login")
    ∧ part payload "card" = (if n = 3 then updateFields js cardKeys form.card (part item "card")
      else part item "card")
    ∧ part payload "identity"
      = (if n = 4 then updateFields js identityKeys form.identity (part item "identity")
        else part item "identity") := by
  rw [buildEditPayload_eq h] at hpayload
  cases hpayload
  have hfields : ∀ (object : Fields) (value : Value) (key : String), key ≠ "fields" →
      part (object.insert "fields" value) key = part object key := fun object value key hkey =>
    congrArg props ((Fields.lookup_insert _ _ _ _).trans (if_neg hkey))
  have hkept : ∀ key ∉ commonKeys, part (writeCommon js form item) key = part item key :=
    fun key hkey => congrArg props (lookup_writeCommon hkey)
  -- Only the object that belongs to the type is updated.
  have hupdated : ∀ (update : Fields → Fields) (key : String), key ∉ commonKeys →
      part (updatePart (ownKey n) update (writeCommon js form item)) key
        = if key = ownKey n then update (part item key) else part item key := by
    intro update key hkey
    split_ifs with howned
    · obtain ⟨own, hown⟩ := h.own
      rw [howned] at hkey ⊢
      rw [part_updatePart ((lookup_writeCommon hkey).trans hown), part, hown]
      rfl
    · rw [part, lookup_updatePart howned]
      exact hkept key hkey
  have htype : (writeCommon js form item).lookup "type" = some (.number (.posInt n)) :=
    (lookup_writeCommon (by decide)).trans h.type
  rw [hfields _ _ _ (by decide), hfields _ _ _ (by decide), hfields _ _ _ (by decide),
    writeType_eq h htype hcode]
  rcases h.cases with rfl | rfl | rfl | rfl
  case inr.inl => exact ⟨hkept _ (by decide), hkept _ (by decide), hkept _ (by decide)⟩
  all_goals exact ⟨hupdated _ _ (by decide), hupdated _ _ (by decide), hupdated _ _ (by decide)⟩

end

/-! ## What a payload keeps -/

/-- The payload of a form against the stored item, given the form as it was loaded and where its
custom fields come from. -/
structure Kept (item : Fields) (loaded form : Form) (places : List (Option Nat))
    (payload : Fields) : Prop where
  name : form.name = loaded.name → Same (payload.lookup "name") (item.lookup "name")
  notes : form.notes = loaded.notes → Same (payload.lookup "notes") (item.lookup "notes")
  username : form.username = loaded.username →
    Same (get payload ["login", "username"]) (get item ["login", "username"])
  password : form.password = loaded.password →
    Same (get payload ["login", "password"]) (get item ["login", "password"])
  totp : form.totp = loaded.totp →
    Same (get payload ["login", "totp"]) (get item ["login", "totp"])
  uri : form.uri = loaded.uri → websites payload = websites item
  /-- Whatever is done to the first website, the others stay, and so does its match rule. -/
  uris : ∃ first, websites payload = first ++ (websites item).tail ∧ first.length ≤ 1
    ∧ ∀ old ∈ (websites item).head?, ∀ new ∈ first, Same (new.get "match") (old.get "match")
  card : ∀ key ∈ cardKeys, form.card.get key = loaded.card.get key →
    Same (get payload ["card", key]) (get item ["card", key])
  identity : ∀ key ∈ identityKeys, form.identity.get key = loaded.identity.get key →
    Same (get payload ["identity", key]) (get item ["identity", key])
  fields : ∀ j i : Nat, places[j]? = some (some i) →
    ∃ e l new old, form.customFields[j]? = some e ∧ loaded.customFields[i]? = some l
      ∧ (arrayAt payload "fields")[j]? = some new ∧ (fieldEntries item)[i]? = some old
      ∧ ∀ key, e.Agrees l key → Same (new.get key) (old.get key)
  organization : form.organizationId = loaded.organizationId →
    loaded.organizationId ∉ ["personal", "all"] →
    Same (payload.lookup "organizationId") (item.lookup "organizationId")
  folder : form.folderId = loaded.folderId → loaded.folderId ∉ ["all", "none"] →
    Same (payload.lookup "folderId") (item.lookup "folderId")
  collections : form.collectionIds = loaded.collectionIds →
    truthy (payload.lookup "organizationId") →
    Same (payload.lookup "collectionIds") (item.lookup "collectionIds")

section

variable {item : Fields} {n : Nat} {form : Form} {payload : Fields} {detailPassword : String}

variable (h : Editable item n)
include h

/-- What is written under the keys that every type has. -/
theorem lookup_payload
    (hpayload : buildEditPayload js (itemDetailFromObject js item) form = some payload) :
    payload.lookup "name"
      = some (formValue js trimmedText (item.lookup "name") (orElse form.name untitled))
    ∧ payload.lookup "notes" = some (formValue js .string (item.lookup "notes") form.notes)
    ∧ payload.lookup "organizationId" = some (selectedOrganizationId form.organizationId)
    ∧ payload.lookup "folderId" = some (selectedFolderId form.folderId)
    ∧ payload.lookup "fields" = some (.array (customFieldsPayload js form.customFields)) := by
  rw [buildEditPayload_eq h] at hpayload
  cases hpayload
  have hcommon : ∀ key, key ≠ "fields" → key ∉ ["login", "card", "identity"] →
      ((writeType js form (writeCommon js form item)).insert "fields"
        (.array (customFieldsPayload js form.customFields))).lookup key
        = (writeCommon js form item).lookup key := by
    intro key hfields htype
    rw [Fields.lookup_insert, if_neg hfields, lookup_writeType htype]
  have hbefore : ∀ key, key ≠ "collectionIds" → (writeCommon js form item).lookup key = _ :=
    fun key hkey => lookup_writeCollections hkey
  refine ⟨?_, ?_, ?_, ?_, (Fields.lookup_insert _ _ _ _).trans (if_pos rfl)⟩ <;>
    rw [hcommon _ (by decide) (by decide), hbefore _ (by decide)] <;>
    simp [Fields.lookup_insert]

theorem lookup_collections
    (hpayload : buildEditPayload js (itemDetailFromObject js item) form = some payload)
    (horganization : truthy (payload.lookup "organizationId")) (hids : form.collectionIds ≠ []) :
    payload.lookup "collectionIds" = some (.array form.collectionIds) := by
  have hlookup := (lookup_payload h hpayload).2.2.1
  rw [hlookup] at horganization
  rw [buildEditPayload_eq h] at hpayload
  cases hpayload
  rw [Fields.lookup_insert, if_neg (by decide), lookup_writeType (by decide)]
  refine lookup_collectionIds ?_ hids
  rw [Fields.lookup_insert, if_neg (by decide), Fields.lookup_insert, if_pos rfl]
  exact horganization

/-- The loaded texts, as the item stores them. -/
theorem loaded_texts
    (hpassword : detailPassword = "" ∨ detailPassword = (itemDetailFromObject js item).password) :
    (loadedForm js detailPassword item).name = js.shown (item.lookup "name")
    ∧ (loadedForm js detailPassword item).notes = js.shown (item.lookup "notes")
    ∧ (loadedForm js detailPassword item).username
      = js.shown ((part item "login").lookup "username")
    ∧ (loadedForm js detailPassword item).password
      = js.shown ((part item "login").lookup "password")
    ∧ (loadedForm js detailPassword item).totp = js.shown ((part item "login").lookup "totp") := by
  have htext : ∀ path ∈ formPaths, SecretText (get item path) := h.texts
  have hnested : ∀ key, ["login", key] ∈ formPaths →
      js.text ((part item "login").lookup key) = js.shown ((part item "login").lookup key) := by
    intro key hpath
    have hlogin := htext _ hpath
    rw [get_nested] at hlogin
    exact text_eq_shown hlogin
  have horElse : ∀ text : String, orElse text text = text := fun text => ite_self text
  rw [itemDetail_eq h] at hpassword
  unfold loadedForm
  rw [itemDetail_eq h]
  refine ⟨?_, text_eq_shown (htext ["notes"] (by decide)), hnested "username" (by decide), ?_, ?_⟩
  · obtain ⟨s, hs, hblank⟩ := h.name
    have ht : truthy (some (.string s)) := by
      have hne : s ≠ "" := by
        rintro rfl
        exact hblank rfl
      simp [truthy, hne]
    show js.textOr (item.lookup "name") untitled = js.shown (item.lookup "name")
    rw [hs, Coercions.textOr, if_pos ht]
    rfl
  · have hdetail : (ordinaryDetail js item).password
        = js.text ((part item "login").lookup "password") := rfl
    show orElse detailPassword (js.text ((part item "login").lookup "password")) = _
    rw [← hnested "password" (by decide)]
    rcases hpassword with rfl | rfl
    · rfl
    · rw [hdetail, horElse]
  · show orElse (js.text ((part item "login").lookup "totp"))
      (js.text ((part item "login").lookup "totp")) = _
    rw [horElse, hnested "totp" (by decide)]

/-- The loaded texts of a part. -/
theorem loaded_part {keys : List String} {owner : String}
    (hpaths : ∀ key ∈ keys, [owner, key] ∈ formPaths) {key : String} (hkey : key ∈ keys) :
    (Texts.of keys ((textsOf js keys (item.lookup owner)).getD []).get).get key
      = js.shown ((part item owner).lookup key) := by
  have htext := h.texts _ (hpaths key hkey)
  rw [get_nested] at htext
  rw [Texts.get_of hkey, ← text_eq_shown htext]
  exact lookup_textsOf hkey owner

theorem loaded_card {key : String} (hkey : key ∈ cardKeys) :
    (loadedForm js detailPassword item).card.get key
      = js.shown ((part item "card").lookup key) := by
  rw [loadedForm, itemDetail_eq h]
  exact loaded_part h (by decide) hkey

theorem loaded_identity {key : String} (hkey : key ∈ identityKeys) :
    (loadedForm js detailPassword item).identity.get key
      = js.shown ((part item "identity").lookup key) := by
  rw [loadedForm, itemDetail_eq h]
  exact loaded_part h (by decide) hkey

/-! ## Websites -/

theorem toList_uris : toList js ((part item "login").lookup "uris") = (websites item).map some := by
  rw [← get_nested]
  exact toList_listed js h.uris h.fewUris

theorem uriEntries_eq : uriEntries js ((part item "login").lookup "uris") = websites item := by
  have hobject : ∀ entry ∈ websites item, (some entry).filter isObject = some entry := by
    intro entry hentry
    obtain ⟨fields, rfl⟩ := h.addresses entry hentry
    rfl
  unfold uriEntries
  rw [toList_uris h, List.filterMap_map]
  exact (List.filterMap_congr hobject).trans List.filterMap_some

theorem loaded_uri :
    (loadedForm js detailPassword item).uri
      = match websites item with
        | [] => ""
        | first :: _ => js.shown ((props (some first)).lookup "uri") := by
  unfold loadedForm
  rw [itemDetail_eq h]
  show ((firstUri js ((part item "login").lookup "uris")).getD
    ((loginUris js (part item "login")).head?.getD "")) = _
  unfold firstUri loginUris
  rw [uriEntries_eq h, toList_uris h]
  cases websites item with
  | nil => rfl
  | cons first rest => rfl

omit h

/-- All websites but the first are kept, and the match rule of the first. -/
def UrisKept (item payload : Fields) : Prop :=
  ∃ first, websites payload = first ++ (websites item).tail ∧ first.length ≤ 1
    ∧ ∀ old ∈ (websites item).head?, ∀ new ∈ first, Same (new.get "match") (old.get "match")

theorem UrisKept.of_eq (h : websites payload = websites item) : UrisKept item payload := by
  unfold UrisKept
  rw [h]
  cases websites item with
  | nil => exact ⟨[], rfl, Nat.zero_le 1, nofun⟩
  | cons first rest =>
    refine ⟨[first], rfl, Nat.le_refl 1, ?_⟩
    rintro old ⟨⟩ new hnew
    rw [List.mem_singleton.mp hnew]
    exact Same.refl _

/-- The websites after a save of a login. -/
theorem websites_edited (h : Editable item n) {edited : Value}
    (hedited : editedUris js ((part item "login").lookup "uris") form.uri = edited)
    (hpayload : get payload ["login", "uris"] = some edited) :
    (form.uri = (loadedForm js detailPassword item).uri → websites payload = websites item)
    ∧ UrisKept item payload := by
  have hwritten : ∀ entries, edited = .array entries → websites payload = entries := by
    intro entries harray
    rw [websites, hpayload, harray]
  unfold editedUris at hedited
  rw [uriEntries_eq h] at hedited
  rw [loaded_uri h]
  cases hsites : websites item with
  | nil =>
    rw [hsites] at hedited
    dsimp only at hedited ⊢
    split_ifs at hedited with hblank
    · have hkept : websites payload = websites item := by
        rw [← get_nested] at hedited
        unfold websites at hsites ⊢
        rw [hpayload, ← hedited]
        rcases h.uris with hnone | hnull | ⟨entries, harray⟩
        · rw [hnone]
          rfl
        · rw [hnull]
          rfl
        · rw [harray]
          rfl
      exact ⟨fun _ => hkept.trans hsites, .of_eq hkept⟩
    · refine ⟨fun huri => absurd (by rw [huri]; decide) hblank, ?_⟩
      rw [UrisKept, hsites]
      exact ⟨[_], hwritten [_] hedited.symm, Nat.le_refl 1, nofun⟩
  | cons first rest =>
    rw [hsites] at hedited
    dsimp only at hedited ⊢
    split_ifs at hedited with hsame hblank
    · have hkept := hwritten _ hedited.symm
      exact ⟨fun _ => hkept, .of_eq (hkept.trans hsites.symm)⟩
    · refine ⟨fun huri => absurd huri hsame, ?_⟩
      rw [UrisKept, hsites]
      exact ⟨[], hwritten _ hedited.symm, Nat.zero_le 1, nofun⟩
    · refine ⟨fun huri => absurd huri hsame, ?_⟩
      rw [UrisKept, hsites]
      refine ⟨[replacedUri first form.uri], hwritten _ hedited.symm, Nat.le_refl 1, ?_⟩
      rintro old ⟨⟩ new hnew
      rw [List.mem_singleton.mp hnew]
      obtain ⟨fields, rfl⟩ := h.addresses first (by rw [hsites]; exact List.mem_cons_self)
      show Same ((Fields.insert "uri" (trimmedText form.uri)
        (Fields.insert "match" ((fields.lookup "match").getD .null) fields)).lookup "match")
        (fields.lookup "match")
      rw [Fields.lookup_insert, if_neg (by decide), Fields.lookup_insert, if_pos rfl]
      cases fields.lookup "match" <;> rfl

/-! ## Custom fields of a payload -/

theorem loaded_fields (h : Editable item n) :
    (loadedForm js detailPassword item).customFields
      = (fieldEntries item).map fun entry => fieldForForm js (props (some entry)) := by
  unfold loadedForm
  rw [itemDetail_eq h]
  show copyCustomFieldsForForm js (item.lookup "fields")
    (itemCustomFields js (item.lookup "fields") item) = _
  have hshapes := h.shapes
  unfold fieldEntries at hshapes ⊢
  rcases h.fields with hnone | hnull | ⟨entries, harray⟩
  · rw [hnone]
    rfl
  · rw [hnull]
    rfl
  · rw [harray] at hshapes ⊢
    show (entries.filter fun entry => truthy (some entry)).map _ = entries.map _
    rw [List.filter_eq_self.mpr]
    intro entry hentry
    obtain ⟨field, _, rfl, -⟩ := hshapes entry hentry
    rfl

/-- In a form that can be saved, no custom field is left out. -/
theorem customFieldsPayload_valid (hvalid : validateItemForm form = "") :
    customFieldsPayload js form.customFields
      = (form.customFields.take maxListEntries).map fun field =>
        .object (customFieldPayload js field) := by
  have hlabels : needsLabel form.customFields = none := by
    unfold validateItemForm at hvalid
    split_ifs at hvalid with hname horganization
    · exact absurd hvalid (by decide)
    · exact absurd hvalid (by decide)
    · cases hindex : needsLabel form.customFields with
      | none => rfl
      | some index =>
        rw [hindex] at hvalid
        simp at hvalid
  unfold customFieldsPayload
  rw [List.filter_eq_self.mpr]
  intro field hfield
  have hall := List.findIdx?_eq_none_iff.mp hlabels field hfield
  simpa using hall

/-! ## Organization, folder and collections -/

theorem loaded_organization (h : Editable item n) :
    (loadedForm js detailPassword item).organizationId
      = (js.textOrNull (item.lookup "organizationId")).getD "" := by
  rw [loadedForm, itemDetail_eq h]
  rfl

theorem loaded_folder (h : Editable item n) :
    (loadedForm js detailPassword item).folderId
      = (js.textOrNull (item.lookup "folderId")).getD "" := by
  rw [loadedForm, itemDetail_eq h]
  rfl

theorem loaded_collections (h : Editable item n) :
    (loadedForm js detailPassword item).collectionIds = match item.lookup "collectionIds" with
      | some (.array ids) => ids
      | _ => [] := by
  rw [loadedForm, itemDetail_eq h]
  rfl

theorem collections_of_valid (hvalid : validateItemForm form = "")
    (hchosen : form.organizationId ∉ ["", "personal", "all"]) : form.collectionIds ≠ [] := by
  intro hempty
  unfold validateItemForm at hvalid
  rw [if_pos (And.intro hchosen hempty)] at hvalid
  split_ifs at hvalid
  · exact absurd hvalid (by decide)
  · exact absurd hvalid (by decide)

/-- A loaded choice is written as it is stored, unless its name is one of the panel's own. -/
theorem same_choice {stored : Option Value} (h : SecretText stored) {loaded : String}
    (hloaded : loaded = (js.textOrNull stored).getD "") {others : List String}
    (hothers : loaded ∉ others) {select : String → Value} (hnull : select "" = .null)
    (hselect : ∀ text, text ∉ "" :: others → select text = .string text) :
    Same (some (select loaded)) stored := by
  subst hloaded
  have hempty : blankless stored = none → (js.textOrNull stored).getD "" = "" →
      Same (some (select ((js.textOrNull stored).getD ""))) stored := by
    intro hblank htext
    rw [htext, hnull]
    exact hblank.symm
  cases stored with
  | none => exact hempty rfl rfl
  | some value =>
    rcases h value rfl with rfl | ⟨s, rfl⟩
    · exact hempty rfl rfl
    by_cases hs : s = ""
    · subst hs
      exact hempty rfl rfl
    · have htext : (js.textOrNull (some (.string s))).getD "" = s := by
        rw [Coercions.textOrNull, if_pos (by simp [truthy, hs])]
        exact js.string_string s
      rw [htext] at hothers ⊢
      rw [hselect s (List.not_mem_cons_of_ne_of_not_mem hs hothers)]
      exact Same.refl _

theorem kept_fields (h : Editable item n) (hvalid : validateItemForm form = "")
    {edits : List FieldEdit}
    (hfields : form.customFields = edits.foldl (FieldEdit.apply js form.typeCode)
      (loadedForm js detailPassword item).customFields)
    (hpayload : buildEditPayload js (itemDetailFromObject js item) form = some payload) {j i : Nat}
    (hplace : (origins (fieldEntries item).length edits)[j]? = some (some i)) :
    ∃ e l new old, form.customFields[j]? = some e
      ∧ (loadedForm js detailPassword item).customFields[i]? = some l
      ∧ (arrayAt payload "fields")[j]? = some new ∧ (fieldEntries item)[i]? = some old
      ∧ ∀ key, e.Agrees l key → Same (new.get key) (old.get key) := by
  have hloaded : (loadedForm js detailPassword item).customFields
      = (fieldEntries item).map fun entry => fieldForForm js (props (some entry)) := loaded_fields h
  have htraced : Traced (loadedForm js detailPassword item).customFields form.customFields
      (origins (fieldEntries item).length edits) := by
    have hrun : Traced (loadedForm js detailPassword item).customFields
        (edits.foldl (FieldEdit.apply js form.typeCode)
          (loadedForm js detailPassword item).customFields)
        (origins (loadedForm js detailPassword item).customFields.length edits) :=
      Traced.run _ _ edits
    rw [← hfields, hloaded, List.length_map] at hrun
    rw [hloaded]
    exact hrun
  obtain ⟨hle, e, l, he, hl, htype⟩ := htraced.placed hplace
  have hl' := hl
  rw [hloaded, List.getElem?_map] at hl'
  obtain ⟨old, hold, rfl⟩ := Option.map_eq_some_iff.mp hl'
  obtain ⟨field, m, rfl, hshape⟩ := h.shapes old (List.mem_of_getElem? hold)
  have hlt : j < maxListEntries := by
    have hi := (List.getElem?_eq_some_iff.mp hold).1
    have hfew := h.fewFields
    omega
  refine ⟨e, _, .object (customFieldPayload js e), .object field, he, hl, ?_, hold, ?_⟩
  · rw [arrayAt, (lookup_payload h hpayload).2.2.2.2]
    show (customFieldsPayload js form.customFields)[j]? = _
    rw [customFieldsPayload_valid hvalid, List.getElem?_map, List.getElem?_take, if_pos hlt, he]
    rfl
  · intro key hkey
    exact same_field hshape htype hkey

end

/-- The payload of a form that can be saved: what the form did not change is written as it is
stored. An organization and a folder are kept unless they are named like one of the panel's own
choices, collections if the item is written to an organization. -/
theorem edit_writes_changes (js : Shell) (item : Fields) (n : Nat) (h : Editable item n)
    (detailPassword : String)
    (hpassword : detailPassword = "" ∨ detailPassword = (itemDetailFromObject js item).password)
    (form : Form) (hcode : form.typeCode = (loadedForm js detailPassword item).typeCode)
    (edits : List FieldEdit)
    (hfields : form.customFields = edits.foldl (FieldEdit.apply js form.typeCode)
      (loadedForm js detailPassword item).customFields)
    (hvalid : validateItemForm form = "") :
    ∃ payload, buildEditPayload js (itemDetailFromObject js item) form = some payload
      ∧ Kept item (loadedForm js detailPassword item) form
        (origins (fieldEntries item).length edits) payload := by
  rw [loaded_typeCode h] at hcode
  obtain ⟨payload, hpayload⟩ : ∃ payload,
      buildEditPayload js (itemDetailFromObject js item) form = some payload :=
    ⟨_, buildEditPayload_eq h form⟩
  obtain ⟨hname, hnotes, horganization, hfolder, -⟩ := lookup_payload h hpayload
  obtain ⟨hlogin, hcard, hidentity⟩ := part_payload h hcode hpayload
  obtain ⟨hname', hnotes', husername', hpassword', htotp'⟩ := loaded_texts h hpassword
  have htext : ∀ key, [key] ∈ formPaths → SecretText (item.lookup key) := fun key hpath =>
    h.texts _ hpath
  have hsites : (form.uri = (loadedForm js detailPassword item).uri →
      websites payload = websites item) ∧ UrisKept item payload := by
    by_cases hone : n = 1
    · refine websites_edited h rfl ?_
      rw [get_nested, hlogin, if_pos hone, lookup_writeLogin]
      rfl
    · have hkept : websites payload = websites item := by
        rw [websites, websites, get_nested, get_nested, hlogin, if_neg hone]
      exact ⟨fun _ => hkept, .of_eq hkept⟩
  refine ⟨payload, hpayload, ?_⟩
  constructor
  case name =>
    intro hsame
    rw [hname]
    refine same_formValue ?_
    obtain ⟨s, hs, hblank⟩ := h.name
    have hshown : js.shown (item.lookup "name") = s := by
      rw [hs]
      exact js.string_string s
    have hne : s ≠ "" := by
      rintro rfl
      exact hblank rfl
    rw [hsame, hname', hshown]
    exact if_neg hne
  case notes =>
    intro hsame
    rw [hnotes]
    exact same_formValue (hsame.trans hnotes')
  case username =>
    intro hsame
    refine same_part trimmedText hlogin ?_ (hsame.trans husername')
    rw [lookup_writeLogin]
    rfl
  case password =>
    intro hsame
    refine same_part .string hlogin ?_ (hsame.trans hpassword')
    rw [lookup_writeLogin]
    rfl
  case totp =>
    intro hsame
    refine same_part trimmedOrNull hlogin ?_ (hsame.trans htotp')
    rw [lookup_writeLogin]
    rfl
  case uri => exact hsites.1
  case uris => exact hsites.2
  case card =>
    intro key hkey hsame
    refine same_part trimmedText hcard ?_ (hsame.trans (loaded_card h hkey))
    rw [lookup_updateFields (by decide), if_pos hkey]
  case identity =>
    intro key hkey hsame
    refine same_part trimmedText hidentity ?_ (hsame.trans (loaded_identity h hkey))
    rw [lookup_updateFields (by decide), if_pos hkey]
  case fields =>
    intro j i hplace
    exact kept_fields h hvalid hfields hpayload hplace
  case organization =>
    intro hsame hothers
    rw [horganization, hsame]
    refine same_choice (htext "organizationId" (by decide)) (loaded_organization h) hothers rfl ?_
    intro s hs
    exact if_neg hs
  case folder =>
    intro hsame hothers
    rw [hfolder, hsame]
    refine same_choice (htext "folderId" (by decide)) (loaded_folder h) hothers rfl ?_
    intro s hs
    exact if_neg hs
  case collections =>
    intro hsame ht
    have hchosen : form.organizationId ∉ ["", "personal", "all"] := by
      intro hmem
      rw [horganization, selectedOrganizationId, if_pos hmem] at ht
      cases ht
    have hsome : form.collectionIds ≠ [] := collections_of_valid hvalid hchosen
    rw [lookup_collections h hpayload ht hsome]
    rw [hsame, loaded_collections h] at hsome ⊢
    rcases h.collections with hnone | hnull | ⟨ids, hids⟩
    · rw [hnone] at hsome
      exact absurd rfl hsome
    · rw [hnull] at hsome
      exact absurd rfl hsome
    · rw [hids]
      exact Same.refl _

/-! ## Two edits -/

/-- A login with two websites, a hidden field and a field that shows its password. -/
def storedLogin (organizationId folderId : Value) : Fields :=
  [("collectionIds", .array [.string "c1"]),
    ("fields", .array [
      .object [("name", .string "PIN"), ("type", .number (.posInt 1)), ("value", .string "9876")],
      .object [("linkedId", .number (.posInt 101)), ("name", .string "Again"),
        ("type", .number (.posInt 3)), ("value", .null)]]),
    ("folderId", folderId), ("id", .string "l1"),
    ("login", .object [("password", .string "pw "), ("uris", .array [
        .object [("match", .number (.posInt 1)), ("uri", .string "https://a.example")],
        .object [("match", .number (.posInt 3)), ("uri", .string "https://b.example")]]),
      ("username", .string "ann")]),
    ("name", .string "Mail"), ("organizationId", organizationId), ("type", .number (.posInt 1))]

theorem storedLogin_editable {organizationId folderId : Value}
    (horganization : SecretText (some organizationId)) (hfolder : SecretText (some folderId)) :
    Editable (storedLogin organizationId folderId) 1 where
  small := by decide
  type := rfl
  own := ⟨_, rfl⟩
  texts := by
    have hparts : ∀ path ∈ cardKeys.map (fun key => ["card", key])
        ++ identityKeys.map (fun key => ["identity", key]),
        SecretText (get (storedLogin organizationId folderId) path) := by
      intro path hpath
      rcases List.mem_append.mp hpath with hpath | hpath
      · obtain ⟨key, -, rfl⟩ := List.mem_map.mp hpath
        exact secretText_none
      · obtain ⟨key, -, rfl⟩ := List.mem_map.mp hpath
        exact secretText_none
    intro path hpath
    rw [formPaths, List.append_assoc] at hpath
    rcases List.mem_append.mp hpath with hpath | hpath
    · simp only [List.mem_cons, List.not_mem_nil, or_false] at hpath
      rcases hpath with rfl | rfl | rfl | rfl | rfl | rfl | rfl
      · exact secretText_string "Mail"
      · exact secretText_none
      · exact horganization
      · exact hfolder
      · exact secretText_string "ann"
      · exact secretText_string "pw "
      · exact secretText_none
    · exact hparts path hpath
  name := ⟨"Mail", rfl, by decide⟩
  collections := .inr (.inr ⟨_, rfl⟩)
  uris := .inr (.inr ⟨_, rfl⟩)
  fewUris := by
    show 2 ≤ 4096
    decide
  addresses := by
    show ∀ entry ∈ [Value.object _, Value.object _], _
    simp
  fields := .inr (.inr ⟨_, rfl⟩)
  fewFields := by
    show 2 ≤ 4096
    decide
  shapes := by
    show ∀ entry ∈ [Value.object _, Value.object _], _
    simp only [List.forall_mem_cons]
    refine ⟨⟨_, 1, rfl, ?_⟩, ⟨_, 3, rfl, ?_⟩, List.forall_mem_nil _⟩
    · exact {
        keys := by
          intro key hkey
          simp only [List.mem_cons, List.not_mem_nil, or_false, not_or] at hkey
          simp [List.lookup_cons, beq_false_of_ne, hkey]
        name := secretText_string "PIN"
        small := by decide
        type := rfl
        value := secretText_string "9876"
        flag := fun h => absurd h (by decide)
        linked := fun h => absurd h (by decide)
        link := by rintro v ⟨⟩
        unlinked := fun _ => rfl }
    · exact {
        keys := by
          intro key hkey
          simp only [List.mem_cons, List.not_mem_nil, or_false, not_or] at hkey
          simp [List.lookup_cons, beq_false_of_ne, hkey]
        name := secretText_string "Again"
        small := by decide
        type := rfl
        value := secretText_null
        flag := fun h => absurd h (by decide)
        linked := fun _ => rfl
        link := fun v hv => .inr ⟨.posInt 101, (Option.some.inj hv).symm⟩
        unlinked := fun hne => absurd rfl hne }

/-- An item of an organization, renamed, without its first custom field. -/
def renamedForm (item : Fields) : Form :=
  let loaded := loadedForm plainShell "" item
  { loaded with
    name := "Post"
    customFields := loaded.customFields.eraseIdx 0 }

/-- The rename leaves the password, the websites and the collections; the field that is left comes
first now. -/
theorem edit_writes_changes_rename :
    ∃ payload, buildEditPayload plainShell
        (itemDetailFromObject plainShell (storedLogin (.string "o1") .null))
        (renamedForm (storedLogin (.string "o1") .null)) = some payload
      ∧ payload.lookup "name" = some (.string "Post")
      ∧ Same (get payload ["login", "password"]) (some (.string "pw "))
      ∧ websites payload = websites (storedLogin (.string "o1") .null)
      ∧ Same (payload.lookup "collectionIds") (some (.array [.string "c1"]))
      ∧ ∃ new, (arrayAt payload "fields")[0]? = some new
        ∧ Same (new.get "name") (some (.string "Again")) := by
  have heditable := storedLogin_editable (secretText_string "o1") secretText_null
  obtain ⟨payload, hpayload, hkept⟩ := edit_writes_changes plainShell
    (storedLogin (.string "o1") .null) 1 heditable "" (.inl rfl)
    (renamedForm (storedLogin (.string "o1") .null)) rfl [.removeFormCustomField 0] rfl
    (by decide +kernel)
  have hname : payload.lookup "name" = some (.string "Post")
      ∧ truthy (payload.lookup "organizationId") := by
    obtain ⟨hname, -, horganization, -⟩ :=
      lookup_payload heditable hpayload
    rw [hname, horganization]
    exact ⟨rfl, rfl⟩
  obtain ⟨e, l, new, old, he, hl, hnew, hold, hsame⟩ := hkept.fields 0 1 rfl
  cases he
  cases hl
  cases hold
  exact ⟨payload, hpayload, hname.1, hkept.password rfl, hkept.uri rfl,
    hkept.collections rfl hname.2, new, hnew, hsame "name" rfl⟩

/-- A personal item that has collections, in a folder called none. -/
theorem collections_dropped :
    Editable (storedLogin .null (.string "none")) 1
    ∧ validateItemForm (loadedForm plainShell "" (storedLogin .null (.string "none"))) = ""
    ∧ ∃ payload, buildEditPayload plainShell
        (itemDetailFromObject plainShell (storedLogin .null (.string "none")))
        (loadedForm plainShell "" (storedLogin .null (.string "none"))) = some payload
      ∧ ¬Same (payload.lookup "collectionIds")
        ((storedLogin .null (.string "none")).lookup "collectionIds")
      ∧ ¬Same (payload.lookup "folderId")
        ((storedLogin .null (.string "none")).lookup "folderId") := by
  have heditable := storedLogin_editable secretText_null (secretText_string "none")
  refine ⟨heditable, by decide +kernel, _, buildEditPayload_eq heditable _, ?_, ?_⟩
  · show ¬blankless none = blankless (some (.array [.string "c1"]))
    exact nofun
  · show ¬blankless (some .null) = blankless (some (.string "none"))
    exact nofun

end QsBitwarden.Panel.ItemForm
