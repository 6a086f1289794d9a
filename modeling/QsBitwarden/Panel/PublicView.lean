import QsBitwarden.Panel.Items
import QsBitwarden.Vault.Stripping

/-!
# Panel — one public view of an item

A detail without its secrets is drawn from the row of an item the helper stripped, or from a loaded
detail that is closed again. Both draw the same.

* **`publicOf`** — what the public detail should be: the item's public texts, and for each secret
  whether it is there.
* **`Alike`** — two items that agree in everything public; `publicOf` cannot tell them apart
  (**`publicOf_congr`**). An item and what the helper leaves of it are alike, and so are an item and
  its `blank`, which has one fixed text in place of each secret.
* **`public_view`** — the two ways to the public detail; it depends on a secret only through
  whether it is empty; taking it twice changes nothing.
-/

namespace QsBitwarden.Panel.Items

open Json Js Vault

variable (js : Shell) {item item' : Fields} {v : Option Value}

variable {src : Detail} {there : List String → Bool} {key : String}

/-! ## Secrets -/

/-- A secret as a vault stores one: a text, `null` or nothing. -/
def SecretText (v : Option Value) : Prop := ∀ value ∈ v, value = .null ∨ ∃ s, value = .string s

theorem secretText_none : SecretText none := by
  rintro value ⟨⟩

theorem secretText_null : SecretText (some .null) := fun _ hvalue =>
  .inl (Option.some.inj hvalue).symm

theorem secretText_string (s : String) : SecretText (some (.string s)) := fun _ hvalue =>
  .inr ⟨s, (Option.some.inj hvalue).symm⟩

theorem SecretText.cases (h : SecretText v) :
    v = none ∨ v = some .null ∨ ∃ s, v = some (.string s) := by
  cases v with
  | none => exact .inl rfl
  | some value =>
    rcases h value rfl with rfl | ⟨s, rfl⟩
    · exact .inr (.inl rfl)
    · exact .inr (.inr ⟨s, rfl⟩)

theorem truthy_eq_present {path : List String} (h : SecretText (get item path)) :
    present item path = truthy (get item path) := by
  unfold present
  rcases h.cases with hget | hget | ⟨s, hget⟩ <;> rw [hget] <;> rfl

/-- A stored secret shows as an empty text exactly if it counts as missing. -/
theorem text_ne_empty (h : SecretText v) : (js.text v ≠ "") ↔ truthy v := by
  rcases h.cases with rfl | rfl | ⟨s, rfl⟩
  · simp [Coercions.text, truthy]
  · simp [Coercions.text, truthy]
  · by_cases hs : s = "" <;>
      simp [Coercions.text, truthy, hs, Coercions.stringOf, js.string_string]

theorem get_nested (item : Fields) (owner key : String) :
    get item [owner, key] = (part item owner).lookup key := by
  rw [part]
  unfold Vault.get
  cases item.lookup owner with
  | none => rfl
  | some value => cases value <;> rfl

def textSecrets : List (List String) :=
  [["login", "password"], ["login", "totp"], ["notes"], ["card", "number"], ["card", "code"],
    ["identity", "ssn"], ["identity", "passportNumber"], ["identity", "licenseNumber"]]

/-- An item of the four ordinary types with stored secrets. Nothing is asked of custom fields. -/
structure Storable (item : Fields) : Prop where
  ordinary : ∃ n, 1 ≤ n ∧ n ≤ 4 ∧ item.lookup "type" = some (.number (.posInt n))
  secrets : ∀ path ∈ textSecrets, SecretText (get item path)

/-! ## The public view -/

/-- The public view of an item, given which of its secrets are there. -/
def publicOf (there : List String → Bool) (it : Fields) : Detail where
  id := js.text (it.lookup "id")
  organizationId := (js.textOrNull (it.lookup "organizationId")).filter (· ≠ "")
  folderId := (js.textOrNull (it.lookup "folderId")).filter (· ≠ "")
  name := orElse (js.textOr (it.lookup "name") untitled) untitled
  type := itemTypeName js (it.lookup "type")
  typeCode := codeOr (numberOr js (it.lookup "type") 1)
  favorite := truthy (it.lookup "favorite")
  username := js.text ((part it "login").lookup "username")
  hasPassword := there ["login", "password"]
  hasNotes := there ["notes"]
  hasTotp := there ["login", "totp"]
  uris := loginUris js (part it "login")
  reprompt := repromptValue js (it.lookup "reprompt")
  attachments := parseAttachments js (it.lookup "attachments")
  hasAttachments := !(parseAttachments js (it.lookup "attachments")).isEmpty
  card :=
    if truthy (it.lookup "card") then
      some (Texts.of cardKeys fun key =>
        if key = "number" ∨ key = "code" then mark (there ["card", key])
        else js.text ((part it "card").lookup key))
    else none
  identity :=
    if truthy (it.lookup "identity") then
      some (Texts.of identityKeys fun key =>
        if key ∈ identityNumbers then mark (there ["identity", key])
        else js.text ((part it "identity").lookup key))
    else none
  fields := (itemCustomFields js (it.lookup "fields") it).map publicField
  secretsWithheld := true

theorem publicCard_of (src : Detail) (f : String → String) :
    publicCard src (Texts.of cardKeys f) = Texts.of cardKeys fun key =>
      if key = "code" then mark (src.has "cardCode" (f "code"))
      else if key = "number" then mark (f "number" ≠ "")
      else f key := by
  have hnumber : (Texts.of cardKeys f).get "number" = f "number" := Texts.get_of (by decide)
  have hcode : (Texts.of cardKeys f).get "code" = f "code" := Texts.get_of (by decide)
  rw [publicCard, Texts.of_get]
  by_cases hempty : f "number" = ""
  · simp only [hnumber, hempty, ne_eq, not_true_eq_false, if_false, hcode, Texts.set_of]
    refine Texts.of_congr fun key _ => ?_
    by_cases hkey : key = "number"
    · subst hkey
      simp [mark, hempty]
    · simp [hkey]
  · have hset : (Texts.of cardKeys fun other => if other = "number" then withheld else f other).get
        "code" = f "code" := by
      rw [Texts.get_of (by decide), if_neg (by decide)]
    simp only [hnumber, hempty, ne_eq, not_false_eq_true, if_true, Texts.set_of, hset]
    refine Texts.of_congr fun key _ => ?_
    by_cases hkey : key = "number"
    · subst hkey
      simp [mark]
    · simp [hkey]

theorem publicIdentity_of (src : Detail) (f : String → String) :
    publicIdentity src (Texts.of identityKeys f) = Texts.of identityKeys fun key =>
      if key ∈ identityNumbers then mark (src.has key (f key)) else f key := by
  -- One number at a time; the other two are read as they were.
  have hset : ∀ (g : String → String) (key : String), key ∈ identityKeys →
      (Texts.of identityKeys g).set key (mark (src.has key ((Texts.of identityKeys g).get key)))
        = Texts.of identityKeys fun other => if other = key then mark (src.has key (g key)) else g other := by
    intro g key hkey
    rw [Texts.set_of, Texts.get_of hkey]
  rw [publicIdentity, Texts.of_get, identityNumbers, List.foldl_cons, hset _ _ (by decide),
    List.foldl_cons, hset _ _ (by decide), List.foldl_cons, hset _ _ (by decide), List.foldl_nil]
  refine Texts.of_congr fun key _ => ?_
  simp only [List.mem_cons, List.not_mem_nil, or_false]
  grind

theorem length_toList (v : Option Value) : (toList js v).length ≤ maxListEntries := by
  unfold toList
  split
  · rw [List.length_map]
    exact List.length_take_le _ _
  · split
    · split
      · rw [List.length_map, List.length_range]
        exact Nat.min_le_right _ _
      · exact Nat.zero_le _
    · exact Nat.zero_le _
  · exact Nat.zero_le _

/-- A list that is not cut. -/
theorem toList_listed {v : Option Value}
    (hv : v = none ∨ v = some .null ∨ ∃ entries, v = some (.array entries))
    (hfew : (match v with | some (.array entries) => entries | _ => []).length ≤ maxListEntries) :
    toList js v = (match v with | some (.array entries) => entries | _ => []).map some := by
  rcases hv with rfl | rfl | ⟨entries, rfl⟩
  · rfl
  · rfl
  · exact congrArg (List.map some) (List.take_of_length_le hfew)

/-- What is read off a list is not cut again. -/
theorem take_filterMap {α β : Type*} {l : List α} (f : α → Option β)
    (h : l.length ≤ maxListEntries) : (l.filterMap f).take maxListEntries = l.filterMap f :=
  List.take_of_length_le (Nat.le_trans (List.length_filterMap_le f l) h)

theorem take_customFields (fields : Option Value) (item : Fields) :
    (itemCustomFields js fields item).take maxListEntries = itemCustomFields js fields item := by
  refine take_filterMap _ ?_
  rw [List.length_zipIdx]
  exact length_toList js fields

theorem repromptValue_bit (v : Option Value) :
    (if repromptValue js v = 1 then 1 else 0) = repromptValue js v := by
  unfold repromptValue
  split <;> rfl

theorem notSsh (h : Storable item) : js.numberOf (item.lookup "type") ≠ .int 5 := by
  obtain ⟨n, -, hn, htype⟩ := h.ordinary
  rw [htype, Coercions.numberOf, js.number_posInt n (by omega)]
  intro hfive
  have : (n : Int) = 5 := Js.Num.int.inj hfive
  omega

/-- The card of a public view, whichever way its secrets are known. -/
theorem card_public {it : Fields}
    (hnumber : (js.text ((part it "card").lookup "number") ≠ "") ↔ there ["card", "number"])
    (hcode : src.has "cardCode" (js.text ((part it "card").lookup "code")) = there ["card", "code"])
    : (cardDetail js (it.lookup "card")).map (publicCard src) = (publicOf js there it).card := by
  rw [cardDetail, textsOf, publicOf]
  dsimp only
  by_cases hcard : truthy (it.lookup "card")
  · rw [if_pos hcard, if_pos hcard, Option.map_some, publicCard_of]
    have hnumber := Bool.eq_iff_iff.mpr (decide_eq_true_iff.trans hnumber)
    refine congrArg some (Texts.of_congr fun key _ => ?_)
    split_ifs <;> grind [part]
  · rw [if_neg hcard, if_neg hcard]
    rfl

theorem identity_public {it : Fields}
    (h : ∀ key ∈ identityNumbers, src.has key (js.text ((part it "identity").lookup key))
      = there ["identity", key]) :
    (identityDetail js (it.lookup "identity")).map (publicIdentity src)
      = (publicOf js there it).identity := by
  rw [identityDetail, textsOf, publicOf]
  dsimp only
  by_cases hidentity : truthy (it.lookup "identity")
  · rw [if_pos hidentity, if_pos hidentity, Option.map_some, publicIdentity_of]
    refine congrArg some (Texts.of_congr fun key _ => ?_)
    split_ifs with hkey
    · exact congrArg mark (h key hkey)
    · rfl
  · rw [if_neg hidentity, if_neg hidentity]
    rfl

/-- A row or a detail of `it`: what is common to both, and what is known of the secrets. -/
def drawn (it : Fields) (hasPassword hasNotes hasTotp : Bool) (flags raw : Option Fields)
    (held : Bool) : Detail :=
  { ordinaryDetail js it with
    hasPassword, hasNotes, hasTotp, heldFlags := flags, rawObject := raw, secretsHeld := held }

theorem public_drawn {it : Fields} {hasPassword hasNotes hasTotp : Bool}
    {flags raw : Option Fields} {held : Bool}
    (hpassword : hasPassword = there ["login", "password"])
    (hnotes : (hasNotes || js.text (it.lookup "notes") ≠ "") = there ["notes"])
    (htotp : hasTotp = there ["login", "totp"])
    (hnumber : (js.text ((part it "card").lookup "number") ≠ "") ↔ there ["card", "number"])
    (hcode : (drawn js it hasPassword hasNotes hasTotp flags raw held).has "cardCode"
      (js.text ((part it "card").lookup "code")) = there ["card", "code"])
    (hidentity : ∀ key ∈ identityNumbers, (drawn js it hasPassword hasNotes hasTotp flags raw held).has
      key (js.text ((part it "identity").lookup key)) = there ["identity", key]) :
    publicItemDetail (drawn js it hasPassword hasNotes hasTotp flags raw held)
      = publicOf js there it := by
  generalize hd : drawn js it hasPassword hasNotes hasTotp flags raw held = d at hcode hidentity ⊢
  have huris : d.uris.take maxListEntries = loginUris js (part it "login") := by
    rw [← hd]
    exact take_filterMap _ (length_toList js _)
  have hattachments : d.attachments.take maxListEntries
      = parseAttachments js (it.lookup "attachments") := by
    rw [← hd]
    exact take_filterMap _ (length_toList js _)
  have hfields : d.fields.take maxListEntries = itemCustomFields js (it.lookup "fields") it := by
    rw [← hd]
    exact take_customFields js _ it
  have hcard : d.card.map (publicCard d) = (publicOf js there it).card := by
    rw [← card_public js hnumber hcode, ← hd]
    rfl
  have hid : d.identity.map (publicIdentity d) = (publicOf js there it).identity := by
    rw [← identity_public js hidentity, ← hd]
    rfl
  have hreprompt : (if d.reprompt = 1 then 1 else 0) = repromptValue js (it.lookup "reprompt") := by
    rw [← hd]
    exact repromptValue_bit js _
  have hnotes' : (d.hasNotes || d.notes ≠ "") = there ["notes"] := by
    rw [← hd]
    exact hnotes
  rw [publicItemDetail, huris, hattachments, hfields, hcard, hid, hreprompt, hnotes', ← hd, publicOf,
    ← hpassword, ← htotp]
  rfl

/-- The public view of a loaded detail. -/
theorem public_of_detail (h : Storable item) :
    publicItemDetail (itemDetailFromObject js item)
      = publicOf js (fun path => truthy (get item path)) item := by
  have hsecret : ∀ owner key, [owner, key] ∈ textSecrets →
      ((js.text ((part item owner).lookup key) ≠ "") ↔ truthy (get item [owner, key])) := by
    intro owner key hpath
    have htext := h.secrets _ hpath
    rw [get_nested] at htext ⊢
    exact text_ne_empty js htext
  have hnotes : SecretText (item.lookup "notes") := h.secrets ["notes"] (by decide)
  -- Without a helper's report, a secret is there if its text is not empty.
  have hhas : ∀ flag owner key, [owner, key] ∈ textSecrets →
      (ordinaryDetail js item).has flag (js.text ((part item owner).lookup key))
        = truthy (get item [owner, key]) := by
    intro flag owner key hpath
    exact Bool.eq_iff_iff.mpr (decide_eq_true_iff.trans (hsecret owner key hpath))
  have hdrawn : ordinaryDetail js item = drawn js item
      (truthy ((part item "login").lookup "password")) (truthy (item.lookup "notes"))
      (truthy ((part item "login").lookup "totp")) none (some item) false := rfl
  rw [itemDetailFromObject, if_neg (notSsh js h), hdrawn]
  refine public_drawn js (by rw [get_nested]) ?_ (by rw [get_nested])
    (hsecret _ _ (by decide)) (hhas _ _ _ (by decide)) ?_
  · show (truthy (item.lookup "notes") || decide (js.text (item.lookup "notes") ≠ ""))
      = truthy (item.lookup "notes")
    by_cases htruthy : truthy (item.lookup "notes")
    · rw [htruthy, Bool.true_or]
    · have hempty : ¬js.text (item.lookup "notes") ≠ "" :=
        fun hne => htruthy ((text_ne_empty js hnotes).mp hne)
      rw [decide_eq_false hempty, Bool.or_false]
  · intro key hkey
    apply hhas
    revert key
    decide

/-! ## Items that show the same -/

def loginSecretKeys : List String := ["password", "totp", "fido2Credentials"]

def cardSecretKeys : List String := ["number", "code"]

def editedKeys : List String :=
  ["login", "card", "identity", "notes", "passwordHistory", "fields", "qsbwHeld"]

/-- One custom field, but for the value of a hidden one. -/
def SameField (entry entry' : Option Value) : Prop :=
  (∀ key ≠ "value", (props entry').lookup key = (props entry).lookup key)
    ∧ (numberOr js ((props entry).lookup "type") 0 = .int 1
      ∨ (props entry').lookup "value" = (props entry).lookup "value")

/-- Two items with the same public texts. -/
structure Alike (item item' : Fields) : Prop where
  outer : ∀ key ∉ editedKeys, item'.lookup key = item.lookup key
  login : ∀ key ∉ loginSecretKeys,
    (part item' "login").lookup key = (part item "login").lookup key
  card : ∀ key ∉ cardSecretKeys, (part item' "card").lookup key = (part item "card").lookup key
  identity : ∀ key ∉ identityNumbers,
    (part item' "identity").lookup key = (part item "identity").lookup key
  hasCard : truthy (item'.lookup "card") = truthy (item.lookup "card")
  hasIdentity : truthy (item'.lookup "identity") = truthy (item.lookup "identity")
  fields : List.Forall₂ (SameField js) (toList js (item.lookup "fields"))
    (toList js (item'.lookup "fields"))

variable {js}

/-- A link that is not to a secret is to a public text. -/
theorem linkedPath_public {id : Int} {owner : String} (hpath : linkedPath id = some (owner, key))
    (hid : ¬linkedCustomFieldIsSensitive (some (.int id))) :
    (owner = "login" ∧ key ∉ loginSecretKeys) ∨ (owner = "card" ∧ key ∉ cardSecretKeys)
      ∨ (owner = "identity" ∧ key ∉ identityNumbers) := by
  unfold linkedPath at hpath
  split at hpath <;> cases hpath <;> first | exact absurd (by decide) hid | decide

/-- The text at the end of a link other than the one to the full name. -/
def linkedText (js : Shell) (item : Fields) (path : Option (String × String)) : String :=
  match path with
  | some (owner, key) => js.shown ((part item owner).lookup key)
  | none => ""

theorem linkedCustomFieldValue_int {linkedId : Option Js.Num} {id : Int}
    (hid : linkNumber linkedId = .int id) (item : Fields) :
    linkedCustomFieldValue js item linkedId
      = if id = 418 then identityFullName js (part item "identity")
        else linkedText js item (linkedPath id) := by
  unfold linkedCustomFieldValue
  rw [hid]
  by_cases h : id = 418
  · subst h
    rfl
  · rw [if_neg h]
    split
    · rename_i heq
      exact absurd (Js.Num.int.inj heq) h
    · rename_i heq
      rw [Js.Num.int.inj heq]
      rfl
    · rename_i heq
      cases heq

variable (h : Alike js item item')
include h

theorem Alike.fullName :
    identityFullName js (part item' "identity") = identityFullName js (part item "identity") := by
  have hname : ∀ key ∈ nameKeys, key ∉ identityNumbers := by decide
  unfold identityFullName joinName
  rw [List.map_congr_left fun key hkey => by rw [h.identity key (hname key hkey)]]

theorem Alike.linked {linkedId : Option Js.Num} (hpublic : ¬linkedCustomFieldIsSensitive linkedId) :
    linkedCustomFieldValue js item' linkedId = linkedCustomFieldValue js item linkedId := by
  cases hid : linkNumber linkedId with
  | other bits =>
    unfold linkedCustomFieldValue
    rw [hid]
  | int id =>
    rw [linkedCustomFieldValue_int hid, linkedCustomFieldValue_int hid]
    by_cases hname : id = 418
    · rw [if_pos hname, if_pos hname, h.fullName]
    · rw [if_neg hname, if_neg hname]
      cases hpath : linkedPath id with
      | none => rfl
      | some path =>
        obtain ⟨owner, key⟩ := path
        have hid' : ¬linkedCustomFieldIsSensitive (some (.int id)) := by
          unfold linkedCustomFieldIsSensitive at hpublic ⊢
          rw [hid] at hpublic
          exact hpublic
        show js.shown ((part item' owner).lookup key) = js.shown ((part item owner).lookup key)
        rcases linkedPath_public hpath hid' with ⟨rfl, hkey⟩ | ⟨rfl, hkey⟩ | ⟨rfl, hkey⟩
        · rw [h.login key hkey]
        · rw [h.card key hkey]
        · rw [h.identity key hkey]

theorem Alike.field_public {entry entry' : Option Value} (hentry : SameField js entry entry')
    (index : Nat) :
    (customField js item' entry' index).map publicField
      = (customField js item entry index).map publicField := by
  obtain ⟨hkeys, hvalue⟩ := hentry
  have hname := hkeys "name" (by decide)
  have htype := hkeys "type" (by decide)
  have hlinkedId : fieldLink js (props entry') = fieldLink js (props entry) := by
    rw [fieldLink, fieldLink, hkeys "linkedId" (by decide)]
  unfold customField
  rw [hname]
  by_cases hnamed : truthy ((props entry).lookup "name")
  · rw [if_pos hnamed, if_pos hnamed, Option.map_some, Option.map_some, publicField, publicField,
      fieldRow, fieldRow]
    dsimp only
    rw [hname, htype, hlinkedId]
    generalize numberOr js ((props entry).lookup "type") 0 = type at hvalue ⊢
    generalize fieldLink js (props entry) = linkedId
    -- Only a value that is not withheld has to be the same.
    by_cases hsensitive : type = .int 1 ∨ (type = .int 3 ∧ linkedCustomFieldIsSensitive linkedId)
    · have hbool : (decide (type = .int 1)
          || (decide (type = .int 3) && linkedCustomFieldIsSensitive linkedId)) = true := by
        simpa using hsensitive
      rw [hbool, if_pos rfl, if_pos rfl]
    · obtain ⟨hhidden, hlinked⟩ := not_or.mp hsensitive
      have hshown := hvalue.resolve_left hhidden
      by_cases hthree : type = .int 3
      · have hpublic : ¬linkedCustomFieldIsSensitive linkedId := fun hs => hlinked ⟨hthree, hs⟩
        rw [if_pos hthree, if_pos hthree, h.linked hpublic]
      · rw [if_neg hthree, if_neg hthree, hshown]
  · rw [if_neg hnamed, if_neg hnamed]

omit h

/-- Lists related entry by entry give the same rows if related entries do. -/
theorem rows_congr {α β γ : Type*} {related : α → α → Prop} {F F' : α → Nat → Option β} {P : β → γ}
    (hF : ∀ a a' i, related a a' → (F' a' i).map P = (F a i).map P) {l l' : List α}
    (h : List.Forall₂ related l l') (start : Nat) :
    ((l'.zipIdx start).filterMap fun e => F' e.1 e.2).map P
      = ((l.zipIdx start).filterMap fun e => F e.1 e.2).map P := by
  induction h generalizing start with
  | nil => simp
  | @cons a a' rest rest' ha _ ih =>
    have hfirst := hF a a' start ha
    rw [List.zipIdx_cons, List.zipIdx_cons, List.filterMap_cons, List.filterMap_cons]
    cases hnew : F' a' start <;> cases hold : F a start <;> simp_all

theorem Alike.fields_public (h : Alike js item item') :
    (itemCustomFields js (item'.lookup "fields") item').map publicField
      = (itemCustomFields js (item.lookup "fields") item).map publicField := by
  have hentries : ∀ entry entry' index, SameField js entry entry' →
      (customField js item' entry' index).map publicField
        = (customField js item entry index).map publicField :=
    fun entry entry' index hentry => h.field_public hentry index
  exact rows_congr hentries h.fields 0

/-- What is masked is one where it has to be, and the other elsewhere. -/
theorem masked_congr (secret : String → Prop) [DecidablePred secret] {m m' g g' : String → String}
    (hm : ∀ key, secret key → m key = m' key) (hg : ∀ key, ¬secret key → g key = g' key) :
    (fun key => if secret key then m key else g key)
      = fun key => if secret key then m' key else g' key := by
  funext key
  split_ifs with hkey
  · exact hm key hkey
  · exact hg key hkey

/-- The public view is the same for items that are alike, with the same secrets there. -/
theorem publicOf_congr (h : Alike js item item') {there' : List String → Bool}
    (hthere : ∀ path ∈ textSecrets, there' path = there path) :
    publicOf js there' item' = publicOf js there item := by
  have hcards : ∀ key, key = "number" ∨ key = "code" → ["card", key] ∈ textSecrets := by
    rintro key (rfl | rfl) <;> decide
  have hcard := masked_congr (fun key => key = "number" ∨ key = "code")
    (fun key hkey => congrArg mark (hthere ["card", key] (hcards key hkey)))
    fun key hkey => congrArg js.text (h.card key (by simpa [cardSecretKeys] using hkey))
  have hidentities : ∀ key ∈ identityNumbers, ["identity", key] ∈ textSecrets := by decide
  have hidentity := masked_congr (· ∈ identityNumbers)
    (fun key hkey => congrArg mark (hthere ["identity", key] (hidentities key hkey)))
    fun key hkey => congrArg js.text (h.identity key hkey)
  have huris : loginUris js (part item' "login") = loginUris js (part item "login") := by
    unfold loginUris
    rw [h.login "uris" (by decide)]
  unfold publicOf
  rw [h.fields_public, h.hasCard, h.hasIdentity, huris, h.login "username" (by decide),
    h.outer "id" (by decide), h.outer "organizationId" (by decide), h.outer "folderId" (by decide),
    h.outer "name" (by decide), h.outer "type" (by decide), h.outer "favorite" (by decide),
    h.outer "reprompt" (by decide), h.outer "attachments" (by decide), hcard, hidentity,
    hthere ["login", "password"] (by decide), hthere ["login", "totp"] (by decide),
    hthere ["notes"] (by decide)]

/-! ## What the helper leaves -/

theorem props_map (f : Fields → Fields) (hf : f [] = []) (v : Option Value) :
    props (v.map (onObject f)) = f (props v) := by
  cases v with
  | none => exact hf.symm
  | some value => cases value <;> first | rfl | exact hf.symm

theorem truthy_map_onObject (f : Fields → Fields) (v : Option Value) :
    truthy (v.map (onObject f)) = truthy v := by
  cases v with
  | none => rfl
  | some value => cases value <;> rfl

/-- What stripping does to the value of a key. -/
def stripKey (key : String) : Option (Value → Value) :=
  if key = "login" then some (onObject stripLogin)
  else if key = "card" then some (onObject stripCard)
  else if key = "identity" then some (onObject stripIdentity)
  else if key = "notes" then none
  else if key = "passwordHistory" then none
  else if key = "fields" then some (onArray stripCustom)
  else some id

theorem stripItem_eq_edit (item : Fields) :
    stripItem item = Fields.insert "qsbwHeld" (.object (heldFlags item)) (item.edit stripKey) := by
  rw [stripItem_eq]
  congr 2
  funext ⟨key, value⟩
  unfold stripEntry stripKey
  dsimp only
  split_ifs <;> rfl

theorem lookup_stripItem (item : Fields) (h : key ≠ "qsbwHeld") :
    (stripItem item).lookup key
      = (stripKey key).bind fun change => (item.lookup key).map change := by
  rw [stripItem_eq_edit, Fields.lookup_insert, if_neg h, Fields.lookup_edit]

/-- An object that a key's change edits. -/
theorem props_edit {by' : String → Option (Value → Value)} (f : Fields → Fields)
    (hkey : by' key = some (onObject f)) (hf : f [] = []) (item : Fields) :
    props ((item.edit by').lookup key) = f (part item key) := by
  rw [Fields.lookup_edit, hkey]
  exact props_map f hf _

theorem part_strip {f : Fields → Fields} (hkey : stripKey key = some (onObject f))
    (hf : f [] = []) (hheld : key ≠ "qsbwHeld") (item : Fields) :
    part (stripItem item) key = f (part item key) := by
  rw [part, stripItem_eq_edit, Fields.lookup_insert, if_neg hheld, props_edit f hkey hf]

theorem part_strip_login (item : Fields) :
    part (stripItem item) "login" = stripLogin (part item "login") :=
  part_strip rfl rfl (by decide) item

theorem part_strip_card (item : Fields) :
    part (stripItem item) "card" = stripCard (part item "card") :=
  part_strip rfl rfl (by decide) item

theorem part_strip_identity (item : Fields) :
    part (stripItem item) "identity" = stripIdentity (part item "identity") :=
  part_strip rfl rfl (by decide) item

theorem lookup_stripLogin (login : Fields) (key : String) : (stripLogin login).lookup key
    = if key ∈ loginSecretKeys then none else login.lookup key := by
  unfold stripLogin loginSecretKeys
  rw [Fields.lookup_remove, Fields.lookup_remove, Fields.lookup_remove]
  split_ifs <;> simp_all

theorem lookup_stripIdentity (identity : Fields) (key : String) :
    (stripIdentity identity).lookup key
      = if key ∈ identityNumbers then none else identity.lookup key := by
  unfold stripIdentity identityNumbers
  rw [Fields.lookup_remove, Fields.lookup_remove, Fields.lookup_remove]
  split_ifs <;> simp_all

theorem lookup_stripCard (card : Fields) (h : key ∉ cardSecretKeys) :
    (stripCard card).lookup key = card.lookup key := by
  simp only [cardSecretKeys, List.mem_cons, List.not_mem_nil, or_false, not_or] at h
  unfold stripCard
  rw [Fields.lookup_modify, if_neg h.1, Fields.lookup_remove, if_neg h.2]

theorem sameField_stripCustom (entry : Value) :
    SameField js (some entry) (some (stripCustom entry)) := by
  unfold stripCustom
  by_cases hhidden : (entry.get "type").bind Value.asU64 = some 1
  · rw [if_pos hhidden]
    cases entry with
    | object map =>
      constructor
      · intro key hkey
        show (Fields.remove "value" map).lookup key = map.lookup key
        rw [Fields.lookup_remove, if_neg hkey]
      · obtain ⟨type, hlookup, htype⟩ := Option.bind_eq_some_iff.mp hhidden
        left
        show numberOr js (map.lookup "type") 0 = .int 1
        rw [show map.lookup "type" = some type from hlookup, Value.asU64_eq_some.mp htype]
        exact js.number_posInt 1 (by decide)
    | _ => exact ⟨fun _ _ => rfl, .inr rfl⟩
  · rw [if_neg hhidden]
    exact ⟨fun _ _ => rfl, .inr rfl⟩

theorem SameField.refl (entry : Option Value) : SameField js entry entry :=
  ⟨fun _ _ => rfl, .inr rfl⟩

theorem sameFields_onArray (v : Option Value) : List.Forall₂ (SameField js) (toList js v)
    (toList js (v.map (onArray stripCustom))) := by
  have hsame : ∀ l : List (Option Value), List.Forall₂ (SameField js) l l := by
    intro l
    exact List.forall₂_same.mpr fun entry _ => SameField.refl entry
  cases v with
  | none => exact hsame _
  | some value =>
    cases value with
    | array items =>
      show List.Forall₂ (SameField js) ((items.take maxListEntries).map some)
        (((items.map stripCustom).take maxListEntries).map some)
      rw [← List.map_take, List.map_map, List.forall₂_map_left_iff, List.forall₂_map_right_iff]
      exact List.forall₂_same.mpr fun entry _ => sameField_stripCustom entry
    | _ => exact hsame _

theorem alike_stripItem (item : Fields) : Alike js item (stripItem item) where
  outer key hkey := by
    simp only [editedKeys, List.mem_cons, List.not_mem_nil, or_false, not_or] at hkey
    rw [lookup_stripItem item hkey.2.2.2.2.2.2]
    simp [stripKey, hkey]
  login key hkey := by rw [part_strip_login, lookup_stripLogin, if_neg hkey]
  card key hkey := by rw [part_strip_card, lookup_stripCard _ hkey]
  identity key hkey := by rw [part_strip_identity, lookup_stripIdentity, if_neg hkey]
  hasCard := by
    rw [lookup_stripItem item (by decide)]
    exact truthy_map_onObject stripCard _
  hasIdentity := by
    rw [lookup_stripItem item (by decide)]
    exact truthy_map_onObject stripIdentity _
  fields := by
    rw [lookup_stripItem item (by decide)]
    exact sameFields_onArray _

/-- The flags of the helper's record, and the secrets they are for. -/
def flagPaths : List (String × List String) :=
  [("password", ["login", "password"]), ("totp", ["login", "totp"]), ("notes", ["notes"]),
    ("cardCode", ["card", "code"]), ("ssn", ["identity", "ssn"]),
    ("passportNumber", ["identity", "passportNumber"]),
    ("licenseNumber", ["identity", "licenseNumber"])]

theorem lookup_heldFlags (item : Fields) : ∀ flag ∈ flagPaths,
    (heldFlags item).lookup flag.1 = some (.bool (present item flag.2)) := by
  simp [flagPaths, heldFlags, Fields.lookup_insert]

/-- Every flag says whether its secret is there. -/
theorem truthy_heldFlags (h : Storable item) {flag : String} {path : List String}
    (hflag : (flag, path) ∈ flagPaths) :
    truthy ((heldFlags item).lookup flag) = truthy (get item path) := by
  have hpaths : ∀ entry ∈ flagPaths, entry.2 ∈ textSecrets := by decide
  rw [lookup_heldFlags item _ hflag, ← truthy_eq_present (h.secrets path (hpaths _ hflag))]
  rfl

theorem lastFour_eq_empty (s : String) : lastFour s = "" ↔ s = "" := by
  unfold lastFour
  constructor
  · intro h
    have hlist : (s.toList.reverse.take 4).reverse = [] := by
      rw [← String.toList_ofList (l := (s.toList.reverse.take 4).reverse), h]
      rfl
    have hnil : s.toList = [] := by simpa using hlist
    rw [← String.ofList_toList (s := s), hnil]
  · intro h
    subst h
    rfl

/-- A card number that is there is still there when only its end is left. -/
theorem stripDigits_shown (h : SecretText v) : (js.text (v.map stripDigits) ≠ "") ↔ truthy v := by
  rcases h.cases with rfl | rfl | ⟨s, rfl⟩
  · exact text_ne_empty js h
  · exact text_ne_empty js h
  · refine (text_ne_empty js (secretText_string (lastFour s))).trans ?_
    simp [truthy, lastFour_eq_empty]

/-- The public view of the row of a stripped item. -/
theorem public_of_row (h : Storable item) :
    publicItemDetail (itemRow js (stripItem item))
      = publicOf js (fun path => truthy (get item path)) (stripItem item) := by
  have hrecord : heldRecord (stripItem item) = some (heldFlags item) := by
    rw [heldRecord, stripItem_eq_edit, Fields.lookup_insert, if_pos rfl]
  have hlogin : ∀ key ∈ loginSecretKeys, (part (stripItem item) "login").lookup key = none := by
    intro key hkey
    rw [part_strip_login, lookup_stripLogin, if_pos hkey]
  have hnotes : (stripItem item).lookup "notes" = none := by
    rw [lookup_stripItem item (by decide)]
    rfl
  have hdrawn : itemRow js (stripItem item) = drawn js (stripItem item)
      (truthy (get item ["login", "password"])) (truthy (get item ["notes"]))
      (truthy (get item ["login", "totp"])) (some (heldFlags item)) none true := by
    unfold itemRow drawn ordinaryDetail
    rw [hrecord]
    dsimp only
    rw [hlogin "password" (by decide), hlogin "totp" (by decide), hnotes,
      ← truthy_heldFlags h (show ("password", ["login", "password"]) ∈ flagPaths by decide),
      ← truthy_heldFlags h (show ("notes", ["notes"]) ∈ flagPaths by decide),
      ← truthy_heldFlags h (show ("totp", ["login", "totp"]) ∈ flagPaths by decide)]
    have hnone : truthy none = false := rfl
    simp only [Option.any_some, Option.isSome_some, if_true, hnone, Bool.false_or]
  -- A flag settles whether its secret is there.
  have hhas : ∀ {flag path} value, (flag, path) ∈ flagPaths →
      (itemRow js (stripItem item)).has flag value = truthy (get item path) := by
    intro flag path value hflag
    have hreport : (itemRow js (stripItem item)).heldFlags = some (heldFlags item) := by
      rw [hdrawn, drawn]
    rw [Detail.has, hreport, Option.getD_some, ← truthy_heldFlags h hflag,
      lookup_heldFlags item _ hflag]
  rw [hdrawn] at hhas ⊢
  refine public_drawn js rfl ?_ rfl ?_ (hhas _ (by decide)) ?_
  · rw [hnotes]
    exact Bool.or_false _
  · rw [part_strip_card, stripCard, Fields.lookup_modify, if_pos rfl, Fields.lookup_remove,
      if_neg (by decide), get_nested]
    apply stripDigits_shown
    rw [← get_nested]
    exact h.secrets _ (by decide)
  · intro key hkey
    apply hhas
    revert key
    decide

/-! ## What a secret is worth to the view -/

/-- One fixed text in place of a secret that is there, and no entry for one that is not. -/
def blankText (key : String) (fields : Fields) : Fields :=
  if truthy (fields.lookup key) then fields.modify key fun _ => .string withheld
  else fields.remove key

/-- What is left of an item that only tells which secrets are there. -/
def blank (item : Fields) : Fields :=
  blankText "notes" <| item.edit fun key =>
    if key = "login" then some (onObject fun login => blankText "totp" (blankText "password" login))
    else if key = "card" then some (onObject fun card => blankText "code" (blankText "number" card))
    else if key = "identity" then some (onObject fun identity =>
      blankText "licenseNumber" (blankText "passportNumber" (blankText "ssn" identity)))
    else if key = "fields" then some (onArray stripCustom)
    else some id

theorem lookup_blankText_ne {key' : String} (h : key' ≠ key) (fields : Fields) :
    (blankText key fields).lookup key' = fields.lookup key' := by
  unfold blankText
  grind [Fields.lookup_modify, Fields.lookup_remove]

theorem truthy_blankText (key other : String) (fields : Fields) :
    truthy ((blankText key fields).lookup other) = truthy (fields.lookup other) := by
  by_cases hkey : other = key
  swap
  · rw [lookup_blankText_ne hkey]
  subst hkey
  unfold blankText
  split_ifs with ht
  · rw [Fields.lookup_modify, if_pos rfl, ht]
    cases hlookup : fields.lookup other with
    | none => simp [hlookup, truthy] at ht
    | some value => rfl
  · rw [Fields.lookup_remove, if_pos rfl, Bool.eq_false_iff.mpr ht]
    rfl

theorem lookup_blank_fields (item : Fields) :
    (blank item).lookup "fields" = (item.lookup "fields").map (onArray stripCustom) := by
  rw [blank, lookup_blankText_ne (by decide), Fields.lookup_edit]
  rfl

theorem part_blank_login (item : Fields) : part (blank item) "login"
    = blankText "totp" (blankText "password" (part item "login")) := by
  rw [part, blank, lookup_blankText_ne (by decide)]
  exact props_edit (fun login => blankText "totp" (blankText "password" login)) rfl rfl item

theorem part_blank_card (item : Fields) : part (blank item) "card"
    = blankText "code" (blankText "number" (part item "card")) := by
  rw [part, blank, lookup_blankText_ne (by decide)]
  exact props_edit (fun card => blankText "code" (blankText "number" card)) rfl rfl item

theorem part_blank_identity (item : Fields) : part (blank item) "identity"
    = blankText "licenseNumber" (blankText "passportNumber" (blankText "ssn" (part item "identity"))) := by
  rw [part, blank, lookup_blankText_ne (by decide)]
  exact props_edit (fun identity =>
    blankText "licenseNumber" (blankText "passportNumber" (blankText "ssn" identity))) rfl rfl item

theorem alike_blank (item : Fields) : Alike js item (blank item) where
  outer key hkey := by
    simp only [editedKeys, List.mem_cons, List.not_mem_nil, or_false, not_or] at hkey
    rw [blank, lookup_blankText_ne hkey.2.2.2.1, Fields.lookup_edit]
    simp [hkey]
  login key hkey := by
    simp only [loginSecretKeys, List.mem_cons, List.not_mem_nil, or_false, not_or] at hkey
    rw [part_blank_login, lookup_blankText_ne hkey.2.1, lookup_blankText_ne hkey.1]
  card key hkey := by
    simp only [cardSecretKeys, List.mem_cons, List.not_mem_nil, or_false, not_or] at hkey
    rw [part_blank_card, lookup_blankText_ne hkey.2, lookup_blankText_ne hkey.1]
  identity key hkey := by
    simp only [identityNumbers, List.mem_cons, List.not_mem_nil, or_false, not_or] at hkey
    rw [part_blank_identity, lookup_blankText_ne hkey.2.2, lookup_blankText_ne hkey.2.1,
      lookup_blankText_ne hkey.1]
  hasCard := by
    rw [blank, lookup_blankText_ne (by decide), Fields.lookup_edit]
    exact truthy_map_onObject _ _
  hasIdentity := by
    rw [blank, lookup_blankText_ne (by decide), Fields.lookup_edit]
    exact truthy_map_onObject _ _
  fields := by
    rw [lookup_blank_fields]
    exact sameFields_onArray _

/-- Blanking an item keeps which secrets are there. -/
theorem truthy_get_blank (item : Fields) :
    ∀ path ∈ textSecrets, truthy (get (blank item) path) = truthy (get item path) := by
  have hnotes : truthy (get (blank item) ["notes"]) = truthy (get item ["notes"]) := by
    show truthy ((blank item).lookup "notes") = truthy (item.lookup "notes")
    rw [blank, truthy_blankText, Fields.lookup_edit]
    exact congrArg truthy Option.map_id_apply
  have hlogin : ∀ key, truthy (get (blank item) ["login", key]) = truthy (get item ["login", key]) := by
    intro key
    rw [get_nested, get_nested, part_blank_login, truthy_blankText, truthy_blankText]
  have hcard : ∀ key, truthy (get (blank item) ["card", key]) = truthy (get item ["card", key]) := by
    intro key
    rw [get_nested, get_nested, part_blank_card, truthy_blankText, truthy_blankText]
  have hidentity : ∀ key,
      truthy (get (blank item) ["identity", key]) = truthy (get item ["identity", key]) := by
    intro key
    rw [get_nested, get_nested, part_blank_identity, truthy_blankText, truthy_blankText,
      truthy_blankText]
  simp only [textSecrets, List.forall_mem_cons]
  exact ⟨hlogin _, hlogin _, hnotes, hcard _, hcard _, hidentity _, hidentity _, hidentity _,
    List.forall_mem_nil _⟩

theorem mark_ne_empty (there : Bool) : decide (mark there ≠ "") = there := by
  cases there <;> decide

/-- A view with no report of the helper tells a mark from nothing. -/
theorem has_mark (hflags : src.heldFlags = none) (hheld : src.secretsHeld = false) (flag : String)
    (there : Bool) : mark (src.has flag (mark there)) = mark there := by
  rw [Detail.has, hflags, hheld]
  show mark (false || decide (mark there ≠ "")) = mark there
  rw [Bool.false_or, mark_ne_empty]

theorem filter_nonempty_twice (text : Option String) :
    (text.filter (· ≠ "")).filter (· ≠ "") = text.filter (· ≠ "") := by
  rw [Option.filter_filter]
  simp

theorem publicField_twice (f : CustomField) : publicField (publicField f) = publicField f := by
  unfold publicField
  by_cases h : f.sensitive
  · simp [h]
  · simp [h]

theorem publicItemDetail_twice (src : Detail) :
    publicItemDetail (publicItemDetail src) = publicItemDetail src := by
  have hcard : ∀ card, publicCard (publicItemDetail src) (publicCard src card)
      = publicCard src card := by
    intro card
    have hget : publicCard src card = publicCard src (Texts.of cardKeys card.get) := by
      rw [publicCard, publicCard, Texts.of_get]
    rw [hget, publicCard_of, publicCard_of]
    refine Texts.of_congr fun key _ => ?_
    by_cases hcode : key = "code"
    · simp only [hcode, if_true]
      exact has_mark rfl rfl _ _
    · by_cases hnumber : key = "number"
      · subst hnumber
        simp only [if_neg hcode, if_true]
        exact congrArg mark (mark_ne_empty _)
      · simp only [if_neg hcode, if_neg hnumber]
  have hidentity : ∀ identity, publicIdentity (publicItemDetail src) (publicIdentity src identity)
      = publicIdentity src identity := by
    intro identity
    have hget : publicIdentity src identity
        = publicIdentity src (Texts.of identityKeys identity.get) := by
      rw [publicIdentity, publicIdentity, Texts.of_get]
    rw [hget, publicIdentity_of, publicIdentity_of]
    refine Texts.of_congr fun key _ => ?_
    by_cases hkey : key ∈ identityNumbers
    · simp only [if_pos hkey]
      exact has_mark rfl rfl _ _
    · simp only [if_neg hkey]
  -- Field by field, what is drawn from the view is the view's own.
  have horganization : (publicItemDetail src).organizationId.filter (· ≠ "")
      = (publicItemDetail src).organizationId := filter_nonempty_twice _
  have hfolder : (publicItemDetail src).folderId.filter (· ≠ "")
      = (publicItemDetail src).folderId := filter_nonempty_twice _
  have hname : orElse (publicItemDetail src).name untitled = (publicItemDetail src).name := by
    show orElse (orElse src.name untitled) untitled = orElse src.name untitled
    unfold orElse
    split <;> simp_all [untitled]
  have hcode : codeOr (publicItemDetail src).typeCode = (publicItemDetail src).typeCode := by
    show codeOr (codeOr src.typeCode) = codeOr src.typeCode
    unfold codeOr
    split
    · decide
    · rfl
  have hnotes : ((publicItemDetail src).hasNotes || (publicItemDetail src).notes ≠ "")
      = (publicItemDetail src).hasNotes := Bool.or_false _
  have huris : (publicItemDetail src).uris.take maxListEntries = (publicItemDetail src).uris :=
    List.take_of_length_le (List.length_take_le _ _)
  have hattachments : (publicItemDetail src).attachments.take maxListEntries
      = (publicItemDetail src).attachments := List.take_of_length_le (List.length_take_le _ _)
  have hreprompt : (if (publicItemDetail src).reprompt = 1 then 1 else 0)
      = (publicItemDetail src).reprompt := by
    show (if (if src.reprompt = 1 then 1 else 0) = 1 then 1 else 0)
      = if src.reprompt = 1 then 1 else 0
    split_ifs <;> simp_all
  have hcards : (publicItemDetail src).card.map (publicCard (publicItemDetail src))
      = (publicItemDetail src).card := by
    show (src.card.map (publicCard src)).map _ = src.card.map (publicCard src)
    rw [Option.map_map]
    exact congrArg (Option.map · src.card) (funext hcard)
  have hidentities : (publicItemDetail src).identity.map (publicIdentity (publicItemDetail src))
      = (publicItemDetail src).identity := by
    show (src.identity.map (publicIdentity src)).map _ = src.identity.map (publicIdentity src)
    rw [Option.map_map]
    exact congrArg (Option.map · src.identity) (funext hidentity)
  have hfields : ((publicItemDetail src).fields.take maxListEntries).map publicField
      = (publicItemDetail src).fields := by
    show (((src.fields.take maxListEntries).map publicField).take maxListEntries).map publicField
      = (src.fields.take maxListEntries).map publicField
    rw [← List.map_take, List.take_take, Nat.min_self, List.map_map]
    exact List.map_congr_left fun f _ => publicField_twice f
  rw [publicItemDetail, horganization, hfolder, hname, hcode, hnotes, huris, hattachments, hreprompt,
    hcards, hidentities, hfields]
  rfl

/-! ## One public view -/

/-- The public view of a row the helper stripped is the public view of the whole item. It tells
nothing of a secret but whether it is there, and it is its own public view. -/
theorem public_view (js : Shell) (before : Detail → Detail → Bool) (item : Fields)
    (h : Storable item) :
    (parseItems js before [.object (stripItem item)]).map publicItemDetail
        = [publicItemDetail (itemDetailFromObject js item)]
      ∧ (∀ item', Storable item' → blank item' = blank item →
        publicItemDetail (itemDetailFromObject js item')
          = publicItemDetail (itemDetailFromObject js item))
      ∧ publicItemDetail (publicItemDetail (itemDetailFromObject js item))
        = publicItemDetail (itemDetailFromObject js item) := by
  have hblank : ∀ item : Fields, Storable item → publicItemDetail (itemDetailFromObject js item)
      = publicOf js (fun path => truthy (get (blank item) path)) (blank item) := by
    intro item hitem
    rw [public_of_detail js hitem]
    exact (publicOf_congr (alike_blank item) (truthy_get_blank item)).symm
  refine ⟨?_, ?_, publicItemDetail_twice _⟩
  · show List.map publicItemDetail (List.mergeSort [itemRow js (stripItem item)] before) = _
    rw [List.mergeSort_singleton, List.map_singleton, public_of_row h,
      publicOf_congr (alike_stripItem item) fun _ _ => rfl, public_of_detail js h]
  · intro item' h' hsame
    rw [hblank item' h', hblank item h, hsame]

/-- A card with a hidden field and a field that shows its number. -/
def sampleCard (number code pin : String) : Fields :=
  [("card", .object [("brand", .string "Visa"), ("code", .string code), ("number", .string number)]),
    ("fields", .array [
      .object [("name", .string "PIN"), ("type", .number (.posInt 1)), ("value", .string pin)],
      .object [("linkedId", .number (.posInt 305)), ("name", .string "No."),
        ("type", .number (.posInt 3))]]),
    ("id", .string "c1"), ("name", .string "Card"), ("notes", .null),
    ("type", .number (.posInt 3))]

theorem sampleCard_storable (number code pin : String) : Storable (sampleCard number code pin) where
  ordinary := ⟨3, by decide, by decide, rfl⟩
  secrets := by
    simp only [textSecrets, List.forall_mem_cons]
    exact ⟨secretText_none, secretText_none, secretText_null, secretText_string _,
      secretText_string _, secretText_none, secretText_none, secretText_none,
      List.forall_mem_nil _⟩

theorem public_view_card :
    blank (sampleCard "4111111111111111" "123" "9876") = blank (sampleCard "5500" "1" "0")
      ∧ publicItemDetail (itemDetailFromObject plainShell (sampleCard "4111111111111111" "123" "9876"))
        = publicItemDetail (itemDetailFromObject plainShell (sampleCard "5500" "1" "0"))
      ∧ (parseItems plainShell (fun _ _ => true) [.object (stripItem (sampleCard "5500" "1" "0"))]).map
          publicItemDetail
        = [publicItemDetail (itemDetailFromObject plainShell (sampleCard "5500" "1" "0"))] := by
  have hblank : blank (sampleCard "4111111111111111" "123" "9876")
      = blank (sampleCard "5500" "1" "0") := rfl
  have hview := public_view plainShell (fun _ _ => true) _ (sampleCard_storable "5500" "1" "0")
  exact ⟨hblank, hview.2.1 _ (sampleCard_storable _ _ _) hblank, hview.1⟩

end QsBitwarden.Panel.Items
