import QsBitwarden.Vault.Store

/-!
# Vault — what the panel is handed does not depend on the secrets

Two vault reads that differ only in their secrets are stripped to the same text. The relations
below say what "differ only in their secrets" means, level by level: a value may differ from its
counterpart only where it stands under a secret's key, and only from one string to another.

* **`vaultSecrets`** — two reads; under it `itemSecrets`, `loginSecrets`, `cardSecrets`,
  `identitySecrets` and `customSecrets`.
* **`stripItem_eq`** — stripping an item, as one function of each entry (`stripEntry`) next to the
  flags.
* **`stripVault_independent`** — the text handed on.
-/

namespace QsBitwarden.Vault

open Json

/-! ## Reads that differ only in their secrets -/

/-- Equal, or two strings so related. -/
def Strings (related : String → String → Prop) (value value' : Value) : Prop :=
  value = value' ∨ ∃ s s', value = .string s ∧ value' = .string s' ∧ related s s'

/-- Equal, or two objects with entries so related. -/
def Objects (related : String → Value → Value → Prop) (value value' : Value) : Prop :=
  value = value' ∨ ∃ fields fields', value = .object fields ∧ value' = .object fields' ∧
    Agree related fields fields'

/-- Equal, or two arrays with items so related. -/
def Arrays (related : Value → Value → Prop) (value value' : Value) : Prop :=
  value = value' ∨ ∃ items items', value = .array items ∧ value' = .array items' ∧
    List.Forall₂ related items items'

def EmptyAlike (s s' : String) : Prop := s = "" ↔ s' = ""

/-- Whatever the two strings are. -/
def AnyStrings : Value → Value → Prop := Strings fun _ _ => True

def loginSecrets (key : String) : Value → Value → Prop :=
  if key = "password" ∨ key = "totp" then Strings EmptyAlike
  else if key = "fido2Credentials" then AnyStrings
  else Eq

def cardSecrets (key : String) : Value → Value → Prop :=
  if key = "code" then Strings EmptyAlike
  else if key = "number" then Strings fun s s' => lastFour s = lastFour s'
  else Eq

def identitySecrets (key : String) : Value → Value → Prop :=
  if key = "ssn" ∨ key = "passportNumber" ∨ key = "licenseNumber" then Strings EmptyAlike else Eq

/-- A custom field of type 1. -/
def isHidden (field : Value) : Prop := (field.get "type").bind Value.asU64 = some 1

def hiddenSecrets (key : String) : Value → Value → Prop := if key = "value" then AnyStrings else Eq

def customSecrets (field field' : Value) : Prop :=
  field = field' ∨ (isHidden field ∧ Objects hiddenSecrets field field')

def itemSecrets (key : String) : Value → Value → Prop :=
  if key = "login" then Objects loginSecrets
  else if key = "card" then Objects cardSecrets
  else if key = "identity" then Objects identitySecrets
  else if key = "notes" then Strings EmptyAlike
  else if key = "passwordHistory" then AnyStrings
  else if key = "fields" then Arrays customSecrets
  else Eq

def vaultSecrets (key : String) : Value → Value → Prop :=
  if key = "items" then Arrays (Objects itemSecrets) else Eq

/-! ## Stripping, entry by entry -/

def onObject (f : Fields → Fields) : Value → Value
  | .object fields => .object (f fields)
  | other => other

def onArray (f : Value → Value) : Value → Value
  | .array items => .array (items.map f)
  | other => other

def stripLogin (login : Fields) : Fields :=
  ((login.remove "password").remove "totp").remove "fido2Credentials"

def stripCard (card : Fields) : Fields := (card.remove "code").modify "number" stripDigits

def stripIdentity (identity : Fields) : Fields :=
  ((identity.remove "ssn").remove "passportNumber").remove "licenseNumber"

/-- What stripping makes of one entry of an item. -/
def stripEntry (entry : String × Value) : Option (String × Value) :=
  if entry.1 = "login" then some (entry.1, onObject stripLogin entry.2)
  else if entry.1 = "card" then some (entry.1, onObject stripCard entry.2)
  else if entry.1 = "identity" then some (entry.1, onObject stripIdentity entry.2)
  else if entry.1 = "notes" then none
  else if entry.1 = "passwordHistory" then none
  else if entry.1 = "fields" then some (entry.1, onArray stripCustom entry.2)
  else some entry

theorem remove_nested (item : Fields) (key last : String) :
    remove item [key, last] = item.modify key (onObject (Fields.remove last)) := rfl

theorem stripNumber_eq (item : Fields) :
    stripNumber item = item.modify "card" (onObject (Fields.modify "number" stripDigits)) := rfl

theorem stripCustoms_eq (item : Fields) :
    stripCustoms item = item.modify "fields" (onArray stripCustom) := rfl

theorem onObject_onObject (f g : Fields → Fields) (value : Value) :
    onObject f (onObject g value) = onObject (fun fields => f (g fields)) value := by
  cases value <;> rfl

theorem stripped_eq_filterMap (item : Fields) :
    stripCustoms (stripNumber (secretPaths.foldl remove item)) = item.filterMap stripEntry := by
  rw [stripCustoms_eq, stripNumber_eq]
  unfold secretPaths
  simp only [List.foldl_cons, List.foldl_nil, remove_nested]
  simp only [remove, Fields.remove_eq_filterMap, Fields.modify_eq_filterMap, List.filterMap_filterMap]
  congr 1
  funext ⟨key, value⟩
  unfold stripEntry
  -- At most one of the steps touches a key, except for the parents of several secrets.
  by_cases hlogin : key = "login"
  · simp [hlogin, onObject_onObject]
    rfl
  by_cases hcard : key = "card"
  · simp [hcard, onObject_onObject]
    rfl
  by_cases hidentity : key = "identity"
  · simp [hidentity, onObject_onObject]
    rfl
  by_cases hnotes : key = "notes"
  · simp [hnotes]
  by_cases hhistory : key = "passwordHistory"
  · simp [hhistory]
  by_cases hfields : key = "fields"
  · simp [hfields]
  · simp [hlogin, hcard, hidentity, hnotes, hhistory, hfields]

theorem stripItem_eq (item : Fields) : stripItem item =
    Fields.insert "qsbwHeld" (.object (heldFlags item)) (item.filterMap stripEntry) := by
  unfold stripItem
  dsimp only
  rw [stripped_eq_filterMap]

/-! ## Secrets are stripped alike -/

section Congruence

variable {fields fields' : Fields} {value value' : Value}

variable {related : String → Value → Value → Prop} {key : String}

theorem Objects.onObject_eq {f : Fields → Fields}
    (hf : ∀ fields fields', Agree related fields fields' → f fields = f fields')
    (h : Objects related value value') : onObject f value = onObject f value' := by
  rcases h with rfl | ⟨fields, fields', rfl, rfl, hagree⟩
  · rfl
  · exact congrArg Value.object (hf fields fields' hagree)

theorem Arrays.onArray_eq {related : Value → Value → Prop} {f : Value → Value}
    (hf : ∀ value value', related value value' → f value = f value')
    (h : Arrays related value value') : onArray f value = onArray f value' := by
  rcases h with rfl | ⟨items, items', rfl, rfl, hitems⟩
  · rfl
  · refine congrArg Value.array ?_
    induction hitems with
    | nil => rfl
    | cons hhead _ ih => rw [List.map_cons, List.map_cons, hf _ _ hhead, ih]

theorem stripLogin_congr (h : Agree loginSecrets fields fields') :
    stripLogin fields = stripLogin fields' := by
  unfold stripLogin
  simp only [Fields.remove_eq_filterMap, List.filterMap_filterMap]
  apply h.filterMap_eq
  intro key value value' hrelated
  unfold loginSecrets at hrelated
  split at hrelated
  · next hkey => rcases hkey with rfl | rfl <;> simp
  · split at hrelated
    · next hkey => simp [hkey]
    · rw [hrelated]

theorem stripDigits_congr (h : Strings (fun s s' => lastFour s = lastFour s') value value') :
    stripDigits value = stripDigits value' := by
  rcases h with rfl | ⟨s, s', rfl, rfl, hfour⟩
  · rfl
  · exact congrArg Value.string hfour

theorem stripCard_congr (h : Agree cardSecrets fields fields') :
    stripCard fields = stripCard fields' := by
  unfold stripCard
  simp only [Fields.remove_eq_filterMap, Fields.modify_eq_filterMap, List.filterMap_filterMap]
  apply h.filterMap_eq
  intro key value value' hrelated
  unfold cardSecrets at hrelated
  split at hrelated
  · next hkey => simp [hkey]
  · split at hrelated
    · next hcode hkey => simp [hkey, stripDigits_congr hrelated]
    · rw [hrelated]

theorem stripIdentity_congr (h : Agree identitySecrets fields fields') :
    stripIdentity fields = stripIdentity fields' := by
  unfold stripIdentity
  simp only [Fields.remove_eq_filterMap, List.filterMap_filterMap]
  apply h.filterMap_eq
  intro key value value' hrelated
  unfold identitySecrets at hrelated
  split at hrelated
  · next hkey => rcases hkey with rfl | rfl | rfl <;> simp
  · rw [hrelated]

/-- The type of a custom field is no secret. -/
theorem isHidden_congr (h : Agree hiddenSecrets fields fields') (hhidden : isHidden (.object fields)) :
    isHidden (.object fields') := by
  have htype : fields.lookup "type" = fields'.lookup "type" := by
    rcases h.lookup "type" with ⟨hnone, hnone'⟩ | ⟨value, value', hsome, hsome', hrelated⟩
    · rw [hnone, hnone']
    · unfold hiddenSecrets at hrelated
      rw [if_neg (by decide)] at hrelated
      rw [hsome, hsome', hrelated]
  show (fields'.lookup "type").bind Value.asU64 = some 1
  rw [← htype]
  exact hhidden

theorem stripCustom_congr (h : customSecrets value value') : stripCustom value = stripCustom value' := by
  rcases h with rfl | ⟨hhidden, rfl | ⟨fields, fields', rfl, rfl, hagree⟩⟩
  · rfl
  · rfl
  · have hhidden' : isHidden (.object fields') := isHidden_congr hagree hhidden
    unfold isHidden at hhidden hhidden'
    unfold stripCustom
    rw [if_pos hhidden, if_pos hhidden']
    refine congrArg Value.object ?_
    rw [Fields.remove_eq_filterMap, Fields.remove_eq_filterMap]
    apply hagree.filterMap_eq
    intro key value value' hrelated
    unfold hiddenSecrets at hrelated
    split at hrelated
    · next hkey => simp [hkey]
    · rw [hrelated]

theorem stripEntry_congr (h : itemSecrets key value value') :
    stripEntry (key, value) = stripEntry (key, value') := by
  unfold stripEntry
  unfold itemSecrets at h
  split_ifs at h ⊢ with hlogin hcard hidentity hnotes hhistory hfields
  · rw [h.onObject_eq fun _ _ => stripLogin_congr]
  · rw [h.onObject_eq fun _ _ => stripCard_congr]
  · rw [h.onObject_eq fun _ _ => stripIdentity_congr]
  · rfl
  · rfl
  · rw [h.onArray_eq fun _ _ hcustom => stripCustom_congr hcustom]
  · rw [h]

/-! ## So are the flags -/

/-- Values a flag cannot tell apart. -/
theorem present_of_alike {path path' : List String} (hget : get fields path = some value)
    (hget' : get fields' path' = some value') (h : Strings EmptyAlike value value') :
    present fields path = present fields' path' := by
  unfold present
  rw [hget, hget']
  rcases h with rfl | ⟨s, s', rfl, rfl, hempty⟩
  · rfl
  · exact decide_eq_decide.mpr (not_congr hempty)

/-- A flag about an entry of the item. -/
theorem present_entry (h : Agree related fields fields') (hkey : related key = Strings EmptyAlike) :
    present fields [key] = present fields' [key] := by
  rcases h.lookup key with ⟨hnone, hnone'⟩ | ⟨value, value', hsome, hsome', hrelated⟩
  · unfold present get
    rw [hnone, hnone']
  · rw [hkey] at hrelated
    exact present_of_alike hsome hsome' hrelated

/-- A flag about an entry of an object of the item. -/
theorem present_nested {inner : String → Value → Value → Prop} {last : String}
    (h : Agree related fields fields') (hkey : related key = Objects inner)
    (hlast : inner last = Strings EmptyAlike) :
    present fields [key, last] = present fields' [key, last] := by
  -- Whether `last` is found depends on what is found under `key`.
  have hpresent : ∀ {fields fields' : Fields}, fields.lookup key = fields'.lookup key →
      present fields [key, last] = present fields' [key, last] := by
    intro fields fields' heq
    unfold present get
    rw [heq]
  have hobject : ∀ {fields next : Fields}, fields.lookup key = some (.object next) →
      present fields [key, last] = present next [last] := by
    intro fields next hsome
    unfold present get
    rw [hsome]
    rfl
  rcases h.lookup key with ⟨hnone, hnone'⟩ | ⟨value, value', hsome, hsome', hrelated⟩
  · exact hpresent (hnone.trans hnone'.symm)
  · rw [hkey] at hrelated
    rcases hrelated with rfl | ⟨next, next', rfl, rfl, hagree⟩
    · exact hpresent (hsome.trans hsome'.symm)
    · rw [hobject hsome, hobject hsome']
      exact present_entry hagree hlast

theorem heldFlags_congr (h : Agree itemSecrets fields fields') :
    heldFlags fields = heldFlags fields' := by
  unfold heldFlags
  refine List.foldl_ext _ _ _ fun held flag hflag => ?_
  have hpresent : present fields flag.2 = present fields' flag.2 := by
    simp only [List.mem_cons, List.not_mem_nil, or_false] at hflag
    rcases hflag with rfl | rfl | rfl | rfl | rfl | rfl | rfl
    case inr.inr.inl => exact present_entry h rfl
    all_goals exact present_nested h rfl rfl
  rw [hpresent]

theorem stripItem_congr (h : Agree itemSecrets fields fields') :
    stripItem fields = stripItem fields' := by
  rw [stripItem_eq, stripItem_eq, heldFlags_congr h,
    h.filterMap_eq stripEntry fun _ _ _ => stripEntry_congr]

theorem stripItems_congr (h : Arrays (Objects itemSecrets) value value') :
    stripItems value = stripItems value' :=
  h.onArray_eq fun _ _ hitem => hitem.onObject_eq fun _ _ => stripItem_congr

end Congruence

/-- **The panel's copy is independent of the secrets.** Whatever the stores hold, and for replace
and merge alike. -/
theorem stripVault_independent (libs : Libs) (store store' : Store) (replace replace' : Bool)
    {raw raw' : String} {fields fields' : Fields} (hraw : libs.parse raw = some (.object fields))
    (hraw' : libs.parse raw' = some (.object fields')) (h : Agree vaultSecrets fields fields') :
    (store.stripVault libs raw replace).1 = (store'.stripVault libs raw' replace').1 := by
  have hitems : Fields.modify "items" stripItems fields = Fields.modify "items" stripItems fields' := by
    rw [Fields.modify_eq_filterMap, Fields.modify_eq_filterMap]
    apply h.filterMap_eq
    intro key value value' hrelated
    unfold vaultSecrets at hrelated
    split at hrelated
    · next hkey => simp [hkey, stripItems_congr hrelated]
    · rw [hrelated]
  unfold Store.stripVault
  rw [hraw, hraw']
  show libs.render (.object _) = libs.render (.object _)
  rw [hitems]

/-- A vault of one item: a login, a card and a hidden field, with these secrets. -/
def sampleVault (password number pin : String) : Fields :=
  [("items", .array [.object
    [("card", .object [("number", .string number)]),
      ("fields", .array [.object [("type", .number (.posInt 1)), ("value", .string pin)]]),
      ("login", .object [("password", .string password), ("username", .string "me")])]])]

mutual

/-- Every string of a value. -/
def dump : Value → String
  | .string s => s
  | .array items => dumpItems items
  | .object fields => dumpFields fields
  | _ => ""

def dumpItems : List Value → String
  | [] => ""
  | value :: rest => dump value ++ "," ++ dumpItems rest

def dumpFields : List (String × Value) → String
  | [] => ""
  | (key, value) :: rest => key ++ ":" ++ dump value ++ "," ++ dumpFields rest

end

/-- Libraries that read a text as the secrets of `sampleVault`. -/
def vaultLibs : Libs where
  parse text := some (.object (sampleVault text (text ++ "1234") text))
  render value := some (dump value)
  lowercase := id

theorem sampleVault_related :
    Agree vaultSecrets (sampleVault "a" "a1234" "a") (sampleVault "bc" "bc1234" "bc") := by
  have hnumber : Strings (fun s s' => lastFour s = lastFour s') (.string "a1234") (.string "bc1234") :=
    .inr ⟨_, _, rfl, rfl, by decide⟩
  have hcard : Objects cardSecrets (.object [("number", .string "a1234")])
      (.object [("number", .string "bc1234")]) :=
    .inr ⟨_, _, rfl, rfl, .cons ⟨rfl, hnumber⟩ .nil⟩
  have hvalue : AnyStrings (.string "a") (.string "bc") := .inr ⟨_, _, rfl, rfl, trivial⟩
  have hfield : customSecrets (.object [("type", .number (.posInt 1)), ("value", .string "a")])
      (.object [("type", .number (.posInt 1)), ("value", .string "bc")]) :=
    .inr ⟨rfl, .inr ⟨_, _, rfl, rfl, .cons ⟨rfl, rfl⟩ (.cons ⟨rfl, hvalue⟩ .nil)⟩⟩
  have hpassword : Strings EmptyAlike (.string "a") (.string "bc") :=
    .inr ⟨_, _, rfl, rfl, iff_of_false (by decide) (by decide)⟩
  have hlogin : Objects loginSecrets
      (.object [("password", .string "a"), ("username", .string "me")])
      (.object [("password", .string "bc"), ("username", .string "me")]) :=
    .inr ⟨_, _, rfl, rfl, .cons ⟨rfl, hpassword⟩ (.cons ⟨rfl, rfl⟩ .nil)⟩
  have hfields : Arrays customSecrets
      (.array [.object [("type", .number (.posInt 1)), ("value", .string "a")]])
      (.array [.object [("type", .number (.posInt 1)), ("value", .string "bc")]]) :=
    .inr ⟨_, _, rfl, rfl, .cons hfield .nil⟩
  refine .cons ⟨rfl, .inr ⟨_, _, rfl, rfl, .cons (.inr ⟨_, _, rfl, rfl, ?_⟩) .nil⟩⟩ .nil
  exact .cons ⟨rfl, hcard⟩ (.cons ⟨rfl, hfields⟩ (.cons ⟨rfl, hlogin⟩ .nil))

theorem stripVault_independent_sample :
    (Store.new.stripVault vaultLibs "a" true).1 = (Store.new.stripVault vaultLibs "bc" false).1 :=
  stripVault_independent vaultLibs .new .new true false rfl rfl sampleVault_related

end QsBitwarden.Vault
