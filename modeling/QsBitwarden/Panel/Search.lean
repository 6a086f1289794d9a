import QsBitwarden.Panel.Revealed
import QsBitwarden.Vault.Index

/-!
# Panel — the helper's search finds what the panel's search finds

The panel compares a query with a dozen texts of a row, one by one. The helper keeps those texts of
an item joined by NUL, lowercased, and looks for the query in the one text.

* **`Lowercasing`** — what is assumed of lowercasing, which is a parameter of both searches.
* **`Searchable`**, **`SshRecord`**, **`SearchVault`** — the items, the records of SSH keys and the
  reads searched.
* **`rowParts`**, **`haystackParts`** — the texts compared; `matchesQuery_iff` and `heldMatches_iff`
  bring both searches into one form.
* **`search_agrees`** — the ids found.
-/

namespace QsBitwarden.Panel.Items

open Json Js Vault

/-! ## Texts -/

/-- Free of NUL and of the two characters that only one of the languages takes for white space. -/
def Plain (text : List Char) : Prop :=
  ∀ c ∈ text, c.toNat ≠ 0xfeff ∧ c.toNat ≠ 0x85 ∧ c.toNat ≠ 0

theorem jsTrim_plain {text : List Char} (h : Plain text) : SessionKeys.jsTrim text = trim text := by
  rw [trim_eq_trimBoth]
  refine trimBoth_congr fun c hc => ?_
  obtain ⟨hbom, hnel, -⟩ := h c hc
  unfold SessionKeys.jsWhitespace isWhitespace
  dsimp only
  rw [beq_false_of_ne hbom, beq_false_of_ne hnel, Bool.or_false, Bool.or_false]

theorem plain_trim {text : List Char} (h : Plain text) : Plain (trim text) := by
  obtain ⟨before, after, hsplit, -, -⟩ := trimBoth_split isWhitespace text
  intro c hc
  refine h c ?_
  rw [hsplit]
  exact List.mem_append_left after (List.mem_append_right before hc)

/-- What both searches rely on: lowercasing acts part by part on texts joined by NUL, leaves white
space at the ends alone, and brings none of the excluded characters in. -/
structure Lowercasing (lower : String → String) : Prop where
  joined : ∀ parts : List String,
    lower ("\x00".intercalate parts) = "\x00".intercalate (parts.map lower)
  trimmed : ∀ s : String, trim (lower s).toList = (lower (String.ofList (trim s.toList))).toList
  plain : ∀ s : String, Plain s.toList → Plain (lower s).toList

namespace Lowercasing

variable {lower : String → String}

theorem empty (h : Lowercasing lower) : lower "" = "" := h.joined []

theorem query (h : Lowercasing lower) {query : String} (hquery : Plain query.toList) :
    SessionKeys.jsTrim (lower query).toList
      = (lower (String.ofList (trim query.toList))).toList := by
  rw [jsTrim_plain (h.plain query hquery), h.trimmed]

end Lowercasing

/-! ## The panel's search -/

variable {js : Shell}

/-- The texts of a row that a query is compared with. -/
def rowParts (row : Detail) : List String :=
  let card := row.card.getD []
  let identity := row.identity.getD []
  [row.name, row.username, if row.reprompt = 1 then "" else row.notes, row.publicKey,
    row.fingerprint, card.get "brand", card.get "cardholderName", identity.get "email",
    identity.get "username", identity.get "company", joinName identity.get]
    ++ row.uris.take maxListEntries

/-- The number of a row's card, if it has one. -/
def rowNumber (row : Detail) : List Char := ((row.card.getD []).get "number").toList

/-- A row matches if the query is empty, or is in one of its texts, or its digits are among the last
four of its card. -/
theorem matchesQuery_iff {lower : String → String} (hlower : Lowercasing lower) (row : Detail)
    {query : String} {q : List Char} (hq : SessionKeys.jsTrim (lower query).toList = q) :
    matchesQuery lower row query
      ↔ q = [] ∨ (∃ part ∈ rowParts row, q <:+: (lower part).toList)
        ∨ cardMatches (rowNumber row) q := by
  by_cases hempty : q = []
  · simp [matchesQuery, hq, hempty]
  · have hquery : query ≠ "" := by
      rintro rfl
      rw [hlower.empty] at hq
      exact hempty hq.symm
    have hnot : ¬q <:+: (lower "").toList := by
      rw [hlower.empty]
      exact fun hinfix => hempty (List.infix_nil.mp hinfix)
    have hcondition : ¬(decide (query = "") || q.isEmpty) := by simp [hquery, hempty]
    have hcard : row.card.any (fun card => contains (lower (card.get "brand")).toList q
          || contains (lower (card.get "cardholderName")).toList q
          || cardMatches (card.get "number").toList q)
        ↔ q <:+: (lower ((row.card.getD []).get "brand")).toList
          ∨ q <:+: (lower ((row.card.getD []).get "cardholderName")).toList
          ∨ cardMatches (rowNumber row) q := by
      unfold rowNumber
      cases row.card with
      | none =>
        have hnumber : ¬cardMatches [] q := by simp [cardMatches, digitsOf]
        exact iff_of_false nofun fun h => h.elim hnot fun h => h.elim hnot hnumber
      | some card => simp [contains_iff, or_assoc]
    have hidentity : row.identity.any (fun identity =>
          contains (lower (joinName identity.get)).toList q
          || contains (lower (identity.get "email")).toList q
          || contains (lower (identity.get "username")).toList q
          || contains (lower (identity.get "company")).toList q)
        ↔ q <:+: (lower (joinName (row.identity.getD []).get)).toList
          ∨ q <:+: (lower ((row.identity.getD []).get "email")).toList
          ∨ q <:+: (lower ((row.identity.getD []).get "username")).toList
          ∨ q <:+: (lower ((row.identity.getD []).get "company")).toList := by
      cases row.identity with
      | none =>
        have hname : joinName (Texts.get []) = "" := by decide
        rw [Option.getD_none, hname]
        exact iff_of_false nofun fun h => h.elim hnot fun h => h.elim hnot fun h => h.elim hnot hnot
      | some identity => simp [contains_iff, or_assoc]
    have hnotes : (decide (row.reprompt ≠ 1) && contains (lower row.notes).toList q)
        ↔ q <:+: (lower (if row.reprompt = 1 then "" else row.notes)).toList := by
      by_cases hreprompt : row.reprompt = 1
      · simp [hreprompt, hnot]
      · simp [hreprompt, contains_iff]
    unfold matchesQuery
    dsimp only
    rw [hq, if_neg hcondition]
    simp only [Bool.or_eq_true, hcard, hidentity, hnotes, contains_iff, List.any_eq_true, rowParts,
      List.mem_append, List.mem_cons, List.not_mem_nil, or_false, or_and_right, exists_or,
      exists_eq_left, hempty, false_or]
    -- The same alternatives in another order.
    refine iff_of_eq ?_
    ac_rfl

/-! ## The helper's search -/

/-- The texts the helper joins: one for each kind, and the websites. -/
def haystackTexts (item : Fields) : List String :=
  let name := nameKeys.map (fun key => trim (text item ["identity", key]).toList)
    |>.filter (· ≠ [])
  [text item ["name"], text item ["login", "username"],
    if (item.lookup "reprompt").bind Value.asU64 = some 1 then "" else text item ["notes"],
    text item ["publicKey"], text item ["fingerprint"], text item ["card", "brand"],
    text item ["card", "cardholderName"], text item ["identity", "email"],
    text item ["identity", "username"], text item ["identity", "company"],
    String.ofList (List.intercalate [' '] name)]

def haystackUris (item : Fields) : List String :=
  match get item ["login", "uris"] with
  | some (.array uris) => uris.filterMap fun entry => (entry.get "uri").bind Value.asStr
  | _ => []

def haystackParts (item : Fields) : List String := haystackTexts item ++ haystackUris item

theorem haystack_eq (libs : Libs) (item : Fields) :
    haystack libs item = libs.lowercase ("\x00".intercalate (haystackParts item)) := rfl

/-- A held record is found by a query. -/
def heldMatches (libs : Libs) (held : Held) (query : String) : Prop :=
  let needle := (libs.lowercase (String.ofList (trim query.toList))).toList
  needle = [] ∨ contains held.haystack.toList needle
    ∨ Store.matchesCard held (needle.filter Char.isDigit)

theorem mem_search {libs : Libs} {store : Store} (hids : (store.items.map Held.id).Nodup)
    {held : Held} (hheld : held ∈ store.items) (query : String) :
    held.id ∈ store.search libs query ↔ heldMatches libs held query := by
  unfold Store.search heldMatches
  dsimp only
  generalize (libs.lowercase (String.ofList (trim query.toList))).toList = needle
  by_cases hempty : needle = []
  · subst hempty
    exact iff_of_true (List.mem_map_of_mem hheld) (.inl rfl)
  · have hcondition : ¬needle.isEmpty := by simp [hempty]
    rw [if_neg hcondition, List.mem_map]
    constructor
    · rintro ⟨other, hother, hid⟩
      obtain ⟨hmem, hmatch⟩ := List.mem_filter.mp hother
      -- Ids are distinct, so the record found is this one.
      have hsame : other = held := List.inj_on_of_nodup_map hids hmem hheld hid
      subst hsame
      exact .inr (Bool.or_eq_true_iff.mp hmatch)
    · intro hmatch
      refine ⟨held, List.mem_filter.mpr ⟨hheld, ?_⟩, rfl⟩
      exact Bool.or_eq_true_iff.mpr (hmatch.resolve_left hempty)

theorem heldMatches_iff {libs : Libs} (hlower : Lowercasing libs.lowercase) {item : Fields}
    {held : Held} (hheld : heldOf libs item = some held) {query : String}
    (hquery : Plain query.toList) {q : List Char}
    (hq : (libs.lowercase (String.ofList (trim query.toList))).toList = q) :
    heldMatches libs held query
      ↔ q = [] ∨ (∃ part ∈ haystackParts item, q <:+: (libs.lowercase part).toList)
        ∨ cardMatches (text item ["card", "number"]).toList q := by
  have hplain : Plain q := by
    rw [← hq]
    refine hlower.plain _ ?_
    rw [String.toList_ofList]
    exact plain_trim hquery
  have hnul : Char.ofNat 0 ∉ q := fun hmem => (hplain _ hmem).2.2 rfl
  obtain ⟨hhaystack, hdigits⟩ : held.haystack = haystack libs item
      ∧ held.cardDigits
        = String.ofList ((text item ["card", "number"]).toList.filter Char.isDigit) := by
    unfold heldOf at hheld
    obtain ⟨id, hid, hheld⟩ := Option.bind_eq_some_iff.mp hheld
    obtain ⟨full, hfull, hheld⟩ := Option.bind_eq_some_iff.mp hheld
    cases hheld
    exact ⟨rfl, rfl⟩
  have hcard : Store.matchesCard held (q.filter Char.isDigit)
      = cardMatches (text item ["card", "number"]).toList q := by
    unfold Store.matchesCard cardMatches digitsOf
    rw [hdigits, String.toList_ofList]
    generalize (text item ["card", "number"]).toList.filter Char.isDigit = card
    generalize q.filter Char.isDigit = digits
    cases digits with
    | nil => simp
    | cons d digits => simp
  unfold heldMatches
  dsimp only
  rw [hq, hcard, hhaystack, haystack_eq, hlower.joined, contains_iff, String.toList_intercalate]
  by_cases hempty : q = []
  · simp [hempty]
  · show q = [] ∨ q <:+: List.intercalate [Char.ofNat 0] _ ∨ _ ↔ _
    rw [infix_intercalate hempty hnul]
    simp

/-! ## Items -/

def PlainText (v : Option Value) : Prop :=
  ∀ value ∈ v, value = .null ∨ ∃ s, value = .string s ∧ Plain s.toList

theorem PlainText.secretText {v : Option Value} (h : PlainText v) : SecretText v := by
  intro value hvalue
  rcases h value hvalue with rfl | ⟨s, rfl, -⟩
  · exact .inl rfl
  · exact .inr ⟨s, rfl⟩

/-- Where an item has the texts that are searched, its name and its websites apart. -/
def searchedPaths : List (List String) :=
  [["login", "username"], ["notes"], ["card", "brand"], ["card", "cardholderName"],
    ["card", "number"], ["identity", "email"], ["identity", "username"], ["identity", "company"],
    ["identity", "title"], ["identity", "firstName"], ["identity", "middleName"],
    ["identity", "lastName"]]

/-- The websites of an item. -/
def websites (item : Fields) : List Value :=
  match get item ["login", "uris"] with
  | some (.array entries) => entries
  | _ => []

/-- An ordinary item: texts, a whole number for its re-prompt and no public key of its own. -/
structure Searchable (item : Fields) : Prop where
  name : ∃ s, item.lookup "name" = some (.string s) ∧ s ≠ "" ∧ Plain s.toList
  texts : ∀ path ∈ searchedPaths, PlainText (get item path)
  reprompt : ∀ v ∈ item.lookup "reprompt", ∃ n, IsInteger n ∧ v = .number n
  publicKey : item.lookup "publicKey" = none
  fingerprint : item.lookup "fingerprint" = none
  list : get item ["login", "uris"] = none ∨ get item ["login", "uris"] = some .null
    ∨ ∃ entries, get item ["login", "uris"] = some (.array entries)
  few : (websites item).length ≤ maxListEntries
  addresses : ∀ entry ∈ websites item, PlainText (entry.get "uri")

variable {item : Fields}

theorem text_nested {owner key : String} (h : PlainText (get item [owner, key])) :
    js.text ((part item owner).lookup key) = text item [owner, key] := by
  rw [get_nested] at h
  rw [text_eq h.secretText, Vault.text, get_nested]

theorem haystackUris_eq (item : Fields) :
    haystackUris item
      = (websites item).filterMap fun entry => (entry.get "uri").bind Value.asStr := by
  unfold haystackUris websites
  split <;> rfl

variable (h : Searchable item)
include h

/-- The websites of the row are those the helper joins, without the empty ones. -/
theorem loginUris_eq : loginUris js (part item "login") = (haystackUris item).filter (· ≠ "") := by
  have hlist : toList js ((part item "login").lookup "uris") = (websites item).map some := by
    rw [← get_nested]
    exact toList_listed js h.list h.few
  rw [haystackUris_eq]
  unfold loginUris
  rw [hlist, List.filterMap_map, List.filter_filterMap]
  refine List.filterMap_congr fun entry hentry => ?_
  have hprops : (props (some entry)).lookup "uri" = entry.get "uri" := by
    cases entry <;> rfl
  have htext := h.addresses entry hentry
  show (if truthy ((props (some entry)).lookup "uri") then
    some (js.stringOf ((props (some entry)).lookup "uri")) else none) = _
  rw [hprops]
  cases huri : entry.get "uri" with
  | none => rfl
  | some value =>
    rw [huri] at htext
    rcases htext value rfl with rfl | ⟨s, rfl, -⟩
    · rfl
    · by_cases hs : s = ""
      · subst hs
        rfl
      · have ht : truthy (some (.string s)) := by simp [truthy, hs]
        rw [if_pos ht]
        show some (js.string (.string s)) = Option.filter _ (some s)
        rw [js.string_string, Option.filter_some_pos (by simp [hs])]

theorem reprompt_eq :
    repromptValue js (item.lookup "reprompt") = 1
      ↔ (item.lookup "reprompt").bind Value.asU64 = some 1 := by
  have hvalue : repromptValue js (item.lookup "reprompt") = 1
      ↔ js.numberOf (item.lookup "reprompt") = .int 1 := by
    unfold repromptValue
    split <;> simp_all
  rw [hvalue]
  cases hreprompt : item.lookup "reprompt" with
  | none => exact iff_of_false (show ¬Js.Num.nan = .int 1 by decide) (by decide)
  | some v =>
    obtain ⟨n, hn, rfl⟩ := h.reprompt v hreprompt
    have hone : js.number (.number n) = .int 1 ↔ n = .posInt 1 := number_eq_int hn (by decide)
    show js.number (.number n) = .int 1 ↔ Value.asU64 (.number n) = some 1
    rw [hone, Value.asU64_eq_some, Value.number.injEq]

theorem joinName_eq {part : String → String}
    (hpart : ∀ key ∈ nameKeys, part key = text item ["identity", key]) :
    joinName part = String.ofList (List.intercalate [' ']
      ((nameKeys.map fun key => trim (text item ["identity", key]).toList).filter (· ≠ []))) := by
  have hparts : (nameKeys.map part).map (fun part => SessionKeys.jsTrim part.toList)
      = nameKeys.map fun key => trim (text item ["identity", key]).toList := by
    rw [List.map_map]
    refine List.map_congr_left fun key hkey => ?_
    have hplain : Plain (text item ["identity", key]).toList := by
      have hpath : ∀ key ∈ nameKeys, ["identity", key] ∈ searchedPaths := by decide
      have htext := h.texts _ (hpath key hkey)
      unfold Vault.text
      cases hget : get item ["identity", key] with
      | none => exact nofun
      | some value =>
        rcases htext value hget with rfl | ⟨s, rfl, hs⟩
        · exact nofun
        · exact hs
    rw [Function.comp_apply, hpart key hkey, jsTrim_plain hplain]
  rw [joinName, nonEmptyParts, hparts]

/-- The texts of a row are those the helper joins, up to empty websites. -/
theorem rowParts_item :
    rowParts (itemRow js item) = haystackTexts item ++ (haystackUris item).filter (· ≠ "") := by
  have hnested : ∀ owner key, [owner, key] ∈ searchedPaths →
      js.text ((part item owner).lookup key) = text item [owner, key] :=
    fun owner key hpath => text_nested (h.texts _ hpath)
  have hcard : ∀ key ∈ cardKeys, ["card", key] ∈ searchedPaths →
      ((textsOf js cardKeys (item.lookup "card")).getD []).get key = text item ["card", key] :=
    fun key hkey hpath => (lookup_textsOf hkey "card").trans (hnested "card" key hpath)
  have hidentity : ∀ key ∈ identityKeys, ["identity", key] ∈ searchedPaths →
      ((textsOf js identityKeys (item.lookup "identity")).getD []).get key
        = text item ["identity", key] :=
    fun key hkey hpath => (lookup_textsOf hkey "identity").trans (hnested "identity" key hpath)
  have hnames : ∀ key ∈ nameKeys, key ∈ identityKeys ∧ ["identity", key] ∈ searchedPaths := by
    decide
  have hname : js.textOr (item.lookup "name") untitled = text item ["name"] := by
    obtain ⟨s, hs, hne, -⟩ := h.name
    have ht : truthy (some (.string s)) := by simp [truthy, hne]
    show js.textOr (item.lookup "name") untitled = ((item.lookup "name").bind Value.asStr).getD ""
    rw [hs, Coercions.textOr, if_pos ht]
    exact js.string_string s
  have hnotes : js.text (item.lookup "notes") = text item ["notes"] :=
    text_eq (PlainText.secretText (h.texts ["notes"] (by decide)))
  have hkey : text item ["publicKey"] = "" := by
    show ((item.lookup "publicKey").bind Value.asStr).getD "" = ""
    rw [h.publicKey]
    rfl
  have hfingerprint : text item ["fingerprint"] = "" := by
    show ((item.lookup "fingerprint").bind Value.asStr).getD "" = ""
    rw [h.fingerprint]
    rfl
  have hfull := joinName_eq h fun key hkey => hidentity key (hnames key hkey).1 (hnames key hkey).2
  have huris : (loginUris js (part item "login")).take maxListEntries
      = (haystackUris item).filter (· ≠ "") := by
    rw [← loginUris_eq h]
    exact take_filterMap _ (length_toList js _)
  show [js.textOr (item.lookup "name") untitled, js.text ((part item "login").lookup "username"),
      if repromptValue js (item.lookup "reprompt") = 1 then "" else js.text (item.lookup "notes"),
      "", "", ((textsOf js cardKeys (item.lookup "card")).getD []).get "brand",
      ((textsOf js cardKeys (item.lookup "card")).getD []).get "cardholderName",
      ((textsOf js identityKeys (item.lookup "identity")).getD []).get "email",
      ((textsOf js identityKeys (item.lookup "identity")).getD []).get "username",
      ((textsOf js identityKeys (item.lookup "identity")).getD []).get "company",
      joinName ((textsOf js identityKeys (item.lookup "identity")).getD []).get]
    ++ (loginUris js (part item "login")).take maxListEntries = _
  rw [huris, hname, hnested "login" "username" (by decide), hnotes, hfull,
    hcard "brand" (by decide) (by decide), hcard "cardholderName" (by decide) (by decide),
    hidentity "email" (by decide) (by decide), hidentity "username" (by decide) (by decide),
    hidentity "company" (by decide) (by decide), haystackTexts, hkey, hfingerprint]
  simp only [reprompt_eq h]

theorem rowNumber_item : rowNumber (itemRow js item) = (text item ["card", "number"]).toList := by
  have hnumber : ((textsOf js cardKeys (item.lookup "card")).getD []).get "number"
      = text item ["card", "number"] :=
    (lookup_textsOf (by decide) "card").trans (text_nested (h.texts _ (by decide)))
  exact congrArg String.toList hnumber

omit h

/-! ## SSH records -/

/-- A record of an SSH key, as the sanitizing filter writes it. -/
structure SshRecord where
  id : String
  name : String
  organizationId : Option String
  folderId : Option String
  favorite : Bool
  reprompt : Number
  publicKey : String
  fingerprint : String

def stringOrNull : Option String → Value
  | some s => .string s
  | none => .null

def SshRecord.fields (key : SshRecord) : Fields :=
  [("favorite", .bool key.favorite), ("fingerprint", .string key.fingerprint),
    ("folderId", stringOrNull key.folderId), ("id", .string key.id), ("name", .string key.name),
    ("organizationId", stringOrNull key.organizationId), ("publicKey", .string key.publicKey),
    ("reprompt", .number key.reprompt), ("type", .number (.posInt 5))]

theorem sshKeyRow_record (key : SshRecord) (hid : key.id ≠ "") :
    sshKeyRow js key.fields = some (sshDetail js key.fields) := by
  have ht : truthy (some (.string key.id)) := by simp [truthy, hid]
  exact if_pos ht

theorem text_string (s : String) : js.text (some (.string s)) = s := by
  rw [text_eq fun value hvalue => .inr ⟨s, (Option.some.inj hvalue).symm⟩]
  rfl

theorem rowParts_record (key : SshRecord) (hname : key.name ≠ "") :
    rowParts (sshDetail js key.fields) = haystackTexts key.fields := by
  have hshown : js.textOr (some (.string key.name)) untitled = key.name := by
    have ht : truthy (some (.string key.name)) := by simp [truthy, hname]
    rw [Coercions.textOr, if_pos ht]
    exact js.string_string key.name
  have hpublic : js.firstText [none, some (.string key.publicKey)] = key.publicKey := by
    by_cases hempty : key.publicKey = ""
    · rw [hempty]
      rfl
    · have ht : truthy (some (.string key.publicKey)) := by simp [truthy, hempty]
      rw [Coercions.firstText, List.find?_cons_of_neg (by decide), List.find?_cons_of_pos ht]
      exact text_string key.publicKey
  have hfingerprint : js.firstText [none, none, some (.string key.fingerprint), none]
      = key.fingerprint := by
    by_cases hempty : key.fingerprint = ""
    · rw [hempty]
      rfl
    · have ht : truthy (some (.string key.fingerprint)) := by simp [truthy, hempty]
      rw [Coercions.firstText, List.find?_cons_of_neg (by decide),
        List.find?_cons_of_neg (by decide), List.find?_cons_of_pos ht]
      exact text_string key.fingerprint
  -- Of the parts of an item, a record has none.
  have habsent : key.fields.lookup "login" = none ∧ key.fields.lookup "card" = none
      ∧ key.fields.lookup "identity" = none ∧ key.fields.lookup "sshKey" = none
      ∧ key.fields.lookup "notes" = none ∧ key.fields.lookup "keyFingerprint" = none := by
    simp [SshRecord.fields, List.lookup_cons]
  obtain ⟨hlogin, hcard, hidentity, hssh, hnotes, hother⟩ := habsent
  have hpresent : key.fields.lookup "name" = some (.string key.name)
      ∧ key.fields.lookup "publicKey" = some (.string key.publicKey)
      ∧ key.fields.lookup "fingerprint" = some (.string key.fingerprint) := by
    simp [SshRecord.fields, List.lookup_cons]
  obtain ⟨hname, hkey, hprint⟩ := hpresent
  generalize key.fields = record at *
  have htext : ∀ owner key, record.lookup owner = none → text record [owner, key] = "" := by
    intro owner key hnone
    rw [Vault.text, get_nested, part, hnone]
    rfl
  have hnested : text record ["name"] = key.name ∧ text record ["publicKey"] = key.publicKey
      ∧ text record ["fingerprint"] = key.fingerprint ∧ text record ["notes"] = "" := by
    simp [Vault.text, Vault.get, hname, hkey, hprint, hnotes, Value.asStr]
  obtain ⟨hname', hkey', hprint', hnotes'⟩ := hnested
  have hfull : (nameKeys.map fun key => trim (text record ["identity", key]).toList).filter
      (· ≠ []) = [] := by
    simp [nameKeys, htext _ _ hidentity, trim, trimEndMatches]
  have hrow : rowParts (sshDetail js record)
      = [js.textOr (record.lookup "name") untitled, "",
        if repromptValue js (record.lookup "reprompt") = 1 then "" else "",
        js.firstText [(part record "sshKey").lookup "publicKey", record.lookup "publicKey"],
        js.firstText [(part record "sshKey").lookup "fingerprint",
          (part record "sshKey").lookup "keyFingerprint", record.lookup "fingerprint",
          record.lookup "keyFingerprint"], "", "", "", "", "", joinName (Texts.get [])] := rfl
  rw [hrow, haystackTexts, hfull, hname', hkey', hprint', hnotes', htext _ _ hlogin,
    htext _ _ hcard, htext _ _ hcard, htext _ _ hidentity, htext _ _ hidentity,
    htext _ _ hidentity, part, hssh, hname, hkey, hprint, hother, hshown, ite_self, ite_self,
    show joinName (Texts.get []) = "" by decide]
  show [_, _, _, js.firstText [none, some (.string key.publicKey)],
    js.firstText [none, none, some (.string key.fingerprint), none], _, _, _, _, _, _] = _
  rw [hpublic, hfingerprint]
  rfl

/-! ## The reads searched -/

/-- What the helper's libraries guarantee: lowercasing as above, and that an item can be written. -/
structure SearchLibs (libs : Libs) : Prop extends Lowercasing libs.lowercase where
  renders : ∀ item, (libs.render (.object item)).isSome

/-- The id of an item. -/
def itemId (item : Fields) : String := ((item.lookup "id").bind Value.asStr).getD ""

/-- A sanitized read of items and SSH keys, with texts that are there and ids that are distinct. -/
structure SearchVault (vault : Fields) (items : List Fields) (keys : List SshRecord) : Prop where
  items_eq : vault.lookup "items" = some (.array (items.map Value.object))
  keys_eq : vault.lookup "sshKeys" = some (.array (keys.map fun key => .object key.fields))
  items_ok : ∀ item ∈ items, Searchable item
  names : ∀ key ∈ keys, key.name ≠ ""
  ids : ∀ item ∈ items, ∃ id, item.lookup "id" = some (.string id) ∧ id ≠ ""
  keyIds : ∀ key ∈ keys, key.id ≠ ""
  distinct : (items.map itemId ++ keys.map SshRecord.id).Nodup

section

variable {libs : Libs} {vault : Fields} {items : List Fields} {keys : List SshRecord}

/-- All objects of the read. -/
def allRecords (items : List Fields) (keys : List SshRecord) : List Fields :=
  items ++ keys.map SshRecord.fields

variable (hlibs : SearchLibs libs)
include hlibs

theorem heldOf_record (hvault : SearchVault vault items keys) {item : Fields}
    (hitem : item ∈ allRecords items keys) :
    ∃ held, heldOf libs item = some held ∧ held.id = itemId item := by
  have hid : item.lookup "id" = some (.string (itemId item)) := by
    rcases List.mem_append.mp hitem with hitem | hkey
    · obtain ⟨id, hid, -⟩ := hvault.ids item hitem
      rw [itemId, hid]
      rfl
    · obtain ⟨key, -, rfl⟩ := List.mem_map.mp hkey
      rfl
  obtain ⟨full, hfull⟩ := Option.isSome_iff_exists.mp (hlibs.renders item)
  unfold heldOf
  rw [hid, hfull]
  exact ⟨_, rfl, rfl⟩

/-- After a read the store holds what it has, under distinct ids. -/
theorem stripVault_items (store : Store) {raw : String}
    (hparse : libs.parse raw = some (.object vault)) (hvault : SearchVault vault items keys) :
    (store.stripVault libs raw true).2.items = (allRecords items keys).filterMap (heldOf libs)
      ∧ ((store.stripVault libs raw true).2.items.map Held.id).Nodup := by
  have hitems : holdable libs (arrayAt vault "items") = items.filterMap (heldOf libs) := by
    rw [arrayAt, hvault.items_eq, holdable, List.filterMap_map]
    rfl
  have hkeys : holdable libs (arrayAt vault "sshKeys")
      = (keys.map SshRecord.fields).filterMap (heldOf libs) := by
    rw [arrayAt, hvault.keys_eq, holdable, List.filterMap_map, List.filterMap_map]
    rfl
  have hids : ((allRecords items keys).filterMap (heldOf libs)).map Held.id
      = items.map itemId ++ keys.map SshRecord.id := by
    have hkeys : keys.map SshRecord.id = (keys.map SshRecord.fields).map itemId := by
      rw [List.map_map]
      rfl
    rw [hkeys, ← List.map_append, List.map_filterMap, ← List.filterMap_eq_map]
    refine List.filterMap_congr fun item hitem => ?_
    obtain ⟨held, hheld, hid⟩ := heldOf_record hlibs hvault hitem
    rw [hheld, Option.map_some, hid]
    rfl
  have hall : holdable libs (arrayAt vault "items") ++ holdable libs (arrayAt vault "sshKeys")
      = (allRecords items keys).filterMap (heldOf libs) := by
    rw [hitems, hkeys, allRecords, List.filterMap_append]
  have hnodup := hvault.distinct
  rw [← hids] at hnodup
  rw [stripVault_replaces store hparse (by rw [hall]; exact hnodup), hall]
  exact ⟨rfl, hnodup⟩

/-- A record is found by its id exactly if it matches. -/
theorem search_record (store : Store) {raw : String}
    (hparse : libs.parse raw = some (.object vault)) (hvault : SearchVault vault items keys)
    (item : Fields) (hitem : item ∈ allRecords items keys) {row : Detail}
    (hparts : ∀ q : List Char, q ≠ [] →
      ((∃ part ∈ haystackParts item, q <:+: (libs.lowercase part).toList)
        ↔ ∃ part ∈ rowParts row, q <:+: (libs.lowercase part).toList))
    (hnumber : rowNumber row = (text item ["card", "number"]).toList) {query : String}
    (hquery : Plain query.toList) :
    itemId item ∈ (store.stripVault libs raw true).2.search libs query
      ↔ matchesQuery libs.lowercase row query := by
  obtain ⟨held, hheld, hid⟩ := heldOf_record hlibs hvault hitem
  obtain ⟨hitems, hnodup⟩ := stripVault_items hlibs store hparse hvault
  have hmem : held ∈ (store.stripVault libs raw true).2.items := by
    rw [hitems]
    exact List.mem_filterMap.mpr ⟨item, hitem, hheld⟩
  rw [← hid, mem_search hnodup hmem, heldMatches_iff hlibs.toLowercasing hheld hquery rfl,
    matchesQuery_iff hlibs.toLowercasing row (hlibs.query hquery), hnumber]
  generalize (libs.lowercase (String.ofList (trim query.toList))).toList = q
  by_cases hempty : q = []
  · simp [hempty]
  · rw [hparts q hempty]

end

/-- After a read, the helper's search for a query finds an item or an SSH key exactly if the panel's
search finds the row it reads off the unstripped record. -/
theorem search_agrees (js : Shell) (libs : Libs) (hlibs : SearchLibs libs) (store : Store)
    (raw : String) {vault : Fields} {items : List Fields} {keys : List SshRecord}
    (hparse : libs.parse raw = some (.object vault)) (hvault : SearchVault vault items keys)
    (before : Detail → Detail → Bool) (query : String) (hquery : Plain query.toList) :
    (∀ item ∈ items, ∃ row ∈ parseItems js before (items.map Value.object), row = itemRow js item
      ∧ (itemId item ∈ (store.stripVault libs raw true).2.search libs query
        ↔ matchesQuery libs.lowercase row query))
    ∧ ∀ key ∈ keys, ∃ row, sshKeyRow js key.fields = some row
      ∧ (key.id ∈ (store.stripVault libs raw true).2.search libs query
        ↔ matchesQuery libs.lowercase row query) := by
  constructor
  · intro item hitem
    have hrow : itemRow js item ∈ parseItems js before (items.map Value.object) := by
      rw [parseItems, List.mem_mergeSort, List.filterMap_map]
      exact List.mem_filterMap.mpr ⟨item, hitem, rfl⟩
    have hok := hvault.items_ok item hitem
    refine ⟨itemRow js item, hrow, rfl, ?_⟩
    refine search_record hlibs store hparse hvault item (List.mem_append_left _ hitem) ?_
      (rowNumber_item hok) hquery
    intro q hempty
    -- An empty website has nothing in it.
    have hfound : ∀ uri, q <:+: (libs.lowercase uri).toList → uri ≠ "" := by
      rintro uri hinfix rfl
      rw [hlibs.empty] at hinfix
      exact hempty (List.infix_nil.mp hinfix)
    rw [rowParts_item hok, haystackParts]
    constructor
    · rintro ⟨part, hpart, hinfix⟩
      refine ⟨part, ?_, hinfix⟩
      rcases List.mem_append.mp hpart with htext | huri
      · exact List.mem_append_left _ htext
      · refine List.mem_append_right _ (List.mem_filter.mpr ⟨huri, ?_⟩)
        exact decide_eq_true (hfound part hinfix)
    · rintro ⟨part, hpart, hinfix⟩
      refine ⟨part, ?_, hinfix⟩
      rcases List.mem_append.mp hpart with htext | huri
      · exact List.mem_append_left _ htext
      · exact List.mem_append_right _ (List.mem_filter.mp huri).1
  · intro key hkey
    refine ⟨sshDetail js key.fields, sshKeyRow_record key (hvault.keyIds key hkey), ?_⟩
    refine search_record hlibs store hparse hvault key.fields
      (List.mem_append_right _ (List.mem_map_of_mem hkey)) ?_ rfl hquery
    intro q _
    have hparts : haystackParts key.fields = haystackTexts key.fields := List.append_nil _
    rw [rowParts_record key (hvault.names key hkey), hparts]

/-! ## A search -/

/-- Lowercasing that knows the ASCII letters. -/
def asciiLower (s : String) : String := String.ofList (s.toList.map Char.toLower)

theorem toLower_cases (c : Char) :
    c.toLower = c ∨ (65 ≤ c.toNat ∧ c.toNat ≤ 90 ∧ c.toLower.toNat = c.toNat + 32) := by
  unfold Char.toLower
  by_cases h : c.val ≥ 'A'.val ∧ c.val ≤ 'Z'.val
  · have hlow : 65 ≤ c.toNat := h.1
    have hhigh : c.toNat ≤ 90 := h.2
    rw [dif_pos h]
    refine Or.inr ⟨hlow, hhigh, ?_⟩
    show (c.toNat + 32) % 2 ^ 32 = c.toNat + 32
    omega
  · rw [dif_neg h]
    exact Or.inl rfl

theorem isWhitespace_toLower (c : Char) : isWhitespace c.toLower = isWhitespace c := by
  rcases toLower_cases c with hsame | ⟨hlow, hhigh, hlower⟩
  · rw [hsame]
  · have hspace : ∀ n, 65 ≤ n → n ≤ 122 → ((9 ≤ n ∧ n ≤ 13) ∨ n = 0x20 ∨ n = 0x85 ∨ n = 0xa0
        ∨ n = 0x1680 ∨ (0x2000 ≤ n ∧ n ≤ 0x200a) ∨ n = 0x2028 ∨ n = 0x2029 ∨ n = 0x202f
        ∨ n = 0x205f ∨ n = 0x3000) → False := by
      omega
    have hnot : ∀ d : Char, 65 ≤ d.toNat → d.toNat ≤ 122 → isWhitespace d = false := by
      intro d hlow hhigh
      rw [Bool.eq_false_iff]
      intro h
      refine hspace d.toNat hlow hhigh ?_
      simpa [isWhitespace, or_assoc] using h
    rw [hnot c hlow (by omega), hnot c.toLower (by omega) (by omega)]

theorem asciiLower_lowercasing : Lowercasing asciiLower where
  joined parts := by
    have hmap : ∀ parts : List (List Char), (List.intercalate [Char.ofNat 0] parts).map Char.toLower
        = List.intercalate [Char.ofNat 0] (parts.map fun part => part.map Char.toLower) := by
      intro parts
      induction parts with
      | nil => rfl
      | cons first parts ih =>
        cases parts with
        | nil => simp
        | cons second parts =>
          rw [List.intercalate_cons_cons, List.map_append, List.map_append, ih]
          show _ = List.intercalate [Char.ofNat 0] (_ :: _ :: _)
          rw [List.intercalate_cons_cons]
          rfl
    rw [← String.toList_inj, String.toList_intercalate, asciiLower, String.toList_ofList,
      String.toList_intercalate]
    refine (hmap _).trans ?_
    rw [List.map_map, List.map_map]
    refine congrArg (List.intercalate [Char.ofNat 0]) (List.map_congr_left fun part _ => ?_)
    rw [Function.comp_apply, Function.comp_apply, asciiLower, String.toList_ofList]
  trimmed s := by
    have hdrop : ∀ text : List Char, (text.map Char.toLower).dropWhile isWhitespace
        = (text.dropWhile isWhitespace).map Char.toLower := by
      intro text
      rw [List.dropWhile_map]
      exact congrArg _ (dropWhile_congr fun c _ => isWhitespace_toLower c)
    rw [asciiLower, asciiLower, String.toList_ofList, String.toList_ofList, String.toList_ofList,
      trim, trim, trimEndMatches, trimEndMatches, hdrop, ← List.map_reverse, hdrop,
      ← List.map_reverse]
  plain s hplain c hc := by
    rw [asciiLower, String.toList_ofList] at hc
    obtain ⟨d, hd, rfl⟩ := List.mem_map.mp hc
    have hd := hplain d hd
    rcases toLower_cases d with hsame | ⟨hlow, hhigh, hlower⟩
    · rw [hsame]
      exact hd
    · omega

/-- A login with a website. -/
def mailLogin : Fields :=
  [("id", .string "m1"),
    ("login", .object [("uris", .array [.object [("uri", .string "https://Mail.example")]]),
      ("username", .string "ann")]),
    ("name", .string "Post"), ("type", .number (.posInt 1))]

def deployKey : SshRecord where
  id := "k1"
  name := "Deploy"
  organizationId := none
  folderId := none
  favorite := false
  reprompt := .posInt 0
  publicKey := "ssh-ed25519 AAAA"
  fingerprint := "SHA256:mail"

def mailVault : Fields :=
  [("items", .array [.object mailLogin]), ("sshKeys", .array [.object deployKey.fields])]

def mailLibs : Libs where
  parse _ := some (.object mailVault)
  render _ := some ""
  lowercase := asciiLower

theorem mailLibs_search : SearchLibs mailLibs where
  toLowercasing := asciiLower_lowercasing
  renders _ := rfl

theorem plain_of_all {s : String}
    (h : s.toList.all fun c => c.toNat ≠ 0xfeff ∧ c.toNat ≠ 0x85 ∧ c.toNat ≠ 0) : Plain s.toList :=
  fun c hc => of_decide_eq_true (List.all_eq_true.mp h c hc)

theorem plainText_string {s : String}
    (h : s.toList.all fun c => c.toNat ≠ 0xfeff ∧ c.toNat ≠ 0x85 ∧ c.toNat ≠ 0) :
    PlainText (some (.string s)) :=
  fun _ hvalue => .inr ⟨s, (Option.some.inj hvalue).symm, plain_of_all h⟩

theorem mailLogin_searchable : Searchable mailLogin where
  name := ⟨"Post", rfl, by decide, plain_of_all (by decide)⟩
  texts := by
    have hnone : PlainText none := by
      rintro value ⟨⟩
    simp only [searchedPaths, List.forall_mem_cons]
    exact ⟨plainText_string (s := "ann") (by decide), hnone, hnone, hnone, hnone, hnone, hnone,
      hnone, hnone, hnone, hnone, hnone, List.forall_mem_nil _⟩
  reprompt := by
    rintro v ⟨⟩
  publicKey := rfl
  fingerprint := rfl
  list := .inr (.inr ⟨_, rfl⟩)
  few := by
    show 1 ≤ 4096
    decide
  addresses := by
    show ∀ entry ∈ [Value.object _], _
    simp only [List.forall_mem_cons]
    exact ⟨plainText_string (s := "https://Mail.example") (by decide), List.forall_mem_nil _⟩

theorem mailVault_search : SearchVault mailVault [mailLogin] [deployKey] where
  items_eq := rfl
  keys_eq := rfl
  items_ok := List.forall_mem_singleton.mpr mailLogin_searchable
  names := List.forall_mem_singleton.mpr (by decide)
  ids := List.forall_mem_singleton.mpr ⟨"m1", rfl, by decide⟩
  keyIds := List.forall_mem_singleton.mpr (by decide)
  distinct := by decide

/-- The website and the fingerprint are found in any case; the key has nothing of the user. -/
theorem search_agrees_mail :
    "m1" ∈ (Store.new.stripVault mailLibs "" true).2.search mailLibs " MAIL "
    ∧ "k1" ∈ (Store.new.stripVault mailLibs "" true).2.search mailLibs " MAIL "
    ∧ "k1" ∉ (Store.new.stripVault mailLibs "" true).2.search mailLibs "Ann" := by
  have hfound := search_agrees plainShell mailLibs mailLibs_search Store.new "" rfl
    mailVault_search (fun _ _ => true)
  obtain ⟨hlogin, hkey⟩ := hfound " MAIL " (plain_of_all (by decide))
  obtain ⟨-, hother⟩ := hfound "Ann" (plain_of_all (by decide))
  obtain ⟨row, -, rfl, hrow⟩ := hlogin mailLogin (List.mem_singleton.mpr rfl)
  obtain ⟨key, hsome, hkey⟩ := hkey deployKey (List.mem_singleton.mpr rfl)
  obtain ⟨key', hsome', hother⟩ := hother deployKey (List.mem_singleton.mpr rfl)
  cases hsome
  cases hsome'
  refine ⟨hrow.mpr ?_, hkey.mpr ?_, fun hmem => absurd (hother.mp hmem) ?_⟩
  · decide +kernel
  · decide +kernel
  · decide +kernel

end QsBitwarden.Panel.Items
