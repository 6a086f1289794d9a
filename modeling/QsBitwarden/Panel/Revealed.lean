import QsBitwarden.Panel.PublicView
import QsBitwarden.Vault.Secrets

/-!
# Panel — a secret the helper answers is the one the panel would show

With the helper, a secret is fetched by name when it is revealed; without, it is read off the loaded
detail. Both name custom fields by their position in the item, though the panel has no row for a
field without a name.

* **`Readable`** — items whose secrets are texts and whose custom fields are typed by whole numbers.
* **`parse_custom`** — the helper knows the name of every row.
* **`named_secret`**, **`row_secret`** — the item's own secrets, and those of its rows.
* **`answered_row`** — a position that is answered has a sensitive row, or a field without a name.
* **`scrub`** — an item without its TOTP key, its passkeys and its password history. No answer
  depends on what was scrubbed.
* **`secrets_agree`** — all of it; `nameless_secret` is a field without a row that is answered.
-/

namespace QsBitwarden.Panel.Items

open Json Js Vault

variable (js : Shell) {item : Fields}

variable {field : Fields} {key : String}

/-! ## Names -/

theorem head_toDigits {n : Nat} (h : 0 < n) : (Nat.toDigits 10 n).head? ≠ some '0' := by
  induction n using Nat.strongRecOn with
  | ind n ih =>
    rw [Nat.toDigits_eq_if (by decide)]
    by_cases hlt : n < 10
    · rw [if_pos hlt]
      have hall : ∀ n < 10, 0 < n → [Nat.digitChar n].head? ≠ some '0' := by decide
      exact hall n hlt h
    · have hpos : 0 < n / 10 := by omega
      have hhead := ih (n / 10) (by omega) hpos
      rw [if_neg hlt, List.head?_append]
      cases hcase : (Nat.toDigits 10 (n / 10)).head? with
      | none => exact absurd (List.head?_eq_none_iff.mp hcase) Nat.toDigits_ne_nil
      | some c =>
        rw [hcase] at hhead
        exact hhead

theorem parseIndex_toDigits {n : Nat} (h : n < 10000) :
    SecretField.parseIndex (Nat.toDigits 10 n) = some n := by
  have hlength : (Nat.toDigits 10 n).length ≤ 4 :=
    (Nat.length_toDigits_le_iff (by decide) (by decide)).mpr h
  have hall : (Nat.toDigits 10 n).all Char.isDigit :=
    List.all_eq_true.mpr fun c hc => Nat.isDigit_of_mem_toDigits (by decide) (by decide) hc
  have hzero : ¬(1 < (Nat.toDigits 10 n).length ∧ (Nat.toDigits 10 n).head? = some '0') := by
    rintro ⟨hlong, hhead⟩
    rcases Nat.eq_zero_or_pos n with rfl | hpos
    · exact absurd hlong (by decide)
    · exact head_toDigits hpos hhead
  have hok : ¬((Nat.toDigits 10 n).isEmpty || 4 < (Nat.toDigits 10 n).length
      || !(Nat.toDigits 10 n).all Char.isDigit
      || (1 < (Nat.toDigits 10 n).length && (Nat.toDigits 10 n).head? == some '0')) := by
    simp only [hall, Bool.not_true, Bool.or_false, Bool.or_eq_true, List.isEmpty_iff,
      decide_eq_true_eq, Bool.and_eq_true, beq_iff_eq]
    rintro ((hempty | hlong) | hlead)
    · exact Nat.toDigits_ne_nil hempty
    · omega
    · exact hzero hlead
  rw [SecretField.parseIndex, if_neg hok, Nat.ofDigitChars_ten_toDigits]

/-- The name of the row of a custom field. -/
def rowKey (index : Nat) : String := customFieldKey ++ toString index

theorem rowKey_toList (index : Nat) :
    (rowKey index).toList = customFieldKey.toList ++ Nat.toDigits 10 index := by
  rw [rowKey, String.toList_append, Nat.toString_eq_ofList_toDigits, String.toList_ofList]

theorem rowKey_isCustom (index : Nat) :
    customFieldKey.toList.isPrefixOf (rowKey index).toList := by
  rw [rowKey_toList, List.isPrefixOf_iff_prefix]
  exact List.prefix_append _ _

theorem drop_rowKey (index : Nat) :
    (rowKey index).toList.drop customFieldKey.length = Nat.toDigits 10 index := by
  rw [rowKey_toList]
  exact List.drop_left' rfl

theorem parse_custom {index : Nat} (h : index < 10000) :
    SecretField.parse (rowKey index) = some (.custom index) := by
  have hcustom := rowKey_isCustom index
  have hdrop := drop_rowKey index
  generalize rowKey index = key at hcustom hdrop
  unfold SecretField.parse
  split
  all_goals first | exact absurd hcustom (by decide) | skip
  rw [if_pos (show SecretField.customName.toList.isPrefixOf _ from hcustom)]
  show (SecretField.parseIndex (key.toList.drop customFieldKey.length)).map SecretField.custom = _
  rw [hdrop, parseIndex_toDigits h]
  rfl

/-! ## Items -/

def IsInteger : Number → Prop
  | .posInt _ | .negInt _ => True
  | .float _ => False

/-- A custom field: texts, and whole numbers for its type and its link. -/
structure FieldShape (field : Fields) : Prop where
  name : SecretText (field.lookup "name")
  type : ∃ n, IsInteger n ∧ field.lookup "type" = some (.number n)
  value : SecretText (field.lookup "value")
  linkedId : ∀ v ∈ field.lookup "linkedId", v = .null ∨ ∃ n, IsInteger n ∧ v = .number n

/-- The custom fields of an item. -/
def fieldEntries (item : Fields) : List Value :=
  match item.lookup "fields" with
  | some (.array entries) => entries
  | _ => []

structure Readable (item : Fields) : Prop extends Storable item where
  list : item.lookup "fields" = none ∨ item.lookup "fields" = some .null
    ∨ ∃ entries, item.lookup "fields" = some (.array entries)
  few : (fieldEntries item).length ≤ maxListEntries
  shapes : ∀ entry ∈ fieldEntries item, ∃ field, entry = .object field ∧ FieldShape field

theorem toList_fields (h : Readable item) :
    toList js (item.lookup "fields") = (fieldEntries item).map some :=
  toList_listed js h.list h.few

variable {js}

/-- A whole number is read as a small one only if it is that number. -/
theorem number_eq_int {n : Number} (hn : IsInteger n) {c : Nat} (hc : c < 2 ^ 53) :
    js.number (.number n) = .int c ↔ n = .posInt c := by
  cases n with
  | posInt n =>
    by_cases hlt : n < 2 ^ 53
    · rw [js.number_posInt n hlt, Js.Num.int.injEq, Number.posInt.injEq]
      exact Int.natCast_inj
    · obtain ⟨m, hm, hnumber⟩ := js.number_large n (Nat.not_lt.mp hlt)
      rw [hnumber, Js.Num.int.injEq, Number.posInt.injEq]
      constructor
      · intro heq
        omega
      · intro heq
        omega
  | negInt n =>
    obtain ⟨m, hm, hnumber⟩ := js.number_negInt n
    rw [hnumber, Js.Num.int.injEq]
    constructor
    · intro heq
      omega
    · intro heq
      cases heq
  | float bits => cases hn

theorem type_eq {n : Number} (hn : IsInteger n) {c : Nat} (hpos : 0 < c) (hc : c < 2 ^ 53) :
    numberOr js (some (.number n)) 0 = .int c ↔ n = .posInt c := by
  unfold numberOr
  by_cases ht : truthy (some (.number n))
  · rw [if_pos ht]
    exact number_eq_int hn hc
  · rw [if_neg ht, Js.Num.int.injEq]
    constructor
    · intro heq
      omega
    · intro heq
      subst heq
      simp [truthy, truthyNumber] at ht
      omega

/-! ## Rows -/

variable {f : CustomField}

/-- A row is the custom field at its position. -/
theorem mem_itemCustomFields (h : Readable item) :
    f ∈ itemCustomFields js (item.lookup "fields") item
      ↔ ∃ entry, (fieldEntries item)[f.index]? = some entry
        ∧ customField js item (some entry) f.index = some f := by
  have hindex : ∀ {entry : Option Value} {i : Nat}, customField js item entry i = some f →
      f.index = i := by
    intro entry i hf
    unfold customField at hf
    split_ifs at hf
    cases hf
    rfl
  unfold itemCustomFields
  rw [toList_fields js h, List.mem_filterMap]
  constructor
  · rintro ⟨⟨entry, i⟩, hmem, hf⟩
    have hi := hindex hf
    subst hi
    rw [List.mk_mem_zipIdx_iff_getElem?, List.getElem?_map] at hmem
    obtain ⟨value, hvalue, rfl⟩ := Option.map_eq_some_iff.mp hmem
    exact ⟨value, hvalue, hf⟩
  · rintro ⟨entry, hentry, hf⟩
    refine ⟨(some entry, f.index), ?_, hf⟩
    rw [List.mk_mem_zipIdx_iff_getElem?, List.getElem?_map, hentry]
    rfl

/-- What the helper makes of a custom field, by its type. -/
def fieldSecret (item : Fields) (field : Value) : Option String :=
  match (field.get "type").bind Value.asU64 with
  | some 1 => (field.get "value").bind Value.asStr
  | some 3 => ((field.get "linkedId").bind Value.asU64).bind fun linkedId =>
      (linkedSecretPath linkedId).bind fun path => (getValue (.object item) path).bind Value.asStr
  | _ => none

theorem customSecret_eq (item : Fields) (index : Nat) :
    customSecret (.object item) index = (fieldEntries item)[index]?.bind (fieldSecret item) := by
  unfold customSecret fieldEntries
  show ((item.lookup "fields").bind fun fields => _) = _
  cases item.lookup "fields" with
  | none => rfl
  | some fields =>
    cases fields with
    | array entries =>
      show (entries[index]?.bind fun custom => _) = entries[index]?.bind (fieldSecret item)
      congr 1
      funext custom
      unfold fieldSecret
      cases (custom.get "type").bind Value.asU64 with
      | none => rfl
      | some type =>
        simp only [Option.bind_eq_bind, Option.bind_some]
        split
        · rfl
        · rfl
        · split <;> simp_all
    | _ => rfl

theorem getValue_nested (item : Fields) (owner key : String) :
    getValue (.object item) [owner, key] = (part item owner).lookup key := by
  unfold part
  show (((Value.object item).get owner).bind fun next => (next.get key).bind some) = _
  rw [show (Value.object item).get owner = item.lookup owner from rfl]
  cases item.lookup owner with
  | none => rfl
  | some value =>
    cases value with
    | object fields =>
      show (fields.lookup key).bind some = fields.lookup key
      cases fields.lookup key <;> rfl
    | _ => rfl

/-- A stored text as the panel shows it and as the helper reads it. -/
theorem shown_eq {v : Option Value} (h : SecretText v) :
    js.shown v = (v.bind Value.asStr).getD "" := by
  cases v with
  | none => rfl
  | some value =>
    rcases h value rfl with rfl | ⟨s, rfl⟩
    · rfl
    · show js.string (.string s) = s
      exact js.string_string s

theorem text_eq {v : Option Value} (h : SecretText v) :
    js.text v = (v.bind Value.asStr).getD "" := by
  cases v with
  | none => rfl
  | some value =>
    rcases h value rfl with rfl | ⟨s, rfl⟩
    · rfl
    · by_cases hs : s = ""
      · subst hs
        rfl
      · have ht : truthy (some (.string s)) := by simp [truthy, hs]
        rw [Coercions.text, if_pos ht]
        exact js.string_string s

/-- Where a link to a secret leads, for the panel and for the helper. -/
theorem sensitive_link {id : Nat} (h : linkedCustomFieldIsSensitive (some (.int id))) :
    ∃ owner key, linkedPath id = some (owner, key) ∧ linkedSecretPath id = some [owner, key]
      ∧ [owner, key] ∈ textSecrets ∧ (id : Int) ≠ 418 := by
  have hid : id = 101 ∨ id = 303 ∨ id = 305 ∨ id = 412 ∨ id = 414 ∨ id = 415 := by
    have hmem := List.contains_iff_mem.mp h
    simp only [linkNumber, Option.getD_some, List.mem_cons, Js.Num.int.injEq, List.not_mem_nil,
      or_false] at hmem
    omega
  rcases hid with rfl | rfl | rfl | rfl | rfl | rfl
  all_goals exact ⟨_, _, rfl, rfl, by decide, by decide⟩

theorem linkedSecretPath_sensitive {id : Nat} {path : List String}
    (h : linkedSecretPath id = some path) : linkedCustomFieldIsSensitive (some (.int id)) := by
  unfold linkedSecretPath at h
  split at h <;> first | decide | cases h

/-- A link to a secret is one of six small numbers. -/
theorem link_number (hshape : FieldShape field)
    (h : linkedCustomFieldIsSensitive (fieldLink js field)) :
    ∃ id : Nat, field.lookup "linkedId" = some (.number (.posInt id))
      ∧ fieldLink js field = some (.int id) := by
  unfold fieldLink at h ⊢
  cases hlookup : field.lookup "linkedId" with
  | none =>
    rw [hlookup] at h
    exact absurd (show linkedCustomFieldIsSensitive none from h) (by decide)
  | some v =>
    rw [hlookup] at h
    rcases hshape.linkedId v hlookup with rfl | ⟨n, hn, rfl⟩
    · exact absurd (show linkedCustomFieldIsSensitive none from h) (by decide)
    · have hmem : js.number (.number n)
          ∈ [Js.Num.int 101, .int 303, .int 305, .int 412, .int 414, .int 415] :=
        List.contains_iff_mem.mp h
      have hid : ∃ id : Nat, id < 2 ^ 53 ∧ js.number (.number n) = .int id := by
        simp only [List.mem_cons, List.not_mem_nil, or_false] at hmem
        rcases hmem with hid | hid | hid | hid | hid | hid
        all_goals exact ⟨_, by decide, hid⟩
      obtain ⟨id, hlt, hid⟩ := hid
      have hpos := (number_eq_int hn hlt).mp hid
      subst hpos
      exact ⟨id, rfl, congrArg some hid⟩

/-- A sensitive row shows what the helper answers. -/
theorem row_value (h : Readable item) (hshape : FieldShape field) {index : Nat}
    (hsensitive : (fieldRow js item field index).sensitive) :
    (fieldSecret item (.object field)).getD "" = (fieldRow js item field index).value := by
  obtain ⟨n, hn, htype⟩ := hshape.type
  have hkinds : numberOr js (field.lookup "type") 0 = .int 1
      ∨ (numberOr js (field.lookup "type") 0 = .int 3
        ∧ linkedCustomFieldIsSensitive (fieldLink js field)) := by
    simpa [fieldRow] using hsensitive
  have hget : ∀ key, (Value.object field).get key = field.lookup key := fun _ => rfl
  unfold fieldSecret fieldRow
  dsimp only
  rw [hget, hget, hget]
  rcases hkinds with hone | ⟨hthree, hlink⟩
  · -- Hidden: the field's own text.
    have hn1 : n = .posInt 1 := by
      rw [htype] at hone
      exact (type_eq hn (by decide) (by decide)).mp hone
    have hnot : ¬numberOr js (field.lookup "type") 0 = .int 3 := by
      rw [hone]
      decide
    rw [if_neg hnot, htype, hn1, shown_eq hshape.value]
    rfl
  · -- Linked: the text of the item's field it leads to.
    have hn3 : n = .posInt 3 := by
      rw [htype] at hthree
      exact (type_eq hn (by decide) (by decide)).mp hthree
    obtain ⟨id, hlookup, hid⟩ := link_number hshape hlink
    rw [hid] at hlink
    obtain ⟨owner, key, hpanel, hhelper, hsecret, hname⟩ := sensitive_link hlink
    have htext : SecretText ((part item owner).lookup key) := by
      rw [← get_nested]
      exact h.secrets _ hsecret
    have hnumber : linkNumber (some (.int id)) = .int id := rfl
    rw [if_pos hthree, htype, hn3, hid, linkedCustomFieldValue_int hnumber, if_neg hname, hpanel,
      hlookup]
    show ((linkedSecretPath id).bind fun path =>
        (getValue (.object item) path).bind Value.asStr).getD ""
      = js.shown ((part item owner).lookup key)
    rw [hhelper, Option.bind_some, getValue_nested, shown_eq htext]

/-- The helper only answers a field whose row, if it has one, is sensitive. -/
theorem sensitive_of_fieldSecret (hshape : FieldShape field) {value : String}
    (h : fieldSecret item (.object field) = some value) (index : Nat) :
    (fieldRow js item field index).sensitive := by
  obtain ⟨n, hn, htype⟩ := hshape.type
  have hone : numberOr js (some (.number n)) 0 = .int 1 ↔ n = .posInt 1 :=
    type_eq hn (by decide) (by decide)
  have hthree : numberOr js (some (.number n)) 0 = .int 3 ↔ n = .posInt 3 :=
    type_eq hn (by decide) (by decide)
  have hget : ∀ key, (Value.object field).get key = field.lookup key := fun _ => rfl
  have hrow : (fieldRow js item field index).sensitive
      = (decide (numberOr js (field.lookup "type") 0 = .int 1)
        || (decide (numberOr js (field.lookup "type") 0 = .int 3)
          && linkedCustomFieldIsSensitive (fieldLink js field))) := rfl
  unfold fieldSecret at h
  rw [hget, hget, hget, htype] at h
  rw [hrow, htype, Bool.or_eq_true, decide_eq_true_eq, Bool.and_eq_true, decide_eq_true_eq, hone,
    hthree]
  have hpos : ∀ {type : Nat}, (some (Value.number n)).bind Value.asU64 = some type →
      n = .posInt type := fun htype => Value.number.inj (Value.asU64_eq_some.mp htype)
  split at h
  · exact .inl (hpos ‹_›)
  · refine .inr ⟨hpos ‹_›, ?_⟩
    obtain ⟨id, hid, h⟩ := Option.bind_eq_some_iff.mp h
    obtain ⟨path, hpath, h⟩ := Option.bind_eq_some_iff.mp h
    obtain ⟨v, hlookup, hv⟩ := Option.bind_eq_some_iff.mp hid
    have hsensitive := linkedSecretPath_sensitive hpath
    have hlt : id < 2 ^ 53 := by
      unfold linkedSecretPath at hpath
      split at hpath <;> first | decide | cases hpath
    have hnumber : fieldLink js field = some (js.number (.number (.posInt id))) := by
      rw [fieldLink, hlookup, Value.asU64_eq_some.mp hv]
      rfl
    rw [hnumber, js.number_posInt id hlt]
    exact hsensitive
  · cases h

/-! ## What the panel reads -/

theorem detail_eq (h : Readable item) : itemDetailFromObject js item = ordinaryDetail js item :=
  if_neg (notSsh js h.toStorable)

/-- Reading a position off a list where only `f` has it. -/
theorem foldl_position {rows : List CustomField} (hsame : ∀ g ∈ rows, g.index = f.index → g = f)
    (value : Option String) :
    rows.foldl (fun value g => if Js.Num.int g.index = .int f.index then some g.value else value) value
      = if f ∈ rows then some f.value else value := by
  induction rows generalizing value with
  | nil => rfl
  | cons g rows ih =>
    rw [List.foldl_cons, ih fun g' hg' => hsame g' (List.mem_cons_of_mem g hg')]
    by_cases hindex : g.index = f.index
    · have hg : g = f := hsame g List.mem_cons_self hindex
      subst hg
      simp
    · have hne : Js.Num.int g.index ≠ .int f.index := by
        rw [Ne, Js.Num.int.injEq, Int.natCast_inj]
        exact hindex
      have hnot : f ≠ g := fun heq => hindex (heq ▸ rfl)
      rw [if_neg hne]
      simp [hnot]

/-- A row's value is what the panel reads under its name. -/
theorem detailSecretValue_row (h : Readable item)
    (hf : f ∈ itemCustomFields js (item.lookup "fields") item) :
    detailSecretValue js (itemDetailFromObject js item) (rowKey f.index) = some f.value := by
  obtain ⟨entry, hentry, hrow⟩ := (mem_itemCustomFields h).mp hf
  have hlt : f.index < 2 ^ 53 := by
    have hlength := (List.getElem?_eq_some_iff.mp hentry).1
    have hfew : (fieldEntries item).length ≤ 4096 := h.few
    omega
  have hnumber : js.number
      (.string (String.ofList ((rowKey f.index).toList.drop customFieldKey.length)))
      = .int f.index := by
    rw [drop_rowKey, ← Nat.toString_eq_ofList_toDigits]
    exact js.number_digits _ hlt
  have hsame : ∀ g ∈ itemCustomFields js (item.lookup "fields") item,
      g.index = f.index → g = f := by
    intro g hg hindex
    obtain ⟨entry', hentry', hrow'⟩ := (mem_itemCustomFields h).mp hg
    rw [hindex] at hentry' hrow'
    rw [hentry] at hentry'
    cases hentry'
    exact Option.some.inj (hrow'.symm.trans hrow)
  rw [detail_eq h]
  unfold detailSecretValue
  rw [if_pos (rowKey_isCustom f.index), hnumber]
  show ((itemCustomFields js (item.lookup "fields") item).take maxListEntries).foldl _ _ = _
  rw [take_customFields, foldl_position hsame, if_pos hf]

/-- A text of the card or the identity, read off the item's detail. -/
theorem lookup_textsOf {keys : List String} (hkey : key ∈ keys) (owner : String) :
    (((textsOf js keys (item.lookup owner)).getD []).lookup key).getD ""
      = js.text ((part item owner).lookup key) := by
  unfold textsOf part
  by_cases ht : truthy (item.lookup owner)
  · rw [if_pos ht]
    exact Texts.get_of hkey
  · have hprops : props (item.lookup owner) = [] := by
      unfold props
      split
      · rename_i heq
        exact absurd (by rw [heq]; rfl) ht
      · rfl
    rw [if_neg ht, hprops]
    rfl

/-- The item's own secrets that have a name. -/
def secretNames : List String :=
  ["password", "notes", "cardNumber", "cardCode", "ssn", "passportNumber", "licenseNumber"]

/-- Both read a named secret off the same place. -/
theorem named_secret (h : Readable item) (hkey : key ∈ secretNames) :
    ∃ field, SecretField.parse key = some field
      ∧ (secretIn (.object item) field).getD ""
        = (detailSecretValue js (itemDetailFromObject js item) key).getD "" := by
  have hnested : ∀ owner key, [owner, key] ∈ textSecrets →
      ((getValue (.object item) [owner, key]).bind Value.asStr).getD ""
        = js.text ((part item owner).lookup key) := by
    intro owner key hpath
    have htext := h.secrets _ hpath
    rw [get_nested] at htext
    rw [getValue_nested, text_eq htext]
  have hnotes : ((getValue (.object item) ["notes"]).bind Value.asStr).getD ""
      = js.text (item.lookup "notes") := by
    have htext : SecretText (item.lookup "notes") := h.secrets ["notes"] (by decide)
    rw [text_eq htext]
    show (((item.lookup "notes").bind some).bind Value.asStr).getD "" = _
    cases item.lookup "notes" <;> rfl
  rw [detail_eq h]
  simp only [secretNames, List.mem_cons, List.not_mem_nil, or_false] at hkey
  rcases hkey with rfl | rfl | rfl | rfl | rfl | rfl | rfl
  · exact ⟨.password, rfl, hnested "login" "password" (by decide)⟩
  · exact ⟨.notes, rfl, hnotes⟩
  · exact ⟨.cardNumber, rfl, (hnested "card" "number" (by decide)).trans
      (lookup_textsOf (by decide) "card").symm⟩
  · exact ⟨.cardCode, rfl, (hnested "card" "code" (by decide)).trans
      (lookup_textsOf (by decide) "card").symm⟩
  · exact ⟨.ssn, rfl, (hnested "identity" "ssn" (by decide)).trans
      (lookup_textsOf (by decide) "identity").symm⟩
  · exact ⟨.passportNumber, rfl, (hnested "identity" "passportNumber" (by decide)).trans
      (lookup_textsOf (by decide) "identity").symm⟩
  · exact ⟨.licenseNumber, rfl, (hnested "identity" "licenseNumber" (by decide)).trans
      (lookup_textsOf (by decide) "identity").symm⟩

/-- The rows of the public detail are those of the item, with their secrets withheld. -/
theorem mem_publicFields (h : Readable item) {row : CustomField} :
    row ∈ (publicItemDetail (itemDetailFromObject js item)).fields
      ↔ ∃ f ∈ itemCustomFields js (item.lookup "fields") item, publicField f = row := by
  rw [detail_eq h]
  show row ∈ ((itemCustomFields js (item.lookup "fields") item).take maxListEntries).map publicField
    ↔ _
  rw [take_customFields, List.mem_map]

/-- Both read a sensitive row's secret off the same field. -/
theorem row_secret (h : Readable item) {row : CustomField}
    (hrow : row ∈ (publicItemDetail (itemDetailFromObject js item)).fields)
    (hsensitive : row.sensitive) :
    ∃ field, SecretField.parse (rowKey row.index) = some field
      ∧ (secretIn (.object item) field).getD ""
        = (detailSecretValue js (itemDetailFromObject js item) (rowKey row.index)).getD "" := by
  obtain ⟨f, hf, rfl⟩ := (mem_publicFields h).mp hrow
  obtain ⟨entry, hentry, hfield⟩ := (mem_itemCustomFields h).mp hf
  obtain ⟨field, rfl, hshape⟩ := h.shapes entry (List.mem_of_getElem? hentry)
  have hlt : f.index < 10000 := by
    have hlength := (List.getElem?_eq_some_iff.mp hentry).1
    have hfew : (fieldEntries item).length ≤ 4096 := h.few
    omega
  refine ⟨.custom f.index, parse_custom hlt, ?_⟩
  show _ = (detailSecretValue js (itemDetailFromObject js item) (rowKey f.index)).getD ""
  rw [detailSecretValue_row h hf]
  have hname : truthy (field.lookup "name") := by
    by_contra hname
    exact absurd ((if_neg hname).symm.trans hfield) (Option.some_ne_none f).symm
  have heq : fieldRow js item field f.index = f :=
    Option.some.inj ((if_pos hname).symm.trans hfield)
  show (customSecret (.object item) f.index).getD "" = f.value
  rw [customSecret_eq, hentry, Option.bind_some]
  have hvalue : (fieldRow js item field f.index).sensitive →
      (fieldSecret item (.object field)).getD "" = (fieldRow js item field f.index).value :=
    row_value h hshape
  rw [heq] at hvalue
  exact hvalue hsensitive

/-- The custom field at a position has no name. -/
def Nameless (item : Fields) (index : Nat) : Prop :=
  ∃ entry, (fieldEntries item)[index]? = some entry ∧ ¬truthy (entry.get "name")

/-- A custom field that is answered has a sensitive row or no name. -/
theorem answered_row (h : Readable item) {index : Nat} {value : String}
    (hvalue : secretIn (.object item) (.custom index) = some value) :
    (∃ row ∈ (publicItemDetail (itemDetailFromObject js item)).fields,
      row.sensitive ∧ row.index = index) ∨ Nameless item index := by
  have hcustom : customSecret (.object item) index = some value := hvalue
  rw [customSecret_eq] at hcustom
  obtain ⟨entry, hentry, hsecret⟩ := Option.bind_eq_some_iff.mp hcustom
  obtain ⟨field, rfl, hshape⟩ := h.shapes entry (List.mem_of_getElem? hentry)
  by_cases hname : truthy (field.lookup "name")
  · have hmem : fieldRow js item field index ∈ itemCustomFields js (item.lookup "fields") item :=
      (mem_itemCustomFields h).mpr ⟨.object field, hentry, if_pos hname⟩
    exact .inl ⟨_, (mem_publicFields h).mpr ⟨_, hmem, rfl⟩,
      sensitive_of_fieldSecret hshape hsecret index, rfl⟩
  · exact .inr ⟨.object field, hentry, hname⟩

/-! ## What no answer depends on -/

/-- An item without its TOTP key, its passkeys and its password history. -/
def scrub (item : Fields) : Fields :=
  [["login", "totp"], ["login", "fido2Credentials"], ["passwordHistory"]].foldl Vault.remove item

theorem lookup_scrub (hlogin : key ≠ "login") (hhistory : key ≠ "passwordHistory") :
    (scrub item).lookup key = item.lookup key := by
  show (Fields.remove "passwordHistory"
    (Fields.modify "login" _ (Fields.modify "login" _ item))).lookup key = _
  rw [Fields.lookup_remove, if_neg hhistory, Fields.lookup_modify_ne hlogin,
    Fields.lookup_modify_ne hlogin]

theorem lookup_login_scrub (htotp : key ≠ "totp") (hpasskeys : key ≠ "fido2Credentials") :
    (part (scrub item) "login").lookup key = (part item "login").lookup key := by
  show (props ((Fields.remove "passwordHistory"
    (Fields.modify "login" _ (Fields.modify "login" _ item))).lookup "login")).lookup key = _
  rw [Fields.lookup_remove, if_neg (by decide), Fields.lookup_modify, if_pos rfl,
    Fields.lookup_modify, if_pos rfl, part]
  cases item.lookup "login" with
  | none => rfl
  | some login =>
    cases login with
    | object login =>
      show ((Fields.remove "totp" login).remove "fido2Credentials").lookup key = login.lookup key
      rw [Fields.lookup_remove, if_neg hpasskeys, Fields.lookup_remove, if_neg htotp]
    | _ => rfl

theorem getValue_scrub {owner : String} (h : [owner, key] ∈ textSecrets) (htotp : key ≠ "totp") :
    getValue (.object (scrub item)) [owner, key] = getValue (.object item) [owner, key] := by
  rw [getValue_nested, getValue_nested]
  by_cases howner : owner = "login"
  · subst howner
    refine lookup_login_scrub htotp ?_
    rintro rfl
    exact absurd h (by decide)
  · have hhistory : owner ≠ "passwordHistory" := by
      rintro rfl
      simp [textSecrets] at h
    rw [part, lookup_scrub howner hhistory]
    rfl

theorem linkedSecretPath_text {id : Nat} {path : List String}
    (h : linkedSecretPath id = some path) :
    ∃ owner key, path = [owner, key] ∧ [owner, key] ∈ textSecrets ∧ key ≠ "totp" := by
  unfold linkedSecretPath at h
  split at h
  all_goals first
    | exact ⟨_, _, (Option.some.inj h).symm, by decide, by decide⟩
    | cases h

theorem fieldSecret_scrub (field : Value) :
    fieldSecret (scrub item) field = fieldSecret item field := by
  unfold fieldSecret
  split
  · rfl
  · congr 1
    funext id
    cases hpath : linkedSecretPath id with
    | none => rfl
    | some path =>
      obtain ⟨owner, key, rfl, hsecret, htotp⟩ := linkedSecretPath_text hpath
      rw [Option.bind_some, Option.bind_some, getValue_scrub hsecret htotp]
  · rfl

theorem secretIn_scrub (field : SecretField) :
    secretIn (.object (scrub item)) field = secretIn (.object item) field := by
  have hnested : ∀ owner key, [owner, key] ∈ textSecrets → key ≠ "totp" →
      (getValue (.object (scrub item)) [owner, key]).bind Value.asStr
        = (getValue (.object item) [owner, key]).bind Value.asStr := by
    intro owner key hpath htotp
    rw [getValue_scrub hpath htotp]
  cases field with
  | password => exact hnested _ _ (by decide) (by decide)
  | notes =>
    show (((scrub item).lookup "notes").bind some).bind Value.asStr
      = ((item.lookup "notes").bind some).bind Value.asStr
    rw [lookup_scrub (by decide) (by decide)]
  | cardNumber | cardCode | ssn | passportNumber | licenseNumber =>
    exact hnested _ _ (by decide) (by decide)
  | custom index =>
    show customSecret _ index = customSecret _ index
    rw [customSecret_eq, customSecret_eq, fieldEntries, lookup_scrub (by decide) (by decide)]
    congr 1
    funext field
    exact fieldSecret_scrub field

/-! ## The answers -/

/-- The names the panel asks by: those of the item's own secrets and of its sensitive rows. -/
def askedKeys (js : Shell) (item : Fields) : List String :=
  secretNames ++ ((publicItemDetail (itemDetailFromObject js item)).fields.filter
    CustomField.sensitive).map fun row => rowKey row.index

/-- For a held item the helper knows every name the panel asks by and answers with what the panel
would show. No other position is answered unless the field there has no name, and no answer depends
on the TOTP key, the passkeys, the password history or another item. -/
theorem secrets_agree (js : Shell) (libs : Libs) (store : Store) (id : String) (item : Fields)
    (hitem : Readable item) (hheld : store.Holds libs id item) :
    (∀ key ∈ askedKeys js item, ∃ field, SecretField.parse key = some field
      ∧ (store.itemSecret libs id field).getD ""
        = (detailSecretValue js (itemDetailFromObject js item) key).getD "")
    ∧ (∀ index, (∀ row ∈ (publicItemDetail (itemDetailFromObject js item)).fields,
          row.sensitive → row.index ≠ index) →
        store.itemSecret libs id (.custom index) = none ∨ Nameless item index)
    ∧ (∀ (field : SecretField) (store' : Store) (id' : String) (item' : Fields),
        store'.Holds libs id' item' → scrub item' = scrub item →
        store'.itemSecret libs id' field = store.itemSecret libs id field) := by
  refine ⟨?_, ?_, ?_⟩
  · intro key hkey
    have hanswer : ∃ field, SecretField.parse key = some field
        ∧ (secretIn (.object item) field).getD ""
          = (detailSecretValue js (itemDetailFromObject js item) key).getD "" := by
      rcases List.mem_append.mp hkey with hname | hrow
      · exact named_secret hitem hname
      · obtain ⟨row, hfilter, rfl⟩ := List.mem_map.mp hrow
        obtain ⟨hmem, hsensitive⟩ := List.mem_filter.mp hfilter
        exact row_secret hitem hmem hsensitive
    obtain ⟨field, hparse, hvalue⟩ := hanswer
    rw [← Store.itemSecret_held hheld] at hvalue
    exact ⟨field, hparse, hvalue⟩
  · intro index hother
    rw [Store.itemSecret_held hheld]
    cases hvalue : secretIn (.object item) (.custom index) with
    | none => exact .inl rfl
    | some value =>
      rcases answered_row hitem hvalue with ⟨row, hrow, hsensitive, hindex⟩ | hnameless
      · exact absurd hindex (hother row hrow hsensitive)
      · exact .inr hnameless
  · intro field store' id' item' hheld' hscrub
    rw [Store.itemSecret_held hheld', Store.itemSecret_held hheld, ← secretIn_scrub, hscrub,
      secretIn_scrub]

/-- Libraries that read every text as one item. -/
def itemLibs (item : Fields) : Libs where
  parse _ := some (.object item)
  render _ := some ""
  lowercase := id

/-- The store of a helper that holds one item. -/
def storeOf (item : Fields) : Store := Store.new.hold (itemLibs item) item

theorem sampleCard_readable (number code pin : String) : Readable (sampleCard number code pin) where
  toStorable := sampleCard_storable number code pin
  list := .inr (.inr ⟨_, rfl⟩)
  few := by
    show 2 ≤ 4096
    decide
  shapes := by
    show ∀ entry ∈ [Value.object _, Value.object _], _
    simp only [List.forall_mem_cons]
    refine ⟨⟨_, rfl, secretText_string "PIN", ⟨.posInt 1, trivial, rfl⟩, secretText_string pin, ?_⟩,
      ⟨_, rfl, secretText_string "No.", ⟨.posInt 3, trivial, rfl⟩, secretText_none, ?_⟩,
      List.forall_mem_nil _⟩
    · rintro v ⟨⟩
    · intro v hv
      exact .inr ⟨.posInt 305, trivial, (Option.some.inj hv).symm⟩

/-- The PIN is at position 0 and the link to the number at position 1; there is nothing at 2. -/
theorem secrets_agree_card :
    rowKey 0 ∈ askedKeys plainShell (sampleCard "4111" "123" "9876")
    ∧ (∃ field, SecretField.parse (rowKey 1) = some field
      ∧ ((storeOf (sampleCard "4111" "123" "9876")).itemSecret
          (itemLibs (sampleCard "4111" "123" "9876")) "c1" field).getD "" = "4111")
    ∧ (storeOf (sampleCard "4111" "123" "9876")).itemSecret
        (itemLibs (sampleCard "4111" "123" "9876")) "c1" (.custom 0) = some "9876" := by
  have hagree := secrets_agree plainShell (itemLibs (sampleCard "4111" "123" "9876"))
    (storeOf (sampleCard "4111" "123" "9876")) "c1" _ (sampleCard_readable "4111" "123" "9876")
    ⟨_, rfl, rfl⟩
  refine ⟨by decide +kernel, ?_, by decide +kernel⟩
  obtain ⟨field, hparse, hvalue⟩ := hagree.1 (rowKey 1) (by decide +kernel)
  refine ⟨field, hparse, hvalue.trans ?_⟩
  decide +kernel

/-- A hidden field without a name. -/
def namelessNote : Fields :=
  [("fields", .array [.object [("name", .null), ("type", .number (.posInt 1)),
      ("value", .string "hush")]]),
    ("id", .string "n1"), ("name", .string "Note"), ("type", .number (.posInt 2))]

theorem namelessNote_readable : Readable namelessNote where
  ordinary := ⟨2, by decide, by decide, rfl⟩
  secrets := by
    have hnone : SecretText none := nofun
    simp only [textSecrets, List.forall_mem_cons]
    exact ⟨hnone, hnone, hnone, hnone, hnone, hnone, hnone, hnone, nofun⟩
  list := .inr (.inr ⟨_, rfl⟩)
  few := by
    show 1 ≤ 4096
    decide
  shapes := by
    show ∀ entry ∈ [Value.object _], _
    simp only [List.forall_mem_cons]
    refine ⟨⟨_, rfl, fun v hv => .inl (Option.some.inj hv).symm, ⟨.posInt 1, trivial, rfl⟩,
      fun v hv => .inr ⟨"hush", (Option.some.inj hv).symm⟩, nofun⟩, nofun⟩

/-- The panel has no row for a hidden field without a name, yet the helper answers its position. -/
theorem nameless_secret :
    Readable namelessNote
    ∧ (publicItemDetail (itemDetailFromObject plainShell namelessNote)).fields = []
    ∧ (storeOf namelessNote).Holds (itemLibs namelessNote) "n1" namelessNote
    ∧ SecretField.parse "customField:0" = some (.custom 0)
    ∧ (storeOf namelessNote).itemSecret (itemLibs namelessNote) "n1" (.custom 0) = some "hush" := by
  refine ⟨namelessNote_readable, by decide +kernel, ⟨_, rfl, rfl⟩, by decide +kernel,
    by decide +kernel⟩

end QsBitwarden.Panel.Items
