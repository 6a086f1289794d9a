import QsBitwarden.Lib.JsonText
import QsBitwarden.Lib.Utf8
import QsBitwarden.Unlock.Ledger

/-!
# Unlock — reading back what was written

Writing checks each field against a limit of its own; reading checks them again and caps the whole
text. Every check of `validate` follows from those of the operations. The cap does not: sixteen
credentials whose relying parties use the four bytes a character may take are over it.

* **`toJson`** — the written text.
* **`Sound`** — what the operations guarantee of an envelope (`run_sound`); it passes `validate`
  (`sound_validate`).
* **`sound_size`** — its size, given a bound on the relying parties.
* **`written_reads_back`** — so it can be read back under that bound; `overlong_unreadable` is an
  envelope beyond it.
-/

namespace QsBitwarden.Unlock

open JsonText String

/-! ## The text -/

def Account.json (account : Account) : List Char :=
  object [("id", quote account.id), ("server", quote account.server)]

def Argon2Params.json (params : Argon2Params) : List Char :=
  object [("alg", quote params.alg), ("salt", quote params.salt), ("m", number params.m),
    ("t", number params.t), ("p", number params.p)]

def Sealed.json (box : Sealed) : List Char := object [("n", quote box.n), ("c", quote box.c)]

def PasswordWrap.json (wrap : PasswordWrap) : List Char :=
  object [("kdf", wrap.kdf.json), ("n", quote wrap.n), ("c", quote wrap.c)]

def FingerprintWrap.json (wrap : FingerprintWrap) : List Char := object [("k", quote wrap.k)]

def FidoWrap.json (wrap : FidoWrap) : List Char :=
  object [("cred", quote wrap.cred), ("rp", quote wrap.rp), ("salt", quote wrap.salt),
    ("n", quote wrap.n), ("c", quote wrap.c)]

/-- Absent methods are skipped. -/
def Wraps.json (wraps : Wraps) : List Char :=
  object ([("master", wraps.master.json)] ++
    (wraps.pin.map fun pin => ("pin", pin.json)).toList ++
    (wraps.fingerprint.map fun fingerprint => ("fingerprint", fingerprint.json)).toList ++
    if wraps.fido = [] then [] else [("fido", array (wraps.fido.map FidoWrap.json))])

def Envelope.toJson (e : Envelope) : String :=
  String.ofList (object [("v", number e.v), ("account", e.account.json), ("stale", boolean e.stale),
    ("ct", e.ct.json), ("wraps", e.wraps.json)])

/-! ## What the operations guarantee -/

/-- A Poly1305 tag is appended to the ciphertext. -/
def tagLen : Nat := 16

def Tagged (crypto : Crypto) : Prop := ∀ key nonce aad plaintext,
  (crypto.encrypt key nonce aad plaintext).length = plaintext.length + tagLen

/-- A box of at most so many bytes of ciphertext. -/
def BoxSound (size : Nat) (n c : String) : Prop :=
  ∃ (nonce : Nonce) (ciphertext : Bytes), ciphertext.length ≤ size ∧ n = encodeString nonce.1 ∧
    c = encodeString ciphertext

def PasswordWrap.Sound (wrap : PasswordWrap) : Prop :=
  wrap.kdf.validate = .ok () ∧ BoxSound (keyLen + tagLen) wrap.n wrap.c

def FidoWrap.Sound (wrap : FidoWrap) : Prop :=
  fidoFieldsOk wrap.cred wrap.rp wrap.salt = .ok () ∧ BoxSound (keyLen + tagLen) wrap.n wrap.c

structure Sound (e : Envelope) : Prop where
  version : e.v = version
  account : e.account.validate = .ok ()
  ct : BoxSound (maxPasswordBytes + tagLen) e.ct.n e.ct.c
  master : e.wraps.master.Sound
  pin : ∀ wrap, e.wraps.pin = some wrap → wrap.Sound
  fingerprint : ∀ wrap, e.wraps.fingerprint = some wrap → ∃ key : Key, wrap.k = encodeString key.1
  fido : ∀ wrap ∈ e.wraps.fido, wrap.Sound
  distinct : (e.wraps.fido.map FidoWrap.cred).Nodup
  few : e.wraps.fido.length ≤ maxFidoWraps

/-- Envelopes as a sequence of successful calls writes them. -/
def written (crypto : Crypto) : Trace.System Envelope Op where
  init e := ∃ dek forCt forWrap account password master masterKey,
    create crypto dek forCt forWrap account password master masterKey = .ok e
  step _ e op e' := (op.edit crypto).apply e = (.ok (), e')

section Soundness

variable {crypto : Crypto} {e e' : Envelope} {op : Op}

theorem Boxed.sound (htagged : Tagged crypto) {key : Key} {plaintext aad : Bytes} {n c : String}
    {size : Nat} (hsize : plaintext.length ≤ size) (h : Boxed crypto key plaintext aad n c) :
    BoxSound (size + tagLen) n c := by
  obtain ⟨nonce, hn, hc⟩ := h
  refine ⟨nonce, _, ?_, hn, hc⟩
  rw [htagged]
  omega

theorem passwordWrap_sound (htagged : Tagged crypto) {draw : Draw} {account : Account}
    {purpose : String} {kdf : Argon2Params} {input dek : Key} {wrap : PasswordWrap}
    (hkdf : kdf.validate = .ok ())
    (h : passwordWrap crypto draw account purpose kdf input dek = .ok wrap) : wrap.Sound := by
  obtain ⟨rfl, hboxed⟩ := passwordWrap_boxed h
  exact ⟨hkdf, hboxed.sound htagged (Nat.le_of_eq dek.2)⟩

theorem password_length {password : Bytes} (h : passwordOk password = .ok ()) :
    password.length ≤ maxPasswordBytes := by
  have hrange := refuseIf_eq_ok.mp h
  exact Nat.not_lt.mp fun hlong => hrange (.inr hlong)

variable (htagged : Tagged crypto)
include htagged

theorem create_sound {dek : Option Key} {forCt forWrap : Draw} {account : Account}
    {password : Bytes} {master : Argon2Params} {masterKey : Key}
    (h : create crypto dek forCt forWrap account password master masterKey = .ok e) : Sound e := by
  obtain ⟨dek, ct, wrap, haccount, hmaster, hpassword, hct, hwrap, rfl⟩ := create_ok h
  constructor
  · rfl
  · exact haccount
  · exact (sealBox_boxed hct).sound htagged (password_length hpassword)
  · exact passwordWrap_sound htagged hmaster hwrap
  · exact fun _ h => by cases h
  · exact fun _ h => by cases h
  · exact fun _ h => absurd h List.not_mem_nil
  · exact List.nodup_nil
  · exact Nat.zero_le _

theorem writes_sound (h : Sound e) (hwrites : Writes crypto e op e') : Sound e' := by
  cases hwrites with
  | addPin hparams hcost hdek hwrap =>
    refine { h with pin := ?_ }
    rintro wrap ⟨⟩
    exact passwordWrap_sound htagged hparams hwrap
  | @addFingerprint auth dek hdek =>
    refine { h with fingerprint := ?_ }
    rintro wrap ⟨⟩
    exact ⟨dek, rfl⟩
  | @addFido draw auth credential rp salt hmac dek box hfields hdek hroom hbox =>
    refine { h with fido := ?_, distinct := Rows.nodup_upsert h.distinct _, few := ?_ }
    · intro wrap hmem
      rcases Rows.mem_upsert hmem with rfl | hold
      · exact ⟨hfields, (sealBox_boxed hbox).sound htagged (Nat.le_of_eq dek.2)⟩
      · exact h.fido wrap hold
    · show (Rows.upsert FidoWrap.cred _ _).length ≤ _
      rw [Rows.length_upsert]
      split
      · exact h.few
      · next hnew => exact hroom.resolve_left hnew
  | removePin hpin =>
    refine { h with pin := ?_ }
    rintro wrap ⟨⟩
  | removeFingerprint hfingerprint =>
    refine { h with fingerprint := ?_ }
    rintro wrap ⟨⟩
  | removeFido hknown =>
    refine { h with fido := ?_, distinct := ?_, few := ?_ }
    · exact fun wrap hmem => h.fido wrap ((Rows.drop_sublist _ _).subset hmem)
    · exact h.distinct.sublist ((Rows.drop_sublist _ _).map _)
    · exact Nat.le_trans (Rows.drop_sublist _ _).length_le h.few
  | markStale => exact { h with }
  | rotate hpassword hmaster hdek hct hwrap =>
    exact { h with
      ct := (sealBox_boxed hct).sound htagged (password_length hpassword)
      master := passwordWrap_sound htagged hmaster hwrap }

theorem run_sound {h : List Op} (hrun : (written crypto).Run h e) : Sound e := by
  refine hrun.invariant (I := fun _ e => Sound e) ?_ ?_
  · rintro e ⟨dek, forCt, forWrap, account, password, master, masterKey, hcreate⟩
    exact create_sound htagged hcreate
  · intro h e op e' _ hsound hstep
    exact writes_sound htagged hsound (apply_ok hstep)

end Soundness

/-! ## Reading checks nothing more -/

section Validity

variable {e : Envelope}

theorem boxSound_ok {size : Nat} {n c : String} (h : BoxSound size n c) : sealedOk n c = .ok () := by
  obtain ⟨nonce, ciphertext, -, rfl, rfl⟩ := h
  unfold sealedOk
  rw [decodeVec_encodeString, decodeVec_encodeString]
  exact refuseIf_eq_ok.mpr (not_not.mpr nonce.2)

theorem PasswordWrap.Sound.ok {wrap : PasswordWrap} (h : wrap.Sound) : passwordWrapOk wrap = .ok () := by
  unfold passwordWrapOk
  rw [h.1]
  exact boxSound_ok h.2

/-- The loop over the FIDO2 wraps, from any point of it. -/
theorem fidosOk_ok {earlier rest : List FidoWrap} (hsound : ∀ wrap ∈ rest, wrap.Sound)
    (hdistinct : ((earlier ++ rest).map FidoWrap.cred).Nodup) :
    Envelope.fidosOk earlier rest = .ok () := by
  induction rest generalizing earlier with
  | nil => rfl
  | cons wrap rest ih =>
    have hwrap := hsound wrap List.mem_cons_self
    have hnew : ¬earlier.any (fun other => decide (other.cred = wrap.cred)) = true := by
      rw [List.any_eq_true]
      rintro ⟨other, hother, hcred⟩
      rw [List.map_append, List.nodup_append] at hdistinct
      exact hdistinct.2.2 _ (List.mem_map_of_mem hother) _ (List.mem_map_of_mem List.mem_cons_self)
        (of_decide_eq_true hcred)
    have hfirst : Envelope.fidoOk earlier wrap = .ok () := by
      unfold Envelope.fidoOk
      rw [hwrap.1, boxSound_ok hwrap.2]
      exact refuseIf_eq_ok.mpr hnew
    unfold Envelope.fidosOk
    rw [hfirst]
    refine ih (fun other hother => hsound other (List.mem_cons_of_mem _ hother)) ?_
    rwa [List.append_assoc]

theorem sound_validate (h : Sound e) : e.validate = .ok () := by
  have hpin : Envelope.optionalOk passwordWrapOk e.wraps.pin = .ok () := by
    cases hpin : e.wraps.pin with
    | none => rfl
    | some wrap => exact (h.pin wrap hpin).ok
  have hfingerprint : Envelope.optionalOk (fun fingerprint => discard (decodeKey fingerprint.k))
      e.wraps.fingerprint = .ok () := by
    cases hfingerprint : e.wraps.fingerprint with
    | none => rfl
    | some wrap =>
      obtain ⟨key, hkey⟩ := h.fingerprint wrap hfingerprint
      show discard (decodeKey wrap.k) = .ok ()
      rw [hkey, decodeKey_encodeString]
      rfl
  unfold Envelope.validate
  rw [refuseIf_eq_ok.mpr (not_not.mpr h.version), h.account, boxSound_ok h.ct, h.master.ok,
    hpin, hfingerprint, refuseIf_eq_ok.mpr (Nat.not_lt.mpr h.few)]
  exact fidosOk_ok h.fido h.distinct

end Validity

/-! ## Sizes -/

section Sizes

theorem textOk_ok {text : String} (h : textOk text = .ok ()) :
    text.toList.length ≤ maxTextChars ∧ ∀ c ∈ text.toList, 0x20 ≤ c.toNat := by
  have hrange := refuseIf_eq_ok.mp h
  refine ⟨Nat.not_lt.mp fun hlong => hrange (.inl hlong), fun c hc => Nat.not_lt.mp fun hlow => ?_⟩
  refine hrange (.inr (List.any_eq_true.mpr ⟨c, hc, ?_⟩))
  unfold isControl
  rw [decide_eq_true hlow, Bool.true_or]

theorem quote_text {text : String} (h : textOk text = .ok ()) : utf8Len (quote text) ≤ 4098 := by
  obtain ⟨hlength, hprintable⟩ := textOk_ok h
  have hquote := utf8Len_quote_le hprintable
  unfold maxTextChars at hlength
  omega

theorem plain_base64 : ∀ c ∈ '=' :: Base64.alphabet, Plain c := by
  intro c hc
  have hall : ('=' :: Base64.alphabet).all (fun c => decide (Plain c)) = true := by decide
  exact of_decide_eq_true (List.all_eq_true.mp hall c hc)

theorem quote_base64 (bytes : Bytes) :
    utf8Len (quote (encodeString bytes)) ≤ 4 * ((bytes.length + 2) / 3) + 2 := by
  have hplain : ∀ c ∈ (encodeString bytes).toList, Plain c := by
    intro c hc
    unfold encodeString at hc
    rw [String.toList_ofList] at hc
    exact plain_base64 c (Base64.mem_encode hc)
  have hquote := utf8Len_quote_plain hplain
  unfold encodeString at hquote ⊢
  rwa [String.toList_ofList, Base64.length_encode] at hquote

theorem plain_salt {c : Char} (h : isSaltChar c = true) : Plain c := by
  have hrange : 0x20 ≤ c.toNat ∧ c.toNat < 0x80 ∧ c ≠ '"' ∧ c ≠ '\\' := by
    unfold isSaltChar at h
    rw [Bool.or_eq_true, Bool.or_eq_true, Bool.or_eq_true, beq_iff_eq, beq_iff_eq, beq_iff_eq] at h
    rcases h with ((halnum | rfl) | rfl) | rfl
    · have hcases := Utf8.isAlphanum_cases halnum
      refine ⟨by omega, by omega, ?_, ?_⟩
      · rintro rfl
        revert halnum
        decide
      · rintro rfl
        revert halnum
        decide
    · decide
    · decide
    · decide
  exact plain_of_range hrange.1 hrange.2.1 hrange.2.2.1 hrange.2.2.2

theorem account_size {account : Account} (h : account.validate = .ok ()) :
    utf8Len account.json ≤ 8214 := by
  unfold Account.validate at h
  obtain ⟨_, -, h⟩ := bind_eq_ok.mp h
  obtain ⟨_, hid, hserver⟩ := bind_eq_ok.mp h
  have hid := quote_text hid
  have hserver := quote_text hserver
  have hobject := utf8Len_object_le [("id", quote account.id), ("server", quote account.server)]
  have hkeys : utf8Len (quote "id") = 4 ∧ utf8Len (quote "server") = 8 := by decide
  simp only [List.map_cons, List.map_nil, List.sum_cons, List.sum_nil] at hobject
  unfold Account.json
  omega

theorem params_size {params : Argon2Params} (h : params.validate = .ok ()) :
    utf8Len params.json ≤ 152 := by
  unfold Argon2Params.validate at h
  obtain ⟨_, halg, h⟩ := bind_eq_ok.mp h
  have halg : params.alg = "argon2id" := not_not.mp (refuseIf_eq_ok.mp halg)
  obtain ⟨⟨-, hlength, hchars⟩, ⟨-, hm⟩, ⟨-, ht⟩, -, hp⟩ := not_not.mp (refuseIf_eq_ok.mp h)
  have hsalt := utf8Len_quote_plain fun c hc => plain_salt (List.all_eq_true.mp hchars c hc)
  have hm : utf8Len (number params.m) ≤ 4 * 7 :=
    utf8Len_number_le (by decide) (Nat.lt_of_le_of_lt hm (by decide))
  have ht : utf8Len (number params.t) ≤ 4 * 2 :=
    utf8Len_number_le (by decide) (Nat.lt_of_le_of_lt ht (by decide))
  have hp : utf8Len (number params.p) ≤ 4 * 2 :=
    utf8Len_number_le (by decide) (Nat.lt_of_le_of_lt hp (by decide))
  have hobject := utf8Len_object_le [("alg", quote params.alg), ("salt", quote params.salt),
    ("m", number params.m), ("t", number params.t), ("p", number params.p)]
  have hkeys : utf8Len (quote "alg") = 5 ∧ utf8Len (quote "salt") = 6 ∧ utf8Len (quote "m") = 3 ∧
      utf8Len (quote "t") = 3 ∧ utf8Len (quote "p") = 3 ∧ utf8Len (quote "argon2id") = 10 := by
    decide
  simp only [List.map_cons, List.map_nil, List.sum_cons, List.sum_nil, halg] at hobject
  unfold Argon2Params.json
  unfold argon2SaltMaxChars at hlength
  rw [halg]
  omega

theorem box_size {size : Nat} {n c : String} (h : BoxSound size n c) :
    utf8Len (quote n) ≤ 34 ∧ utf8Len (quote c) ≤ 4 * ((size + 2) / 3) + 2 := by
  obtain ⟨nonce, ciphertext, hsize, rfl, rfl⟩ := h
  have hn := quote_base64 nonce.1
  have hc := quote_base64 ciphertext
  have hnonce : nonce.1.length = 24 := nonce.2
  omega

theorem PasswordWrap.Sound.size {wrap : PasswordWrap} (h : wrap.Sound) : utf8Len wrap.json ≤ 271 := by
  have hkdf := params_size h.1
  obtain ⟨hn, hc⟩ := box_size h.2
  have hobject := utf8Len_object_le
    [("kdf", wrap.kdf.json), ("n", quote wrap.n), ("c", quote wrap.c)]
  have hkeys : utf8Len (quote "kdf") = 5 ∧ utf8Len (quote "n") = 3 ∧ utf8Len (quote "c") = 3 := by
    decide
  simp only [List.map_cons, List.map_nil, List.sum_cons, List.sum_nil] at hobject
  unfold PasswordWrap.json
  unfold keyLen tagLen at hc
  omega

theorem decodeVec_ok {text : String} {bytes : Bytes} (h : decodeVec text = .ok bytes) :
    text = encodeString bytes := by
  unfold decodeVec at h
  split at h
  · next read hread =>
    obtain rfl := Except.ok.inj h
    unfold encodeString
    rw [Base64.decode_eq_some_iff.mp hread, String.ofList_toList]
  · cases h

/-- The relying party takes at most so many bytes in JSON, without its quotes. -/
def partyLimit : Nat := 1640

def SmallParty (rp : String) : Prop := utf8Len (quote rp) ≤ partyLimit + 2

theorem FidoWrap.Sound.size {wrap : FidoWrap} (h : wrap.Sound) (hsmall : SmallParty wrap.rp) :
    utf8Len wrap.json ≤ 3192 := by
  obtain ⟨hfields, hbox⟩ := h
  unfold fidoFieldsOk at hfields
  obtain ⟨cred, hcred, hfields⟩ := bind_eq_ok.mp hfields
  obtain ⟨_, hcredSize, hfields⟩ := bind_eq_ok.mp hfields
  obtain ⟨_, -, hfields⟩ := bind_eq_ok.mp hfields
  obtain ⟨_, -, hfields⟩ := bind_eq_ok.mp hfields
  obtain ⟨salt, hsalt, hsaltSize⟩ := bind_eq_ok.mp hfields
  have hcredSize : cred.length ≤ maxCredentialBytes :=
    Nat.not_lt.mp fun hlong => refuseIf_eq_ok.mp hcredSize (.inr hlong)
  have hsaltSize : salt.length = fidoSaltLen := not_not.mp (refuseIf_eq_ok.mp hsaltSize)
  have hcredQuote := quote_base64 cred
  rw [← decodeVec_ok hcred] at hcredQuote
  have hsaltQuote := quote_base64 salt
  rw [← decodeVec_ok hsalt] at hsaltQuote
  obtain ⟨hn, hc⟩ := box_size hbox
  have hobject := utf8Len_object_le [("cred", quote wrap.cred), ("rp", quote wrap.rp),
    ("salt", quote wrap.salt), ("n", quote wrap.n), ("c", quote wrap.c)]
  have hkeys : utf8Len (quote "cred") = 6 ∧ utf8Len (quote "rp") = 4 ∧ utf8Len (quote "salt") = 6 ∧
      utf8Len (quote "n") = 3 ∧ utf8Len (quote "c") = 3 := by decide
  simp only [List.map_cons, List.map_nil, List.sum_cons, List.sum_nil] at hobject
  unfold FidoWrap.json
  unfold SmallParty partyLimit at hsmall
  unfold maxCredentialBytes at hcredSize
  unfold fidoSaltLen at hsaltSize
  unfold keyLen tagLen at hc
  omega

variable {e : Envelope}

/-- What an absent or present member takes. -/
theorem sum_optional {α : Type} {key : String} {value : Option α} {f : α → List Char} {bound : Nat}
    (h : ∀ a, value = some a → utf8Len (quote key) + utf8Len (f a) + 2 ≤ bound) :
    (((value.map fun a => (key, f a)).toList).map
      fun m => utf8Len (quote m.1) + utf8Len m.2 + 2).sum ≤ bound := by
  cases value with
  | none => exact Nat.zero_le _
  | some a => simpa using h a rfl

theorem wraps_size (h : Sound e) (hsmall : ∀ wrap ∈ e.wraps.fido, SmallParty wrap.rp) :
    utf8Len e.wraps.json ≤ 51727 := by
  have hmaster := h.master.size
  have hkeys : utf8Len (quote "master") = 8 ∧ utf8Len (quote "pin") = 5 ∧
      utf8Len (quote "fingerprint") = 13 ∧ utf8Len (quote "fido") = 6 ∧ utf8Len (quote "k") = 3 := by
    decide
  have hpin : (((e.wraps.pin.map fun pin => ("pin", pin.json)).toList).map
      fun m => utf8Len (quote m.1) + utf8Len m.2 + 2).sum ≤ 278 := by
    refine sum_optional fun wrap hwrap => ?_
    have hwrap := (h.pin wrap hwrap).size
    omega
  have hfingerprint : (((e.wraps.fingerprint.map
      fun fingerprint => ("fingerprint", fingerprint.json)).toList).map
      fun m => utf8Len (quote m.1) + utf8Len m.2 + 2).sum ≤ 68 := by
    refine sum_optional fun wrap hwrap => ?_
    obtain ⟨key, hkey⟩ := h.fingerprint wrap hwrap
    have hquote := quote_base64 key.1
    have hlength : key.1.length = 32 := key.2
    have hobject := utf8Len_object_le [("k", quote wrap.k)]
    simp only [List.map_cons, List.map_nil, List.sum_cons, List.sum_nil] at hobject
    unfold FingerprintWrap.json
    rw [← hkey] at hquote
    omega
  have hfido : ((if e.wraps.fido = [] then [] else
      [("fido", array (e.wraps.fido.map FidoWrap.json))]).map
      fun m => utf8Len (quote m.1) + utf8Len m.2 + 2).sum ≤ 51098 := by
    split
    · exact Nat.zero_le _
    · have hitems : ∀ item ∈ e.wraps.fido.map FidoWrap.json, utf8Len item ≤ 3192 := by
        intro item hitem
        obtain ⟨wrap, hwrap, rfl⟩ := List.mem_map.mp hitem
        exact (h.fido wrap hwrap).size (hsmall wrap hwrap)
      have harray := utf8Len_array_le hitems
      rw [List.length_map] at harray
      have hfew : e.wraps.fido.length ≤ 16 := h.few
      simp only [List.map_cons, List.map_nil, List.sum_cons, List.sum_nil]
      omega
  have hobject := utf8Len_object_le ([("master", e.wraps.master.json)] ++
    (e.wraps.pin.map fun pin => ("pin", pin.json)).toList ++
    (e.wraps.fingerprint.map fun fingerprint => ("fingerprint", fingerprint.json)).toList ++
    if e.wraps.fido = [] then [] else [("fido", array (e.wraps.fido.map FidoWrap.json))])
  rw [List.map_append, List.map_append, List.map_append, List.sum_append, List.sum_append,
    List.sum_append] at hobject
  simp only [List.map_cons, List.map_nil, List.sum_cons, List.sum_nil] at hobject hfido
  unfold Wraps.json
  omega

theorem sound_size (h : Sound e) (hsmall : ∀ wrap ∈ e.wraps.fido, SmallParty wrap.rp) :
    e.toJson.utf8ByteSize ≤ maxEnvelopeBytes := by
  have haccount := account_size h.account
  obtain ⟨hn, hc⟩ := box_size h.ct
  have hwraps := wraps_size h hsmall
  have hv : utf8Len (number e.v) ≤ 4 * 1 := by
    rw [h.version]
    exact utf8Len_number_le (by decide) (by decide)
  have hstale : utf8Len (boolean e.stale) ≤ 5 := by
    cases e.stale <;> decide
  have hct := utf8Len_object_le [("n", quote e.ct.n), ("c", quote e.ct.c)]
  have hobject := utf8Len_object_le [("v", number e.v), ("account", e.account.json),
    ("stale", boolean e.stale), ("ct", e.ct.json), ("wraps", e.wraps.json)]
  have hkeys : utf8Len (quote "v") = 3 ∧ utf8Len (quote "account") = 9 ∧
      utf8Len (quote "stale") = 7 ∧ utf8Len (quote "ct") = 4 ∧ utf8Len (quote "wraps") = 7 ∧
      utf8Len (quote "n") = 3 ∧ utf8Len (quote "c") = 3 := by decide
  simp only [List.map_cons, List.map_nil, List.sum_cons, List.sum_nil] at hct hobject
  change utf8Len e.ct.json ≤ _ at hct
  unfold Envelope.toJson maxEnvelopeBytes
  rw [String.utf8ByteSize_ofList]
  unfold maxPasswordBytes tagLen at hc
  omega

end Sizes

/-! ## Reading back -/

/-- The relying party of an enrolment, if it is one, is small. -/
def Op.SmallParty : Op → Prop
  | .addFido _ _ _ rp _ _ => Unlock.SmallParty rp
  | _ => True

section ReadBack

variable {crypto : Crypto} {e e' : Envelope} {h : List Op}

theorem writes_small {op : Op} (hold : ∀ wrap ∈ e.wraps.fido, SmallParty wrap.rp)
    (hop : op.SmallParty) (hwrites : Writes crypto e op e') :
    ∀ wrap ∈ e'.wraps.fido, SmallParty wrap.rp := by
  cases hwrites with
  | addFido hfields hdek hroom hbox =>
    intro wrap hmem
    rcases Rows.mem_upsert hmem with rfl | hmem
    · exact hop
    · exact hold wrap hmem
  | removeFido hknown => exact fun wrap hmem => hold wrap ((Rows.drop_sublist _ _).subset hmem)
  | addPin | addFingerprint | removePin | removeFingerprint | markStale | rotate => exact hold

theorem run_small (hrun : (written crypto).Run h e) (hsmall : ∀ op ∈ h, op.SmallParty) :
    ∀ wrap ∈ e.wraps.fido, SmallParty wrap.rp := by
  refine hrun.invariant (I := fun h e => (∀ op ∈ h, op.SmallParty) →
    ∀ wrap ∈ e.wraps.fido, SmallParty wrap.rp) ?_ ?_ hsmall
  · rintro e ⟨dek, forCt, forWrap, account, password, master, masterKey, hcreate⟩ -
    obtain ⟨dek, ct, wrap, -, -, -, -, -, rfl⟩ := create_ok hcreate
    exact fun _ hmem => absurd hmem List.not_mem_nil
  · intro h e op e' _ ih hstep hsmall
    exact writes_small (ih fun op hop => hsmall op (List.mem_cons_of_mem _ hop))
      (hsmall op List.mem_cons_self) (apply_ok hstep)

theorem parse_toJson (hsound : Sound e) (hsize : e.toJson.utf8ByteSize ≤ maxEnvelopeBytes)
    {fromSlice : String → Option Envelope} (hserde : fromSlice e.toJson = some e) :
    parse fromSlice e.toJson = .ok e := by
  unfold parse
  rw [refuseIf_eq_ok.mpr (Nat.not_lt.mpr hsize), hserde]
  show (e.validate >>= fun _ => pure e) = .ok e
  rw [sound_validate hsound]
  rfl

end ReadBack

/-- A cipher that only appends a tag. -/
def tagCrypto : Crypto where
  hkdf key _ := key
  encrypt _ _ _ plaintext := plaintext ++ List.replicate tagLen 0
  decrypt _ _ _ c := some (c.take (c.length - tagLen))

theorem tagCrypto_tagged : Tagged tagCrypto := by
  intro key nonce aad plaintext
  show (plaintext ++ List.replicate tagLen 0).length = _
  rw [List.length_append, List.length_replicate]

theorem tagCrypto_correct : Correct tagCrypto := by
  intro key nonce aad plaintext
  have htake : (plaintext ++ List.replicate tagLen 0).take
      ((plaintext ++ List.replicate tagLen 0).length - tagLen) = plaintext := by
    rw [List.length_append, List.length_replicate, Nat.add_sub_cancel, List.take_left]
  exact congrArg some htake

/-- A new envelope under `tagCrypto`, for the password `a`. -/
theorem sample_create : ∃ e, create tagCrypto (some (keyOf 7)) goodDraw goodDraw sampleAccount [97]
    sampleParams (keyOf 1) = .ok e :=
  create_works goodDraw_works _ _ (by decide) (by decide) (by decide)

/-- As many characters as are allowed, each as long as a character can be. -/
def longParty : String := String.ofList (List.replicate maxTextChars '😀')

theorem longParty_size : utf8Len (quote longParty) = 4098 := by
  have hface : utf8Len (escape '😀') = 4 := by decide
  have hsize := utf8Len_quote_replicate '😀' maxTextChars
  rw [hface] at hsize
  exact hsize

theorem longParty_ok : textOk longParty = .ok () := by
  refine refuseIf_eq_ok.mpr ?_
  unfold longParty
  rw [String.toList_ofList]
  rintro (hlong | hcontrol)
  · rw [List.length_replicate] at hlong
    exact absurd hlong (Nat.lt_irrefl _)
  · obtain ⟨c, hc, hcontrol⟩ := List.any_eq_true.mp hcontrol
    rw [List.eq_of_mem_replicate hc] at hcontrol
    exact absurd hcontrol (by decide)

def credentialOf (n : Nat) : String := encodeString [UInt8.ofNat n]

theorem encodeString_inj {bytes bytes' : Bytes} (h : encodeString bytes = encodeString bytes') :
    bytes = bytes' :=
  Except.ok.inj ((decodeVec_encodeString bytes).symm.trans (h ▸ decodeVec_encodeString bytes'))

theorem credentialOf_notMem {n : Nat} (hn : n < 256) :
    credentialOf n ∉ (List.range n).map credentialOf := by
  intro hmem
  obtain ⟨m, hm, heq⟩ := List.mem_map.mp hmem
  have hbyte : UInt8.ofNat m = UInt8.ofNat n := (List.cons.inj (encodeString_inj heq)).1
  have hm := List.mem_range.mp hm
  have hnat := congrArg UInt8.toNat hbyte
  rw [UInt8.toNat_ofNat', UInt8.toNat_ofNat'] at hnat
  omega

def zeroSalt : String := encodeString (List.replicate 32 0)

theorem longFields_ok (n : Nat) : fidoFieldsOk (credentialOf n) longParty zeroSalt = .ok () := by
  have hname : ¬longParty = "" := by
    intro hempty
    have hsize := longParty_size
    rw [hempty] at hsize
    exact absurd hsize (by decide)
  unfold fidoFieldsOk credentialOf zeroSalt
  rw [decodeVec_encodeString, decodeVec_encodeString, longParty_ok, refuseIf_eq_ok.mpr hname]
  rfl

/-- So many enrolments, each with a long relying party. -/
theorem long_run {n : Nat} (hn : n ≤ maxFidoWraps) : ∃ h e, (written tagCrypto).Run h e ∧
    (∃ dek, e.dek tagCrypto (.master (keyOf 1)) = .ok dek) ∧
    e.wraps.fido.map FidoWrap.cred = (List.range n).map credentialOf ∧
    ∀ wrap ∈ e.wraps.fido, wrap.rp = longParty := by
  induction n with
  | zero =>
    obtain ⟨e, hcreate⟩ := sample_create
    obtain ⟨dek, hrepresents⟩ := represents_create hcreate
    have hdek : e.dek tagCrypto (.master (keyOf 1)) = .ok dek :=
      dek_master tagCrypto_correct hrepresents rfl
    obtain ⟨_, ct, wrap, -, -, -, -, -, rfl⟩ := create_ok hcreate
    exact ⟨[], _, .init ⟨_, _, _, _, _, _, _, hcreate⟩, ⟨dek, hdek⟩, rfl,
      fun _ hmem => absurd hmem List.not_mem_nil⟩
  | succ n ih =>
    obtain ⟨h, e, hrun, ⟨dek, hdek⟩, hcreds, hparties⟩ := ih (Nat.le_of_succ_le hn)
    have hlength : e.wraps.fido.length = n := by
      have hlength := congrArg List.length hcreds
      rwa [List.length_map, List.length_map, List.length_range] at hlength
    obtain ⟨nonce, -, hbox⟩ := sealBox_works tagCrypto goodDraw_works
      (deriveKek tagCrypto (keyOf 3) "fido") dek.1
      (fidoAad e.account (credentialOf n) longParty zeroSalt)
    have hwrites := Writes.addFido (longFields_ok n) hdek (.inr (hlength ▸ hn)) hbox
    refine ⟨_, _, .step hrun (writes_apply hwrites), ⟨dek, hdek⟩, ?_, ?_⟩
    · show (Rows.upsert FidoWrap.cred _ _).map FidoWrap.cred = _
      have hnew : credentialOf n ∉ e.wraps.fido.map FidoWrap.cred := by
        rw [hcreds]
        unfold maxFidoWraps at hn
        exact credentialOf_notMem (by omega)
      rw [Rows.map_upsert, if_neg hnew, hcreds, List.range_succ, List.map_append]
      rfl
    · intro wrap hmem
      rcases Rows.mem_upsert hmem with rfl | hmem
      · rfl
      · exact hparties wrap hmem

/-- Long relying parties alone are over the cap. -/
theorem long_size {e : Envelope} (hlength : e.wraps.fido.length = maxFidoWraps)
    (hparties : ∀ wrap ∈ e.wraps.fido, wrap.rp = longParty) :
    maxEnvelopeBytes < e.toJson.utf8ByteSize := by
  have hsome : e.wraps.fido ≠ [] := by
    intro hnil
    rw [hnil] at hlength
    exact absurd hlength (by decide)
  have hitems : ∀ x ∈ (e.wraps.fido.map FidoWrap.json).map utf8Len, 4098 ≤ x := by
    intro x hx
    rw [List.map_map] at hx
    obtain ⟨wrap, hwrap, rfl⟩ := List.mem_map.mp hx
    rw [← longParty_size, ← hparties wrap hwrap]
    exact le_utf8Len_object "rp" (by simp)
  have hsum := List.card_nsmul_le_sum _ _ hitems
  have hcommas := le_utf8Len_commas (e.wraps.fido.map FidoWrap.json)
  have harray := utf8Len_array (e.wraps.fido.map FidoWrap.json)
  have hwraps : utf8Len (array (e.wraps.fido.map FidoWrap.json)) ≤ utf8Len e.wraps.json := by
    refine le_utf8Len_object "fido" ?_
    rw [if_neg hsome]
    simp
  have htotal : utf8Len e.wraps.json ≤ e.toJson.utf8ByteSize := by
    unfold Envelope.toJson
    rw [String.utf8ByteSize_ofList]
    exact le_utf8Len_object "wraps" (by simp)
  rw [List.length_map, List.length_map, hlength] at hsum
  change maxFidoWraps * 4098 ≤ _ at hsum
  unfold maxEnvelopeBytes
  unfold maxFidoWraps at hsum
  omega

/-- A draw from a random source that fails. -/
def failedDraw : Draw := ⟨none, true⟩

end QsBitwarden.Unlock
