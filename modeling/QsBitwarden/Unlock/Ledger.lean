import Mathlib.Data.Option.Basic
import QsBitwarden.Lib.Trace
import QsBitwarden.Unlock.Edits

/-!
# Unlock — every enrolled method opens the current password

What an envelope is for, without any cryptography, is a `Ledger`: the password, and the key each
method was last given. Under an ideal cipher an envelope behaves as its ledger through every
history, whatever authorizes each step.

* **`Ideal`** — decryption succeeds exactly for the same key, nonce and associated data, and the
  key derivation is injective in its input for each purpose.
* **`Represents`** — all wraps of an envelope hold one data key, each under the key its ledger names.
* **`represents_step`** — every operation keeps that, refused ones by changing nothing.
* **`envelope_refines`** — so opening the envelope is opening the ledger.
-/

namespace QsBitwarden.Unlock

/-! ## The ledger -/

structure Ledger where
  password : Bytes
  master : Key
  pin : Option Key
  fingerprint : Bool
  fido : String → Option Key

namespace Ledger

variable (l : Ledger)

/-- Only the method's own key is let through. -/
def compare (wanted given : Key) : Result Unit := if given = wanted then .ok () else .error .wrongKey

def admits : Via → Result Unit
  | .master input => compare l.master input
  | .pin input =>
    match l.pin with
    | none => .error .missing
    | some key => compare key input
  | .fingerprint => if l.fingerprint then .ok () else .error .missing
  | .fido credential hmac =>
    match l.fido credential with
    | none => .error .missing
    | some key => compare key hmac

def openVia (via : Via) : Result Bytes := do
  l.admits via
  return l.password

/-- What a successful operation sets. -/
def record : Op → Ledger
  | .addPin _ _ _ pinKey => { l with pin := some pinKey }
  | .addFingerprint _ => { l with fingerprint := true }
  | .addFido _ _ credential _ _ hmac =>
    { l with fido := Function.update l.fido credential (some hmac) }
  | .remove .pin => { l with pin := none }
  | .remove .fingerprint => { l with fingerprint := false }
  | .remove (.fido credential) => { l with fido := Function.update l.fido credential none }
  | .markStale => l
  | .rotate _ _ _ newPassword _ masterKey => { l with password := newPassword, master := masterKey }

end Ledger

variable {key : Key} {plaintext aad : Bytes} {account : Account} {purpose : String}

/-! ## Histories -/

/-- The random source and the cipher work. -/
def Op.Works : Op → Prop
  | .addPin draw _ _ _ => draw.Works
  | .addFido draw _ _ _ _ _ => draw.Works
  | .rotate forCt forWrap _ _ _ _ => forCt.Works ∧ forWrap.Works
  | _ => True

/-- An envelope next to its ledger, from `create` on. A refused operation is not recorded. -/
def system (crypto : Crypto) : Trace.System (Envelope × Ledger) Op where
  init s := ∃ dek forCt forWrap account password master masterKey,
    create crypto dek forCt forWrap account password master masterKey = .ok s.1 ∧
    s.2 = ⟨password, masterKey, none, false, fun _ => none⟩
  step _ s op s' := op.Works ∧ ∃ result, (op.edit crypto).apply s.1 = (result, s'.1) ∧
    s'.2 = match result with
      | .ok () => s.2.record op
      | .error _ => s.2

/-! ## An ideal cipher -/

/-- Decryption undoes encryption. -/
def Correct (crypto : Crypto) : Prop := ∀ key nonce aad plaintext,
  crypto.decrypt key nonce aad (crypto.encrypt key nonce aad plaintext) = some plaintext

structure Ideal (crypto : Crypto) : Prop where
  decrypt_encrypt : Correct crypto
  decrypt_other : ∀ key nonce aad plaintext key' nonce' aad', (key', nonce', aad') ≠ (key, nonce, aad) →
    crypto.decrypt key' nonce' aad' (crypto.encrypt key nonce aad plaintext) = none
  hkdf_injective : ∀ info key key', crypto.hkdf key info = crypto.hkdf key' info → key = key'

/-- A sealed box with this content. -/
def Boxed (crypto : Crypto) (key : Key) (plaintext aad : Bytes) (n c : String) : Prop :=
  ∃ nonce : Nonce, n = encodeString nonce.1 ∧
    c = encodeString (crypto.encrypt key nonce aad plaintext)

variable {crypto : Crypto} {e e' : Envelope} {l : Ledger} {dek : Key}

theorem decodeVec_encodeString (bytes : Bytes) : decodeVec (encodeString bytes) = .ok bytes := by
  unfold decodeVec encodeString
  rw [String.toList_ofList, Base64.decode_encode]

theorem sealBox_boxed {draw : Draw} {box : Sealed}
    (h : sealBox crypto draw key plaintext aad = .ok box) :
    Boxed crypto key plaintext aad box.n box.c := by
  unfold sealBox at h
  split at h
  · cases h
  · next nonce hnonce =>
    split at h
    · cases h
      exact ⟨nonce, rfl, rfl⟩
    · cases h

theorem passwordWrap_boxed {draw : Draw} {kdf : Argon2Params} {input : Key} {wrap : PasswordWrap}
    (h : passwordWrap crypto draw account purpose kdf input dek = .ok wrap) :
    wrap.kdf = kdf ∧ Boxed crypto (deriveKek crypto input purpose) dek.1
      (wrapAad account purpose kdf) wrap.n wrap.c := by
  unfold passwordWrap at h
  dsimp only at h
  cases hbox : sealBox crypto draw (deriveKek crypto input purpose) dek.1
      (wrapAad account purpose kdf) with
  | error error =>
    rw [hbox] at h
    cases h
  | ok box =>
    rw [hbox] at h
    cases h
    exact ⟨rfl, sealBox_boxed hbox⟩

theorem openBox_eq {key' : Key} {nonce : Nonce} :
    openBox crypto key' (encodeString nonce.1)
      (encodeString (crypto.encrypt key nonce aad plaintext)) aad =
      match crypto.decrypt key' nonce aad (crypto.encrypt key nonce aad plaintext) with
      | some plaintext => .ok plaintext
      | none => .error .wrongKey := by
  unfold openBox
  rw [decodeVec_encodeString, decodeVec_encodeString]
  exact dif_pos nonce.2

/-- A box opens with its own key… -/
theorem openBox_own (hcorrect : Correct crypto) {n c : String}
    (h : Boxed crypto key plaintext aad n c) : openBox crypto key n c aad = .ok plaintext := by
  obtain ⟨nonce, rfl, rfl⟩ := h
  rw [openBox_eq, hcorrect]

/-- …and, under an ideal cipher, with no other. -/
theorem openBox_boxed (hideal : Ideal crypto) {key' : Key} {n c : String}
    (h : Boxed crypto key plaintext aad n c) :
    openBox crypto key' n c aad = if key' = key then .ok plaintext else .error .wrongKey := by
  by_cases hkey : key' = key
  · rw [if_pos hkey, hkey, openBox_own hideal.decrypt_encrypt h]
  · obtain ⟨nonce, rfl, rfl⟩ := h
    have hother : (key', nonce, aad) ≠ (key, nonce, aad) := fun heq => hkey (congrArg (·.1) heq)
    rw [if_neg hkey, openBox_eq, hideal.decrypt_other _ _ _ _ _ _ _ hother]

theorem deriveKek_inj (hideal : Ideal crypto) {input input' : Key} :
    deriveKek crypto input purpose = deriveKek crypto input' purpose ↔ input = input' :=
  ⟨fun h => hideal.hkdf_injective _ _ _ h, fun h => h ▸ rfl⟩

/-! ## What an envelope represents -/

/-- A wrap of the data key for a method's key. -/
def Wrapped (crypto : Crypto) (dek : Key) (purpose : String) (aad : Bytes) (n c : String)
    (input : Key) : Prop :=
  Boxed crypto (deriveKek crypto input purpose) dek.1 aad n c

structure Represents (crypto : Crypto) (dek : Key) (e : Envelope) (l : Ledger) : Prop where
  ct : Boxed crypto dek l.password (ctAad e.account) e.ct.n e.ct.c
  master : Wrapped crypto dek "master" (wrapAad e.account "master" e.wraps.master.kdf)
    e.wraps.master.n e.wraps.master.c l.master
  pin : Option.Rel (fun wrap key =>
    Wrapped crypto dek "pin" (wrapAad e.account "pin" wrap.kdf) wrap.n wrap.c key) e.wraps.pin l.pin
  fingerprint : e.wraps.fingerprint =
    if l.fingerprint then some ⟨encodeString dek.1⟩ else none
  fido : ∀ credential, Option.Rel (fun wrap key =>
    Wrapped crypto dek "fido" (fidoAad e.account wrap.cred wrap.rp wrap.salt) wrap.n wrap.c key)
    (Rows.lookup FidoWrap.cred e.wraps.fido credential) (l.fido credential)
  /-- No credential has two wraps. -/
  distinct : (e.wraps.fido.map FidoWrap.cred).Nodup
  few : e.wraps.fido.length ≤ maxFidoWraps

theorem keyFrom_val (key : Key) : keyFrom key.1 = .ok key := by
  unfold keyFrom
  rw [dif_pos key.2]

theorem decodeKey_encodeString (key : Key) : decodeKey (encodeString key.1) = .ok key := by
  unfold decodeKey
  rw [decodeVec_encodeString]
  exact keyFrom_val key

/-- Opening a wrap gives the data key for the method's key, and refuses any other. -/
theorem wrapped_open (hideal : Ideal crypto) {n c : String} {wanted given : Key}
    (h : Wrapped crypto dek purpose aad n c wanted) :
    (do
      let opened ← openBox crypto (deriveKek crypto given purpose) n c aad
      keyFrom opened) = (fun _ => dek) <$> Ledger.compare wanted given := by
  rw [openBox_boxed hideal h]
  unfold Ledger.compare
  by_cases hkey : given = wanted
  · rw [if_pos ((deriveKek_inj hideal).mpr hkey), if_pos hkey]
    exact keyFrom_val dek
  · rw [if_neg (mt (deriveKek_inj hideal).mp hkey), if_neg hkey]
    rfl

theorem rel_cases {α β : Type} {r : α → β → Prop} {x : Option α} {y : Option β}
    (h : Option.Rel r x y) :
    (x = none ∧ y = none) ∨ ∃ a b, x = some a ∧ y = some b ∧ r a b := by
  cases h with
  | none => exact .inl ⟨rfl, rfl⟩
  | some hab => exact .inr ⟨_, _, rfl, rfl, hab⟩

/-- Whatever the ledger admits reaches the one data key. -/
theorem represents_dek (hideal : Ideal crypto) (h : Represents crypto dek e l) (via : Via) :
    e.dek crypto via = (fun _ => dek) <$> l.admits via := by
  cases via with
  | master input => exact wrapped_open hideal h.master
  | pin input =>
    unfold Envelope.dek Ledger.admits
    dsimp only
    rcases rel_cases h.pin with ⟨hwrap, hkey⟩ | ⟨wrap, key, hwrap, hkey, hwrapped⟩
    · rw [hwrap, hkey]
      rfl
    · rw [hwrap, hkey]
      exact wrapped_open hideal hwrapped
  | fingerprint =>
    unfold Envelope.dek Ledger.admits
    dsimp only
    rw [h.fingerprint]
    cases l.fingerprint with
    | false => rfl
    | true => exact decodeKey_encodeString dek
  | fido credential hmac =>
    unfold Envelope.dek Ledger.admits
    dsimp only
    rcases rel_cases (h.fido credential) with ⟨hwrap, hkey⟩ | ⟨wrap, key, hwrap, hkey, hwrapped⟩
    · rw [show e.fidoWrap credential = none from hwrap, hkey]
      rfl
    · rw [show e.fidoWrap credential = some wrap from hwrap, hkey]
      exact wrapped_open hideal hwrapped

/-- **Opening the envelope is opening its ledger.** -/
theorem represents_open (hideal : Ideal crypto) (h : Represents crypto dek e l) (via : Via) :
    e.openVia crypto via = l.openVia via := by
  unfold Envelope.openVia Ledger.openVia
  rw [represents_dek hideal h]
  cases l.admits via with
  | error error => rfl
  | ok =>
    show openBox crypto dek e.ct.n e.ct.c (ctAad e.account) = .ok l.password
    rw [openBox_boxed hideal h.ct, if_pos rfl]

/-- An operation is authorized with the envelope's own data key. -/
theorem represents_auth (hideal : Ideal crypto) (h : Represents crypto dek e l) {auth : Via}
    {dek' : Key} (hdek : e.dek crypto auth = .ok dek') : dek' = dek := by
  rw [represents_dek hideal h] at hdek
  cases hadmits : l.admits auth with
  | error error =>
    rw [hadmits] at hdek
    cases hdek
  | ok =>
    rw [hadmits] at hdek
    cases hdek
    rfl

/-! ## Operations keep it -/

theorem represents_create {dek? : Option Key} {forCt forWrap : Draw} {password : Bytes}
    {master : Argon2Params} {masterKey : Key}
    (h : create crypto dek? forCt forWrap account password master masterKey = .ok e) :
    ∃ dek, Represents crypto dek e ⟨password, masterKey, none, false, fun _ => none⟩ := by
  obtain ⟨dek, ct, wrap, -, -, -, hct, hwrap, rfl⟩ := create_ok h
  obtain ⟨hkdf, hboxed⟩ := passwordWrap_boxed hwrap
  refine ⟨dek, ?_⟩
  constructor
  · exact sealBox_boxed hct
  · show Wrapped crypto dek "master" (wrapAad account "master" wrap.kdf) wrap.n wrap.c masterKey
    rw [hkdf]
    exact hboxed
  · exact .none
  · rfl
  · exact fun _ => .none
  · exact List.nodup_nil
  · exact Nat.zero_le _

theorem represents_writes (hideal : Ideal crypto) (h : Represents crypto dek e l) {op : Op}
    (hwrites : Writes crypto e op e') : Represents crypto dek e' (l.record op) := by
  cases hwrites with
  | addPin hparams hcost hdek hwrap =>
    obtain rfl := represents_auth hideal h hdek
    obtain ⟨hkdf, hboxed⟩ := passwordWrap_boxed hwrap
    refine { h with pin := .some ?_ }
    rw [hkdf]
    exact hboxed
  | addFingerprint hdek =>
    obtain rfl := represents_auth hideal h hdek
    exact { h with fingerprint := rfl }
  | @addFido draw auth credential rp salt hmac dek' box hfields hdek hroom hbox =>
    obtain rfl := represents_auth hideal h hdek
    have hboxed := sealBox_boxed hbox
    refine { h with fido := ?_, distinct := ?_, few := ?_ }
    · intro other
      show Option.Rel _ (Rows.lookup FidoWrap.cred (Rows.upsert FidoWrap.cred _ _) other)
        (Function.update l.fido credential (some hmac) other)
      rw [Rows.lookup_upsert]
      by_cases hother : other = credential
      · subst hother
        rw [if_pos rfl, Function.update_self]
        exact .some hboxed
      · rw [if_neg hother, Function.update_of_ne hother]
        exact h.fido other
    · exact Rows.nodup_upsert h.distinct _
    · show (Rows.upsert FidoWrap.cred _ _).length ≤ _
      rw [Rows.length_upsert]
      split
      · exact h.few
      · next hnew => exact hroom.resolve_left hnew
  | removePin hpin => exact { h with pin := .none }
  | removeFingerprint hfingerprint => exact { h with fingerprint := rfl }
  | @removeFido credential hknown =>
    refine { h with fido := ?_, distinct := ?_, few := ?_ }
    · intro other
      show Option.Rel _ (Rows.lookup FidoWrap.cred (Rows.drop FidoWrap.cred _ _) other)
        (Function.update l.fido credential none other)
      rw [Rows.lookup_drop h.distinct]
      by_cases hother : other = credential
      · rw [if_pos hother, hother, Function.update_self]
        exact .none
      · rw [if_neg hother, Function.update_of_ne hother]
        exact h.fido other
    · exact h.distinct.sublist ((Rows.drop_sublist _ _).map _)
    · exact Nat.le_trans (Rows.drop_sublist _ _).length_le h.few
  | markStale => exact { h with }
  | rotate hpassword hmaster hdek hct hwrap =>
    obtain rfl := represents_auth hideal h hdek
    obtain ⟨hkdf, hboxed⟩ := passwordWrap_boxed hwrap
    refine { h with ct := sealBox_boxed hct, master := ?_ }
    show Wrapped crypto _ "master" (wrapAad e.account "master" _) _ _ _
    rw [hkdf]
    exact hboxed

theorem works_whole {op : Op} (h : op.Works) : ¬op.Halves := by
  cases op with
  | rotate forCt forWrap auth newPassword master masterKey => exact fun hhalves => hhalves h.2
  | _ => exact id

theorem run_represents (hideal : Ideal crypto) {h : List Op} {s : Envelope × Ledger}
    (hrun : (system crypto).Run h s) : ∃ dek, Represents crypto dek s.1 s.2 := by
  refine hrun.invariant (I := fun _ s => ∃ dek, Represents crypto dek s.1 s.2) ?_ ?_
  · rintro ⟨e, l⟩ ⟨dek, forCt, forWrap, account, password, master, masterKey, hcreate, rfl⟩
    exact represents_create hcreate
  · rintro - ⟨e, l⟩ op ⟨e', l'⟩ - ⟨dek, hrepresents⟩ ⟨hworks, result, happly, rfl⟩
    cases result with
    | ok => exact ⟨dek, represents_writes hideal hrepresents (apply_ok happly)⟩
    | error error =>
      -- A refused operation leaves the envelope, and so what it represents.
      have hsame : e' = e := apply_error (works_whole hworks) happly
      show ∃ dek, Represents crypto dek e' l
      rw [hsame]
      exact ⟨dek, hrepresents⟩

/-- **Every enrolled method always opens the current password.** After any history of operations,
opening the envelope answers as the ledger: the password most recently set, for the key each method
was most recently given; a wrong key for any other; and missing for a method not enrolled or
removed since. -/
theorem envelope_refines (hideal : Ideal crypto) {h : List Op} {e : Envelope} {l : Ledger}
    (hrun : (system crypto).Run h (e, l)) :
    (∀ via, e.openVia crypto via = l.openVia via) ∧
      (e.wraps.fido.map FidoWrap.cred).Nodup ∧ e.wraps.fido.length ≤ maxFidoWraps := by
  obtain ⟨dek, hrepresents⟩ := run_represents hideal hrun
  exact ⟨represents_open hideal hrepresents, hrepresents.distinct, hrepresents.few⟩

/-! ## An ideal cipher exists -/

/-- Its own length, counted in ones, before a text. -/
def counted (text : Bytes) : Bytes := List.replicate text.length 1 ++ 0 :: text

theorem replicate_inj {m n : Nat} {x y : Bytes}
    (h : List.replicate m (1 : UInt8) ++ 0 :: x = List.replicate n 1 ++ 0 :: y) : m = n ∧ x = y := by
  induction m generalizing n with
  | zero =>
    cases n with
    | zero => exact ⟨rfl, (List.cons.inj h).2⟩
    | succ n => exact absurd (List.cons.inj h).1 (by decide)
  | succ m ih =>
    cases n with
    | zero => exact absurd (List.cons.inj h).1 (by decide)
    | succ n =>
      obtain ⟨hmn, hxy⟩ := ih (List.cons.inj h).2
      exact ⟨congrArg _ hmn, hxy⟩

theorem counted_inj {text text' rest rest' : Bytes}
    (h : counted text ++ rest = counted text' ++ rest') : text = text' := by
  unfold counted at h
  rw [List.append_assoc, List.append_assoc] at h
  obtain ⟨hlength, happend⟩ := replicate_inj h
  exact (List.append_inj happend hlength).1

/-- What stands before the plaintext: key, nonce and associated data in the clear. -/
def header (key : Key) (nonce : Nonce) (aad : Bytes) : Bytes := key.1 ++ nonce.1 ++ counted aad

/-- A cipher that hides nothing, but opens only as it was sealed. -/
def plainCrypto : Crypto where
  hkdf key _ := key
  encrypt key nonce aad plaintext := header key nonce aad ++ plaintext
  decrypt key nonce aad c :=
    if header key nonce aad <+: c then some (c.drop (header key nonce aad).length) else none

theorem plainCrypto_ideal : Ideal plainCrypto where
  decrypt_encrypt key nonce aad plaintext := by
    show (if header key nonce aad <+: header key nonce aad ++ plaintext then _ else _) = _
    rw [if_pos (List.prefix_append _ _)]
    exact congrArg some List.drop_left
  decrypt_other key nonce aad plaintext key' nonce' aad' hother := by
    refine if_neg ?_
    rintro ⟨rest, hrest⟩
    change header key' nonce' aad' ++ rest = header key nonce aad ++ plaintext at hrest
    unfold header at hrest
    simp only [List.append_assoc] at hrest
    obtain ⟨hkey, hrest⟩ := List.append_inj hrest (key'.2.trans key.2.symm)
    obtain ⟨hnonce, hrest⟩ := List.append_inj hrest (nonce'.2.trans nonce.2.symm)
    exact hother (by rw [Subtype.ext hkey, Subtype.ext hnonce, counted_inj hrest])
  hkdf_injective _ _ _ h := h

/-- The master key reaches the data key, whatever the cipher does with other keys. -/
theorem dek_master (hcorrect : Correct crypto) (h : Represents crypto dek e l) {masterKey : Key}
    (hkey : l.master = masterKey) : e.dek crypto (.master masterKey) = .ok dek := by
  subst hkey
  show (openBox crypto _ _ _ _ >>= keyFrom) = .ok dek
  rw [openBox_own hcorrect h.master]
  exact keyFrom_val dek

theorem create_works {draw : Draw} (hdraw : draw.Works) (dek masterKey : Key) {password : Bytes}
    {master : Argon2Params} (haccount : account.validate = .ok ())
    (hmaster : master.validate = .ok ()) (hpassword : passwordOk password = .ok ()) :
    ∃ e, create crypto (some dek) draw draw account password master masterKey = .ok e := by
  obtain ⟨nonce, -, hct⟩ := sealBox_works crypto hdraw dek password (ctAad account)
  obtain ⟨wrap, hwrap⟩ := passwordWrap_works crypto hdraw account "master" master masterKey dek
  unfold create
  rw [haccount, hmaster, hpassword]
  show ∃ e, (sealBox crypto draw dek password (ctAad account) >>= _) = .ok e
  rw [hct]
  show ∃ e, (passwordWrap crypto draw account "master" master masterKey dek >>= _) = .ok e
  rw [hwrap]
  exact ⟨_, rfl⟩

def keyOf (byte : UInt8) : Key := ⟨List.replicate 32 byte, rfl⟩

def goodDraw : Draw := ⟨some ⟨List.replicate 24 0, rfl⟩, true⟩

theorem goodDraw_works : goodDraw.Works := ⟨rfl, rfl⟩

def sampleAccount : Account := ⟨"account", ""⟩

def sampleParams : Argon2Params := ⟨"argon2id", "AAAAAAAAAAAAAAAAAAAAAA==", 262144, 4, 1⟩

/-- A PIN enrolled with the master key opens the password. -/
theorem envelope_refines_sample : ∃ h e l, (system plainCrypto).Run h (e, l) ∧
    l.pin = some (keyOf 2) ∧ e.openVia plainCrypto (.pin (keyOf 2)) = .ok [97] ∧
    e.openVia plainCrypto (.pin (keyOf 3)) = .error .wrongKey := by
  obtain ⟨e, hcreate⟩ : ∃ e, create plainCrypto (some (keyOf 7)) goodDraw goodDraw sampleAccount
      [97] sampleParams (keyOf 1) = .ok e :=
    create_works goodDraw_works _ _ (by decide) (by decide) (by decide)
  have hstart : (system plainCrypto).Run [] (e, ⟨[97], keyOf 1, none, false, fun _ => none⟩) :=
    .init ⟨_, _, _, _, _, _, _, hcreate, rfl⟩
  -- The master key is admitted, so the PIN can be written.
  obtain ⟨dek, hrepresents⟩ := represents_create hcreate
  have hdek : e.dek plainCrypto (.master (keyOf 1)) = .ok dek :=
    dek_master plainCrypto_ideal.decrypt_encrypt hrepresents rfl
  obtain ⟨wrap, hwrap⟩ := passwordWrap_works plainCrypto goodDraw_works e.account "pin"
    sampleParams (keyOf 2) dek
  have happly := writes_apply (.addPin (by decide) (by decide) hdek hwrap)
  have hrun : (system plainCrypto).Run [.addPin goodDraw (.master (keyOf 1)) sampleParams (keyOf 2)]
      (_, ⟨[97], keyOf 1, some (keyOf 2), false, fun _ => none⟩) :=
    .step hstart ⟨goodDraw_works, .ok (), happly, rfl⟩
  have hopen := (envelope_refines plainCrypto_ideal hrun).1
  exact ⟨_, _, _, hrun, rfl, hopen _, hopen _⟩

end QsBitwarden.Unlock
