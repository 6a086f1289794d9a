import QsBitwarden.Lib.Rows
import QsBitwarden.Unlock.Envelope

/-!
# Unlock — what an operation does to the envelope

An `Edit` may write before it fails, so what a failed operation leaves behind is read off its steps.

* **`apply_lift_ok`**, **`apply_get_bind`**, … — one rule per kind of step.
* **`Op`** — the operations with their arguments.
* **`Writes`** — all that a successful one does (`apply_ok`).
* **`apply_error`** — what a failed one does: nothing, except for a `rotate` that has sealed the new
  password when the wrap fails.
-/

namespace QsBitwarden.Unlock

/-! ## Steps of an edit -/

section Steps

variable {α : Type} (e : Envelope)

theorem apply_lift_ok {x : Result α} {a : α} (h : x = .ok a) (f : α → Edit Unit) :
    Edit.apply (liftM x >>= f) e = (f a).apply e := by
  rw [h]
  rfl

theorem apply_lift (x : Result Unit) : Edit.apply (liftM x) e = (x, e) := by
  cases x <;> rfl

theorem apply_get_bind (f : Envelope → Edit Unit) : Edit.apply (get >>= f) e = (f e).apply e := rfl

theorem apply_set_bind (e' : Envelope) (f : PUnit → Edit Unit) :
    Edit.apply (set e' >>= f) e = (f ⟨⟩).apply e' := rfl

theorem apply_modify_bind (g : Envelope → Envelope) (f : Unit → Edit Unit) :
    Edit.apply (modify g >>= f) e = (f ()).apply (g e) := rfl

theorem apply_modify (g : Envelope → Envelope) : Edit.apply (modify g) e = (.ok (), g e) := rfl

end Steps

theorem refuseIf_eq_ok {condition : Prop} [Decidable condition] {error : Error} :
    refuseIf condition error = .ok () ↔ ¬condition := by
  unfold refuseIf
  split
  · next h => simp [h]
  · next h => simp [h]

theorem of_refuseIf {condition : Prop} [Decidable condition] {error error' : Error}
    (h : refuseIf condition error = .error error') : condition := by
  by_contra hnot
  rw [refuseIf_eq_ok.mpr hnot] at h
  cases h

theorem bind_eq_ok {α β : Type} {x : Result α} {f : α → Result β} {b : β} :
    (x >>= f) = .ok b ↔ ∃ a, x = .ok a ∧ f a = .ok b := by
  cases x with
  | error error =>
    constructor
    · intro h
      cases h
    · rintro ⟨a, ha, -⟩
      cases ha
  | ok a =>
    constructor
    · exact fun h => ⟨a, rfl, h⟩
    · rintro ⟨a', ha, h⟩
      cases ha
      exact h

/-! ## A new envelope -/

/-- What `create` checks and writes. -/
theorem create_ok {crypto : Crypto} {dek? : Option Key} {forCt forWrap : Draw} {account : Account}
    {password : Bytes} {master : Argon2Params} {masterKey : Key} {e : Envelope}
    (h : create crypto dek? forCt forWrap account password master masterKey = .ok e) :
    ∃ dek ct wrap, account.validate = .ok () ∧ master.validate = .ok () ∧
      passwordOk password = .ok () ∧
      sealBox crypto forCt dek password (ctAad account) = .ok ct ∧
      passwordWrap crypto forWrap account "master" master masterKey dek = .ok wrap ∧
      e = ⟨version, account, false, ct, ⟨wrap, none, none, []⟩⟩ := by
  unfold create at h
  obtain ⟨_, haccount, h⟩ := bind_eq_ok.mp h
  obtain ⟨_, hmaster, h⟩ := bind_eq_ok.mp h
  obtain ⟨_, hpassword, h⟩ := bind_eq_ok.mp h
  cases dek? with
  | none => cases h
  | some dek =>
    obtain ⟨ct, hct, h⟩ := bind_eq_ok.mp h
    obtain ⟨wrap, hwrap, h⟩ := bind_eq_ok.mp h
    exact ⟨dek, ct, wrap, haccount, hmaster, hpassword, hct, hwrap, (Except.ok.inj h).symm⟩

/-! ## Operations -/

inductive Op where
  | addPin (draw : Draw) (auth : Via) (params : Argon2Params) (pinKey : Key)
  | addFingerprint (auth : Via)
  | addFido (draw : Draw) (auth : Via) (credential rp salt : String) (hmac : Key)
  | remove (method : Method)
  | markStale
  | rotate (forCt forWrap : Draw) (auth : Via) (newPassword : Bytes) (master : Argon2Params)
      (masterKey : Key)
  deriving DecidableEq

def Op.edit (crypto : Crypto) : Op → Edit Unit
  | .addPin draw auth params pinKey => Unlock.addPin crypto draw auth params pinKey
  | .addFingerprint auth => Unlock.addFingerprint crypto auth
  | .addFido draw auth credential rp salt hmac =>
    Unlock.addFido crypto draw auth credential rp salt hmac
  | .remove method => Unlock.remove method
  | .markStale => Unlock.markStale
  | .rotate forCt forWrap auth newPassword master masterKey =>
    Unlock.rotate crypto forCt forWrap auth newPassword master masterKey

/-- The envelope with its FIDO2 wraps replaced. -/
def Envelope.withFido (e : Envelope) (fido : List FidoWrap) : Envelope :=
  { e with wraps := { e.wraps with fido } }

/-- A wrap is refused only if it replaces none and there are too many. -/
theorem notFull_iff {fido : List FidoWrap} {credential : String} :
    ¬((fido.findIdx? fun wrap => wrap.cred = credential) = none ∧ maxFidoWraps ≤ fido.length) ↔
      credential ∈ fido.map FidoWrap.cred ∨ fido.length < maxFidoWraps := by
  rw [Rows.findIdx?_eq_none, not_and_or, not_not, Nat.not_le]

/-- What a successful operation does. -/
inductive Writes (crypto : Crypto) (e : Envelope) : Op → Envelope → Prop where
  | addPin {draw : Draw} {auth : Via} {params : Argon2Params} {pinKey dek : Key}
      {wrap : PasswordWrap} (hparams : params.validate = .ok ())
      (hcost : ¬(params.m < pinArgon2MinMemoryKib ∨ params.t < pinArgon2MinIterations))
      (hdek : e.dek crypto auth = .ok dek)
      (hwrap : passwordWrap crypto draw e.account "pin" params pinKey dek = .ok wrap) :
      Writes crypto e (.addPin draw auth params pinKey)
        { e with wraps := { e.wraps with pin := some wrap } }
  | addFingerprint {auth : Via} {dek : Key} (hdek : e.dek crypto auth = .ok dek) :
      Writes crypto e (.addFingerprint auth)
        { e with wraps := { e.wraps with fingerprint := some ⟨encodeString dek.1⟩ } }
  | addFido {draw : Draw} {auth : Via} {credential rp salt : String} {hmac dek : Key} {box : Sealed}
      (hfields : fidoFieldsOk credential rp salt = .ok ()) (hdek : e.dek crypto auth = .ok dek)
      (hroom : credential ∈ e.wraps.fido.map FidoWrap.cred ∨ e.wraps.fido.length < maxFidoWraps)
      (hbox : sealBox crypto draw (deriveKek crypto hmac "fido") dek.1
        (fidoAad e.account credential rp salt) = .ok box) :
      Writes crypto e (.addFido draw auth credential rp salt hmac)
        (e.withFido (Rows.upsert FidoWrap.cred e.wraps.fido ⟨credential, rp, salt, box.n, box.c⟩))
  | removePin (hpin : e.wraps.pin ≠ none) :
      Writes crypto e (.remove .pin) { e with wraps := { e.wraps with pin := none } }
  | removeFingerprint (hfingerprint : e.wraps.fingerprint ≠ none) :
      Writes crypto e (.remove .fingerprint) { e with wraps := { e.wraps with fingerprint := none } }
  | removeFido {credential : String} (hknown : credential ∈ e.wraps.fido.map FidoWrap.cred) :
      Writes crypto e (.remove (.fido credential))
        (e.withFido (Rows.drop FidoWrap.cred e.wraps.fido credential))
  | markStale : Writes crypto e .markStale { e with stale := true }
  | rotate {forCt forWrap : Draw} {auth : Via} {newPassword : Bytes} {master : Argon2Params}
      {masterKey dek : Key} {ct : Sealed} {wrap : PasswordWrap}
      (hpassword : passwordOk newPassword = .ok ()) (hmaster : master.validate = .ok ())
      (hdek : e.dek crypto auth = .ok dek)
      (hct : sealBox crypto forCt dek newPassword (ctAad e.account) = .ok ct)
      (hwrap : passwordWrap crypto forWrap e.account "master" master masterKey dek = .ok wrap) :
      Writes crypto e (.rotate forCt forWrap auth newPassword master masterKey)
        { e with stale := false, ct, wraps := { e.wraps with master := wrap } }

/-- Both draws of a `rotate` work, so that it cannot fail between its two writes. -/
def Draw.Works (draw : Draw) : Prop := draw.nonce.isSome = true ∧ draw.encrypts = true

instance (draw : Draw) : Decidable draw.Works := inferInstanceAs (Decidable (_ ∧ _))

/-- A failed operation that has already written: a `rotate` whose second draw fails. -/
def Op.Halves : Op → Prop
  | .rotate _ forWrap _ _ _ _ => ¬forWrap.Works
  | _ => False

theorem sealBox_works (crypto : Crypto) {draw : Draw} (h : draw.Works) (key : Key)
    (plaintext aad : Bytes) : ∃ nonce, draw.nonce = some nonce ∧
      sealBox crypto draw key plaintext aad =
        .ok ⟨encodeString nonce.1, encodeString (crypto.encrypt key nonce aad plaintext)⟩ := by
  obtain ⟨nonce, hnonce⟩ := Option.isSome_iff_exists.mp h.1
  refine ⟨nonce, hnonce, ?_⟩
  unfold sealBox
  rw [hnonce]
  show (if draw.encrypts then _ else _) = _
  rw [if_pos h.2]

theorem passwordWrap_works (crypto : Crypto) {draw : Draw} (h : draw.Works) (account : Account)
    (purpose : String) (kdf : Argon2Params) (input dek : Key) :
    ∃ wrap, passwordWrap crypto draw account purpose kdf input dek = .ok wrap := by
  obtain ⟨nonce, -, hbox⟩ := sealBox_works crypto h (deriveKek crypto input purpose)
    dek.1 (wrapAad account purpose kdf)
  unfold passwordWrap
  dsimp only
  rw [hbox]
  exact ⟨_, rfl⟩

/-- The outcome of an operation: what it writes on success, nothing on failure. -/
def Allows (crypto : Crypto) (e : Envelope) (op : Op) : Result Unit × Envelope → Prop
  | (.ok (), e') => Writes crypto e op e'
  | (.error _, e') => e' = e ∨ op.Halves

section Outcomes

variable (crypto : Crypto) (e : Envelope)

/-- A step that may fail before anything is written. -/
theorem Allows.lift {crypto : Crypto} {e : Envelope} {op : Op} {α : Type} {x : Result α}
    {f : α → Edit Unit} (h : ∀ a, x = .ok a → Allows crypto e op ((f a).apply e)) :
    Allows crypto e op (Edit.apply (liftM x >>= f) e) := by
  cases x with
  | error error => exact .inl rfl
  | ok a => exact h a rfl

theorem addPin_outcome (draw : Draw) (auth : Via) (params : Argon2Params) (pinKey : Key) :
    Allows crypto e (.addPin draw auth params pinKey)
      ((addPin crypto draw auth params pinKey).apply e) := by
  refine .lift fun _ hparams => .lift fun _ hcost => ?_
  rw [apply_get_bind]
  refine .lift fun dek hdek => .lift fun wrap hwrap => ?_
  exact .addPin hparams (refuseIf_eq_ok.mp hcost) hdek hwrap

theorem addFingerprint_outcome (auth : Via) :
    Allows crypto e (.addFingerprint auth) ((addFingerprint crypto auth).apply e) := by
  rw [addFingerprint, apply_get_bind]
  refine .lift fun dek hdek => ?_
  exact .addFingerprint hdek

theorem addFido_outcome (draw : Draw) (auth : Via) (credential rp salt : String) (hmac : Key) :
    Allows crypto e (.addFido draw auth credential rp salt hmac)
      ((addFido crypto draw auth credential rp salt hmac).apply e) := by
  refine .lift fun _ hfields => ?_
  rw [apply_get_bind]
  refine .lift fun dek hdek => .lift fun _ hfull => .lift fun box hbox => ?_
  -- Not refused: the credential is known, or there is room.
  have hroom := notFull_iff.mp (refuseIf_eq_ok.mp hfull)
  have hwrites := Writes.addFido hfields hdek hroom hbox
  rw [Rows.upsert_eq_set] at hwrites
  exact hwrites

theorem remove_outcome (method : Method) :
    Allows crypto e (.remove method) ((remove method).apply e) := by
  cases method with
  | pin =>
    unfold remove
    rw [apply_get_bind, apply_set_bind, apply_lift]
    cases hpin : refuseIf (e.wraps.pin = none) .missing with
    | ok => exact .removePin (refuseIf_eq_ok.mp hpin)
    | error error =>
      -- There was none to take.
      refine .inl ?_
      show { e with wraps := { e.wraps with pin := none } } = e
      rw [← of_refuseIf hpin]
  | fingerprint =>
    unfold remove
    rw [apply_get_bind, apply_set_bind, apply_lift]
    cases hfingerprint : refuseIf (e.wraps.fingerprint = none) .missing with
    | ok => exact .removeFingerprint (refuseIf_eq_ok.mp hfingerprint)
    | error error =>
      refine .inl ?_
      show { e with wraps := { e.wraps with fingerprint := none } } = e
      rw [← of_refuseIf hfingerprint]
  | fido credential =>
    unfold remove
    rw [apply_get_bind]
    split
    · exact .inl rfl
    · next index hindex =>
      have hknown : credential ∈ e.wraps.fido.map FidoWrap.cred :=
        Rows.mem_of_findIdx? hindex
      have hwrites : Writes crypto e (.remove (.fido credential)) _ := .removeFido hknown
      rw [Rows.drop_eq_eraseIdx, hindex] at hwrites
      exact hwrites

theorem rotate_outcome (forCt forWrap : Draw) (auth : Via) (newPassword : Bytes)
    (master : Argon2Params) (masterKey : Key) :
    Allows crypto e (.rotate forCt forWrap auth newPassword master masterKey)
      ((rotate crypto forCt forWrap auth newPassword master masterKey).apply e) := by
  refine .lift fun _ hpassword => .lift fun _ hmaster => ?_
  rw [apply_get_bind]
  refine .lift fun dek hdek => .lift fun ct hct => ?_
  rw [apply_modify_bind]
  cases hwrap : passwordWrap crypto forWrap e.account "master" master masterKey dek with
  | error error =>
    -- The password's ciphertext is already the new one.
    refine .inr fun hworks => ?_
    obtain ⟨wrap, hok⟩ := passwordWrap_works crypto hworks e.account "master" master masterKey dek
    rw [hok] at hwrap
    cases hwrap
  | ok wrap => exact .rotate hpassword hmaster hdek hct hwrap

theorem edit_outcome (op : Op) : Allows crypto e op ((op.edit crypto).apply e) := by
  cases op with
  | addPin draw auth params pinKey => exact addPin_outcome crypto e draw auth params pinKey
  | addFingerprint auth => exact addFingerprint_outcome crypto e auth
  | addFido draw auth credential rp salt hmac =>
    exact addFido_outcome crypto e draw auth credential rp salt hmac
  | remove method => exact remove_outcome crypto e method
  | markStale => exact .markStale
  | rotate forCt forWrap auth newPassword master masterKey =>
    exact rotate_outcome crypto e forCt forWrap auth newPassword master masterKey

end Outcomes

variable {crypto : Crypto} {e e' : Envelope} {op : Op}

theorem apply_ok (h : (op.edit crypto).apply e = (.ok (), e')) : Writes crypto e op e' := by
  have houtcome := edit_outcome crypto e op
  rw [h] at houtcome
  exact houtcome

/-- **All or nothing**, but for a `rotate` that fails between its two writes. -/
theorem apply_error {error : Error} (hwhole : ¬op.Halves)
    (h : (op.edit crypto).apply e = (.error error, e')) : e' = e := by
  have houtcome := edit_outcome crypto e op
  rw [h] at houtcome
  exact houtcome.resolve_right hwhole

/-- What can be written is written. -/
theorem writes_apply (h : Writes crypto e op e') : (op.edit crypto).apply e = (.ok (), e') := by
  cases h with
  | addPin hparams hcost hdek hwrap =>
    show Edit.apply (addPin _ _ _ _ _) e = _
    rw [addPin, apply_lift_ok e hparams, apply_lift_ok e (refuseIf_eq_ok.mpr hcost),
      apply_get_bind, apply_lift_ok e hdek, apply_lift_ok e hwrap, apply_modify]
  | addFingerprint hdek =>
    show Edit.apply (addFingerprint _ _) e = _
    rw [addFingerprint, apply_get_bind, apply_lift_ok e hdek, apply_modify]
  | addFido hfields hdek hroom hbox =>
    show Edit.apply (addFido _ _ _ _ _ _ _) e = _
    rw [addFido, apply_lift_ok e hfields, apply_get_bind, apply_lift_ok e hdek]
    dsimp only
    rw [apply_lift_ok e (refuseIf_eq_ok.mpr (notFull_iff.mpr hroom)), apply_lift_ok e hbox,
      apply_modify, Rows.upsert_eq_set]
    rfl
  | removePin hpin =>
    show Edit.apply (remove .pin) e = _
    unfold remove
    rw [apply_get_bind, apply_set_bind, apply_lift, refuseIf_eq_ok.mpr hpin]
  | removeFingerprint hfingerprint =>
    show Edit.apply (remove .fingerprint) e = _
    unfold remove
    rw [apply_get_bind, apply_set_bind, apply_lift, refuseIf_eq_ok.mpr hfingerprint]
  | @removeFido credential hknown =>
    show Edit.apply (remove (.fido credential)) e = _
    unfold remove
    obtain ⟨index, hindex⟩ := Rows.exists_findIdx? hknown
    rw [apply_get_bind, Rows.drop_eq_eraseIdx, hindex]
    rfl
  | markStale => rfl
  | rotate hpassword hmaster hdek hct hwrap =>
    show Edit.apply (rotate _ _ _ _ _ _ _) e = _
    rw [rotate, apply_lift_ok e hpassword, apply_lift_ok e hmaster, apply_get_bind,
      apply_lift_ok e hdek, apply_lift_ok e hct, apply_modify_bind, apply_lift_ok _ hwrap,
      apply_modify_bind, apply_modify]

/-- A `rotate` whose wrap fails has written the new password. -/
theorem rotate_halfway {forCt forWrap : Draw} {auth : Via} {newPassword : Bytes}
    {master : Argon2Params} {masterKey dek : Key} {ct : Sealed} {error : Error}
    (hpassword : passwordOk newPassword = .ok ()) (hmaster : master.validate = .ok ())
    (hdek : e.dek crypto auth = .ok dek)
    (hct : sealBox crypto forCt dek newPassword (ctAad e.account) = .ok ct)
    (hwrap : passwordWrap crypto forWrap e.account "master" master masterKey dek = .error error) :
    ((Op.rotate forCt forWrap auth newPassword master masterKey).edit crypto).apply e =
      (.error error, { e with ct }) := by
  show Edit.apply (rotate _ _ _ _ _ _ _) e = _
  rw [rotate, apply_lift_ok e hpassword, apply_lift_ok e hmaster, apply_get_bind,
    apply_lift_ok e hdek, apply_lift_ok e hct, apply_modify_bind, hwrap]
  rfl

end QsBitwarden.Unlock
